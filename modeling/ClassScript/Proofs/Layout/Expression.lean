import ClassScript.Proofs.Emission

/-!
The code of expressions, without the way it is written.

`Means T site locals use e is m` tells that `is` is code for the expression `e` in a module with the
tables `T`, and that `e` means `m` behind it. The code of every form is spelled from the code of its
parts, with the conversions in their places and the distances of the jumps filled in. Code can stand
anywhere, so the offsets at which values start are left open.
-/

namespace ClassScript.Layout

open Code (Instruction)
open Compile

/-! ## Conversions -/

def converted : Option Opcode → Asm
  | none => []
  | some op => [.plain op]

/-- What an operand is behind an instruction that is applied to it. -/
inductive Converts (target : ValueType) (p : Pushed) : Option Opcode → Pushed → Prop
  | none : Converts target p none p
  | unknown {op : Opcode} {o : Nat} (h : p.constant = none) :
      Converts target p (some op) ⟨target, none, o⟩
  | known {op : Opcode} {v w : Value} {o : Nat} (h : p.constant = some v)
      (hw : op.evalUnary true v = .ok w) : Converts target p (some op) ⟨target, some w, o⟩

/-- The code of a value in another type: `is` pushes `p`. A constant is pushed anew. -/
inductive Coerces (T : Tables) (p : Pushed) (is : Asm) (target : ValueType) : Asm → Pushed → Prop
  | identity (h : Conversion.implicit? p.type target = some .identity) : Coerces T p is target is p
  | widen {op : Opcode} {o : Nat} (h : Conversion.implicit? p.type target = some (.widen op))
      (hp : p.constant = none) :
      Coerces T p is target (is ++ [.plain op]) (.unknown target o)
  | known {op : Opcode} {v w : Value} {js : Asm} {o : Nat}
      (h : Conversion.implicit? p.type target = some (.widen op)) (hp : p.constant = some v)
      (hw : v.convert? target = some w) (hjs : Pushes T w js) :
      Coerces T p is target js (.known w o)

/-! ## Names and places -/

/-- The code that pushes what a name means, if it is a value. -/
inductive Materializes (T : Tables) : Meaning → Asm → Pushed → Prop
  | localVar {slot : Nat} {type : ValueType} {o : Nat} :
      Materializes T (.localVar slot type) [.unary .getLocal slot] (.unknown type o)
  | field {cls : Nat} {f : FieldSymbol} {o : Nat} :
      Materializes T (.field cls f) [.unary (loadOp f) f.slot] (.unknown f.type o)
  | constant {v : Value} {is : Asm} {o : Nat} (h : Pushes T v is) :
      Materializes T (.constant v) is (.known v o)
  | value {p : Pushed} : Materializes T (.value p) [] p

def isName : Meaning → Bool
  | .space _ | .type _ | .this => true
  | _ => false

def loading : Place → Instruction
  | .localVar slot _ => .unary .getLocal slot
  | .field f => .unary (loadOp f) f.slot

def storing : Place → Instruction
  | .localVar slot _ => .unary .setLocal slot
  | .field f => .unary (storeOp f) f.slot

/-- A copy of the value on top, if it is wanted. -/
def kept (wanted : Bool) : Asm := if wanted then [.plain .dup] else []

/-- The code that counts a place up or down, with that of the step in the middle. -/
def counting (place : Place) (up front : Bool) (use : Use) (step : Asm) : Asm :=
  loading place :: kept (!front && use != .discarded) ++ step ++
    .plain (stepOp place.type up) :: kept (front && use != .discarded) ++ [storing place]

/-! ## Calls -/

def passing : List (Asm × Pushed) → List ValueType → Asm
  | [], _ => []
  | (is, _) :: items, [] => is ++ passing items []
  | (is, p) :: items, t :: ts =>
    is ++ converted (Conversion.widening? p.type t) ++ passing items ts

structure Chooses {α : Type} (candidates : List α) (params : α → List ValueType)
    (items : List (Asm × Pushed)) (a : α) : Prop where
  resolves : ∃ i, Overload.resolve (candidates.map params) (items.map (·.2.type)) = .ok i ∧
    candidates[i]? = some a

structure Imports (T : Tables) (libraries : List Library) (f : NativeFunction)
    (receiver : Option ValueType) (i : Nat) : Prop where
  callable : Callable libraries f receiver
  place : ∃ imp, T.imports[i]? = some imp ∧ imp.identity = f.identity

/-- The code of a call: `is` is that of the callee, and `items` are the arguments. -/
inductive Calls (T : Tables) (site : Site) (is : Asm) (name : String) (items : List (Asm × Pushed)) :
    Callee → Asm → Pushed → Prop
  | script {cls i o : Nat} {onThis : Bool} {m : MethodSymbol}
      (hm : Chooses ((classAt site cls).methodsNamed name) (·.1.params) items (m, i))
      (access : cls = site.cls ∨ m.visibility.isOwnClassOnly = false)
      (receiver : m.isStatic = true ∨ onThis = true ∧ site.isStatic = false) :
      Calls T site is name items (.script cls onThis)
        (is ++ passing items m.params ++ [⟨.call, cls, i⟩]) (.unknown m.returns o)
  | function {c : NativeClass} {f : NativeFunction} {i o : Nat}
      (hf : Chooses (c.functionsNamed name) (·.params) items f)
      (hi : Imports T site.symbols.libraries f none i) :
      Calls T site is name items (.function c)
        (is ++ passing items f.params ++ [.unary .callNative i]) (.unknown f.returns o)
  | method {c : NativeClass} {p : Pushed} {f : NativeFunction} {i o : Nat}
      (hf : Chooses (c.methodsNamed name) (·.params) items f)
      (hi : Imports T site.symbols.libraries f (some p.type) i) :
      Calls T site is name items (.method c p)
        (is ++ passing items f.params ++ [.unary .callNative i]) (.unknown f.returns o)
  | string {p : Pushed} (hi : items = []) (hp : p.type = .string) :
      Calls T site is name items (.toText p) is p
  | text {p : Pushed} {o : Nat} (hi : items = []) (hp : p.type ≠ .string)
      (hc : p.constant = none) :
      Calls T site is name items (.toText p) (is ++ [.plain .toStr]) (.unknown .string o)
  | textKnown {p : Pushed} {v w : Value} {js : Asm} {o : Nat} (hi : items = [])
      (hp : p.type ≠ .string) (hc : p.constant = some v)
      (hw : Opcode.toStr.evalUnary true v = .ok w) (hjs : Pushes T w js) :
      Calls T site is name items (.toText p) js (.known w o)

/-! ## Expressions -/

section

variable (T : Tables) (site : Site) (locals : LocalScope)

mutual

/-- The code of an expression, and what it means behind this code. -/
inductive Means : Use → Expr → Asm → Meaning → Prop
  | literal {use : Use} {lit : Literal} {sp : Span} {is : Asm} {o : Nat} (h : Pushes T lit.value is) :
      Means use (.literal lit sp) is (.value (.known lit.value o))
  | ident {use : Use} {name : Ident} {m : Meaning} (h : nameMeaning site locals name = pure m) :
      Means use (.ident name) [] m
  | this {use : Use} {sp : Span} {m : Meaning} (h : thisMeaning site sp = pure m) :
      Means use (.this sp) [] m
  | member {use : Use} {object : Expr} {name : Ident} {sp : Span} {is : Asm} {m m' : Meaning}
      (h : Means .value object is m) (hm : isName m = true)
      (hm' : memberMeaning site m object.span name = pure m') :
      Means use (.member object name sp) is m'
  | length {use : Use} {object : Expr} {name : Ident} {sp : Span} {is : Asm} {p : Pushed} {o : Nat}
      (h : Values object is p) (hp : p.type = .string) (hname : name.name = "Length")
      (hc : p.constant = none) :
      Means use (.member object name sp) (is ++ [.plain .strLen]) (.value (.unknown .int o))
  | lengthKnown {use : Use} {object : Expr} {name : Ident} {sp : Span} {is js : Asm} {p : Pushed}
      {v w : Value} {o : Nat} (h : Values object is p) (hp : p.type = .string)
      (hname : name.name = "Length") (hc : p.constant = some v)
      (hw : Opcode.strLen.evalUnary true v = .ok w) (hjs : Pushes T w js) :
      Means use (.member object name sp) js (.value (.known w o))
  | text {use : Use} {object : Expr} {name : Ident} {sp : Span} {is : Asm} {p : Pushed}
      (h : Values object is p) (hp : p.type ≠ .void) (hname : name.name = "ToString") :
      Means use (.member object name sp) is (.methods (.toText p) name.name)
  | methods {use : Use} {object : Expr} {name : Ident} {sp : Span} {is : Asm} {p : Pushed}
      {c : NativeClass} (h : Values object is p)
      (hlength : ¬(p.type = .string ∧ name.name = "Length"))
      (htext : ¬(name.name = "ToString" ∧ p.type ≠ .void))
      (hc : site.symbols.keywordClass? p.type = some c) :
      Means use (.member object name sp) is (.methods (.method c p) name.name)
  | bare {inner : Expr} {sp : Span} {is : Asm} {m : Meaning} (h : Means .bare inner is m) :
      Means .bare (.paren inner sp) is m
  | paren {use : Use} {inner : Expr} {sp : Span} {is : Asm} {p : Pushed} (huse : use ≠ .bare)
      (h : Values inner is p) : Means use (.paren inner sp) is (.value p)
  | logical {use : Use} {op : BinaryOp} {left right : Expr} {sp : Span} {is js : Asm}
      {l r : Pushed} {o : Nat} (hop : op.isLogical = true) (hl : Values left is l)
      (hr : Values right js r) (hlt : l.type = .bool) (hrt : r.type = .bool)
      (hc : ∀ a b, l.constant = some (.bool a) → r.constant ≠ some (.bool b)) :
      Means use (.binary op left right sp)
        (is ++ .plain .dup ::
          .unary (if op = .logicalAnd then .jumpIfFalse else .jumpIfTrue) (1 + js.size) ::
          .plain .pop :: js)
        (.value (.unknown .bool o))
  | logicalKnown {use : Use} {op : BinaryOp} {left right : Expr} {sp : Span} {is js ks : Asm}
      {l r : Pushed} {a b : Bool} {o : Nat} (hop : op.isLogical = true) (hl : Values left is l)
      (hr : Values right js r) (hlt : l.type = .bool) (hrt : r.type = .bool) (ha : l.constant = some (.bool a)) (hb : r.constant = some (.bool b))
      (hks : Pushes T (.bool (logicalValue op a b)) ks) :
      Means use (.binary op left right sp) ks (.value (.known (.bool (logicalValue op a b)) o))
  | binary {use : Use} {op : BinaryOp} {left right : Expr} {sp : Span} {is js : Asm}
      {l r l' r' : Pushed} {plan : BinaryPlan} {o : Nat} (hop : op.isLogical = false)
      (hl : Values left is l) (hr : Values right js r)
      (hplan : op.plan? l.type r.type = some plan) (hl' : Converts plan.operand l plan.left l')
      (hr' : Converts plan.operand r plan.right r')
      (hc : l'.constant = none ∨ r'.constant = none) :
      Means use (.binary op left right sp)
        (is ++ converted plan.left ++ (js ++ converted plan.right) ++ [.plain plan.op])
        (.value (.unknown plan.result o))
  | binaryKnown {use : Use} {op : BinaryOp} {left right : Expr} {sp : Span} {is js ks : Asm}
      {l r l' r' : Pushed} {plan : BinaryPlan} {a b v : Value} {o : Nat} (hop : op.isLogical = false)
      (hl : Values left is l) (hr : Values right js r)
      (hplan : op.plan? l.type r.type = some plan) (hl' : Converts plan.operand l plan.left l')
      (hr' : Converts plan.operand r plan.right r') (ha : l'.constant = some a)
      (hb : r'.constant = some b) (hv : plan.op.evalBinary true a b = .ok v) (hks : Pushes T v ks) :
      Means use (.binary op left right sp) ks (.value (.known v o))
  | same {use : Use} {op : UnaryOp} {operand : Expr} {sp : Span} {is : Asm} {p : Pushed}
      (h : Values operand is p) (hop : unaryOp? op p.type = some none) :
      Means use (.unary op operand sp) is (.value p)
  | unary {use : Use} {op : UnaryOp} {operand : Expr} {sp : Span} {is : Asm} {p : Pushed}
      {code : Opcode} {o : Nat} (h : Values operand is p)
      (hop : unaryOp? op p.type = some (some code)) (hc : p.constant = none) :
      Means use (.unary op operand sp) (is ++ [.plain code]) (.value (.unknown p.type o))
  | unaryKnown {use : Use} {op : UnaryOp} {operand : Expr} {sp : Span} {is js : Asm} {p : Pushed}
      {code : Opcode} {v w : Value} {o : Nat} (h : Values operand is p)
      (hop : unaryOp? op p.type = some (some code)) (hc : p.constant = some v)
      (hw : code.evalUnary true v = .ok w) (hjs : Pushes T w js) :
      Means use (.unary op operand sp) js (.value (.known w o))
  | before {use : Use} {op : UnaryOp} {operand : Expr} {sp sp' : Span} {is js : Asm} {m : Meaning}
      {place : Place} {o : Nat} (hop : op = .increment ∨ op = .decrement)
      (h : Means .bare operand is m) (hplace : placeOf site m sp' = pure place)
      (hn : place.type.isNumeric = true) (hjs : Pushes T (one place.type) js) :
      Means use (.unary op operand sp) (is ++ counting place (op == .increment) true use js)
        (.value (.unknown (storedType use place.type) o))
  | behind {use : Use} {op : PostfixOp} {operand : Expr} {sp sp' : Span} {is js : Asm} {m : Meaning}
      {place : Place} {o : Nat} (h : Means .bare operand is m)
      (hplace : placeOf site m sp' = pure place) (hn : place.type.isNumeric = true)
      (hjs : Pushes T (one place.type) js) :
      Means use (.post op operand sp) (is ++ counting place (op == .increment) false use js)
        (.value (.unknown (storedType use place.type) o))
  | assign {use : Use} {op : AssignOp} {target value : Expr} {sp sp' : Span} {is js ks : Asm}
      {m : Meaning} {place : Place} {p p' : Pushed} {o : Nat} (hop : op.binary? = none)
      (h : Means .bare target is m) (hplace : placeOf site m sp' = pure place)
      (hv : Values value js p) (hc : Coerces T p js place.type ks p') :
      Means use (.assign op target value sp)
        (is ++ ks ++ kept (use != .discarded) ++ [storing place])
        (.value (.unknown (storedType use place.type) o))
  | compound {use : Use} {op : AssignOp} {target value : Expr} {sp sp' : Span} {is js : Asm}
      {m : Meaning} {place : Place} {p p' : Pushed} {binary : BinaryOp} {plan : BinaryPlan} {o : Nat}
      (hop : op.binary? = some binary) (h : Means .bare target is m)
      (hplace : placeOf site m sp' = pure place) (hv : Values value js p)
      (hplan : binary.plan? place.type p.type = some plan) (hres : plan.result = place.type)
      (hp' : Converts plan.operand p plan.right p') :
      Means use (.assign op target value sp)
        (is ++ loading place :: converted plan.left ++ (js ++ converted plan.right) ++
          .plain plan.op :: kept (use != .discarded) ++ [storing place])
        (.value (.unknown (storedType use place.type) o))
  | conditional {use : Use} {condition yes no : Expr} {sp : Span} {is is' js ks : Asm}
      {c c' a b : Pushed} {type : ValueType} {o : Nat} (h : Values condition is c)
      (hc : Coerces T c is .bool is' c') (hyes : Values yes js a) (hno : Values no ks b)
      (htype : branchType? a.type b.type = some type)
      (hk : c'.constant = none ∨ a.constant = none ∨ b.constant = none) :
      Means use (.conditional condition yes no sp)
        (is' ++ .unary .jumpIfFalse ((js ++ converted (Conversion.widening? a.type type)).size + 3) ::
          (js ++ converted (Conversion.widening? a.type type)) ++
          .unary .jump (ks ++ converted (Conversion.widening? b.type type)).size ::
          (ks ++ converted (Conversion.widening? b.type type)))
        (.value (.unknown type o))
  | conditionalKnown {use : Use} {condition yes no : Expr} {sp : Span} {is is' js ks ls : Asm}
      {c c' a b : Pushed} {type : ValueType} {u v w x : Value} {o : Nat} (h : Values condition is c)
      (hc : Coerces T c is .bool is' c') (hyes : Values yes js a) (hno : Values no ks b)
      (htype : branchType? a.type b.type = some type) (hu : c'.constant = some u)
      (hv : a.constant = some v) (hw : b.constant = some w)
      (hx : (if u = .bool true then v else w).convert? type = some x) (hls : Pushes T x ls) :
      Means use (.conditional condition yes no sp) ls (.value (.known x o))
  | call {use : Use} {callee : Expr} {args : List Expr} {sp : Span} {is js : Asm} {target : Callee}
      {name : String} {items : List (Asm × Pushed)} {p : Pushed}
      (h : Means .bare callee is (.methods target name)) (hargs : Passes args items)
      (hcall : Calls T site is name items target js p) :
      Means use (.call callee args sp) js (.value p)

inductive Values : Expr → Asm → Pushed → Prop
  | intro {e : Expr} {is js : Asm} {m : Meaning} {p : Pushed} (h : Means .value e is m)
      (hp : Materializes T m js p) : Values e (is ++ js) p

/-- The code of the arguments of a call, each for itself. -/
inductive Passes : List Expr → List (Asm × Pushed) → Prop
  | nil : Passes [] []
  | cons {e : Expr} {es : List Expr} {is : Asm} {p : Pushed} {items : List (Asm × Pushed)}
      (h : Values e is p) (hs : Passes es items) : Passes (e :: es) ((is, p) :: items)

end

end

end ClassScript.Layout
