import ClassScript.Compile.Meaning
import ClassScript.Proofs.Source.Action
import ClassScript.Proofs.Source.Operation

/-!
What expressions compute, read off the syntax tree.

`denote` gives every expression what it stands for: a place, a value that an action computes, something
that values are found in, or the receiver of a call. What a name means, what an operator does, how a
value becomes one of another type, and which overload a call means is all said here or in the
operations on values; the compiler has no part in it. Only expressions that mean something at all are
looked at, so nothing is said about what may be named from where.
-/

namespace ClassScript.Source

open Compile (classAt)

/-- What expressions rely on while they are evaluated. -/
structure Surroundings where
  /-- Integer arithmetic fails where it would wrap. -/
  checked : Bool
  /-- A call of a method of the script, by class and place. Without a result the answer is `void`. -/
  script : Nat → Nat → List Value → Action Heap Value
  /-- The library function that an import is bound to. -/
  native : NativeImport → Native Unit

/-! ## Places -/

def read : Place → Action Store Value
  | .localVar slot _ => do
    let s ← get
    .found (.noLocal slot) s.locals[slot]?
  | .field f => do
    let s ← get
    if f.isStatic then .found (.noStatic f.slot) s.heap.statics[f.slot]?
    else .found (.noField f.slot) (s.heap.fields.bind fun fs => fs[f.slot]?)

def setLocal (slot : Nat) (v : Value) : Action Store Unit := do
  let s ← get
  if slot < s.locals.size then set { s with locals := s.locals.setIfInBounds slot v }
  else .blame (.noLocal slot)

def setField (slot : Nat) (v : Value) : Action Store Unit := do
  let s ← get
  if slot < (s.heap.fields.getD #[]).size then
    set { s with heap.fields := s.heap.fields.map fun fs : Array Value => fs.setIfInBounds slot v }
  else .blame (.noField slot)

def setStatic (slot : Nat) (v : Value) : Action Store Unit := do
  let s ← get
  if slot < s.heap.statics.size then
    set { s with heap.statics := s.heap.statics.setIfInBounds slot v }
  else .blame (.noStatic slot)

def write (place : Place) (v : Value) : Action Store Unit :=
  match place with
  | .localVar slot _ => setLocal slot v
  | .field f => if f.isStatic then setStatic f.slot v else setField f.slot v

section

variable (K : Surroundings)

/-! ## Operators -/

/-- A value of one type as one of another. -/
def become (source target : ValueType) (v : Value) : Action Store Value :=
  .compute (convert source target v)

/-- Both operands from left to right, each converted as soon as it is there, and the operator. -/
def combine (o : Operation) (left right : Action Store Value) : Action Store Value := do
  let l ← left >>= fun v => .compute (o.left v)
  let r ← right >>= fun v => .compute (o.right v)
  .compute (o.apply l r)

/-- `&&` or `||`: the right operand is evaluated unless the left one decides. -/
def logical (op : BinaryOp) (left right : Action Store Value) : Action Store Value := do
  let l ← left
  let b ← .truth (if op = .logicalAnd then .jumpIfFalse else .jumpIfTrue) l
  if b = (op == .logicalAnd) then right else pure l

def test (condition : Action Store Value) : Action Store Bool := condition >>= .truth .jumpIfFalse

def choose {α : Type} (condition : Action Store Value) (yes no : Action Store α) :
    Action Store α := do
  if ← test condition then yes else no

/-- Counts a place up or down. The new value counts in front of the place, the old one behind it. -/
def advance (place : Place) (up front : Bool) : Action Store Value := do
  let old ← read place
  let new ← .compute (next K.checked up place.type old)
  write place new
  pure (if front then new else old)

/-- Stores a value and keeps it. -/
def assign (place : Place) (value : Action Store Value) : Action Store Value := do
  let v ← value
  write place v
  pure v

/-! ## Calls -/

/-- Arguments from left to right, each converted to its parameter as soon as it is there. -/
def hand : List (ValueType × Action Store Value) → List ValueType → Action Store (List Value)
  | (type, a) :: items, param :: params => do
    let v ← a >>= become type param
    let vs ← hand items params
    pure (v :: vs)
  | _, _ => pure []

def callNative (i : NativeImport) (args : List Value) : Action Heap Value := do
  let h ← get
  let (result, sink) := (K.native i).run args.toArray h.sink
  set { h with sink := sink }
  match result with
  | .ok v => pure v
  | .error e => throw (.native i.name e)

/-! ## What expressions stand for -/

inductive Denoted where
  | place (p : Place)
  | value (type : ValueType) (a : Action Store Value)
  | this
  | cls (c : ClassRef)
  | space (name : String)
  /-- Methods of a class of the script. -/
  | script (cls : Nat) (name : String)
  /-- Functions of a library class. -/
  | functions (cls : NativeClass) (name : String)
  /-- Methods of a library class, and the value that one of them is called on. -/
  | methods (cls : NativeClass) (type : ValueType) (a : Action Store Value) (name : String)
  /-- The text of a value, once it is called for. -/
  | text (type : ValueType) (a : Action Store Value)

/-- A field or a method of a class of the script. -/
def ownMember? (cls : Nat) (c : ClassSymbol) (name : String) : Option Denoted :=
  match c.field? name with
  | some f => some (.place (.field f))
  | none => if c.hasMethod name then some (.script cls name) else none

/-- What a name means outside of a class: a class, a namespace, or the library class of a type. -/
def outside? (site : Site) (name : String) : Option Denoted :=
  let cls := (site.symbols.lookupClass? site.owner name).map Denoted.cls
  let space := (site.symbols.lookupNamespace? site.owner name).map Denoted.space
  let keyword := ((ValueType.ofName? name).filter (· ≠ .void)).bind fun type =>
    (site.symbols.keywordClass? type).map fun c => Denoted.cls (.native c)
  cls.or (space.or keyword)

/-- What a name means: the innermost thing of that name. -/
def named? (site : Site) (locals : LocalScope) (name : String) : Option Denoted :=
  let slot := (locals.find? name).map fun v => Denoted.place (.localVar v.slot v.type)
  slot.or ((ownMember? site.cls site.owner name).or (outside? site name))

namespace Denoted

def value? : Denoted → Option (ValueType × Action Store Value)
  | .place p => some (p.type, read p)
  | .value type a => some (type, a)
  | _ => none

def place? : Denoted → Option Place
  | .place p => some p
  | _ => none

def ofValue (site : Site) (type : ValueType) (a : Action Store Value) (name : String) :
    Option Denoted :=
  if type = .string ∧ name = "Length" then
    some (.value .int (a >>= fun v => .compute (lengthOf v)))
  else if name = "ToString" ∧ type ≠ .void then some (.text type a)
  else (site.symbols.keywordClass? type).map fun c => .methods c type a name

def member (site : Site) (name : String) : Denoted → Option Denoted
  | .space outer =>
    let full := outer ++ "." ++ name
    ((site.symbols.findClass? full).map .cls).or
      (if site.symbols.isNamespace full then some (.space full) else none)
  | .cls (.script i) => ownMember? i (classAt site i) name
  | .cls (.native c) =>
    ((c.constant? name).map fun v => Denoted.value v.type (pure v)).or
      (if (c.functionsNamed name).isEmpty then none else some (.functions c name))
  | .this => ownMember? site.cls site.owner name
  | .place p => ofValue site p.type (read p) name
  | .value type a => ofValue site type a name
  | _ => none

end Denoted

def meant {α : Type} (candidates : List α) (params : α → List ValueType)
    (items : List (ValueType × Action Store Value)) : Option α :=
  (best? (items.map (·.1)) (candidates.map params)).bind fun i => candidates[i]?

def Denoted.call (site : Site) (items : List (ValueType × Action Store Value)) :
    Denoted → Option Denoted
  | .script owner name => do
    let (m, i) ← meant ((classAt site owner).methodsNamed name) (·.1.params) items
    some (.value m.returns do
      let args ← hand items m.params
      (K.script owner i args).beside)
  | .functions c name => do
    let f ← meant (c.functionsNamed name) (·.params) items
    some (.value f.returns do
      let args ← hand items f.params
      (callNative K (ImportTable.importOf f none) args).beside)
  | .methods c type a name => do
    let f ← meant (c.methodsNamed name) (·.params) items
    some (.value f.returns do
      let receiver ← a
      let args ← hand items f.params
      (callNative K (ImportTable.importOf f (some type)) (receiver :: args)).beside)
  | .text type a =>
    if items.isEmpty then some (.value .string (a >>= fun v => .compute (textOf type v))) else none
  | _ => none

/-! ## The walk -/

variable (site : Site) (locals : LocalScope)

mutual

/-- What an expression stands for. `bare` tells that parentheses around a name do not count. -/
def denote (bare : Bool) : Expr → Option Denoted
  | .literal lit _ => some (.value lit.value.type (pure lit.value))
  | .ident name => named? site locals name.name
  | .this _ => some .this
  | .member object name _ => do
    let d ← denote false object
    d.member site name.name
  | .paren inner _ =>
    if bare then denote true inner
    else do
      let d ← denote false inner
      let (type, a) ← d.value?
      some (.value type a)
  | .binary op left right _ => do
    let (l, a) ← (← denote false left).value?
    let (r, b) ← (← denote false right).value?
    if op = .logicalAnd ∨ op = .logicalOr then
      if l = .bool ∧ r = .bool then some (.value .bool (logical op a b)) else none
    else
      let o ← operation? K.checked op l r
      some (.value o.type (combine o a b))
  | .unary op operand _ =>
    if op = .increment ∨ op = .decrement then do
      let place ← (← denote true operand).place?
      if isNumber place.type then
        some (.value place.type (advance K place (op = .increment) true))
      else none
    else do
      let (type, a) ← (← denote false operand).value?
      let turn ← turn? K.checked op type
      some (.value type (a >>= fun v => .compute (turn v)))
  | .post op operand _ => do
    let place ← (← denote true operand).place?
    if isNumber place.type then
      some (.value place.type (advance K place (op = .increment) false))
    else none
  | .assign op target value _ => do
    let place ← (← denote true target).place?
    let (type, a) ← (← denote false value).value?
    match inside? op with
    | none =>
      if suits type place.type then
        some (.value place.type (assign place (a >>= become type place.type)))
      else none
    | some binary =>
      let o ← operation? K.checked binary place.type type
      if o.type = place.type then
        some (.value place.type (assign place (combine o (read place) a)))
      else none
  | .conditional condition yes no _ => do
    let (c, a) ← (← denote false condition).value?
    let (y, a₁) ← (← denote false yes).value?
    let (n, a₂) ← (← denote false no).value?
    let type ← common? y n
    if c = .bool then
      some (.value type (choose a (a₁ >>= become y type) (a₂ >>= become n type)))
    else none
  | .call callee args _ => do
    let d ← denote true callee
    let items ← denoteAll args
    d.call K site items

def denoteAll : List Expr → Option (List (ValueType × Action Store Value))
  | [] => some []
  | e :: es => do
    let item ← (← denote false e).value?
    let items ← denoteAll es
    some (item :: items)

end

def evaluate (e : Expr) : Option (ValueType × Action Store Value) :=
  (denote K site locals false e).bind Denoted.value?

end

end ClassScript.Source
