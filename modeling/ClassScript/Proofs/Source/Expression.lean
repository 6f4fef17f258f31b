import ClassScript.Compile.Expression
import ClassScript.Proofs.Source.Evaluation

/-!
What expressions come to in instructions.

`sense` gives every expression what it stands for, with names, types, plans of operators and overloads
found as the compiler finds them, and every operation the instruction that carries it out. Nothing is
folded, and no code is written: this stands between the code of an expression and what `denote` reads
off its tree.
-/

namespace ClassScript.Source

open Compile (Use classAt nameMeaning thisMeaning memberMeaning placeOf unaryOp? stepOp one branchType?)

section

variable (K : Surroundings)

/-! ## Operators -/

/-- Applies an instruction to a value, if there is one. -/
def apply (op : Option Opcode) (v : Value) : Action Store Value :=
  op.elim (pure v) fun op => .compute (op.evalUnary K.checked v)

def widen (source target : ValueType) (v : Value) : Action Store Value :=
  apply K (Conversion.widening? source target) v

/-- Both operands from left to right, each converted as soon as it is there, and the operator. -/
def operate (plan : BinaryPlan) (left right : Action Store Value) : Action Store Value := do
  let l ← left >>= apply K plan.left
  let r ← right >>= apply K plan.right
  .compute (plan.op.evalBinary K.checked l r)

/-- Counts a place up or down. The new value counts in front of the place, the old one behind it. -/
def count (place : Place) (up front : Bool) : Action Store Value := do
  let old ← read place
  let new ← .compute ((stepOp place.type up).evalBinary K.checked old (one place.type))
  write place new
  pure (if front then new else old)

/-! ## Calls -/

/-- Arguments from left to right, each converted to its parameter as soon as it is there. -/
def pass : List (ValueType × Action Store Value) → List ValueType → Action Store (List Value)
  | (type, a) :: items, param :: params => do
    let v ← a >>= widen K type param
    let vs ← pass items params
    pure (v :: vs)
  | _, _ => pure []

/-! ## What expressions stand for -/

/-- What an expression stands for. -/
inductive Sense where
  /-- Something that is named. -/
  | name (m : Meaning)
  /-- A value of a type. -/
  | value (type : ValueType) (a : Action Store Value)
  /-- Methods of a library class, and the value that one of them is called on. -/
  | methods (cls : NativeClass) (type : ValueType) (a : Action Store Value) (name : String)
  /-- The text of a value, once it is called for. -/
  | text (type : ValueType) (a : Action Store Value)

def answer? {α : Type} (x : Compiling α) : Option α :=
  ((ExceptT.run x).run ⟨.start .empty, .empty⟩).1.toOption

namespace Sense

def value? : Sense → Option (ValueType × Action Store Value)
  | .name (.localVar slot type) => some (type, read (.localVar slot type))
  | .name (.field _ f) => some (f.type, read (.field f))
  | .name (.constant v) => some (v.type, pure v)
  | .value type a => some (type, a)
  | _ => none

def place? (site : Site) (span : Span) : Sense → Option Place
  | .name m => answer? (placeOf site m span)
  | _ => none

def ofValue (site : Site) (type : ValueType) (a : Action Store Value) (name : Ident) :
    Option Sense :=
  if type = .string ∧ name.name = "Length" then
    some (.value .int (a >>= apply K (some .strLen)))
  else if name.name = "ToString" ∧ type ≠ .void then some (.text type a)
  else (site.symbols.keywordClass? type).map fun c => .methods c type a name.name

def member (site : Site) (span : Span) (name : Ident) (object : Sense) : Option Sense :=
  match object.value? with
  | some (type, a) => ofValue K site type a name
  | none =>
    match object with
    | .name m => (answer? (memberMeaning site m span name)).map .name
    | _ => none

end Sense

def chosen {α : Type} (candidates : List α) (params : α → List ValueType)
    (items : List (ValueType × Action Store Value)) : Option α :=
  (Overload.resolve (candidates.map params) (items.map (·.1))).toOption.bind fun i => candidates[i]?

def Sense.call (site : Site) (items : List (ValueType × Action Store Value)) :
    Sense → Option Sense
  | .name (.methods (.script cls _) group) => do
    let (m, i) ← chosen ((classAt site cls).methodsNamed group) (·.1.params) items
    some (.value m.returns do
      let args ← pass K items m.params
      (K.script cls i args).beside)
  | .name (.methods (.function c) group) => do
    let f ← chosen (c.functionsNamed group) (·.params) items
    some (.value f.returns do
      let args ← pass K items f.params
      (callNative K (ImportTable.importOf f none) args).beside)
  | .methods c type a group => do
    let f ← chosen (c.methodsNamed group) (·.params) items
    some (.value f.returns do
      let receiver ← a
      let args ← pass K items f.params
      (callNative K (ImportTable.importOf f (some type)) (receiver :: args)).beside)
  | .text type a =>
    if items.isEmpty then
      some (.value .string (if type = .string then a else a >>= apply K (some .toStr)))
    else none
  | _ => none

/-! ## The walk -/

variable (site : Site) (locals : LocalScope)

mutual

/-- What an expression stands for. `bare` tells that parentheses around a name do not count. -/
def sense (bare : Bool) : Expr → Option Sense
  | .literal lit _ => some (.value lit.value.type (pure lit.value))
  | .ident name => (answer? (nameMeaning site locals name)).map .name
  | .this span => (answer? (thisMeaning site span)).map .name
  | .member object name _ => do
    let s ← sense false object
    s.member K site object.span name
  | .paren inner _ =>
    if bare then sense true inner
    else do
      let s ← sense false inner
      let (type, a) ← s.value?
      some (.value type a)
  | .binary op left right _ => do
    let (l, a) ← (← sense false left).value?
    let (r, b) ← (← sense false right).value?
    if op.isLogical then
      if l = .bool ∧ r = .bool then some (.value .bool (logical op a b)) else none
    else
      let plan ← op.plan? l r
      some (.value plan.result (operate K plan a b))
  | .unary op operand _ =>
    if op = .increment ∨ op = .decrement then do
      let place ← (← sense true operand).place? site operand.bare.span
      if place.type.isNumeric then
        some (.value place.type (count K place (op == .increment) true))
      else none
    else do
      let (type, a) ← (← sense false operand).value?
      let code ← unaryOp? op type
      some (.value type (a >>= apply K code))
  | .post op operand _ => do
    let place ← (← sense true operand).place? site operand.bare.span
    if place.type.isNumeric then
      some (.value place.type (count K place (op == .increment) false))
    else none
  | .assign op target value _ => do
    let place ← (← sense true target).place? site target.bare.span
    let (type, a) ← (← sense false value).value?
    match op.binary? with
    | none =>
      if type.convertsTo place.type then
        some (.value place.type (assign place (a >>= widen K type place.type)))
      else none
    | some binary =>
      let plan ← binary.plan? place.type type
      if plan.result = place.type then
        some (.value place.type (assign place (operate K plan (read place) a)))
      else none
  | .conditional condition yes no _ => do
    let (c, a) ← (← sense false condition).value?
    let (y, a₁) ← (← sense false yes).value?
    let (n, a₂) ← (← sense false no).value?
    let type ← branchType? y n
    if c = .bool then
      some (.value type (choose a (a₁ >>= widen K y type) (a₂ >>= widen K n type)))
    else none
  | .call callee args _ => do
    let s ← sense true callee
    let items ← senses args
    s.call K site items

def senses : List Expr → Option (List (ValueType × Action Store Value))
  | [] => some []
  | e :: es => do
    let item ← (← sense false e).value?
    let items ← senses es
    some (item :: items)

end

def value (e : Expr) : Option (ValueType × Action Store Value) :=
  (sense K site locals false e).bind Sense.value?

end

end ClassScript.Source
