import ClassScript.Conversion
import ClassScript.Emitter
import ClassScript.Evaluation
import ClassScript.ImportTable
import ClassScript.LocalScope
import ClassScript.Symbols

/-!
The surroundings of code: the method an expression stands in, and the code written so far.

Compiling an expression checks it and writes its code at the same time. A failure leaves the code as
far as it was written.
-/

namespace ClassScript

/-- The method that is compiled. -/
structure Site where
  symbols : Symbols
  /-- Code that cannot run is left out. -/
  release : Bool
  /-- The place of the class among the classes of the script, and the class. -/
  cls : Nat
  owner : ClassSymbol
  kind : MethodKind
  /-- There is no receiver. -/
  isStatic : Bool
  /-- The method as messages show it. -/
  display : String
  returns : ValueType

/-- The code of a method, and what the whole module shares. -/
structure CodeState where
  emitter : Emitter
  imports : ImportTable

abbrev Compiling (α : Type) : Type := ExceptT SemanticError (StateM CodeState) α

/-- What the code of an expression pushes. -/
structure Pushed where
  /-- `void` if nothing is pushed. -/
  type : ValueType
  /-- The value, if it is known. -/
  constant : Option Value
  /-- The offset at which the code begins. -/
  start : Nat

namespace Pushed

def unknown (type : ValueType) (start : Nat) : Pushed := ⟨type, none, start⟩

def known (value : Value) (start : Nat) : Pushed := ⟨value.type, some value, start⟩

end Pushed

namespace Compile

/-! ## Writing code -/

def fail {α : Type} (fault : SemanticFault) (span : Span) : Compiling α := throw ⟨fault, span⟩

def edit (f : Emitter → Emitter) : Compiling Unit := modify fun
  | ⟨emitter, imports⟩ => ⟨f emitter, imports⟩

def offset : Compiling Nat := do
  let s ← get
  pure s.emitter.offset

def emit (op : Opcode) : Compiling Unit := edit (·.emit op)

def emitWith (op : Opcode) (n : Nat) : Compiling Unit := edit (·.emitWith op n)

def emitValue (v : Value) : Compiling Unit := edit (·.emitValue v)

/-- A jump whose end is still open. -/
def jump (op : Opcode) : Compiling Nat := modifyGet fun
  | ⟨emitter, imports⟩ =>
    let (label, emitter) := emitter.emitJump op
    (label, ⟨emitter, imports⟩)

def land (label : Nat) : Compiling Unit := edit (·.land label)

/-- Cuts the code from an offset on out. -/
def cut (start : Nat) : Compiling Code := modifyGet fun
  | ⟨emitter, imports⟩ =>
    let (code, emitter) := emitter.cut start
    (code, ⟨emitter, imports⟩)

/-- The place of a library function among the imports. -/
def importFunction (f : NativeFunction) (receiver : Option ValueType) (span : Span) :
    Compiling Nat := do
  let added ← modifyGet fun
    | ⟨emitter, imports⟩ =>
      let (place, imports) := imports.add f receiver
      (place, ⟨emitter, imports⟩)
  match added with
  | some i => pure i
  | none => fail (.unsupported (.tooMany "native functions")) span

/-! ## Known values and conversions -/

/-- The error for a computation on constants that fails. -/
def foldingFault : EvalError → SemanticFault
  | .overflow => .constantOverflow
  | .divideByZero => .constantDivisionByZero
  | .typeMismatch op ts => .unsupported (.folding op ts)

/-- The value of a computation on constants. -/
def fold (result : Except EvalError Value) (span : Span) : Compiling Value :=
  match result with
  | .ok v => pure v
  | .error e => fail (foldingFault e) span

/-- Pushes a known value. -/
def push (v : Value) : Compiling Pushed := do
  let start ← offset
  emitValue v
  pure (.known v start)

/-- Replaces the code from an offset on by a push of a known value. -/
def replace (start : Nat) (v : Value) : Compiling Pushed := do
  edit (·.truncate start)
  emitValue v
  pure (.known v start)

/-- Applies an instruction to an operand whose code ends at `stop`. Code behind it stays behind. -/
def convertAt (p : Pushed) (op : Option Opcode) (target : ValueType) (stop : Nat) (span : Span) :
    Compiling Pushed := do
  match op with
  | none => pure p
  | some op =>
    let constant ← match p.constant with
      | some v =>
        let v ← fold (op.evalUnary true v) span
        pure (some v)
      | none => pure none
    let here ← offset
    if stop = here then emit op else edit (·.insert stop op)
    pure ⟨target, constant, p.start⟩

/-- Converts the value that was pushed last. A constant is pushed again as a constant. -/
def coerce (p : Pushed) (target : ValueType) (span : Span) : Compiling Pushed := do
  match Conversion.implicit? p.type target with
  | none => fail (.typeMismatch p.type target) span
  | some .identity => pure p
  | some (.widen op) =>
    match p.constant with
    | none =>
      emit op
      pure (.unknown target p.start)
    | some v =>
      match v.convert? target with
      | some v => replace p.start v
      | none => fail (.typeMismatch p.type target) span

end Compile
end ClassScript
