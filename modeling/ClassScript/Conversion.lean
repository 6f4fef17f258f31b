import ClassScript.Opcode
import ClassScript.Value

/-!
Implicit conversions: every type to itself, and the numeric widenings from `int` to `long` and
`double` and from `long` to `double`.
-/

namespace ClassScript

inductive Conversion where
  | identity
  /-- Widening by an instruction. -/
  | widen (op : Opcode)
deriving DecidableEq, Repr

namespace Conversion

def isIdentity : Conversion → Bool
  | identity => true
  | widen _ => false

def op? : Conversion → Option Opcode
  | identity => none
  | widen op => some op

/-- The implicit conversion between two types. Nothing converts to or from `void`. -/
def implicit? (source target : ValueType) : Option Conversion :=
  match source, target with
  | .int, .long => some (widen .i32ToI64)
  | .int, .double => some (widen .i32ToF64)
  | .long, .double => some (widen .i64ToF64)
  | _, _ => if source = target ∧ source ≠ .void then some identity else none

/-- The instruction that widens one type to another, if it takes one. -/
def widening? (source target : ValueType) : Option Opcode :=
  (implicit? source target).bind op?

end Conversion

namespace ValueType

def convertsTo (source target : ValueType) : Bool := (Conversion.implicit? source target).isSome

/-- The type that both numeric operands of an operator are widened to. -/
def promotion? (left right : ValueType) : Option ValueType :=
  if left.isNumeric && right.isNumeric then
    some (if left.convertsTo right then right else left)
  else none

/-- For an argument of this type, a parameter of type `a` fits better than one of type `b`: it is
the very type while the other is not, or it converts to the other. -/
def prefers (arg a b : ValueType) : Bool :=
  a != b && (arg == a || (arg != b && a.convertsTo b))

end ValueType

/-- The value that a constant becomes in another type. -/
def Value.convert? (v : Value) (target : ValueType) : Option Value :=
  match v, target with
  | .int n, .long => some (.long n.toInt64)
  | .int n, .double => some (.double (.ofInt n.toInt))
  | .long n, .double => some (.double (.ofInt n.toInt))
  | _, _ => if v.type = target then some v else none

end ClassScript
