import ClassScript.Conversion
import ClassScript.Operator

/-!
How an operator is carried out on operands of given types.

Numbers are widened to a common type. `+` joins texts as soon as one side is a string, and the other
side is replaced by its text. Equality needs a common type and exists on every type of values. The
logical operators have no plan: they compile to jumps.
-/

namespace ClassScript

structure BinaryPlan where
  /-- What is done to the operands first. -/
  left : Option Opcode
  right : Option Opcode
  /-- The type of both operands after that. -/
  operand : ValueType
  op : Opcode
  result : ValueType
deriving DecidableEq, Repr

/-- The instruction of an operator on a numeric type. -/
def BinaryOp.numeric? (op : BinaryOp) (type : ValueType) : Option Opcode :=
  match type, op with
  | .int, .add => some .addI32
  | .int, .sub => some .subI32
  | .int, .mul => some .mulI32
  | .int, .div => some .divI32
  | .int, .rem => some .modI32
  | .int, .less => some .ltI32
  | .int, .lessEqual => some .leI32
  | .int, .greater => some .gtI32
  | .int, .greaterEqual => some .geI32
  | .long, .add => some .addI64
  | .long, .sub => some .subI64
  | .long, .mul => some .mulI64
  | .long, .div => some .divI64
  | .long, .rem => some .modI64
  | .long, .less => some .ltI64
  | .long, .lessEqual => some .leI64
  | .long, .greater => some .gtI64
  | .long, .greaterEqual => some .geI64
  | .double, .add => some .addF64
  | .double, .sub => some .subF64
  | .double, .mul => some .mulF64
  | .double, .div => some .divF64
  | .double, .rem => some .modF64
  | .double, .less => some .ltF64
  | .double, .lessEqual => some .leF64
  | .double, .greater => some .gtF64
  | .double, .greaterEqual => some .geF64
  | _, _ => none

/-- The plan that widens both operands to one type. -/
def BinaryPlan.widening (left right operand : ValueType) (op : Opcode) (result : ValueType) :
    BinaryPlan :=
  ⟨Conversion.widening? left operand, Conversion.widening? right operand, operand, op, result⟩

/-- The plan that joins texts. -/
def BinaryPlan.joining (left right : ValueType) : BinaryPlan :=
  let toText (t : ValueType) : Option Opcode := if t = .string then none else some .toStr
  ⟨toText left, toText right, .string, .concat, .string⟩

/-- The type that both sides of an equality are compared in. -/
def ValueType.equalityType? (left right : ValueType) : Option ValueType :=
  match left.promotion? right with
  | some t => some t
  | none => if left = right then some left else none

/-- The plan of an operator for operands of these types. -/
def BinaryOp.plan? (op : BinaryOp) (left right : ValueType) : Option BinaryPlan :=
  if left.isVoid || right.isVoid then none
  else
    match op with
    | .logicalOr | .logicalAnd => none
    | .equal => (left.equalityType? right).map fun t => .widening left right t .eq .bool
    | .notEqual => (left.equalityType? right).map fun t => .widening left right t .ne .bool
    | _ =>
      if op = .add ∧ (left = .string ∨ right = .string) then some (.joining left right)
      else do
        let t ← left.promotion? right
        let code ← op.numeric? t
        some (.widening left right t code (if op.isComparison then .bool else t))

/-- An integer division by this constant fails. -/
def Value.isIntegerZero : Value → Bool
  | .int n => n == 0
  | .long n => n == 0
  | _ => false

/-- The operator is a division of integers, which fails on a zero. -/
def BinaryPlan.divides (p : BinaryPlan) (op : BinaryOp) : Bool :=
  (op == .div || op == .rem) && p.operand.isIntegral

end ClassScript
