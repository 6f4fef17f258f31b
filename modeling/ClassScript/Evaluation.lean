import ClassScript.Fault
import ClassScript.SignedRange
import ClassScript.Value

/-!
What the value-computing instructions compute.

The machine and constant folding share these functions, so that a folded expression has the value
that running it would give. Checked arithmetic fails where an integer result does not fit, unchecked
arithmetic wraps; integer division fails on zero, and on the one quotient that does not fit, either
way.
-/

namespace ClassScript

inductive Arith where
  | add
  | sub
  | mul
  | div
  | rem
deriving DecidableEq, Repr

namespace Arith

def isDivision : Arith → Bool
  | div | rem => true
  | _ => false

/-- The result on integers without bounds. Division goes toward zero. -/
def onInt : Arith → Int → Int → Int
  | add, x, y => x + y
  | sub, x, y => x - y
  | mul, x, y => x * y
  | div, x, y => x.tdiv y
  | rem, x, y => x.tmod y

def onDouble : Arith → Double → Double → Double
  | add => Double.add
  | sub => Double.sub
  | mul => Double.mul
  | div => Double.div
  | rem => Double.rem

/-- Whether a result on integers of `bits` bits is an overflow. The remainder that belongs to the
quotient that does not fit counts as one, too. -/
def overflows (op : Arith) (checked : Bool) (bits : Nat) (x y : Int) : Bool :=
  if op.isDivision then x == -signedLimit bits && y == -1
  else checked && !fitsSigned bits (op.onInt x y)

/-- The result on integers of `bits` bits, before it is brought into their range. -/
def onBits (op : Arith) (checked : Bool) (bits : Nat) (x y : Int) : Except EvalError Int :=
  if op.isDivision && y == 0 then .error .divideByZero
  else if op.overflows checked bits x y then .error .overflow
  else .ok (op.onInt x y)

end Arith

inductive Order where
  | lt
  | le
  | gt
  | ge
deriving DecidableEq, Repr

namespace Order

def onInt : Order → Int → Int → Bool
  | lt, x, y => x < y
  | le, x, y => x ≤ y
  | gt, x, y => y < x
  | ge, x, y => y ≤ x

def onDouble : Order → Double → Double → Bool
  | lt, x, y => x.lt y
  | le, x, y => x.le y
  | gt, x, y => y.lt x
  | ge, x, y => y.le x

end Order

namespace Opcode

/-- The operation of an arithmetic opcode, and the type it works on. -/
def arith? : Opcode → Option (ValueType × Arith)
  | addI32 => some (.int, .add)
  | subI32 => some (.int, .sub)
  | mulI32 => some (.int, .mul)
  | divI32 => some (.int, .div)
  | modI32 => some (.int, .rem)
  | addI64 => some (.long, .add)
  | subI64 => some (.long, .sub)
  | mulI64 => some (.long, .mul)
  | divI64 => some (.long, .div)
  | modI64 => some (.long, .rem)
  | addF64 => some (.double, .add)
  | subF64 => some (.double, .sub)
  | mulF64 => some (.double, .mul)
  | divF64 => some (.double, .div)
  | modF64 => some (.double, .rem)
  | _ => none

/-- The comparison of an ordering opcode, and the type it works on. -/
def order? : Opcode → Option (ValueType × Order)
  | ltI32 => some (.int, .lt)
  | leI32 => some (.int, .le)
  | gtI32 => some (.int, .gt)
  | geI32 => some (.int, .ge)
  | ltI64 => some (.long, .lt)
  | leI64 => some (.long, .le)
  | gtI64 => some (.long, .gt)
  | geI64 => some (.long, .ge)
  | ltF64 => some (.double, .lt)
  | leF64 => some (.double, .le)
  | gtF64 => some (.double, .gt)
  | geF64 => some (.double, .ge)
  | _ => none

/-- Two values that equality is defined on. -/
def comparable (x y : Value) : Bool := x.type == y.type && !x.isVoid

/-- The value an opcode gives for a left and a right operand. -/
def evalBinary (op : Opcode) (checked : Bool) (left right : Value) : Except EvalError Value :=
  let mismatch := .error (.typeMismatch op [left.type, right.type])
  match op.arith?, op.order?, left, right with
  | some (.int, a), _, .int x, .int y =>
    (a.onBits checked 32 x.toInt y.toInt).map fun n => .int (Int32.ofInt n)
  | some (.long, a), _, .long x, .long y =>
    (a.onBits checked 64 x.toInt y.toInt).map fun n => .long (Int64.ofInt n)
  | some (.double, a), _, .double x, .double y => .ok (.double (a.onDouble x y))
  | none, some (.int, o), .int x, .int y => .ok (.bool (o.onInt x.toInt y.toInt))
  | none, some (.long, o), .long x, .long y => .ok (.bool (o.onInt x.toInt y.toInt))
  | none, some (.double, o), .double x, .double y => .ok (.bool (o.onDouble x y))
  | none, none, x, y =>
    match op with
    | .concat =>
      match x, y with
      | .string s, .string t => .ok (.string (s ++ t))
      | _, _ => mismatch
    | .eq => if comparable x y then .ok (.bool (x.equals y)) else mismatch
    | .ne => if comparable x y then .ok (.bool (!x.equals y)) else mismatch
    | _ => mismatch
  | _, _, _, _ => mismatch

/-- The value an opcode gives for one operand. A string is as long as it has characters. -/
def evalUnary (op : Opcode) (checked : Bool) (operand : Value) : Except EvalError Value :=
  match op, operand with
  | .negI32, .int x =>
    if checked && x == Int32.minValue then .error .overflow else .ok (.int (-x))
  | .negI64, .long x =>
    if checked && x == Int64.minValue then .error .overflow else .ok (.long (-x))
  | .negF64, .double x => .ok (.double x.neg)
  | .not, .bool b => .ok (.bool (!b))
  | .i32ToI64, .int x => .ok (.long x.toInt64)
  | .i32ToF64, .int x => .ok (.double (.ofInt x.toInt))
  | .i64ToF64, .long x => .ok (.double (.ofInt x.toInt))
  | .strLen, .string s =>
    if fitsSigned 32 s.length then .ok (.int (Int32.ofNat s.length)) else .error .overflow
  | .toStr, v =>
    if v.isVoid then .error (.typeMismatch op [operand.type]) else .ok (.string v.text)
  | _, _ => .error (.typeMismatch op [operand.type])

end Opcode
end ClassScript
