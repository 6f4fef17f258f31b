import ClassScript.Double.Decimal
import ClassScript.ValueType

/-!
Values of local slots, fields, arguments and results. `void` stands for the result of a call that
yields none, and for a slot that was never stored.
-/

namespace ClassScript

inductive Value where
  | void
  | int (v : Int32)
  | long (v : Int64)
  | double (v : Double)
  | bool (v : Bool)
  | string (v : String)
deriving DecidableEq, Inhabited

namespace Value

def type : Value → ValueType
  | void => .void
  | int _ => .int
  | long _ => .long
  | double _ => .double
  | bool _ => .bool
  | string _ => .string

def typeName (v : Value) : String := v.type.name

def isVoid : Value → Bool
  | void => true
  | _ => false

/-- The text of a value in output and concatenation. -/
def text : Value → String
  | void => ""
  | int v => toString v.toInt
  | long v => toString v.toInt
  | double v => v.text
  | bool true => "True"
  | bool false => "False"
  | string s => s

/-- Equality as scripts see it: doubles compare as numbers, all else as it is. -/
def equals : Value → Value → Bool
  | double x, double y => x.eq y
  | x, y => x == y

end Value

/-- The value a field or local of this type holds before anything is stored. Strings start empty:
there is no null. -/
def ValueType.default : ValueType → Value
  | void => .void
  | int => .int 0
  | long => .long 0
  | double => .double .zero
  | bool => .bool false
  | string => .string ""

@[simp] theorem ValueType.type_default (t : ValueType) : t.default.type = t := by cases t <;> rfl

end ClassScript
