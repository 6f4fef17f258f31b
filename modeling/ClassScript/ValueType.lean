/-!
The closed set of types a script can declare: five types of values, and `void` for no value.
-/

namespace ClassScript

inductive ValueType where
  | void
  | int
  | long
  | double
  | bool
  | string
deriving DecidableEq, Repr, Hashable, Inhabited

namespace ValueType

/-- The keyword of the type. -/
def name : ValueType → String
  | void => "void"
  | int => "int"
  | long => "long"
  | double => "double"
  | bool => "bool"
  | string => "string"

def all : List ValueType := [void, int, long, double, bool, string]

def ofName? (keyword : String) : Option ValueType := all.find? (·.name == keyword)

/-- The tag of the type in a module image. -/
def tag : ValueType → UInt8
  | void => 0
  | int => 1
  | long => 2
  | double => 3
  | bool => 4
  | string => 5

def ofTag? (tag : UInt8) : Option ValueType := all.find? (·.tag == tag)

def isVoid : ValueType → Bool
  | void => true
  | _ => false

def isNumeric : ValueType → Bool
  | int | long | double => true
  | _ => false

def isIntegral : ValueType → Bool
  | int | long => true
  | _ => false

/-- A parameter list as signatures and messages show it. -/
def listText (types : List ValueType) : String := ", ".intercalate (types.map name)

@[simp] theorem ofTag?_tag (t : ValueType) : ofTag? t.tag = some t := by cases t <;> rfl

theorem tag_of_ofTag? {b : UInt8} {t : ValueType} (h : ofTag? b = some t) : t.tag = b := by
  have := List.find?_some h
  simpa using this

end ValueType
end ClassScript
