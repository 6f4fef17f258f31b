/-!
Who may use a class or a member: everyone, the module, or the declaring class alone. There is no
inheritance, so `protected` grants no more than `private`.
-/

namespace ClassScript

inductive Visibility where
  | pub
  | internal
  | prot
  | priv
deriving DecidableEq, Repr, Inhabited

namespace Visibility

def name : Visibility → String
  | pub => "public"
  | internal => "internal"
  | prot => "protected"
  | priv => "private"

/-- The tag of the visibility in a module image. -/
def tag : Visibility → UInt8
  | pub => 0
  | internal => 1
  | prot => 2
  | priv => 3

def all : List Visibility := [pub, internal, prot, priv]

def ofTag? (tag : UInt8) : Option Visibility := all.find? (·.tag == tag)

def isPublic : Visibility → Bool
  | pub => true
  | _ => false

/-- Members that only their own class may name. -/
def isOwnClassOnly : Visibility → Bool
  | prot | priv => true
  | _ => false

@[simp] theorem ofTag?_tag (v : Visibility) : ofTag? v.tag = some v := by cases v <;> rfl

theorem tag_of_ofTag? {b : UInt8} {v : Visibility} (h : ofTag? b = some v) : v.tag = b := by
  have := List.find?_some h
  simpa using this

end Visibility
end ClassScript
