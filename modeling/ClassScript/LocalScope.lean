import ClassScript.SemanticError
import Std.Data.HashMap

/-!
The local variables of a method while it is compiled.

Every declaration takes a slot of its own, so the number of declarations is the size of the frame.
A name cannot be declared again while it is in scope, not even in an inner block.
-/

namespace ClassScript

structure LocalVar where
  name : String
  type : ValueType
  slot : Nat
deriving DecidableEq, Inhabited

structure LocalScope where
  /-- The variables in scope, by name. -/
  visible : Std.HashMap String LocalVar
  /-- The names declared in each open block, the innermost block first. -/
  blocks : List (List String)
  frameSize : Nat

namespace LocalScope

/-- The scope of a method without parameters, with one block open. -/
def start : LocalScope := ⟨∅, [[]], 0⟩

def open_ (s : LocalScope) : LocalScope :=
  match s with
  | ⟨v, bs, n⟩ => ⟨v, [] :: bs, n⟩

/-- Closes the innermost block and forgets its names. -/
def close (s : LocalScope) : LocalScope :=
  match s with
  | ⟨v, names :: bs, n⟩ => ⟨names.foldl (fun v name => v.erase name) v, bs, n⟩
  | ⟨v, [], n⟩ => ⟨v, [], n⟩

def depth (s : LocalScope) : Nat := s.blocks.length

def find? (s : LocalScope) (name : String) : Option LocalVar := s.visible[name]?

/-- Slots that a frame can have. -/
def maxSlots : Nat := 65535

/-- Why a name cannot be declared. -/
def conflict? (s : LocalScope) (name : String) (span : Span) : Option SemanticError :=
  if s.visible.contains name then some ⟨.duplicateLocal name, span⟩
  else if maxSlots ≤ s.frameSize then some ⟨.unsupported .tooManyLocals, span⟩
  else none

/-- Adds a variable to the innermost block, at the next slot. -/
def add (s : LocalScope) (name : String) (type : ValueType) : Nat × LocalScope :=
  match s with
  | ⟨visible, names :: outer, slot⟩ =>
    (slot, ⟨visible.insert name ⟨name, type, slot⟩, (name :: names) :: outer, slot + 1⟩)
  | ⟨visible, [], slot⟩ => (slot, ⟨visible.insert name ⟨name, type, slot⟩, [], slot + 1⟩)

/-- Declares a variable. -/
def declare (s : LocalScope) (name : String) (type : ValueType) (span : Span) :
    Except SemanticError (Nat × LocalScope) :=
  match s.conflict? name span with
  | some e => .error e
  | none => .ok (s.add name type)

end LocalScope
end ClassScript
