import ClassScript.Value
import Std.Data.HashMap

/-!
The constants of a module, each kept once.

Two constants are one only if they are of one kind and bit for bit the same, so the zeros of both
signs and NaNs of different bits have places of their own.
-/

namespace ClassScript

inductive Constant where
  | int (n : Int32)
  | long (n : Int64)
  | double (d : Double)
  | string (s : String)
deriving DecidableEq, Hashable, Inhabited

namespace Constant

/-- The constant for a value. `void` and `bool` values have instructions of their own. -/
def ofValue? : Value → Option Constant
  | .int n => some (int n)
  | .long n => some (long n)
  | .double d => some (double d)
  | .string s => some (string s)
  | .bool _ | .void => none

def value : Constant → Value
  | int n => .int n
  | long n => .long n
  | double d => .double d
  | string s => .string s

def type (c : Constant) : ValueType := c.value.type

end Constant

/-- Constants in the order in which they were first added, and where each of them is. -/
structure Pool where
  entries : Array Constant
  places : Std.HashMap Constant Nat

namespace Pool

def empty : Pool := ⟨#[], ∅⟩

/-- The place of a constant, which is added if it is new. -/
def add (p : Pool) (c : Constant) : Nat × Pool :=
  match p.places[c]? with
  | some i => (i, p)
  | none =>
    match p with
    | ⟨entries, places⟩ => (entries.size, ⟨entries.push c, places.insert c entries.size⟩)

def get? (p : Pool) (i : Nat) : Option Constant := p.entries[i]?

def size (p : Pool) : Nat := p.entries.size

end Pool
end ClassScript
