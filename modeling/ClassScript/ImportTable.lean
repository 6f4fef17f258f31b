import ClassScript.Library
import ClassScript.SemanticError

/-!
The library functions that a module calls, each listed once, in the order of their first call.
-/

namespace ClassScript

structure ImportTable where
  imports : Array NativeImport
  places : Std.HashMap Identity Nat

namespace ImportTable

def empty : ImportTable := ⟨#[], ∅⟩

/-- Functions that one module can call. -/
def maxImports : Nat := 65536

/-- The import of a function. `receiver` is the type of the value an instance method is called on. -/
def importOf (f : NativeFunction) (receiver : Option ValueType) : NativeImport :=
  ⟨f.identity, f.fullName, receiver.toList ++ f.params, f.returns⟩

/-- The place of a function, which is added if it is new; none if the table is full. -/
def add (t : ImportTable) (f : NativeFunction) (receiver : Option ValueType) :
    Option Nat × ImportTable :=
  match t.places[f.identity]? with
  | some i => (some i, t)
  | none =>
    if maxImports ≤ t.imports.size then (none, t)
    else
      match t with
      | ⟨imports, places⟩ =>
        (some imports.size,
          ⟨imports.push (importOf f receiver), places.insert f.identity imports.size⟩)

end ImportTable
end ClassScript
