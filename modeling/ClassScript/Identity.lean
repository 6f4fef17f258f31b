import ClassScript.Identity.XxHash64
import ClassScript.Text.Utf8
import ClassScript.ValueType

/-!
Identities of types and of library functions.

An identity depends on names and parameter types alone, so the compiler and the loader agree on it
without sharing tables. A string hash is combined with a marker for the kind of thing and, for
functions, with one marked contribution per parameter. The combination is stated for an arbitrary
string hash; the library uses xxHash.
-/

namespace ClassScript

structure Identity where
  value : UInt64
deriving DecidableEq, Hashable, Inhabited

namespace Identity

def empty : Identity := ⟨0⟩

def isEmpty (i : Identity) : Bool := i.value == 0

/-- The multiplier between parameter positions. -/
def separator : UInt64 := 0x4bc94d6bd06053ad

def typeMarker : UInt64 := 0x2fac10b63a6cc57c
def functionMarker : UInt64 := 0x5ea77ffbcdf5f302
def methodMarker : UInt64 := 0x7d3c8b4a92e15f6d

/-- The first eight parameter positions have markers of their own. -/
def positionMarkers : Array UInt64 := #[
  0x9e3779b97f4a7c15, 0xbf58476d1ce4e5b9, 0x94d049bb133111eb, 0xd6e8feb86659fd93,
  0xe7037ed1a0b428db, 0xc6a4a7935bd1e995, 0x8648dbbc94d49b8d, 0xa2b48b2c69e0d657]

/-- Later positions count on from the first marker. -/
def positionMarker (i : Nat) : UInt64 :=
  positionMarkers[i]?.getD (0x9e3779b97f4a7c15 + UInt64.ofNat i)

/-- The parameters from position `i` on, mixed into a seed. -/
def mixFrom (acc : UInt64) (i : Nat) : List Identity → UInt64
  | [] => acc
  | p :: ps => mixFrom (acc * separator + (positionMarker i ^^^ p.value)) (i + 1) ps

section
variable (hash : String → UInt64)

def ofNameBy (name : String) : Identity := ⟨typeMarker ^^^ hash name⟩

def ofFunctionBy (name : String) (params : List Identity) : Identity :=
  ⟨mixFrom (functionMarker ^^^ hash name) 0 params⟩

def ofMethodBy (owner : Identity) (name : String) (params : List Identity) : Identity :=
  ⟨mixFrom (methodMarker ^^^ owner.value ^^^ hash name) 0 params⟩

end

/-- The string hash of all identities. -/
def stringHash (s : String) : UInt64 := XxHash64.hash (Text.bytesOf s) 0

def ofName (name : String) : Identity := ofNameBy stringHash name

def ofFunction (name : String) (params : List Identity) : Identity :=
  ofFunctionBy stringHash name params

def ofMethod (owner : Identity) (name : String) (params : List Identity) : Identity :=
  ofMethodBy stringHash owner name params

end Identity

def ValueType.identity (t : ValueType) : Identity := .ofName t.name

/-- Sixteen lower-case hexadecimal digits. -/
def hex64 (n : UInt64) : String :=
  let cs := Nat.toDigits 16 n.toNat
  String.ofList (List.replicate (16 - cs.length) '0' ++ cs)

def Identity.text (i : Identity) : String := "0x" ++ hex64 i.value

end ClassScript
