import ClassScript.Library
import ClassScript.SignedRange
import ClassScript.Standard.Path
import ClassScript.Text.Case
import ClassScript.Text.Search
import Std.Data.HashSet

/-!
Strings, and strings as sequences of characters. Positions and lengths count characters.
-/

namespace ClassScript.Standard

/-- The failure of a position or length, the parameter of this name, that is not in the string. -/
def outsideString (parameter : String) : NativeError :=
  .invalidArgument ("index and length must refer to a location within the string (parameter '" ++
    parameter ++ "')")

/-- The characters from `start` on. -/
def substringFrom (text : List Char) (start : Int) : Except NativeError (List Char) :=
  if 0 ≤ start ∧ start ≤ text.length then .ok (text.drop start.toNat)
  else .error (outsideString "startIndex")

/-- `count` characters from `start` on. -/
def substring (text : List Char) (start count : Int) : Except NativeError (List Char) :=
  if start < 0 then .error (outsideString "startIndex")
  else if 0 ≤ count ∧ start + count ≤ text.length then
    .ok ((text.drop start.toNat).take count.toNat)
  else .error (outsideString "length")

/-- The position of the first occurrence of a text, or `-1`. -/
def indexOf (text needle : List Char) : Except NativeError Int32 :=
  match Text.find? needle text with
  | some i => if fitsSigned 32 i then .ok (Int32.ofNat i) else .error .overflow
  | none => .ok (-1)

/-- The text with every occurrence of `old` replaced, from left to right. -/
def replaced (text old new : List Char) : Except NativeError (List Char) :=
  if old.isEmpty then
    .error (.invalidArgument "string cannot be of zero length (parameter 'oldValue')")
  else .ok (Text.replaceAll old new text)

/-- All arguments, one behind the other. -/
def concat : Native Unit := do
  let n ← Native.count
  let texts ← (List.range n).mapM Native.string
  Native.give (.string (String.join texts))

/-- A method of a string alone. -/
def mapped (name : String) (f : List Char → List Char) : FunctionSpec :=
  .method name [] .string (do Native.giveChars (f (← Native.chars 0)))

/-- A question about a string and another one. -/
def tested (name : String) (p : List Char → List Char → Bool) : FunctionSpec :=
  .method name [.string] .bool (do
    let s ← Native.chars 0
    let t ← Native.chars 1
    Native.give (.bool (p s t)))

def stringClass : ClassSpec where
  space := "System"
  name := "String"
  keyword := some .string
  constants := [("Empty", .string "")]
  functions := [
    .static "IsNullOrEmpty" [.string] .bool (do
      Native.give (.bool (← Native.string 0).isEmpty)),
    .static "IsNullOrWhiteSpace" [.string] .bool (do
      Native.give (.bool ((← Native.chars 0).all Text.isBlank))),
    .static "Concat" [.string, .string] .string concat,
    .static "Concat" [.string, .string, .string] .string concat,
    .static "Concat" [.string, .string, .string, .string] .string concat,
    mapped "ToUpper" Text.toUpper,
    mapped "ToLower" Text.toLower,
    mapped "Trim" Text.trim,
    tested "Contains" fun s t => (Text.find? t s).isSome,
    tested "StartsWith" fun s t => t.isPrefixOf s,
    tested "EndsWith" fun s t => t.isSuffixOf s,
    .method "IndexOf" [.string] .int (do
      let s ← Native.chars 0
      let t ← Native.chars 1
      Native.give (.int (← indexOf s t))),
    .method "Substring" [.int] .string (do
      let s ← Native.chars 0
      let start ← Native.int 1
      Native.giveChars (← substringFrom s start.toInt)),
    .method "Substring" [.int, .int] .string (do
      let s ← Native.chars 0
      let start ← Native.int 1
      if start < 0 then Native.failWith (outsideString "startIndex")
      let count ← Native.int 2
      Native.giveChars (← substring s start.toInt count.toInt)),
    .method "Replace" [.string, .string] .string (do
      let s ← Native.chars 0
      let old ← Native.chars 1
      let new ← Native.chars 2
      Native.giveChars (← replaced s old new))]

/-! ## Sequences -/

/-- The characters of a text whose code points are not in `seen`, each where it occurs first. -/
def distinctFrom (seen : Std.HashSet Nat) : List Char → List Char
  | [] => []
  | c :: cs =>
    if seen.contains c.toNat then distinctFrom seen cs
    else c :: distinctFrom (seen.insert c.toNat) cs

def distinct (text : List Char) : List Char := distinctFrom ∅ text

def enumerableClass : ClassSpec where
  space := "System.Linq"
  name := "Enumerable"
  keyword := none
  constants := []
  functions := [
    .static "Count" [.string] .int (do
      let n := (← Native.string 0).length
      if fitsSigned 32 n then Native.give (.int (Int32.ofNat n)) else Native.failWith .overflow),
    .static "Any" [.string] .bool (do
      Native.give (.bool !(← Native.string 0).isEmpty)),
    ofText "Reverse" List.reverse,
    ofText "Distinct" distinct]

end ClassScript.Standard
