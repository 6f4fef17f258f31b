import ClassScript.Double.Decimal
import ClassScript.Library
import ClassScript.SignedRange
import ClassScript.Text.Search

/-!
Conversions between types, and the classes behind the types themselves.
-/

namespace ClassScript.Standard

/-! ## Reading numbers and truth values -/

/-- Why a text is no integer. -/
inductive IntegerFault where
  | format
  | overflow
deriving DecidableEq, Repr

/-- The digits of an integer of at most `limit`, behind the number read so far. The first character
that is wrong, or that makes the number too large, decides. -/
def digitsUpTo (limit : Nat) : Nat → List Char → Except IntegerFault Nat
  | n, [] => .ok n
  | n, c :: cs =>
    if !c.isDigit then .error .format
    else
      let m := 10 * n + (c.toNat - '0'.toNat)
      if limit < m then .error .overflow else digitsUpTo limit m cs

/-- An integer of `bits` bits: a sign, if any, and digits. -/
def signedInteger (bits : Nat) (cs : List Char) : Except IntegerFault Int :=
  let negative := cs.head? == some '-'
  let digits := match cs with
    | '-' :: ds | '+' :: ds => ds
    | ds => ds
  if digits.isEmpty then .error .format
  else
    let limit := if negative then Nat.pow 2 (bits - 1) else Nat.pow 2 (bits - 1) - 1
    (digitsUpTo limit 0 digits).map fun n => if negative then -(n : Int) else n

/-- The integer that a text denotes, the blanks around it aside. -/
def parseInteger (bits : Nat) (text : String) : Except NativeError Int :=
  match signedInteger bits (Text.trim text.toList) with
  | .ok n => .ok n
  | .error .format => .error (.format text)
  | .error .overflow => .error .overflow

/-- Whether a text may spell a number in digits: the exponent mark is its only letter. -/
def hasNumberLetters (cs : List Char) : Bool :=
  cs.all fun c => !c.isAlpha || c == 'e' || c == 'E'

/-- The double that a text denotes, the blanks around it aside. -/
def parseDouble (text : String) : Except NativeError Double :=
  let t := String.ofList (Text.trim text.toList)
  if t == "Infinity" || t == "∞" then .ok .infinity
  else if t == "-Infinity" || t == "-∞" then .ok .negInfinity
  else if t == "NaN" then .ok .nan
  else if hasNumberLetters t.toList then
    match Double.parse? t.toList with
    | some d => .ok d
    | none => .error (.format text)
  else .error (.format text)

/-- The truth value that a text names, in letters of any case. -/
def parseBool (text : String) : Except NativeError Bool :=
  let t := (String.ofList (Text.trim text.toList)).toLower
  if t == "true" then .ok true
  else if t == "false" then .ok false
  else .error (.format text)

/-- The integer of `bits` bits that a double rounds to, halves to even. -/
def roundToBits (bits : Nat) (d : Double) : Except NativeError Int :=
  match d.toInt? with
  | some n =>
    if fitsSigned bits n then .ok n else .error .overflow
  | none => .error .overflow

/-! ## Classes -/

def readInt : Native Unit := do
  let n ← parseInteger 32 (← Native.string 0)
  Native.give (.int (Int32.ofInt n))

def readLong : Native Unit := do
  let n ← parseInteger 64 (← Native.string 0)
  Native.give (.long (Int64.ofInt n))

def readDouble : Native Unit := do
  Native.give (.double (← parseDouble (← Native.string 0)))

def readBool : Native Unit := do
  Native.give (.bool (← parseBool (← Native.string 0)))

def showValue : Native Unit := do
  Native.give (.string (← Native.any 0).text)

def convertClass : ClassSpec where
  space := "System"
  name := "Convert"
  keyword := none
  constants := []
  functions := [
    .static "ToInt32" [.string] .int readInt,
    .static "ToInt32" [.long] .int (do
      let n := (← Native.long 0).toInt
      if fitsSigned 32 n then Native.give (.int (Int32.ofInt n))
      else Native.failWith .overflow),
    .static "ToInt32" [.double] .int (do
      Native.give (.int (Int32.ofInt (← roundToBits 32 (← Native.double 0))))),
    .static "ToInt32" [.bool] .int (do
      Native.give (.int (if ← Native.bool 0 then 1 else 0))),
    .static "ToInt64" [.string] .long readLong,
    .static "ToInt64" [.int] .long (do
      Native.give (.long (← Native.int 0).toInt64)),
    .static "ToInt64" [.double] .long (do
      Native.give (.long (Int64.ofInt (← roundToBits 64 (← Native.double 0))))),
    .static "ToDouble" [.string] .double readDouble,
    .static "ToDouble" [.int] .double (do
      Native.give (.double (.ofInt (← Native.int 0).toInt))),
    .static "ToDouble" [.long] .double (do
      Native.give (.double (.ofInt (← Native.long 0).toInt))),
    .static "ToBoolean" [.string] .bool readBool,
    .static "ToString" [.int] .string showValue,
    .static "ToString" [.long] .string showValue,
    .static "ToString" [.double] .string showValue,
    .static "ToString" [.bool] .string showValue]

def intClass : ClassSpec where
  space := "System"
  name := "Int32"
  keyword := some .int
  constants := [("MaxValue", .int Int32.maxValue), ("MinValue", .int Int32.minValue)]
  functions := [.static "Parse" [.string] .int readInt]

def longClass : ClassSpec where
  space := "System"
  name := "Int64"
  keyword := some .long
  constants := [("MaxValue", .long Int64.maxValue), ("MinValue", .long Int64.minValue)]
  functions := [.static "Parse" [.string] .long readLong]

def doubleClass : ClassSpec where
  space := "System"
  name := "Double"
  keyword := some .double
  constants := [
    ("MaxValue", .double .maxValue), ("MinValue", .double .minValue),
    ("Epsilon", .double .epsilon), ("PositiveInfinity", .double .infinity),
    ("NegativeInfinity", .double .negInfinity), ("NaN", .double .nan)]
  functions := [
    .static "Parse" [.string] .double readDouble,
    .static "IsNaN" [.double] .bool (do
      Native.give (.bool (← Native.double 0).isNaN)),
    .static "IsInfinity" [.double] .bool (do
      Native.give (.bool (← Native.double 0).isInfinite))]

def boolClass : ClassSpec where
  space := "System"
  name := "Boolean"
  keyword := some .bool
  constants := [("TrueString", .string "True"), ("FalseString", .string "False")]
  functions := [.static "Parse" [.string] .bool readBool]

end ClassScript.Standard
