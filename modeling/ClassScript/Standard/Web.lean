import ClassScript.Standard.Path
import ClassScript.Text.Utf8

/-!
Text in URLs and in HTML.
-/

namespace ClassScript.Standard

/-! ## URLs -/

namespace Url

/-- Bytes that stand for themselves. -/
def isPlain (b : UInt8) : Bool :=
  let c := Char.ofNat b.toNat
  c.isAlphanum || ['-', '_', '.', '!', '*', '(', ')'].contains c

def upperHex (n : Nat) : Char := (Nat.digitChar n).toUpper

/-- A byte as it is written: itself, a plus for a space, or an escape. -/
def encodeByte (b : UInt8) : List Char :=
  if b = 0x20 then ['+']
  else if isPlain b then [Char.ofNat b.toNat]
  else ['%', upperHex (b.toNat / 16), upperHex (b.toNat % 16)]

def encode (text : List Char) : List Char :=
  (Text.bytesOf (String.ofList text)).flatMap encodeByte

/-- The value of a hexadecimal digit. -/
def hexValue? (b : UInt8) : Option UInt8 :=
  if 0x30 ≤ b ∧ b ≤ 0x39 then some (b - 0x30)
  else if 0x61 ≤ b ∧ b ≤ 0x66 then some (b - 0x61 + 10)
  else if 0x41 ≤ b ∧ b ≤ 0x46 then some (b - 0x41 + 10)
  else none

/-- The bytes that written bytes stand for; an escape that is none stands for itself. -/
def decodeBytes : List UInt8 → List UInt8
  | [] => []
  | 0x25 :: a :: b :: rest =>
    match hexValue? a, hexValue? b with
    | some x, some y => (16 * x + y) :: decodeBytes rest
    | _, _ => 0x25 :: decodeBytes (a :: b :: rest)
  | b :: rest => (if b = 0x2b then 0x20 else b) :: decodeBytes rest

def decode (text : List Char) : List Char :=
  Text.lossy (decodeBytes (Text.bytesOf (String.ofList text)))

end Url

/-! ## HTML -/

namespace Html

def encodeChar (c : Char) : List Char :=
  if c = '&' then "&amp;".toList
  else if c = '<' then "&lt;".toList
  else if c = '>' then "&gt;".toList
  else if c = '"' then "&quot;".toList
  else if c = '\'' then "&#39;".toList
  else [c]

def encode (text : List Char) : List Char := text.flatMap encodeChar

/-- The entities with a name. -/
def named : List (List Char × Char) := [
  ("amp".toList, '&'), ("lt".toList, '<'), ("gt".toList, '>'), ("quot".toList, '"'),
  ("apos".toList, '\'')]

/-- The value of a digit in a base up to sixteen. -/
def digit? (base : Nat) (c : Char) : Option Nat :=
  let n := if c.isDigit then c.toNat - '0'.toNat
    else if 'a' ≤ c ∧ c ≤ 'f' then c.toNat - 'a'.toNat + 10
    else if 'A' ≤ c ∧ c ≤ 'F' then c.toNat - 'A'.toNat + 10
    else 16
  if n < base then some n else none

/-- The number that digits spell; a plus may stand before them. -/
def number? (base : Nat) (cs : List Char) : Option Nat :=
  let digits := match cs with
    | '+' :: ds => ds
    | ds => ds
  if digits.isEmpty then none
  else digits.foldlM (fun n c => (digit? base c).map (base * n + ·)) 0

/-- The character that the text of an entity names. -/
def entity? (name : List Char) : Option Char :=
  match named.lookup name with
  | some c => some c
  | none =>
    match name with
    | '#' :: code =>
      let n? := match code with
        | 'x' :: hex | 'X' :: hex => number? 16 hex
        | _ => number? 10 code
      match n? with
      | some n => if n.isValidChar then some (Char.ofNat n) else none
      | none => none
    | _ => none

/-- The character of the entity whose text comes, behind an ampersand and up to a semicolon, and
the number of characters that belong to it. -/
def entityAhead? (rest : List Char) : Option (Char × Nat) :=
  match rest.span (· ≠ ';') with
  | (_, []) => none
  | (name, _ :: _) => (entity? name).map fun c => (c, name.length + 1)

/-- The text with its entities replaced; `skip` characters still belong to the last one. -/
def decodeFrom : List Char → Nat → List Char
  | [], _ => []
  | _ :: cs, skip + 1 => decodeFrom cs skip
  | c :: cs, 0 =>
    if c = '&' then
      match entityAhead? cs with
      | some (e, n) => e :: decodeFrom cs n
      | none => '&' :: decodeFrom cs 0
    else c :: decodeFrom cs 0

def decode (text : List Char) : List Char := decodeFrom text 0

end Html

def webClass : ClassSpec where
  space := "System.Net"
  name := "WebUtility"
  keyword := none
  constants := []
  functions := [
    ofText "UrlEncode" Url.encode,
    ofText "UrlDecode" Url.decode,
    ofText "HtmlEncode" Html.encode,
    ofText "HtmlDecode" Html.decode]

end ClassScript.Standard
