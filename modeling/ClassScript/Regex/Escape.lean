import ClassScript.Regex.Flags
import ClassScript.Regex.Node

/-!
Escapes: what a backslash and the characters behind it stand for.

A verbose pattern may hold blanks and comments inside of an escape too, behind its letter and
between the characters of a number or a name.
-/

namespace ClassScript.Regex

/-- What an escape stands for. -/
inductive Escape where
  | char (c : Char)
  | set (s : CharSet)
  | place (p : Place)

/-! ## Characters of an escape -/

/-- The characters up to a closing brace, and the pattern behind it. -/
def braced? (f : Flags) (cs : List Char) : Option (List Char × List Char) :=
  match _ : f.skip cs with
  | [] => none
  | c :: rest =>
    if c = '}' then some ([], rest)
    else (braced? f rest).map fun (name, rest) => (c :: name, rest)
termination_by cs.length
decreasing_by
  have := f.length_skip_le cs
  simp_all only [List.length_cons]
  omega

/-- The next `n` characters, and the pattern behind them. -/
def take? (f : Flags) : Nat → List Char → Option (List Char × List Char)
  | 0, cs => some ([], cs)
  | n + 1, cs =>
    match f.skip cs with
    | [] => none
    | c :: rest => (take? f n rest).map fun (taken, rest) => (c :: taken, rest)

/-! ## Numbers -/

def hexValue? (c : Char) : Option Nat :=
  if c.isDigit then some (c.toNat - '0'.toNat)
  else if 'a' ≤ c ∧ c ≤ 'f' then some (c.toNat - 'a'.toNat + 10)
  else if 'A' ≤ c ∧ c ≤ 'F' then some (c.toNat - 'A'.toNat + 10)
  else none

/-- The character with the number that hexadecimal digits spell. -/
def charOfHex? (digits : List Char) : Option Char :=
  if digits.isEmpty then none
  else
    match digits.foldlM (fun n c => (hexValue? c).map (16 * n + ·)) 0 with
    | some n => if n.isValidChar then some (Char.ofNat n) else none
    | none => none

/-- Hexadecimal digits: `n` of them, or any number in braces. Two digits without braces are a byte,
which is a character by itself only below 128. -/
def hexEscape? (f : Flags) (n : Nat) (cs : List Char) : Option (Escape × List Char) :=
  match f.skip cs with
  | '{' :: rest =>
    match braced? f rest with
    | some (digits, rest) => (charOfHex? digits).map fun c => (.char c, rest)
    | none => none
  | cs =>
    match take? f n cs with
    | some (digits, rest) =>
      match charOfHex? digits with
      | some c => if !f.unicode && n == 2 && 128 ≤ c.toNat then none else some (.char c, rest)
      | none => none
    | none => none

/-! ## Sets -/

/-- The two sides of the first place of a mark. -/
def cutAt? (mark : List Char) : List Char → Option (List Char × List Char)
  | [] => none
  | c :: cs =>
    if mark.isPrefixOf (c :: cs) then some ([], (c :: cs).drop mark.length)
    else (cutAt? mark cs).map fun (left, right) => (c :: left, right)

/-- The set of a property and a value. -/
def propertyValue? (property value : List Char) : Option CharSet :=
  Unicode.valued? (Unicode.looseName property) (Unicode.looseName value)

/-- The set that stands in braces behind `\p`, and whether an unequal sign asks for the rest. -/
def propertySet? (name : List Char) : Option (CharSet × Bool) :=
  match cutAt? ['!', '='] name with
  | some (property, value) => (propertyValue? property value).map (·, true)
  | none =>
    match cutAt? [':'] name <|> cutAt? ['='] name with
    | some (property, value) => (propertyValue? property value).map (·, false)
    | none => (Unicode.named? (Unicode.looseName name)).map (·, false)

/-- The set of a property, from the pattern behind `\p`; `negated` is set for `\P`. -/
def propertyEscape? (f : Flags) (negated : Bool) (cs : List Char) : Option (Escape × List Char) :=
  if !f.unicode then none
  else
    let finish (s : CharSet) (negated : Bool) (rest : List Char) :=
      (f.finish? negated s).map fun s => (Escape.set s, rest)
    match f.skip cs with
    | '{' :: rest =>
      match braced? f rest with
      | some (name, rest) =>
        match propertySet? name with
        | some (s, unequal) => finish s (negated != unequal) rest
        | none => none
      | none => none
    | '\\' :: _ | [] => none
    | c :: rest =>
      match Unicode.named? (Unicode.looseName [c]) with
      | some s => finish s negated rest
      | none => none

/-- The sets with a letter of their own: digits, blanks and characters of words. -/
def letterSet (unicode : Bool) (c : Char) : CharSet :=
  match c.toLower, unicode with
  | 'd', true => Unicode.digits
  | 'd', false => ⟨[(48, 57)]⟩
  | 's', true => Unicode.spaces
  | 's', false => ⟨[(9, 13), (32, 32)]⟩
  | _, u => wordSet u

/-- A set with a letter of its own; the upper-case letter stands for the complement. -/
def letterEscape? (f : Flags) (c : Char) : Option Escape :=
  let s := letterSet f.unicode c
  if c.isLower then some (.set s) else if f.unicode then some (.set s.complement) else none

/-! ## Places -/

def isPlaceNameChar (c : Char) : Bool := c.isAlpha || c == '-'

/-- The word places with a name in braces behind `\b`. -/
def wordPlace? (u : Bool) (name : List Char) : Option Place :=
  if name = "start".toList then some (.wordStart u)
  else if name = "end".toList then some (.wordEnd u)
  else if name = "start-half".toList then some (.wordStartHalf u)
  else if name = "end-half".toList then some (.wordEndHalf u)
  else none

/-- A word place, from the pattern behind `\b`. A brace that no name follows belongs to what comes
next. -/
def boundaryEscape? (f : Flags) (cs : List Char) : Option (Escape × List Char) :=
  let plain := some (Escape.place (.wordBoundary f.unicode), cs)
  match cs with
  | '{' :: rest =>
    match f.skip rest with
    | [] => none
    | c :: _ =>
      if !isPlaceNameChar c then plain
      else
        match braced? f rest with
        | some (name, rest) => (wordPlace? f.unicode name).map fun p => (.place p, rest)
        | none => none
  | _ => plain

/-! ## All escapes -/

/-- An escape, from the pattern behind the backslash. -/
def escape? (f : Flags) : List Char → Option (Escape × List Char)
  | [] => none
  | c :: rest =>
    match c with
    | 'a' => some (.char '\x07', rest)
    | 'f' => some (.char '\x0c', rest)
    | 't' => some (.char '\t', rest)
    | 'n' => some (.char '\n', rest)
    | 'r' => some (.char '\r', rest)
    | 'v' => some (.char '\x0b', rest)
    | 'd' | 's' | 'w' | 'D' | 'S' | 'W' => (letterEscape? f c).map (·, rest)
    | 'p' => propertyEscape? f false rest
    | 'P' => propertyEscape? f true rest
    | 'A' => some (.place .textStart, rest)
    | 'z' => some (.place .textEnd, rest)
    | 'B' => some (.place (.noWordBoundary f.unicode), rest)
    | '<' => some (.place (.wordStart f.unicode), rest)
    | '>' => some (.place (.wordEnd f.unicode), rest)
    | 'b' => boundaryEscape? f rest
    | 'x' => hexEscape? f 2 rest
    | 'u' => hexEscape? f 4 rest
    | 'U' => hexEscape? f 8 rest
    | c => if c.toNat < 128 && !c.isAlphanum then some (.char c, rest) else none

end ClassScript.Regex
