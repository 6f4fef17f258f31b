import ClassScript.Regex.Reader
import ClassScript.Regex.Search
import ClassScript.Standard.Regex

/-!
An engine for regular expressions, to run the libraries with. What is proved of the libraries holds
with any other one.

In a replacement text, `$name` and `$7` stand for what a group has matched, over the longest run of
word characters; braces end a name early, and `$$` is a dollar sign.
-/

namespace ClassScript.Regex

/-! ## Replacement -/

/-- A piece of a replacement text. -/
inductive Piece where
  | text (cs : List Char)
  | numbered (i : Nat)
  | named (name : String)
deriving DecidableEq

/-- A name or a number of a group; a plus may stand before a number. -/
def reference (name : List Char) : Piece :=
  let digits := match name with
    | '+' :: ds => ds
    | ds => ds
  let n := digits.foldl (fun n c => 10 * n + (c.toNat - '0'.toNat)) 0
  if digits.isEmpty || !digits.all Char.isDigit || Nat.pow 2 64 ≤ n then .named (String.ofList name)
  else .numbered n

def isNameChar (c : Char) : Bool := c.isAlphanum || c == '_'

/-- What a dollar sign starts, and the number of characters behind it that belong to it. -/
def afterDollar (cs : List Char) : Piece × Nat :=
  match cs with
  | '$' :: _ => (.text ['$'], 1)
  | '{' :: rest =>
    let name := rest.takeWhile (· ≠ '}')
    if name.length < rest.length then (reference name, name.length + 2) else (.text ['$'], 0)
  | _ =>
    let name := cs.takeWhile isNameChar
    if name.isEmpty then (.text ['$'], 0) else (reference name, name.length)

/-- The pieces of a replacement text; `skip` characters still belong to the last one. -/
def piecesFrom : List Char → Nat → List Piece
  | [], _ => []
  | _ :: cs, skip + 1 => piecesFrom cs skip
  | c :: cs, 0 =>
    if c = '$' then
      let (piece, n) := afterDollar cs
      piece :: piecesFrom cs n
    else .text [c] :: piecesFrom cs 0

/-- What a group has matched, in the text behind a place; a group that is not there or has matched
nothing is empty. -/
def groupText (slots : Slots) (place : Nat) (rest : List Char) (i : Nat) : List Char :=
  match extent slots i with
  | some (a, b) => slice rest (a - place, b - place)
  | none => []

/-- What a piece stands for, in the text behind a place. -/
def Piece.expand (p : Pattern) (slots : Slots) (place : Nat) (rest : List Char) :
    Piece → List Char
  | .text cs => cs
  | .numbered i => groupText slots place rest i
  | .named name =>
    match p.names.lookup name with
    | some i => groupText slots place rest i
    | none => []

/-- The text behind a place, with matches replaced. -/
def substitute (p : Pattern) (pieces : List Piece) (place : Nat) (rest : List Char) :
    List Slots → List Char
  | [] => rest
  | slots :: more =>
    match extent slots 0 with
    | none => substitute p pieces place rest more
    | some (a, b) =>
      rest.take (a - place) ++ (pieces.flatMap (·.expand p slots place rest) ++
        substitute p pieces b (rest.drop (b - place)) more)

def replaceAll (p : Pattern) (text replacement : List Char) : List Char :=
  substitute p (piecesFrom replacement 0) 0 text (allMatches p.program text)

/-- Characters that mean something in a pattern. -/
def isMeta (c : Char) : Bool := "\\.+*?()|[]\x7b\x7d^$#&-~".toList.contains c

/-- A pattern that matches a text and nothing else. -/
def quoted (text : List Char) : List Char := text.flatMap fun c => if isMeta c then ['\\', c] else [c]

/-! ## The engine -/

def PatternError.message : PatternError → String
  | .malformed => "regex parse error"
  | .tooLarge => "Compiled regex exceeds size limit of " ++ toString maxRoom ++ " bytes."

def engine : Standard.PatternEngine where
  Pattern := Pattern
  compile text := (Pattern.ofText text.toList).mapError (·.message)
  isMatch p text := (firstMatch? p.program text.toList).isSome
  find? p text := (firstMatch? p.program text.toList).map fun span => .ofList (slice text.toList span)
  replaceAll p text replacement := .ofList (Regex.replaceAll p text.toList replacement.toList)
  escape text := .ofList (quoted text.toList)

end ClassScript.Regex
