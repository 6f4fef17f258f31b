import ClassScript.Unicode.Property

/-!
Regular expressions as trees.

Trees are made by functions that keep them small: literals that follow each other are one, nested
sequences and alternatives are flat, alternatives of single characters are a set, and parts that
match the empty text alone are not repeated. What an expression matches does not depend on this;
how large it is does.
-/

namespace ClassScript.Regex

/-! ## Places -/

/-- Characters that words are made of: those of all scripts, or letters, digits and the underscore
of the first 128 characters alone. -/
def wordSet (unicode : Bool) : CharSet :=
  if unicode then Unicode.wordChars else ⟨[(48, 57), (65, 90), (95, 95), (97, 122)]⟩

def isWordChar (unicode : Bool) (c : Char) : Bool := (wordSet unicode).contains c

/-- Places in a text that a pattern can ask for: its ends, line ends, and the ends of words. -/
inductive Place where
  | textStart
  | textEnd
  | lineStart
  | lineEnd
  /-- Line ends that are a carriage return, a line feed, or both in this order. -/
  | lineStartAny
  | lineEndAny
  | wordBoundary (unicode : Bool)
  | noWordBoundary (unicode : Bool)
  | wordStart (unicode : Bool)
  | wordEnd (unicode : Bool)
  | wordStartHalf (unicode : Bool)
  | wordEndHalf (unicode : Bool)
deriving DecidableEq, Inhabited

/-- Whether a place is between two characters; none is beyond the ends of the text. -/
def Place.holds (before after : Option Char) : Place → Bool
  | textStart => before.isNone
  | textEnd => after.isNone
  | lineStart => before.isNone || before == some '\n'
  | lineEnd => after.isNone || after == some '\n'
  | lineStartAny => before.isNone || before == some '\n' ||
      (before == some '\r' && after != some '\n')
  | lineEndAny => after.isNone || after == some '\r' ||
      (after == some '\n' && before != some '\r')
  | wordBoundary u => before.any (isWordChar u) != after.any (isWordChar u)
  | noWordBoundary u => before.any (isWordChar u) == after.any (isWordChar u)
  | wordStart u => !before.any (isWordChar u) && after.any (isWordChar u)
  | wordEnd u => before.any (isWordChar u) && !after.any (isWordChar u)
  | wordStartHalf u => !before.any (isWordChar u)
  | wordEndHalf u => !after.any (isWordChar u)

/-! ## Trees -/

inductive Node where
  | empty
  | literal (cs : List Char)
  /-- One character of a set, none if the set is empty. `ascii` tells that the set was written
  where characters are the first 128 alone. -/
  | set (s : CharSet) (ascii : Bool)
  | place (p : Place)
  /-- A part whose extent is kept, under a number. -/
  | group (index : Nat) (n : Node)
  | sequence (ns : List Node)
  /-- The first one that leads to a match. -/
  | choice (ns : List Node)
  | repeated (n : Node) (least : Nat) (most : Option Nat) (greedy : Bool)
deriving Inhabited

namespace Node

/-! ## What an expression takes -/

mutual

/-- The number of characters that an expression takes at least; none if it matches nothing. -/
def leastLength? : Node → Option Nat
  | empty => some 0
  | literal cs => some cs.length
  | set s _ => if s.isEmpty then none else some 1
  | place _ => some 0
  | group _ n => n.leastLength?
  | sequence ns => leastOfAll? ns
  | choice ns => leastOfAny? ns
  | repeated n least _ _ => n.leastLength?.map (· * least)

def leastOfAll? : List Node → Option Nat
  | [] => some 0
  | n :: ns =>
    match n.leastLength?, leastOfAll? ns with
    | some a, some b => some (a + b)
    | _, _ => none

/-- None as soon as one of the expressions matches nothing. -/
def leastOfAny? : List Node → Option Nat
  | [] => none
  | [n] => n.leastLength?
  | n :: ns =>
    match n.leastLength?, leastOfAny? ns with
    | some a, some b => some (min a b)
    | _, _ => none

end

/-- Whether an expression takes a character in every match. -/
def takesSome (n : Node) : Bool := n.leastLength?.any (0 < ·)

mutual

/-- Whether an expression matches the empty text and nothing else. -/
def takesNone : Node → Bool
  | empty | place _ => true
  | literal _ | set _ _ => false
  | group _ n => n.takesNone
  | sequence ns => takeNone ns
  | choice ns => takeNone ns
  | repeated n _ most _ => most.isSome && (n.takesNone || most == some 0)

def takeNone : List Node → Bool
  | [] => true
  | n :: ns => n.takesNone && takeNone ns

end

/-! ## Where an expression can stand -/

mutual

/-- Whether an expression asks for the start of the text before it takes a character. -/
def opensText : Node → Bool
  | empty | literal _ | set _ _ => false
  | place p => p == .textStart
  | group _ n => n.opensText
  | sequence ns => firstOpensText ns
  | choice ns => allOpenText ns
  | repeated n least _ _ => 0 < least && n.opensText

def firstOpensText : List Node → Bool
  | [] => false
  | n :: ns => n.opensText || (n.takesNone && firstOpensText ns)

def allOpenText : List Node → Bool
  | [] => true
  | n :: ns => n.opensText && allOpenText ns

end

mutual

/-- Whether an expression asks for the end of the text after the last character it takes. -/
def closesText : Node → Bool
  | empty | literal _ | set _ _ => false
  | place p => p == .textEnd
  | group _ n => n.closesText
  | sequence ns => (lastClosesText ns).1
  | choice ns => allCloseText ns
  | repeated n least _ _ => 0 < least && n.closesText

/-- The same of expressions one behind the other, and whether they match the empty text alone. -/
def lastClosesText : List Node → Bool × Bool
  | [] => (false, true)
  | n :: ns =>
    let (closes, empty_) := lastClosesText ns
    (closes || (empty_ && n.closesText), empty_ && n.takesNone)

def allCloseText : List Node → Bool
  | [] => true
  | n :: ns => n.closesText && allCloseText ns

end

/-! ## Equality -/

mutual

/-- Whether two expressions are the same tree. -/
def same : Node → Node → Bool
  | empty, empty => true
  | literal a, literal b => a == b
  | set s a, set t b => s == t && a == b
  | place p, place q => p == q
  | group i m, group j n => i == j && m.same n
  | sequence ms, sequence ns => allSame ms ns
  | choice ms, choice ns => allSame ms ns
  | repeated m a b g, repeated n c d h => a == c && b == d && g == h && m.same n
  | _, _ => false

def allSame : List Node → List Node → Bool
  | [], [] => true
  | m :: ms, n :: ns => m.same n && allSame ms ns
  | _, _ => false

end

/-! ## Making expressions -/

/-- An expression that matches nothing. -/
def never : Node := set .empty true

/-- One character of a set. -/
def ofSet (s : CharSet) (ascii : Bool) : Node :=
  if s.isEmpty then never
  else
    match s.only? with
    | some c => literal [c]
    | none => set s ascii

/-- From `least` to `most` rounds of an expression. More than one round of what takes no character
is one. -/
def rounds (n : Node) (least : Nat) (most : Option Nat) (greedy : Bool) : Node :=
  let (least, most) :=
    if n.takesNone then (min least 1, some (min (most.getD 1) 1)) else (least, most)
  if most == some 0 then empty
  else if least == 1 && most == some 1 then n
  else repeated n least most greedy

/-- The parts of a sequence, or an expression as the only part. -/
def parts : Node → List Node
  | empty => []
  | sequence ns => ns
  | n => [n]

/-- Joins literals that follow each other. -/
def joinLiterals : List Node → List Node
  | [] => []
  | literal a :: ns =>
    match joinLiterals ns with
    | literal b :: rest => literal (a ++ b) :: rest
    | rest => literal a :: rest
  | n :: ns => n :: joinLiterals ns

/-- Expressions one behind the other. -/
def inSequence (ns : List Node) : Node :=
  match joinLiterals (ns.flatMap parts) with
  | [] => empty
  | [n] => n
  | ns => sequence ns

/-- The alternatives of an expression. -/
def alternatives : Node → List Node
  | choice ns => ns
  | n => [n]

/-- The character that an expression matches and nothing else. -/
def onlyChar? : Node → Option Char
  | literal [c] => some c
  | _ => none

/-- The set that an expression takes one character of. -/
def onlySet? : Node → Option CharSet
  | set s _ => some s
  | _ => none

/-- The first one of some alternatives; those of one character each are a set. -/
def oneOf (ns : List Node) : Node :=
  match ns.flatMap alternatives with
  | [] => never
  | [n] => n
  | ns =>
    match ns.mapM onlyChar? with
    | some cs => ofSet (.ofRanges (cs.map fun c => (c.toNat, c.toNat))) false
    | none =>
      match ns.mapM onlySet? with
      | some sets => ofSet (.unions sets) false
      | none => choice ns

/-- The parts that two lists have in common at the front. -/
def commonFront : List Node → List Node → List Node
  | m :: ms, n :: ns => if m.same n then m :: commonFront ms ns else []
  | _, _ => []

/-- The parts of a sequence that is one. -/
def sequence? : Node → Option (List Node)
  | sequence ns => some ns
  | _ => none

/-- What sequences have in common at the front, if it is something. -/
def sharedFront? (ns : List Node) : Option (List Node) :=
  match ns.mapM sequence? with
  | some (first :: rest) =>
    let front := rest.foldl commonFront first
    if front.isEmpty then none else some front
  | _ => none

/-- The first one of some alternatives. What all of them start with stands before the choice. -/
def firstOf (ns : List Node) : Node :=
  match oneOf ns with
  | choice ns =>
    match sharedFront? ns with
    | some front =>
      inSequence (front ++ [oneOf (ns.map fun n => inSequence (n.parts.drop front.length))])
    | none => choice ns
  | n => n

end Node

/-- An expression with its groups: how many there are, and the names that some of them have. -/
structure Pattern where
  node : Node
  groups : Nat
  names : List (String × Nat)
deriving Inhabited

end ClassScript.Regex
