/-!
Sets of characters, as ranges of code points.

The ranges of a set stand in order and do not touch. Surrogates are no characters: a range may go
over all of them, but none starts or ends at one.
-/

namespace ClassScript

structure CharSet where
  ranges : List (Nat × Nat)
deriving DecidableEq, Repr, Inhabited

namespace CharSet

/-- The last code point. -/
def last : Nat := 0x10ffff

/-- The code point after the one of a character. -/
def after (n : Nat) : Nat := if n = 0xd7ff then 0xe000 else n + 1

/-- The code point before the one of a character. -/
def before (n : Nat) : Nat := if n = 0xe000 then 0xd7ff else n - 1

def empty : CharSet := ⟨[]⟩

def full : CharSet := ⟨[(0, last)]⟩

def single (c : Char) : CharSet := ⟨[(c.toNat, c.toNat)]⟩

/-- Joins ranges that overlap or touch `(a, b)`, which starts first, and each other. -/
def joinFrom (a b : Nat) : List (Nat × Nat) → List (Nat × Nat)
  | [] => [(a, b)]
  | (c, d) :: rest => if c ≤ b + 1 then joinFrom a (max b d) rest else (a, b) :: joinFrom c d rest

/-- The set of the characters in any of some ranges. -/
def ofRanges (ranges : List (Nat × Nat)) : CharSet :=
  match ranges.mergeSort fun r s => r.1 ≤ s.1 with
  | [] => ⟨[]⟩
  | (a, b) :: rest => ⟨joinFrom a b rest⟩

/-! ## Questions -/

/-- Whether a number is in one of some ranges, which stand in order. -/
def covers (n : Nat) : List (Nat × Nat) → Bool
  | [] => false
  | (a, b) :: rest => if n < a then false else n ≤ b || covers n rest

def contains (s : CharSet) (c : Char) : Bool := covers c.toNat s.ranges

def isEmpty (s : CharSet) : Bool := s.ranges.isEmpty

/-- No member is beyond the first 128 characters. -/
def isAscii (s : CharSet) : Bool := s.ranges.all fun (_, b) => b < 128

/-- The member of a set that has no other. -/
def only? (s : CharSet) : Option Char :=
  match s.ranges with
  | [(a, b)] => if a = b then some (Char.ofNat a) else none
  | _ => none

/-! ## Combinations -/

def union (s t : CharSet) : CharSet := ofRanges (s.ranges ++ t.ranges)

def unions (sets : List CharSet) : CharSet := ofRanges (sets.flatMap (·.ranges))

/-- What two ranges share. -/
def overlap? (r s : Nat × Nat) : Option (Nat × Nat) :=
  let a := max r.1 s.1
  let b := min r.2 s.2
  if a ≤ b then some (a, b) else none

def inter (s t : CharSet) : CharSet := ⟨s.ranges.flatMap fun r => t.ranges.filterMap (overlap? r)⟩

/-- What one range keeps when another is taken away. -/
def without (r s : Nat × Nat) : List (Nat × Nat) :=
  match overlap? r s with
  | none => [r]
  | some (a, b) =>
    (if r.1 < a then [(r.1, before a)] else []) ++ (if b < r.2 then [(after b, r.2)] else [])

def diff (s t : CharSet) : CharSet :=
  ⟨t.ranges.foldl (fun kept r => kept.flatMap fun k => without k r) s.ranges⟩

def symDiff (s t : CharSet) : CharSet := (s.union t).diff (s.inter t)

/-- The gaps between ranges, the first of which starts behind `n`, and the one up to the end. Two
ranges with nothing but surrogates between them leave the two characters around these. -/
def gapsAfter (n : Nat) : List (Nat × Nat) → List (Nat × Nat)
  | [] => if n < last then [(after n, last)] else []
  | (a, b) :: rest => (min (after n) (before a), max (after n) (before a)) :: gapsAfter b rest

/-- The characters that are not in the set. -/
def complement (s : CharSet) : CharSet :=
  match s.ranges with
  | [] => full
  | (a, b) :: rest => ⟨(if 0 < a then [(0, before a)] else []) ++ gapsAfter b rest⟩

/-! ## Sets as text -/

/-- Numbers written with letters, in base 26: an upper-case letter is a digit that more digits
follow, a lower-case letter the last digit of a number. `n` holds the digits so far. -/
def numbersFrom (n : Nat) : List Char → List Nat
  | [] => []
  | c :: cs =>
    if c.isUpper then numbersFrom (26 * n + (c.toNat - 'A'.toNat)) cs
    else (26 * n + (c.toNat - 'a'.toNat)) :: numbersFrom 0 cs

/-- Ranges from gaps and sizes in turn, behind the code points below `n`. A size is one less than
the number of code points. -/
def rangesFrom (n : Nat) : List Nat → List (Nat × Nat)
  | gap :: size :: rest => (n + gap, n + gap + size) :: rangesFrom (n + gap + size + 1) rest
  | _ => []

/-- The set that a text of gaps and sizes stands for. -/
def ofText (text : String) : CharSet := ⟨rangesFrom 0 (numbersFrom 0 text.toList)⟩

end CharSet
end ClassScript
