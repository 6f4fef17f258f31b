import ClassScript.CharSet
import ClassScript.Regex.Node
import Std.Data.HashMap

/-!
The room that the automata of a pattern take, which is limited.

A pattern has two automata over bytes, one that goes forward and keeps the extents of groups, and
one that goes backward and keeps none. A state takes 32 bytes. An arrow of a state with several
arrows takes 8 more, and a way on from a state that branches takes 4 more. States have numbers in
the order in which they are added.
-/

namespace ClassScript.Regex

/-!
## Sets of characters as sets of byte sequences

In UTF-8 the characters of a range are the sequences of a few lists of byte ranges: every choice of
one byte from each range of a list is a character.
-/

/-- Bytes from the first to the second. -/
abbrev ByteRange := Nat × Nat

/-- The numbers from `a` to `b` by their digits in base 64, of which the first may be larger: lists
of digit ranges, in order. `k` digits follow the first one. -/
def digitRanges : Nat → Nat → Nat → List (List (Nat × Nat))
  | 0, a, b => [[(a, b)]]
  | k + 1, a, b =>
    let size := Nat.pow 64 (k + 1)
    let (first, last) := (a / size, b / size)
    if first = last then
      (digitRanges k (a % size) (b % size)).map ((first, first) :: ·)
    else
      let startsEven := a % size == 0
      let endsEven := b % size == size - 1
      let front :=
        if startsEven then []
        else (digitRanges k (a % size) (size - 1)).map ((first, first) :: ·)
      let back := if endsEven then [] else (digitRanges k 0 (b % size)).map ((last, last) :: ·)
      let (m, n) := (if startsEven then first else first + 1, if endsEven then last + 1 else last)
      let middle := if m < n then [(m, n - 1) :: List.replicate (k + 1) (0, 63)] else []
      front ++ middle ++ back

/-- The bytes for the digits of a character. -/
def bytesOfDigits (lead : Nat) : List (Nat × Nat) → List ByteRange
  | [] => []
  | (a, b) :: rest => (lead + a, lead + b) :: rest.map fun (c, d) => (0x80 + c, 0x80 + d)

/-- Code points that take equally many bytes, how many follow the first byte, and where first bytes
start. -/
def byteLengths : List ((Nat × Nat) × Nat × Nat) := [
  ((0, 0x7f), 0, 0), ((0x80, 0x7ff), 1, 0xc0), ((0x800, 0xd7ff), 2, 0xe0),
  ((0xe000, 0xffff), 2, 0xe0), ((0x10000, 0x10ffff), 3, 0xf0)]

/-- The byte sequences of a range of characters. -/
def byteSequences (range : Nat × Nat) : List (List ByteRange) :=
  byteLengths.flatMap fun (bounds, following, lead) =>
    match CharSet.overlap? range bounds with
    | some (a, b) => (digitRanges following a b).map (bytesOfDigits lead)
    | none => []

/-- The byte sequences of a set, in order. -/
def setSequences (s : CharSet) : List (List ByteRange) := s.ranges.flatMap byteSequences

/-! ## Room -/

/-- What was built: the number of states, and the room that all takes. -/
structure Footprint where
  states : Nat
  room : Nat
deriving Inhabited

/-- The room that an automaton may take. -/
def maxRoom : Nat := 10485760

/-- Building, which ends where the room does. -/
abbrev Building := StateT Footprint Option

/-- Takes room for ways on from a state. -/
def takeRoom (n : Nat) : Building Unit := fun s =>
  if s.room + n ≤ maxRoom then some ((), { s with room := s.room + n }) else none

/-- Adds states. -/
def addStates (n : Nat) : Building Unit := do
  takeRoom (32 * n)
  modify fun s => { s with states := s.states + n }

/-- Adds a state with some arrows, or one that needs none, and gives its number. -/
def addState (arrows : Nat) : Building Nat := do
  let number := (← get).states
  addStates 1
  takeRoom (8 * arrows)
  pure number

/-- Leads from the end of a part to a state; `branches` tells that the end is a state that
branches. -/
def leadOn (branches : Bool) : Building Unit := takeRoom (if branches then 4 else 0)

/-! ## Sets -/

/-- The slot of a table for a list of numbers, by their FNV-1a hash of 64 bits, for which each number
is one unit. -/
def slotOf (slots : Nat) (ns : List Nat) : Nat :=
  let hash : UInt64 :=
    ns.foldl (fun h n => (h ^^^ n.toUInt64) * 1099511628211) 14695981039346656037
  hash.toNat % slots

/-- States that can be used again, by what leads on from them. Every slot keeps the last one. -/
abbrev Known := Std.HashMap Nat (List Nat × Nat)

/-- The state with this description, which is added if it is not known. -/
def stateFor (slots arrows : Nat) (description : List Nat) : StateT Known Building Nat := do
  let slot := slotOf slots description
  match (← get)[slot]? with
  | some (known, number) =>
    if known = description then return number
    else remember slot
  | none => remember slot
where
  remember (slot : Nat) : StateT Known Building Nat := do
    let number ← addState arrows
    modify (·.insert slot (description, number))
    pure number

/-- The state that byte sequences start from, of which none is the start of another one, and all
lead to the state `target`. The states they end with are shared. `fuel` is the length of the longest
sequence. -/
def forwardState (target : Nat) : Nat → List (List ByteRange) → StateT Known Building Nat
  | 0, _ => pure target
  | fuel + 1, sequences =>
    match sequences with
    | [[]] => pure target
    | sequences => do
      let groups := sequences.splitBy fun a b => a.head? == b.head?
      let arrows ← groups.mapM fun group => do
        let next ← forwardState target fuel (group.map List.tail)
        let (first, last) := (group.head?.bind List.head?).getD (0, 0)
        pure [first, last, next]
      stateFor 10000 arrows.length arrows.flatten

/-- The states of a byte sequence, from its first byte on, each of which leads to the one before. -/
def backwardStates (start : Nat) : List ByteRange → StateT Known Building Unit
  | [] => pure ()
  | (first, last) :: rest => do
    let number ← stateFor 1000 0 [start, first, last]
    backwardStates number rest

/-- One character of a set. -/
def buildSet (backward : Bool) (s : CharSet) : Building Unit := do
  if s.isAscii then
    addStates 1
    let _ ← addState s.ranges.length
  else if backward then
    addStates 1
    let target ← addState 0
    let each (sequence : List ByteRange) : StateT Known Building Unit := do
      backwardStates target sequence
      takeRoom 4
    let _ ← (setSequences s).forM each |>.run ∅
  else
    let target ← addState 0
    let _ ← (forwardState target 4 (setSequences s)).run ∅

/-! ## Literals -/

/-- The bytes of a text. -/
def literalBytes (cs : List Char) : List Nat :=
  cs.flatMap fun c => (String.utf8EncodeChar c).map (·.toNat)

/-- The bytes that an expression matches and nothing else. -/
def literalBytes? : Node → Option (List Nat)
  | .literal cs => some (literalBytes cs)
  | _ => none

/-- Words by their first byte, without it. -/
def byFirstByte (words : List (List Nat)) : List (List (List Nat)) :=
  (words.filterMap List.head?).eraseDups.map fun b =>
    words.filterMap fun
      | c :: rest => if c = b then some rest else none
      | [] => none

/-- The words between those that end here. Some that end here before all others are one. -/
def betweenEnds (words : List (List Nat)) : List (List (List Nat)) :=
  let rest := words.dropWhile List.isEmpty
  let parts := rest.splitOnP List.isEmpty
  if rest.length < words.length then [] :: parts else parts

/-- A tree of words, with a state that branches for every beginning of a word that goes on. The
words between two that end here have a state of their own. `fuel` is more than the length of the
longest word. -/
def buildTree : Nat → List (List Nat) → Building Unit
  | 0, _ => pure ()
  | fuel + 1, words => do
    if !words.all List.isEmpty then
      let parts := betweenEnds words
      takeRoom (4 * (parts.length - 1))
      parts.forM fun part => do
        let groups := byFirstByte part
        if !groups.isEmpty then
          let _ ← addState (if groups.length = 1 then 0 else groups.length)
          takeRoom 4
        groups.forM (buildTree fuel)
      addStates 1

/-! ## Expressions -/

/-- `n` copies of a part, one behind the other, behind an end. -/
def buildCopies (part : Building Bool) : Nat → Bool → Building Bool
  | 0, branches => pure branches
  | n + 1, branches => do
    let next ← part
    leadOn branches
    buildCopies part n next

/-- `n` copies of a part, with nothing in front of them. -/
def buildExactly (part : Building Bool) (n : Nat) : Building Bool := do
  if n = 0 then addStates 1
  buildCopies part n false

/-- Up to `n` copies of a part behind an end, each of which may be the last one. -/
def buildUpTo (part : Building Bool) : Nat → Bool → Building Unit
  | 0, branches => leadOn branches
  | n + 1, branches => do
    addStates 1
    let next ← part
    leadOn branches
    takeRoom 8
    buildUpTo part n next

/-- `n` copies of a part or more. -/
def buildAtLeast (part : Building Bool) (takesSome : Bool) : Nat → Building Bool
  | 0 =>
    if takesSome then do
      addStates 1
      let branches ← part
      takeRoom 4
      leadOn branches
      pure true
    else do
      let branches ← part
      leadOn branches
      addStates 3
      takeRoom 16
      pure false
  | n + 1 => do
    let before ← if n = 0 then pure false else buildExactly part n
    let branches ← part
    addStates 1
    leadOn before
    leadOn branches
    takeRoom 4
    pure true

/-- A repetition of a part. -/
def buildRepeated (part : Building Bool) (takesSome : Bool) (least : Nat) :
    Option Nat → Building Bool
  | none => buildAtLeast part takesSome least
  | some most => do
    if least = 0 && most = 1 then
      addStates 1
      let branches ← part
      addStates 1
      takeRoom 8
      leadOn branches
      pure false
    else
      let branches ← buildExactly part least
      if least < most then
        addStates 1
        buildUpTo part (most - least) branches
        pure false
      else pure branches

mutual

/-- The states of an expression; tells whether the last one branches. -/
def buildNode (backward : Bool) : Node → Building Bool
  | .empty | .place _ => do
    addStates 1
    pure false
  | .literal cs => do
    addStates (literalBytes cs).length
    pure false
  | .set s _ => do
    buildSet backward s
    pure false
  | .group _ n =>
    if backward then buildNode backward n
    else do
      addStates 1
      let branches ← buildNode backward n
      addStates 1
      leadOn branches
      pure false
  | .sequence ns => buildSequence backward ns
  | .choice ns =>
    match ns.mapM literalBytes? with
    | some words => do
      addStates 1
      buildTree ((words.map List.length).foldl max 0 + 1)
        (if backward then words.map List.reverse else words)
      pure false
    | none => buildChoice backward ns
  | .repeated n least most _ => buildRepeated (buildNode backward n) n.takesSome least most

/-- Expressions one behind the other, the last one first when going backward. -/
def buildSequence (backward : Bool) : List Node → Building Bool
  | [] => do
    addStates 1
    pure false
  | [n] => buildNode backward n
  | n :: ns =>
    if backward then do
      let before ← buildSequence backward ns
      let branches ← buildNode backward n
      leadOn before
      pure branches
    else do
      let before ← buildNode backward n
      leadOn before
      buildSequence backward ns

/-- Alternatives. The states that they start from and lead to come behind the second one. -/
def buildChoice (backward : Bool) : List Node → Building Bool
  | [] => do
    addStates 1
    pure false
  | [n] => buildNode backward n
  | m :: n :: ns => do
    let first ← buildNode backward m
    let second ← buildNode backward n
    addStates 2
    takeRoom 8
    leadOn first
    leadOn second
    buildMore backward ns
    pure false

/-- Alternatives behind the second one. -/
def buildMore (backward : Bool) : List Node → Building Unit
  | [] => pure ()
  | n :: ns => do
    let branches ← buildNode backward n
    takeRoom 4
    leadOn branches
    buildMore backward ns

end

/-! ## Patterns -/

/-- What comes in front of a pattern: any bytes, unless it stands at an end of the text. -/
def buildFront (anchored : Bool) : Building Unit := do
  if anchored then addStates 1
  else
    addStates 3
    takeRoom 16

/-- The automaton that goes backward, or the one that goes forward. -/
def Pattern.build (p : Pattern) (backward : Bool) : Building Unit := do
  buildFront (if backward then p.node.closesText else p.node.opensText)
  let branches ← buildNode backward (.group 0 p.node)
  addStates 1
  leadOn branches

/-- Many literals, and nothing besides, need no automaton. -/
def Node.isWordList : Node → Bool
  | .choice ns => 3000 ≤ ns.length && ns.all fun n => (literalBytes? n).isSome
  | _ => false

/-- Whether there is room for a pattern. -/
def Pattern.fits (p : Pattern) : Bool :=
  p.node.isWordList || [false, true].all fun backward => ((p.build backward).run ⟨0, 0⟩).isSome

end ClassScript.Regex
