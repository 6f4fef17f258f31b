import ClassScript.Regex.Bracketed
import ClassScript.Regex.Footprint

/-!
Reading patterns.

The reader goes over the pattern once. Open groups wait on a stack, each with the branches that are
complete and the items of the branch being read. With every item comes its depth, the number of
groups, repetitions, sets, sequences and choices that stand inside of each other. A pattern that is
malformed or too deep gives nothing.
-/

namespace ClassScript.Regex

/-! ## Names of groups -/

/-- Letters that edition 17 of the character properties has and edition 16 has not. -/
def newLetters : CharSet :=
  .ofText
    "DGhaBLkaExaCGRpbcabaBcaBKWczCBjcBybESahWmBrBEPgycyLaeJCjhBXpvDtEkBHQjBebvibDAWgfIWglBGFaGJh"

/-- Numbers that edition 17 has and edition 16 has not. -/
def newNumbers : CharSet := .ofText "EEGujBFBuc"

def letters : CharSet := (Unicode.setOf "Alphabetic").union newLetters

def numbers : CharSet := (Unicode.setOf "Number").union newNumbers

def startsName (c : Char) : Bool := c == '_' || letters.contains c

def continuesName (c : Char) : Bool :=
  startsName c || c == '.' || c == '[' || c == ']' || numbers.contains c

/-- The name of a group, which is not empty. -/
def isGroupName : List Char → Bool
  | [] => false
  | c :: cs => startsName c && cs.all continuesName

/-! ## Numbers of rounds -/

/-- Decimal digits and the pattern behind them; a verbose pattern may hold blanks between them.
`n` is the number so far, if there were digits. -/
def digitsFrom (f : Flags) (n : Option Nat) (cs : List Char) : Option Nat × List Char :=
  match cs with
  | [] => (n, [])
  | c :: rest =>
    if c.isDigit then digitsFrom f (some (10 * n.getD 0 + (c.toNat - '0'.toNat))) (f.skip rest)
    else (n, cs)
termination_by cs.length
decreasing_by
  have := f.length_skip_le rest
  simp only [List.length_cons]
  omega

/-- A decimal number below two to the thirty-second, with blanks around it. -/
def decimal? (f : Flags) (cs : List Char) : Option (Nat × List Char) :=
  match digitsFrom f none (cs.dropWhile Text.isBlank) with
  | (some n, rest) => if n < Nat.pow 2 32 then some (n, rest.dropWhile Text.isBlank) else none
  | (none, _) => none

/-! ## Items -/

/-- A part of a pattern, which is none where flags change, and its depth. -/
structure Item where
  node : Option Node
  depth : Nat
deriving Inhabited

/-- An item that is not too deep. -/
def Item.ofDepth? (node : Node) (depth : Nat) : Option Item :=
  if depth ≤ maxDepth then some ⟨some node, depth⟩ else none

/-- The depth of items that are joined if there are two of them or more. -/
def joinedDepth : List Item → Nat
  | [] => 0
  | [i] => i.depth
  | is => is.foldl (fun d i => max d i.depth) 0 + 1

/-- Items one behind the other; the last one comes first. -/
def sequenceItem (items : List Item) : Item :=
  ⟨some (Node.inSequence (items.reverse.filterMap (·.node))), joinedDepth items⟩

/-- An open group. -/
structure Frame where
  /-- The number of a group whose extent is kept. -/
  index : Option Nat
  /-- The flags outside of the group. -/
  outside : Flags
  /-- The branches that are complete, the last first. -/
  branches : List Item
  /-- The items of the branch being read, the last first. -/
  items : List Item
deriving Inhabited

namespace Frame

def open_ (index : Option Nat) (outside : Flags) : Frame := ⟨index, outside, [], []⟩

def push (s : Frame) (i : Item) : Frame := { s with items := i :: s.items }

/-- Ends the branch being read. -/
def branch (s : Frame) : Frame :=
  { s with branches := sequenceItem s.items :: s.branches, items := [] }

/-- All branches, with the items as the last one. -/
def body (s : Frame) : Item :=
  let branches := s.branch.branches
  ⟨some (Node.firstOf (branches.reverse.filterMap (·.node))), joinedDepth branches⟩

/-- The group as an item. -/
def closed? (s : Frame) : Option Item :=
  let body := s.body
  let node := body.node.getD .empty
  let node := match s.index with
    | some i => .group i node
    | none => node
  Item.ofDepth? node (body.depth + 1)

end Frame

/-- A pattern as far as it was read. -/
structure Reading where
  rest : List Char
  flags : Flags
  top : Frame
  outer : List Frame
  groups : Nat
  names : List (String × Nat)

namespace Reading

/-- Adds an item and goes on behind it. -/
def item (s : Reading) (i : Item) (rest : List Char) : Reading :=
  { s with top := s.top.push i, rest := rest }

/-- Adds an item that has no parts. -/
def leaf (s : Reading) (n : Node) (rest : List Char) : Reading := s.item ⟨some n, 0⟩ rest

/-! ## Groups -/

/-- Opens a group. -/
def openGroup (s : Reading) (index : Option Nat) (flags : Flags) (rest : List Char) : Reading :=
  { s with
    rest := rest, flags := flags, top := .open_ index s.flags, outer := s.top :: s.outer
    groups := s.groups + if index.isSome then 1 else 0 }

/-- Opens a group with a name, from the pattern behind its angle bracket. -/
def openNamed? (s : Reading) (cs : List Char) : Option Reading :=
  let name := cs.takeWhile (· ≠ '>')
  let text := String.ofList name
  match cs.drop name.length with
  | [] => none
  | _ :: rest =>
    if isGroupName name && (s.names.lookup text).isNone then
      let n := s.groups + 1
      some { s.openGroup (some n) s.flags rest with names := (text, n) :: s.names }
    else none

/-- Opens a group or changes flags, from the pattern behind the parenthesis. -/
def openAny? (s : Reading) (cs : List Char) : Option Reading :=
  match s.flags.skip cs with
  | '?' :: 'P' :: '<' :: rest => s.openNamed? rest
  | '?' :: '<' :: '=' :: _ | '?' :: '<' :: '!' :: _ => none
  | '?' :: '<' :: rest => s.openNamed? rest
  | '?' :: rest =>
    match s.flags.letters? true [] rest with
    | some (flags, ':', after) => some (s.openGroup none flags after)
    | some (flags, _, after) =>
      if rest.head? = some ')' then none else some { s.item ⟨none, 0⟩ after with flags := flags }
    | none => none
  | rest => some (s.openGroup (some (s.groups + 1)) s.flags rest)

/-- Closes the innermost group. -/
def closeGroup? (s : Reading) (rest : List Char) : Option Reading :=
  match s.outer with
  | [] => none
  | out :: outer => s.top.closed?.map fun i =>
    { s with rest := rest, flags := s.top.outside, top := out.push i, outer := outer }

/-! ## Repetitions -/

/-- Repeats the last item. A question mark behind the operator makes it prefer fewer rounds. -/
def repeatLast? (s : Reading) (least : Nat) (most : Option Nat) (rest : List Char) :
    Option Reading :=
  match s.top.items with
  | ⟨some n, depth⟩ :: items =>
    let (isLazy, rest) := match rest with
      | '?' :: rest => (true, rest)
      | rest => (false, rest)
    (Item.ofDepth? (n.rounds least most (isLazy == s.flags.lazyFirst)) (depth + 1)).map fun i =>
      { s with rest := rest, top.items := i :: items }
  | _ => none

/-- Repeats the last item as often as braces say. -/
def repeatCounted? (s : Reading) (cs : List Char) : Option Reading := do
  let f := s.flags
  let (least, rest) ← decimal? f (f.skip cs)
  match rest with
  | '}' :: rest => s.repeatLast? least (some least) (f.skip rest)
  | ',' :: rest =>
    match f.skip rest with
    | '}' :: rest => s.repeatLast? least none (f.skip rest)
    | rest =>
      let (most, rest) ← decimal? f rest
      match rest with
      | '}' :: rest =>
        if least ≤ most then s.repeatLast? least (some most) (f.skip rest) else none
      | _ => none
  | _ => none

/-! ## Steps -/

/-- What a point stands for. -/
def anyChar? (f : Flags) : Option Node :=
  if !f.unicode then none
  else if f.dotAll then some (.set .full false)
  else
    let ends : CharSet := if f.anyLineEnd then ⟨[(10, 10), (13, 13)]⟩ else ⟨[(10, 10)]⟩
    some (.set ends.complement false)

def startPlace (f : Flags) : Place :=
  if !f.multiLine then .textStart else if f.anyLineEnd then .lineStartAny else .lineStart

def endPlace (f : Flags) : Place :=
  if !f.multiLine then .textEnd else if f.anyLineEnd then .lineEndAny else .lineEnd

/-- A character, with those that differ from it in case where case does not count. -/
def charNode (f : Flags) (c : Char) : Node :=
  if f.fold && (f.unicode || c.isAlpha) then .ofSet (f.withVariants (.single c)) (!f.unicode)
  else .literal [c]

def escapeNode (f : Flags) : Escape → Node
  | .char c => charNode f c
  | .set s => .ofSet s (!f.unicode)
  | .place p => .place p

/-- One step over the pattern, which goes on with `c`. `fuel` is more than the number of characters
behind it. -/
def step? (s : Reading) (fuel : Nat) (c : Char) (rest : List Char) : Option Reading :=
  let f := s.flags
  match c with
  | '(' => s.openAny? rest
  | ')' => s.closeGroup? rest
  | '|' => some { s with rest := rest, top := s.top.branch }
  | '*' => s.repeatLast? 0 none rest
  | '+' => s.repeatLast? 1 none rest
  | '?' => s.repeatLast? 0 (some 1) rest
  | '{' => s.repeatCounted? rest
  | '.' => (anyChar? f).map (s.leaf · rest)
  | '^' => some (s.leaf (.place (startPlace f)) rest)
  | '$' => some (s.leaf (.place (endPlace f)) rest)
  | '[' => (bracketed? f fuel rest).map fun (nested, rest) =>
    s.item ⟨some (.ofSet nested.set (!f.unicode)), nested.depth⟩ rest
  | '\\' => (escape? f rest).map fun (e, rest) => s.leaf (escapeNode f e) rest
  | c => some (s.leaf (charNode f c) rest)

/-- Reads to the end of the pattern. Each step takes a character, which `fuel` counts. -/
def finish? : Nat → Reading → Option Pattern
  | 0, _ => none
  | fuel + 1, s =>
    match s.flags.skip s.rest with
    | [] =>
      let body := s.top.body
      if s.outer.isEmpty && body.depth ≤ maxDepth then
        some ⟨body.node.getD .empty, s.groups, s.names⟩
      else none
    | c :: rest =>
      match s.step? (fuel + 1) c rest with
      | some s => finish? fuel s
      | none => none

end Reading

/-- Why a text is no pattern. -/
inductive PatternError where
  | malformed
  /-- There is no room for the automata. -/
  | tooLarge
deriving DecidableEq

/-- The pattern that a text spells. -/
def Pattern.ofText (text : List Char) : Except PatternError Pattern :=
  match Reading.finish? (text.length + 1) ⟨text, .initial, .open_ none .initial, [], 0, []⟩ with
  | some p => if p.fits then .ok p else .error .tooLarge
  | none => .error .malformed

end ClassScript.Regex
