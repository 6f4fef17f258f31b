import ClassScript.Regex.Escape

/-!
Sets in brackets: characters, ranges, escapes and sets inside of sets, side by side or joined by
operations.

The reader goes over the pattern once. Sets that are open wait on a stack. With every set comes its
depth, the number of brackets, operations and lists of items that stand inside of each other.
-/

namespace ClassScript.Regex

/-- The deepest nesting that a pattern may have. -/
def maxDepth : Nat := 250

/-! ## Sets with names -/

/-- The sets with names, as they are written between colons. -/
def namedSets : List (String × List (Nat × Nat)) := [
  ("alnum", [(48, 57), (65, 90), (97, 122)]),
  ("alpha", [(65, 90), (97, 122)]),
  ("ascii", [(0, 127)]),
  ("blank", [(9, 9), (32, 32)]),
  ("cntrl", [(0, 31), (127, 127)]),
  ("digit", [(48, 57)]),
  ("graph", [(33, 126)]),
  ("lower", [(97, 122)]),
  ("print", [(32, 126)]),
  ("punct", [(33, 47), (58, 64), (91, 96), (123, 126)]),
  ("space", [(9, 13), (32, 32)]),
  ("upper", [(65, 90)]),
  ("word", [(48, 57), (65, 90), (95, 95), (97, 122)]),
  ("xdigit", [(48, 57), (65, 70), (97, 102)])]

/-- A set with a name and whether a caret negates it, from the pattern behind `[:`. -/
def namedSet? (cs : List Char) : Option (CharSet × Bool × List Char) :=
  let (negated, cs) := match cs with
    | '^' :: rest => (true, rest)
    | cs => (false, cs)
  let name := cs.takeWhile (· ≠ ':')
  match cs.drop name.length with
  | ':' :: ']' :: rest =>
    (namedSets.lookup (String.ofList name)).map fun ranges => (⟨ranges⟩, negated, rest)
  | _ => none

/-! ## Items and operations -/

/-- A set and the depth of what spells it. -/
structure NestedSet where
  set : CharSet
  depth : Nat

/-- Items that stand side by side: their ranges, their number, and the depth of the deepest one. -/
structure SetItems where
  ranges : List (Nat × Nat)
  count : Nat
  depth : Nat

def SetItems.empty : SetItems := ⟨[], 0, 0⟩

def SetItems.add (items : SetItems) (s : CharSet) (depth : Nat) : SetItems :=
  ⟨s.ranges ++ items.ranges, items.count + 1, max items.depth depth⟩

/-- The set of all items. Two items or more make a list. -/
def SetItems.whole (items : SetItems) : NestedSet :=
  ⟨.ofRanges items.ranges, items.depth + if items.count ≤ 1 then 0 else 1⟩

inductive SetOp where
  | inter
  | diff
  | symDiff

def SetOp.apply : SetOp → CharSet → CharSet → CharSet
  | inter => .inter
  | diff => .diff
  | symDiff => .symDiff

/-- A set in brackets as far as it was read: the operation that waits with its left side, and the
items since. -/
structure SetFrame where
  negated : Bool
  waiting : Option (NestedSet × SetOp)
  items : SetItems

/-- The left side of the next operation, or what the brackets hold. Operations are done from the
left. -/
def SetFrame.close (f : Flags) (frame : SetFrame) : NestedSet :=
  let right := frame.items.whole
  match frame.waiting with
  | none => right
  | some (left, op) =>
    ⟨op.apply (f.withVariants left.set) (f.withVariants right.set), max left.depth right.depth + 1⟩

/-- The set that the brackets spell. -/
def SetFrame.result? (f : Flags) (frame : SetFrame) : Option NestedSet :=
  let all := frame.close f
  if maxDepth ≤ all.depth then none
  else (f.finish? frame.negated all.set).map fun s => ⟨s, all.depth + 1⟩

def SetFrame.add (frame : SetFrame) (s : CharSet) (depth : Nat) : SetFrame :=
  { frame with items := frame.items.add s depth }

/-! ## Reading -/

/-- The minuses at the start of a set, which stand for themselves. -/
def leadingMinuses (f : Flags) (items : SetItems) (cs : List Char) : SetItems × List Char :=
  match cs with
  | [] => (items, [])
  | c :: rest =>
    if c = '-' then leadingMinuses f (items.add (.single '-') 0) (f.skip rest) else (items, cs)
termination_by cs.length
decreasing_by
  have := f.length_skip_le rest
  simp only [List.length_cons]
  omega

/-- The start of a set behind its bracket: a caret, and minuses or a bracket that stand for
themselves. -/
def openSet (f : Flags) (cs : List Char) : SetFrame × List Char :=
  let (negated, cs) := match f.skip cs with
    | '^' :: rest => (true, f.skip rest)
    | cs => (false, cs)
  let (items, cs) := leadingMinuses f .empty cs
  let frame : SetFrame := ⟨negated, none, items⟩
  match cs, items.count with
  | ']' :: rest, 0 => (frame.add (.single ']') 0, f.skip rest)
  | cs, _ => (frame, cs)

/-- One character or escape of a set. -/
def setItem? (f : Flags) : List Char → Option (Escape × List Char)
  | [] => none
  | '\\' :: rest => escape? f rest
  | c :: rest => some (.char c, rest)

/-- The characters from one to another. Where characters are the first 128 alone, there are no
others in a set. -/
def charRange? (f : Flags) (a b : Char) : Option CharSet :=
  if a ≤ b && (f.unicode || b.toNat < 128) then some ⟨[(a.toNat, b.toNat)]⟩ else none

/-- One item or range of a set. A minus before the end or before another one makes no range. -/
def setRange? (f : Flags) (cs : List Char) : Option (CharSet × List Char) := do
  let (item, rest) ← setItem? f cs
  let alone : Option CharSet := match item with
    | .char c => charRange? f c c
    | .set s => some s
    | .place _ => none
  match f.skip rest with
  | '-' :: after =>
    let next := f.peek? after
    if next = some ']' ∨ next = some '-' then alone.map (·, '-' :: after)
    else
      let (last, rest) ← setItem? f (f.skip after)
      match item, last with
      | .char a, .char b => (charRange? f a b).map (·, rest)
      | _, _ => none
  | rest => alone.map (·, rest)

/-- A set up to the bracket that closes it. Sets it is inside of wait in `outer`. Every step takes
a character, which `fuel` counts. -/
def setFrom (f : Flags) : Nat → SetFrame → List SetFrame → List Char →
    Option (NestedSet × List Char)
  | 0, _, _, _ => none
  | fuel + 1, frame, outer, cs =>
    let operation (op : SetOp) (rest : List Char) :=
      setFrom f fuel ⟨frame.negated, some (frame.close f, op), .empty⟩ outer rest
    match f.skip cs with
    | [] => none
    | ']' :: rest =>
      match frame.result? f, outer with
      | none, _ => none
      | some whole, [] => some (whole, rest)
      | some inner, out :: outer => setFrom f fuel (out.add inner.set inner.depth) outer rest
    | '[' :: rest =>
      let named? := match rest with
        | ':' :: after => namedSet? after
        | _ => none
      match named? with
      | some (s, negated, rest) =>
        match f.finish? negated s with
        | some s => setFrom f fuel (frame.add s 0) outer rest
        | none => none
      | none =>
        let (inner, rest) := openSet f rest
        setFrom f fuel inner (frame :: outer) rest
    | '&' :: '&' :: rest => operation .inter rest
    | '-' :: '-' :: rest => operation .diff rest
    | '~' :: '~' :: rest => operation .symDiff rest
    | cs =>
      match setRange? f cs with
      | some (s, rest) => setFrom f fuel (frame.add s 0) outer rest
      | none => none

/-- A set, from the pattern behind its bracket. `fuel` is more than the number of its characters. -/
def bracketed? (f : Flags) (fuel : Nat) (cs : List Char) : Option (NestedSet × List Char) :=
  let (frame, rest) := openSet f cs
  setFrom f fuel frame [] rest

end ClassScript.Regex
