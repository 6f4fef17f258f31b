import ClassScript.Regex.Node

/-!
Matching.

A pattern becomes a program, and all ways to match run side by side over the text, in the order in
which they are preferred. At most one run is kept per instruction, so a search takes time
proportional to the text and the program. Of the matches that start first, the most preferred one is
found.
-/

namespace ClassScript.Regex

/-! ## Programs -/

inductive Inst where
  /-- Take a character of a set. -/
  | char (s : CharSet) (next : Nat)
  /-- Go on in two ways, the preferred one first. -/
  | split (first second : Nat)
  /-- Keep the place in a slot. -/
  | save (slot next : Nat)
  | place (p : Place) (next : Nat)
  | accept
deriving Inhabited

abbrev Assembly := StateM (Array Inst)

/-- Adds an instruction and gives its number. -/
def addInst (i : Inst) : Assembly Nat := modifyGet fun code => (code.size, code.push i)

def setInst (n : Nat) (i : Inst) : Assembly Unit := modify fun code => code.setIfInBounds n i

def choice (greedy : Bool) (body next : Nat) : Inst :=
  if greedy then .split body next else .split next body

/-- `n` copies of a part, one before the other, before `next`. -/
def copies (part : Nat → Assembly Nat) : Nat → Nat → Assembly Nat
  | 0, next => pure next
  | n + 1, next => do
    let rest ← part next
    copies part n rest

/-- Up to `n` copies of a part, each of which may be the end. -/
def upTo (part : Nat → Assembly Nat) (greedy : Bool) (next : Nat) : Nat → Nat → Assembly Nat
  | 0, inner => pure inner
  | n + 1, inner => do
    let body ← part inner
    let start ← addInst (choice greedy body next)
    upTo part greedy next n start

/-- One copy or more, and the number of the instruction that decides on another one. -/
def loopOf (part : Nat → Assembly Nat) (greedy : Bool) (next : Nat) : Assembly (Nat × Nat) := do
  let again ← addInst .accept
  let body ← part again
  setInst again (choice greedy body next)
  pure (body, again)

/-- A literal, the last character of which comes first. -/
def assembleLiteral : List Char → Nat → Assembly Nat
  | [], next => pure next
  | c :: cs, next => do
    let start ← addInst (.char (.single c) next)
    assembleLiteral cs start

mutual

/-- The instructions of an expression before `next`, and the number of the first one. -/
def assemble : Node → Nat → Assembly Nat
  | .empty, next => pure next
  | .literal cs, next => assembleLiteral cs.reverse next
  | .set s _, next => addInst (.char s next)
  | .place p, next => addInst (.place p next)
  | .group i n, next => do
    let close ← addInst (.save (2 * i + 1) next)
    let body ← assemble n close
    addInst (.save (2 * i) body)
  | .sequence ns, next => assembleAll ns next
  | .choice ns, next => assembleAny ns next
  | .repeated n least (some most) greedy, next => do
    let options ← upTo (assemble n) greedy next (most - least) next
    copies (assemble n) least options
  | .repeated n least none greedy, next => do
    let (body, again) ← loopOf (assemble n) greedy next
    match least with
    | 0 => if n.takesSome then pure again else addInst (choice greedy body next)
    | k + 1 => copies (assemble n) k body

/-- Expressions one behind the other. -/
def assembleAll : List Node → Nat → Assembly Nat
  | [], next => pure next
  | n :: ns, next => do
    let rest ← assembleAll ns next
    assemble n rest

/-- Alternatives, the preferred one first. -/
def assembleAny : List Node → Nat → Assembly Nat
  | [], next => addInst (.char .empty next)
  | [n], next => assemble n next
  | n :: ns, next => do
    let first ← assemble n next
    let others ← assembleAny ns next
    addInst (.split first others)

end

/-- The program of a pattern. The whole match is kept as group zero. -/
structure Program where
  code : Array Inst
  start : Nat
  slots : Nat

def Pattern.program (p : Pattern) : Program :=
  let body : Assembly Nat := do
    let done ← addInst .accept
    assemble (.group 0 p.node) done
  let (start, code) := body.run #[]
  ⟨code, start, 2 * (p.groups + 1)⟩

/-! ## Runs -/

/-- Places kept so far, by slot. -/
abbrev Slots := Array (Option Nat)

/-- Runs that wait for a character or have matched, the least preferred first, and for every
instruction whether a run has been there. -/
structure Runs where
  waiting : List (Nat × Slots)
  seen : Array Bool

def Runs.none (p : Program) : Runs := ⟨[], Array.replicate p.code.size false⟩

/-- Follows runs, the preferred one first, up to instructions that wait. `before` and `after` are
the characters around the place. -/
def follow (p : Program) (before after : Option Char) (place : Nat) :
    Nat → List (Nat × Slots) → Runs → Runs
  | 0, _, runs => runs
  | _, [], runs => runs
  | fuel + 1, (pc, slots) :: stack, runs =>
    if runs.seen.getD pc true then follow p before after place fuel stack runs
    else
      match runs with
      | ⟨waiting, seen⟩ =>
        let seen := seen.setIfInBounds pc true
        match p.code[pc]? with
        | some (.split a b) =>
          follow p before after place fuel ((a, slots) :: (b, slots) :: stack) ⟨waiting, seen⟩
        | some (.save slot next) =>
          follow p before after place fuel ((next, slots.setIfInBounds slot (some place)) :: stack)
            ⟨waiting, seen⟩
        | some (.place at_ next) =>
          let stack := if at_.holds before after then (next, slots) :: stack else stack
          follow p before after place fuel stack ⟨waiting, seen⟩
        | _ => follow p before after place fuel stack ⟨(pc, slots) :: waiting, seen⟩

/-- Adds one run. Every instruction is followed once and pushes two at most. -/
def addRun (p : Program) (before after : Option Char) (place : Nat) (run : Nat × Slots)
    (runs : Runs) : Runs :=
  follow p before after place (2 * p.code.size + 2) [run] runs

/-- The runs that are preferred to the first one that has matched, and the places it kept. -/
def untilMatch (p : Program) : List (Nat × Slots) → List (Nat × Slots) × Option Slots
  | [] => ([], none)
  | (pc, slots) :: rest =>
    match p.code[pc]? with
    | some .accept => ([], some slots)
    | _ =>
      let (kept, found) := untilMatch p rest
      ((pc, slots) :: kept, found)

/-- The runs behind a character. -/
def advance (p : Program) (c : Char) (after : Option Char) (place : Nat)
    (live : List (Nat × Slots)) : Runs :=
  live.foldl (fun runs (pc, slots) =>
    match p.code[pc]? with
    | some (.char s next) =>
      if s.contains c then addRun p (some c) after place (next, slots) runs else runs
    | _ => runs) (.none p)

/-- The runs at a place that can still be preferred, and the best match so far. A new run starts at
every place until there is a match. -/
def arrive (p : Program) (before after : Option Char) (place : Nat) (runs : Runs)
    (best : Option Slots) : List (Nat × Slots) × Option Slots :=
  let runs :=
    if best.isSome then runs
    else addRun p before after place (p.start, Array.replicate p.slots none) runs
  let (live, found) := untilMatch p runs.waiting.reverse
  (live, found <|> best)

/-- Searches on from a place, with the runs that have reached it and the best match so far. -/
def searchFrom (p : Program) (before : Option Char) (place : Nat) (runs : Runs)
    (best : Option Slots) : List Char → Option Slots
  | [] => (arrive p before none place runs best).2
  | c :: rest =>
    let (live, best) := arrive p before (some c) place runs best
    if live.isEmpty && best.isSome then best
    else searchFrom p (some c) (place + 1) (advance p c rest.head? (place + 1) live) best rest

/-- The first match at or behind a place of the text: `before` stands in front of it, and `rest`
behind it. -/
def search (p : Program) (before : Option Char) (place : Nat) (rest : List Char) : Option Slots :=
  searchFrom p before place (.none p) none rest

/-- The extent of a group. -/
def extent (slots : Slots) (i : Nat) : Option (Nat × Nat) :=
  match slots[2 * i]?.join, slots[2 * i + 1]?.join with
  | some a, some b => some (a, b)
  | _, _ => none

/-! ## All matches -/

/-- The characters of a text from one place to another. -/
def slice (text : List Char) (span : Nat × Nat) : List Char :=
  (text.drop span.1).take (span.2 - span.1)

/-- The text behind `n` characters more, with the character in front of it. -/
def passing : Nat → Option Char → List Char → Option Char × List Char
  | n + 1, _, c :: rest => passing n (some c) rest
  | _, before, rest => (before, rest)

/-- Matches from a place on, none of which overlap. An empty match right behind the last one does
not count. Every round moves on, which `fuel` counts. -/
def matchesFrom (p : Program) :
    Nat → Nat → Option Char → List Char → Option Nat → List Slots → List Slots
  | 0, _, _, _, _, done => done.reverse
  | fuel + 1, place, before, rest, last, done =>
    match search p before place rest with
    | none => done.reverse
    | some slots =>
      match extent slots 0 with
      | none => done.reverse
      | some (a, b) =>
        if a = b ∧ last = some b then
          match rest with
          | [] => done.reverse
          | c :: rest => matchesFrom p fuel (place + 1) (some c) rest last done
        else
          let (before, rest) := passing (b - place) before rest
          matchesFrom p fuel b before rest (some b) (slots :: done)

def allMatches (p : Program) (text : List Char) : List Slots :=
  matchesFrom p (2 * text.length + 3) 0 none text none []

/-- The first match in a text. -/
def firstMatch? (p : Program) (text : List Char) : Option (Nat × Nat) :=
  (search p none 0 text).bind fun slots => extent slots 0

end ClassScript.Regex
