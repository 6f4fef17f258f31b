import ClassScript.SyntaxError
import ClassScript.Tree

/-!
Parsers over a list of tokens.

A parser takes tokens from the front and either succeeds, fails with a syntax error at the place it
has reached, from which its caller may recover, or gives up because the source nests too deep. What
callers have recovered from is kept in the state.
-/

namespace ClassScript.Grammar

/-- The tokens to come, without the end of the source, which stands behind them for ever. -/
structure State where
  previous : Option Token
  upcoming : List Token
  eof : Token
  /-- What was recovered from, the last first. -/
  reports : List SyntaxError
  /-- The number of tokens of the source, which no loop needs more rounds than. -/
  bound : Nat

inductive Outcome (α : Type) where
  | ok (value : α) (state : State)
  | error (error : SyntaxError) (state : State)
  | tooDeep (error : SyntaxError)

def Parse (α : Type) : Type := State → Outcome α

namespace Parse

@[inline] protected def pure {α : Type} (a : α) : Parse α := fun s => .ok a s

@[inline] protected def bind {α β : Type} (p : Parse α) (f : α → Parse β) : Parse β := fun s =>
  match p s with
  | .ok a s => f a s
  | .error e s => .error e s
  | .tooDeep e => .tooDeep e

instance : Monad Parse where
  pure := Parse.pure
  bind := Parse.bind

end Parse

/-- How deep expressions, statements, class bodies and braced namespaces may nest. -/
def maxNesting : Nat := 64

/-! ## Looking -/

/-- The token `n` places ahead; behind the last one is the end of the source. -/
def State.ahead (s : State) (n : Nat) : Token := (s.upcoming[n]?).getD s.eof

def State.current (s : State) : Token := s.upcoming.headD s.eof

/-- The token that was taken last. -/
def State.last (s : State) : Token := s.previous.getD s.current

def look : Parse Token := fun s => .ok s.current s

def lookAhead (n : Nat) : Parse TokenKind := fun s => .ok (s.ahead n).kind s

def at? (kind : TokenKind) : Parse Bool := fun s => .ok (s.current.kind == kind) s

def atEnd : Parse Bool := fun s => .ok s.upcoming.isEmpty s

/-- The region from `start` to the last token taken. -/
def spanFrom (start : Span) : Parse Span := fun s => .ok (start.merge s.last.span) s

/-! ## Taking and failing -/

def fail {α : Type} (fault : SyntaxFault) (span : Span) : Parse α := fun s => .error ⟨fault, span⟩ s

/-- The failure of a parser that may not nest any deeper. -/
def failTooDeep {α : Type} : Parse α := fun s =>
  .tooDeep ⟨.nestingTooDeep maxNesting, s.current.span⟩

def report (e : SyntaxError) : Parse Unit := fun s =>
  .ok () (match s with | ⟨p, u, f, r, b⟩ => ⟨p, u, f, e :: r, b⟩)

/-- Takes the next token. The end of the source is never taken. -/
def advance : Parse Token := fun s =>
  match s with
  | ⟨_, t :: rest, f, r, b⟩ => .ok t ⟨some t, rest, f, r, b⟩
  | ⟨p, [], f, r, b⟩ => .ok f ⟨p, [], f, r, b⟩

def eat (kind : TokenKind) : Parse Bool := do
  if ← at? kind then
    let _ ← advance
    pure true
  else pure false

/-- Why a token that has to come is not there. A semicolon is missed right behind the last token. -/
def State.missing (s : State) (kind : TokenKind) : SyntaxError :=
  let found := s.current
  match kind with
  | .semicolon =>
    let at_ := s.last.span
    ⟨.missingSemicolon, .point at_.line (at_.col + at_.len)⟩
  | .identifier => ⟨.expectedIdentifier found.describe, found.span⟩
  | _ =>
    if kind = .rightBrace ∧ found.kind = .eof then ⟨.missingBrace, found.span⟩
    else ⟨.expectedToken kind.description found.describe, found.span⟩

def expect (kind : TokenKind) : Parse Token := fun s =>
  if s.current.kind == kind then advance s else .error (s.missing kind) s

/-- A semicolon; one that is missing is reported, and all goes on as if it were there. -/
def expectSemicolon : Parse Unit := fun s =>
  match expect .semicolon s with
  | .ok _ s => .ok () s
  | .error e s => report e s
  | .tooDeep e => .tooDeep e

def identifier : Parse Ident := do
  let t ← expect .identifier
  pure ⟨t.lexeme, t.span⟩

/-! ## Loops and recovery -/

/-- Rounds of `step` until it gives none, at most `fuel` of them. -/
def repeatFrom {α : Type} (step : α → Parse (Option α)) : Nat → α → Parse α
  | 0, a, s => .ok a s
  | fuel + 1, a, s =>
    match step a s with
    | .ok (some b) s => repeatFrom step fuel b s
    | .ok none s => .ok a s
    | .error e s => .error e s
    | .tooDeep e => .tooDeep e

/-- Rounds of `step` until it gives none. Each takes a token, so their number is bounded. -/
def iterate {α : Type} (step : α → Parse (Option α)) (a : α) : Parse α := fun s =>
  repeatFrom step (s.bound + 1) a s

/-- One or more of what `p` reads, with commas between them. -/
def commaList {α : Type} (p : Parse α) : Parse (List α) := do
  let first ← p
  let all ← iterate (fun (done : List α) => do
    if ← eat .comma then
      let a ← p
      pure (some (a :: done))
    else pure none) [first]
  pure all.reverse

/-- What `p` reads; its failure is reported, and `resume` looks for a place to go on from. -/
def recovering {α : Type} (p : Parse α) (resume : Parse Unit) : Parse (Option α) := fun s =>
  match p s with
  | .ok a s => .ok (some a) s
  | .error e s =>
    match (do report e; resume : Parse Unit) s with
    | .ok _ s => .ok none s
    | .error e s => .error e s
    | .tooDeep e => .tooDeep e
  | .tooDeep e => .tooDeep e

/-! ## Places to go on from -/

/-- Whether a statement that a reader can resume at starts with this token. -/
def resumesStatement : TokenKind → Bool
  | .kwIf | .kwWhile | .kwDo | .kwFor | .kwReturn | .kwBreak | .kwContinue | .leftBrace => true
  | _ => false

/-- Behind the next semicolon, or at a closing brace or, after at least one token, at the start of
a statement. Gives the last token passed and the rest. -/
def afterStatement (moved : Bool) (last : Option Token) : List Token → Option Token × List Token
  | [] => (last, [])
  | t :: rest =>
    if t.kind = .semicolon then (some t, rest)
    else if t.kind = .rightBrace ∨ (moved ∧ resumesStatement t.kind) then (last, t :: rest)
    else afterStatement true (some t) rest

/-- Behind the brace that closes the region a text is `depth` braces deep in. -/
def afterBraces (depth : Nat) (last : Option Token) : List Token → Option Token × List Token
  | [] => (last, [])
  | t :: rest =>
    match t.kind with
    | .leftBrace => afterBraces (depth + 1) (some t) rest
    | .rightBrace => if depth ≤ 1 then (some t, rest) else afterBraces (depth - 1) (some t) rest
    | _ => afterBraces depth (some t) rest

/-- Behind the next semicolon or braced region, or at a closing brace or, after at least one token,
at a modifier or a class. -/
def afterMember (moved : Bool) (last : Option Token) : List Token → Option Token × List Token
  | [] => (last, [])
  | t :: rest =>
    if t.kind = .semicolon then (some t, rest)
    else if t.kind = .leftBrace then afterBraces 0 last (t :: rest)
    else if t.kind = .rightBrace ∨ (moved ∧ (t.kind.isModifier ∨ t.kind = .kwClass)) then
      (last, t :: rest)
    else afterMember true (some t) rest

def skipTo (find : Option Token → List Token → Option Token × List Token) : Parse Unit := fun s =>
  let (last, rest) := find s.previous s.upcoming
  match s with
  | ⟨_, _, f, r, b⟩ => .ok () ⟨last, rest, f, r, b⟩

def resumeStatement : Parse Unit := skipTo (afterStatement false)

def resumeMember : Parse Unit := skipTo (afterMember false)

end ClassScript.Grammar
