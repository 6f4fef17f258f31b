import ClassScript.SyntaxError
import ClassScript.Text.Search

/-!
From source text to tokens.

A cursor walks over the characters and knows its line, its column and its distance from the start,
the last two in bytes. `next` skips blanks and comments and takes one token; what is wrong with the
text is reported beside the token and never stops the walk.
-/

namespace ClassScript.Lexer

/-- The bytes of a text. -/
def bytes (cs : List Char) : Nat := cs.foldr (fun c n => c.utf8Size + n) 0

@[simp] theorem bytes_nil : bytes [] = 0 := rfl

@[simp] theorem bytes_cons (c : Char) (cs : List Char) : bytes (c :: cs) = c.utf8Size + bytes cs := rfl

@[simp] theorem bytes_append (cs ds : List Char) : bytes (cs ++ ds) = bytes cs + bytes ds := by
  induction cs with
  | nil => simp
  | cons c cs ih => rw [List.cons_append, bytes_cons, ih, bytes_cons, Nat.add_assoc]

/-- What a cursor counts are words of 32 bits, and each of them starts over behind the last one. The
offset of a cursor into a source of fewer than `2 ^ 32` bytes is its very distance; a larger source is
not read (`Parsed.ofSource`). -/
structure Cursor where
  rest : List Char
  line : UInt32 := 1
  col : UInt32 := 1
  offset : UInt32 := 0

namespace Cursor

/-- The cursor behind its next character. -/
def bump (c : Cursor) : Cursor :=
  match c.rest with
  | [] => c
  | ch :: rest =>
    let size := UInt32.ofNat ch.utf8Size
    if ch = '\n' then ⟨rest, c.line + 1, 1, c.offset + size⟩
    else ⟨rest, c.line, c.col + size, c.offset + size⟩

/-- The cursor behind its next `n` characters. -/
def bumpBy : Nat → Cursor → Cursor
  | 0, c => c
  | n + 1, c => bumpBy n c.bump

def start (source : List Char) : Cursor := ⟨source, 1, 1, 0⟩

@[simp] theorem rest_bump (c : Cursor) : c.bump.rest = c.rest.tail := by
  unfold bump
  split
  · simp_all
  · split <;> simp_all

@[simp] theorem rest_bumpBy (n : Nat) (c : Cursor) : (bumpBy n c).rest = c.rest.drop n := by
  induction n generalizing c with
  | zero => rfl
  | succ n ih => simp [bumpBy, ih]

/-- The cursor behind the characters that satisfy `p`. -/
def skipWhile (p : Char → Bool) (c : Cursor) : Cursor :=
  match _h : c.rest with
  | [] => c
  | ch :: _ => if p ch then skipWhile p c.bump else c
termination_by c.rest.length
decreasing_by simp [_h]

theorem length_skipWhile (p : Char → Bool) (c : Cursor) :
    (c.skipWhile p).rest.length ≤ c.rest.length := by
  fun_induction skipWhile p c with
  | case1 => exact Nat.le_refl _
  | case2 c ch rest h hp ih =>
    refine Nat.le_trans ih ?_
    simp
  | case3 => exact Nat.le_refl _

/-- The place of the cursor. -/
def point (c : Cursor) : Span := .point c.line c.col

/-- The region from `c` to `d`. One that goes over a line end counts one byte, as its length on the
first line is not kept. -/
def spanTo (c d : Cursor) : Span :=
  let len := d.offset - c.offset
  ⟨c.line, c.col, if d.line = c.line then len else min len 1⟩

/-- A region of `len` bytes from `c`. -/
def span (c : Cursor) (len : UInt32) : Span := ⟨c.line, c.col, len⟩

end Cursor

/-- One step of the lexer: a token, what was wrong, and the cursor behind the token. -/
structure Step where
  token : Token
  errors : List SyntaxError
  after : Cursor

/-- Input that is no token. -/
def Step.fail (fault : SyntaxFault) (span : Span) (after : Cursor)
    (before : List SyntaxError := []) : Step :=
  ⟨⟨.error, "", span⟩, before ++ [⟨fault, span⟩], after⟩

def endOfFile (c : Cursor) (errors : List SyntaxError := []) : Step :=
  ⟨⟨.eof, "", c.point⟩, errors, c⟩

/-- The next `n` characters as a token. -/
def take (kind : TokenKind) (n : Nat) (c : Cursor) : Step :=
  let after := c.bumpBy n
  ⟨⟨kind, String.ofList (c.rest.take n), c.spanTo after⟩, [], after⟩

/-! ## Blanks and comments -/

/-- One byte order mark and all white space after it. -/
def skipBlanks (c : Cursor) : Cursor :=
  let c := if c.rest.head? = some '\uFEFF' then c.bump else c
  c.skipWhile Text.isBlank

/-- The cursor behind the `*/` that ends a comment, if there is one, or at the end. -/
def skipComment (c : Cursor) : Bool × Cursor :=
  match _h : c.rest with
  | [] => (false, c)
  | ch :: rest =>
    if ch = '*' ∧ rest.head? = some '/' then (true, c.bumpBy 2) else skipComment c.bump
termination_by c.rest.length
decreasing_by simp [_h]

theorem length_skipBlanks (c : Cursor) : (skipBlanks c).rest.length ≤ c.rest.length := by
  unfold skipBlanks
  refine Nat.le_trans (Cursor.length_skipWhile _ _) ?_
  split <;> simp

theorem length_skipComment (c : Cursor) : (skipComment c).2.rest.length ≤ c.rest.length := by
  fun_induction skipComment c with
  | case1 => exact Nat.le_refl _
  | case2 => simp
  | case3 c ch rest h hc ih =>
    refine Nat.le_trans ih ?_
    simp

/-- The cursor at the next token or at the end, or behind a comment that is not closed, with the
start of that comment. -/
def skipTrivia (c : Cursor) : Cursor × Option Cursor :=
  let d := skipBlanks c
  match _h : d.rest with
  | '/' :: '/' :: _ => skipTrivia (d.skipWhile (· ≠ '\n'))
  | '/' :: '*' :: _ =>
    match _hc : skipComment (d.bumpBy 2) with
    | (true, e) => skipTrivia e
    | (false, e) => (e, some d)
  | _ => (d, none)
termination_by c.rest.length
decreasing_by
  · have h₁ := length_skipBlanks c
    have h₂ := Cursor.length_skipWhile (· ≠ '\n') d.bump
    have h₃ : (d.skipWhile (· ≠ '\n')) = (d.bump.skipWhile (· ≠ '\n')) := by
      conv => lhs; unfold Cursor.skipWhile
      split <;> simp_all
    rw [h₃]
    simp only [Cursor.rest_bump, _h, List.tail_cons, List.length_cons] at h₂
    have h₄ : d.rest.length ≤ c.rest.length := h₁
    simp only [_h, List.length_cons] at h₄
    omega
  · have h₁ := length_skipBlanks c
    have h₂ := length_skipComment (d.bumpBy 2)
    rw [_hc] at h₂
    have h₄ : d.rest.length ≤ c.rest.length := h₁
    simp only [Cursor.rest_bumpBy, _h, List.drop_succ_cons, List.drop_zero, List.length_cons]
      at h₂ h₄
    omega

/-! ## Strings -/

/-- The value of a hexadecimal digit. -/
def hexDigit? (c : Char) : Option Nat :=
  if c.isDigit then some (c.toNat - '0'.toNat)
  else if 'a' ≤ c ∧ c ≤ 'f' then some (c.toNat - 'a'.toNat + 10)
  else if 'A' ≤ c ∧ c ≤ 'F' then some (c.toNat - 'A'.toNat + 10)
  else none

/-- `n` hexadecimal digits that continue the number `value`; behind the last one that was read. -/
def hexDigits : Nat → Nat → Cursor → Option Nat × Cursor
  | 0, value, c => (some value, c)
  | n + 1, value, c =>
    match c.rest.head?.bind hexDigit? with
    | some d => hexDigits n (16 * value + d) c.bump
    | none => (none, c)

/-- The character with this number, unless it is a surrogate. -/
def scalar? (n : Nat) : Option Char := if n.isValidChar then some (Char.ofNat n) else none

/-- The characters of the one-letter escapes. -/
def simpleEscapes : List (Char × Char) := [
  ('n', '\n'), ('t', '\t'), ('r', '\r'), ('0', '\x00'), ('a', '\x07'), ('b', '\x08'),
  ('f', '\x0c'), ('v', '\x0b'), ('\\', '\\'), ('"', '"'), ('\'', '\'')]

/-- The character of an escape, or the character that makes it invalid. The cursor stands behind
the backslash. -/
def escape (c : Cursor) : Except Char Char × Cursor :=
  match c.rest with
  | [] => (.error ' ', c)
  | ch :: _ =>
    if ch = '\n' then (.error ch, c)
    else
      match simpleEscapes.lookup ch with
      | some value => (.ok value, c.bump)
      | none =>
        if ch = 'u' then
          let (code, after) := hexDigits 4 0 c.bump
          match code.bind scalar? with
          | some value => (.ok value, after)
          | none => (.error 'u', after)
        else (.error ch, c.bump)

theorem length_hexDigits (n value : Nat) (c : Cursor) :
    (hexDigits n value c).2.rest.length ≤ c.rest.length := by
  induction n generalizing value c with
  | zero => exact Nat.le_refl _
  | succ n ih =>
    unfold hexDigits
    split
    · refine Nat.le_trans (ih _ _) ?_
      simp
    · exact Nat.le_refl _

theorem length_escape (c : Cursor) : (escape c).2.rest.length ≤ c.rest.length := by
  unfold escape
  split
  · exact Nat.le_refl _
  · split
    · exact Nat.le_refl _
    · split
      · simp
      · split
        · have h := length_hexDigits 4 0 c.bump
          have h' : c.bump.rest.length ≤ c.rest.length := by simp
          simp only
          split <;> exact Nat.le_trans h h'
        · simp

/-- A quoted string from the opening quote at `first`; `c` is the cursor inside it. Characters and
errors are collected last first. -/
def scanString (first c : Cursor) (text : List Char) (errors : List SyntaxError) : Step :=
  match _h : c.rest with
  | [] => .fail .unterminatedString (first.spanTo c) c errors.reverse
  | ch :: _ =>
    if ch = '\n' ∨ ch = '\r' then .fail .unterminatedString (first.spanTo c) c errors.reverse
    else if ch = '"' then
      ⟨⟨.stringLiteral, String.ofList text.reverse, first.spanTo c.bump⟩, errors.reverse, c.bump⟩
    else if ch = '\\' then
      match _he : escape c.bump with
      | (.ok value, after) => scanString first after (value :: text) errors
      | (.error bad, after) =>
        scanString first after text (⟨.invalidEscape bad, c.span 2⟩ :: errors)
    else scanString first c.bump (ch :: text) errors
termination_by c.rest.length
decreasing_by
  · have := length_escape c.bump
    rw [_he] at this
    simp only [Cursor.rest_bump, _h, List.tail_cons, List.length_cons] at this ⊢
    omega
  · have := length_escape c.bump
    rw [_he] at this
    simp only [Cursor.rest_bump, _h, List.tail_cons, List.length_cons] at this ⊢
    omega
  · simp [_h]

/-- A verbatim string: a quote is written twice, and nothing else is special. -/
def scanVerbatim (first c : Cursor) (text : List Char) : Step :=
  match _h : c.rest with
  | [] => .fail .unterminatedString (first.span 2) c
  | '"' :: '"' :: _ => scanVerbatim first (c.bumpBy 2) ('"' :: text)
  | '"' :: _ => ⟨⟨.stringLiteral, String.ofList text.reverse, first.spanTo c.bump⟩, [], c.bump⟩
  | ch :: _ => scanVerbatim first c.bump (ch :: text)
termination_by c.rest.length
decreasing_by
  all_goals
    simp only [Cursor.rest_bumpBy, Cursor.rest_bump, _h, List.length_drop, List.length_tail,
      List.length_cons]
    omega

/-! ## Numbers, words and operators -/

def isWordStart (c : Char) : Bool := c.isAlpha || c == '_'
def isWordPart (c : Char) : Bool := c.isAlphanum || c == '_'

/-- The length of a run at the start of a text. -/
def runLength (p : Char → Bool) (cs : List Char) : Nat := (cs.takeWhile p).length

/-- The length of a point with digits behind it. -/
def fractionLength : List Char → Nat
  | '.' :: cs => if runLength Char.isDigit cs = 0 then 0 else 1 + runLength Char.isDigit cs
  | _ => 0

/-- The length of an exponent, digits included. -/
def exponentLength : List Char → Nat
  | c :: cs =>
    if c = 'e' ∨ c = 'E' then
      match cs with
      | s :: ds =>
        if s = '+' ∨ s = '-' then
          if runLength Char.isDigit ds = 0 then 0 else 2 + runLength Char.isDigit ds
        else if runLength Char.isDigit cs = 0 then 0 else 1 + runLength Char.isDigit cs
      | [] => 0
    else 0
  | [] => 0

/-- The kind of a number and the length of its suffix, from the text behind its digits. -/
def suffix (real : Bool) : List Char → TokenKind × Nat
  | 'd' :: _ | 'D' :: _ => (.doubleLiteral, 1)
  | 'L' :: _ | 'l' :: _ => if real then (.doubleLiteral, 0) else (.longLiteral, 1)
  | _ => (if real then .doubleLiteral else .intLiteral, 0)

/-- The kind and the length of the number a text starts with. -/
def numberLength (cs : List Char) : TokenKind × Nat :=
  let whole := runLength Char.isDigit cs
  let fraction := fractionLength (cs.drop whole)
  let exponent := exponentLength (cs.drop (whole + fraction))
  let n := whole + fraction + exponent
  let (kind, extra) := suffix (fraction + exponent ≠ 0) (cs.drop n)
  (kind, n + extra)

/-- A number; one with a letter or digit right behind it is no token as a whole. -/
def scanNumber (c : Cursor) : Step :=
  let (kind, n) := numberLength c.rest
  let junk := runLength isWordPart (c.rest.drop n)
  if junk = 0 then take kind n c
  else
    let after := c.bumpBy (n + junk)
    .fail (.invalidReal (String.ofList (c.rest.take (n + junk)))) (c.spanTo after) after

def scanWord (c : Cursor) : Step :=
  let n := runLength isWordPart c.rest
  take ((TokenKind.ofKeyword? (String.ofList (c.rest.take n))).getD .identifier) n c

/-- Operators and delimiters: the longer of two that fit comes first. -/
def symbols : List (List Char × TokenKind) := [
  (['(' ], .leftParen), ([')'], .rightParen), (['['], .leftBracket), ([']'], .rightBracket),
  (['{'], .leftBrace), (['}'], .rightBrace), ([';'], .semicolon), ([','], .comma),
  (['?'], .question), ([':'], .colon), (['.'], .dot),
  (['+', '+'], .plusPlus), (['+', '='], .plusEqual), (['+'], .plus),
  (['-', '-'], .minusMinus), (['-', '='], .minusEqual), (['-'], .minus),
  (['*', '='], .starEqual), (['*'], .star), (['/', '='], .slashEqual), (['/'], .slash),
  (['%', '='], .percentEqual), (['%'], .percent),
  (['=', '='], .equalEqual), (['=', '>'], .arrow), (['='], .equal),
  (['!', '='], .bangEqual), (['!'], .bang), (['<', '='], .lessEqual), (['<'], .less),
  (['>', '='], .greaterEqual), (['>'], .greater), (['&', '&'], .ampAmp), (['|', '|'], .pipePipe)]

def scanSymbol (c : Cursor) : Step :=
  match symbols.find? fun s => s.1.isPrefixOf c.rest with
  | some (spelling, kind) => take kind spelling.length c
  | none => .fail (.unexpectedChar (c.rest.headD ' ')) (c.spanTo c.bump) c.bump

/-! ## Tokens -/

/-- The token that starts at the cursor, which stands at no blank and no comment. -/
def scan (c : Cursor) : Step :=
  match c.rest with
  | [] => endOfFile c
  | '"' :: _ => scanString c c.bump [] []
  | '@' :: '"' :: _ => scanVerbatim c (c.bumpBy 2) []
  | ch :: rest =>
    if ch.isDigit || (ch == '.' && rest.head?.any Char.isDigit) then scanNumber c
    else if isWordStart ch then scanWord c
    else scanSymbol c

/-- The next token. A comment without an end is an error at the end of the source. -/
def next (c : Cursor) : Step :=
  match skipTrivia c with
  | (d, none) => scan d
  | (d, some opening) =>
    endOfFile d [⟨.unterminatedComment, opening.span (d.offset - opening.offset)⟩]

/-- At most `fuel` further steps, up to and with the end of the source, after those in `done`, of
which the last comes first. -/
def steps : Nat → Cursor → List Step → List Step
  | 0, c, done => (endOfFile c :: done).reverse
  | fuel + 1, c, done =>
    let s := next c
    if s.token.kind = .eof then (s :: done).reverse else steps fuel s.after (s :: done)

/-- All tokens of a source, the last of which is its end, and all lexical errors. Each token takes a
character, so the length of the source bounds their number. -/
def run (source : List Char) : List Token × List SyntaxError :=
  let all := steps (source.length + 1) (.start source) []
  (all.map (·.token), all.flatMap (·.errors))

end ClassScript.Lexer
