import ClassScript.Proofs.Tokens.Cursor

/-!
Tokens cover their source.

A source is cut into pieces, one for each call of the lexer: what is skipped in front of the token,
and the text of the token. What is skipped is white space, byte order marks and comments, unless a
comment has no end, which is reported. A token carries the place and the length of its text, and the
text itself unless it is a string literal. As every token but the end of the source takes a character,
the pieces come to an end, and they make up the whole source.
-/

namespace ClassScript.Lexer

open Cursor

/-! ## Pieces -/

/-- White space, byte order marks and comments, with `rest` behind them. A comment on a line reaches
to the end of the line, one between marks to the first closing mark. -/
inductive Trivia : (skipped rest : List Char) → Prop
  | nil {rest : List Char} : Trivia [] rest
  | blank {c : Char} {skipped rest : List Char} (h : Text.isBlank c ∨ c = '\uFEFF')
      (tail : Trivia skipped rest) : Trivia (c :: skipped) rest
  | line {body skipped rest : List Char} (hbody : '\n' ∉ body)
      (hend : ∀ c ∈ (skipped ++ rest).head?, c = '\n') (tail : Trivia skipped rest) :
      Trivia ('/' :: '/' :: (body ++ skipped)) rest
  | block {body skipped rest : List Char} (hbody : ¬ ['*', '/'] <:+: body ++ ['*'])
      (tail : Trivia skipped rest) :
      Trivia ('/' :: '*' :: (body ++ '*' :: '/' :: skipped)) rest

/-- What one call of the lexer takes. -/
structure Piece where
  /-- The source in front of it. -/
  before : List Char
  /-- What is skipped. -/
  gap : List Char
  /-- The text of the token. -/
  text : List Char
  step : Step

namespace Piece

def token (p : Piece) : Token := p.step.token

def front (p : Piece) : List Char := p.before ++ p.gap

end Piece

/-- The span starts where a text ends, in words of 32 bits. -/
structure StartsBehind (span : Span) (before : List Char) : Prop where
  line : span.line.toNat = lineAfter before % UInt32.size
  col : span.col.toNat = columnAfter before % UInt32.size

/-- The token of a step stands behind `before` and is made of `text`. -/
structure Step.Marks (s : Step) (before text : List Char) : Prop where
  start : StartsBehind s.token.span before
  len : s.token.kind ≠ .error → '\n' ∉ text → s.token.span.len.toNat = bytes text % UInt32.size
  reach : s.token.kind ≠ .error → s.token.span.len.toNat ≤ bytes text
  lexeme : s.token.kind ≠ .error → s.token.kind ≠ .stringLiteral →
    s.token.lexeme = String.ofList text
  reported : s.token.kind = .error → ∃ e ∈ s.errors, StartsBehind e.span before
  takes : s.token.kind ≠ .eof → text ≠ []

/-- A comment without an end is skipped, and reported where it starts. -/
structure Step.Unclosed (s : Step) (before skipped : List Char) : Prop where
  split : ∃ trivia body, skipped = trivia ++ '/' :: '*' :: body ∧ Trivia trivia ('/' :: '*' :: body) ∧
    ¬ ['*', '/'] <:+: body ∧
    ∃ e ∈ s.errors, e.fault = .unterminatedComment ∧ StartsBehind e.span (before ++ trivia)
  kind : s.token.kind = .eof

/-- What a piece owes to the source, of which `rest` stands behind it. -/
structure Piece.Fits (p : Piece) (rest : List Char) : Prop where
  gap : Trivia p.gap (p.text ++ rest) ∨ p.step.Unclosed p.before p.gap
  marks : p.step.Marks p.front p.text
  eof : p.token.kind = .eof → p.text = [] ∧ rest = []

/-- The calls from a cursor on, up to and with the one that gives the end of the source, and what each
of them takes of the source behind `before`. -/
inductive Tiles : Cursor → List Char → List Piece → Prop
  | last {c : Cursor} {p : Piece} (hnext : p.step = next c) (hfits : p.Fits [])
      (hrest : c.rest = p.gap ++ p.text) (heof : p.token.kind = .eof) : Tiles c p.before [p]
  | more {c : Cursor} {p : Piece} {ps : List Piece} (hnext : p.step = next c)
      (hfits : p.Fits p.step.after.rest) (hrest : c.rest = p.gap ++ p.text ++ p.step.after.rest)
      (heof : p.token.kind ≠ .eof) (tail : Tiles p.step.after (p.front ++ p.text) ps) :
      Tiles c p.before (p :: ps)

/-! ## Trivia -/

theorem Trivia.append {as bs rest : List Char} (h : Trivia as (bs ++ rest)) (h' : Trivia bs rest) :
    Trivia (as ++ bs) rest := by
  generalize hbehind : bs ++ rest = behind at h
  induction h with
  | nil => exact h'
  | blank hc tail ih => exact .blank hc (ih hbehind)
  | line hbody hend tail ih =>
    subst hbehind
    have hline := Trivia.line hbody (by rwa [List.append_assoc]) (ih rfl)
    rwa [← List.append_assoc] at hline
  | block hbody tail ih =>
    have hblock := Trivia.block hbody (ih hbehind)
    simpa using hblock

theorem skipBlanks_over (c : Cursor) :
    ∃ skipped, c.Over skipped (skipBlanks c) ∧ ∀ rest, Trivia skipped rest := by
  have hblanks (d : Cursor) : ∃ skipped, d.Over skipped (d.skipWhile Text.isBlank) ∧
      ∀ rest, Trivia skipped rest := by
    obtain ⟨skipped, hover, hall, -⟩ := over_skipWhile Text.isBlank d
    refine ⟨skipped, hover, fun rest => ?_⟩
    clear hover
    induction skipped with
    | nil => exact .nil
    | cons ch skipped ih =>
      exact .blank (.inl (hall ch List.mem_cons_self)) (ih fun d hd => hall d (List.mem_cons_of_mem _ hd))
  unfold skipBlanks
  dsimp only
  split
  · next hmark =>
    obtain ⟨rest, hrest⟩ : ∃ rest, c.rest = '\uFEFF' :: rest := by
      cases hc : c.rest with
      | nil => simp [hc] at hmark
      | cons ch rest =>
        rw [hc] at hmark
        exact ⟨rest, by rw [Option.some.inj hmark]⟩
    obtain ⟨skipped, hover, htrivia⟩ := hblanks c.bump
    exact ⟨'\uFEFF' :: skipped, (over_bump hrest).trans hover, fun rest => .blank (.inr rfl) (htrivia rest)⟩
  · exact hblanks c

/-- No closing mark begins with this character. -/
theorem not_infix_cons {ch : Char} {rest : List Char} (hhead : ¬ (ch = '*' ∧ rest.head? = some '/'))
    (h : ¬ ['*', '/'] <:+: rest) : ¬ ['*', '/'] <:+: ch :: rest := by
  rw [List.infix_cons_iff]
  rintro (⟨behind, hprefix⟩ | hinfix)
  · obtain ⟨rfl, rfl⟩ := List.cons.inj hprefix
    exact hhead ⟨rfl, rfl⟩
  · exact h hinfix

theorem skipComment_over (c : Cursor) : match skipComment c with
    | (true, d) => ∃ body, c.Over (body ++ ['*', '/']) d ∧ ¬ ['*', '/'] <:+: body ++ ['*']
    | (false, d) => c.Over c.rest d ∧ d.rest = [] ∧ ¬ ['*', '/'] <:+: c.rest := by
  fun_induction skipComment c with
  | case1 c h => exact ⟨h ▸ .refl c, h, by simp [h]⟩
  | case2 c ch rest h hclosed =>
    obtain ⟨rfl, hslash⟩ := hclosed
    refine ⟨[], ?_, by decide⟩
    have htwo : c.rest.take 2 = ['*', '/'] := by
      obtain _ | ⟨slash, rest⟩ := rest
      · cases hslash
      · rw [h, Option.some.inj hslash]
        rfl
    exact htwo ▸ over_bumpBy 2 c
  | case3 c ch rest h hopen ih =>
    have hbump := over_bump h
    have hrest : c.bump.rest = rest := by simp [h]
    split at ih
    · next d hd =>
      obtain ⟨body, hover, hbody⟩ := ih
      refine ⟨ch :: body, hbump.trans hover, not_infix_cons ?_ hbody⟩
      rintro ⟨rfl, hhead⟩
      refine hopen ⟨rfl, ?_⟩
      rw [← hrest, hover.rest]
      cases body with
      | nil => simp at hhead
      | cons b body => simpa using hhead
    · next d hd =>
      obtain ⟨hover, hend, hbody⟩ := ih
      rw [hrest] at hover hbody
      exact ⟨h ▸ hbump.trans hover, hend, h ▸ not_infix_cons hopen hbody⟩

/-- The cursor behind what is skipped, with a comment that has no end if there is one. -/
def Skips (c : Cursor) : Cursor × Option Cursor → Prop
  | (d, none) => ∃ skipped, c.Over skipped d ∧ Trivia skipped d.rest
  | (d, some opening) => d.rest = [] ∧ opening.Over opening.rest d ∧ ∃ skipped body,
      c.Over skipped opening ∧ Trivia skipped opening.rest ∧ opening.rest = '/' :: '*' :: body ∧
      ¬ ['*', '/'] <:+: body

/-- What is skipped first goes in front. -/
theorem Skips.behind {c d : Cursor} {skipped : List Char} {r : Cursor × Option Cursor}
    (hover : c.Over skipped d) (htrivia : Trivia skipped d.rest) (h : Skips d r) : Skips c r := by
  obtain ⟨e, none | opening⟩ := r
  · obtain ⟨further, hfurther, htail⟩ := h
    exact ⟨_, hover.trans hfurther, .append (hfurther.rest ▸ htrivia) htail⟩
  · obtain ⟨hend, hcomment, further, body, hfurther, htail, hbody⟩ := h
    exact ⟨hend, hcomment, _, body, hover.trans hfurther, .append (hfurther.rest ▸ htrivia) htail, hbody⟩

theorem skipTrivia_skips (c : Cursor) : Skips c (skipTrivia c) := by
  fun_induction skipTrivia c with
  | case1 c d rest hd ih =>
    obtain ⟨blanks, hblanks, htrivia⟩ := skipBlanks_over c
    obtain ⟨body, hbody, hline, hstop⟩ := over_skipWhile (· ≠ '\n') (d.bumpBy 2)
    have hslashes : d.skipWhile (· ≠ '\n') = (d.bumpBy 2).skipWhile (· ≠ '\n') :=
      (skipWhile_bump hd (by decide)).trans (skipWhile_bump (by rw [rest_bump, hd]; rfl) (by decide))
    rw [hslashes] at ih ⊢
    refine .behind hblanks (htrivia _) (.behind ((over_bumpBy 2 d).trans hbody) ?_ ih)
    have hinside : '\n' ∉ body := fun h => by simpa using hline '\n' h
    have hend (ch : Char) (hch : ch ∈ ((d.bumpBy 2).skipWhile (· ≠ '\n')).rest.head?) : ch = '\n' := by
      simpa using hstop ch hch
    have h : Trivia ('/' :: '/' :: (body ++ [])) _ := .line hinside hend .nil
    simpa [hd] using h
  | case2 c d rest hd e he ih =>
    obtain ⟨blanks, hblanks, htrivia⟩ := skipBlanks_over c
    have hcomment := skipComment_over (d.bumpBy 2)
    rw [he] at hcomment
    obtain ⟨body, hbody, hclosed⟩ := hcomment
    refine .behind hblanks (htrivia _) (.behind ((over_bumpBy 2 d).trans hbody) ?_ ih)
    have h : Trivia ('/' :: '*' :: (body ++ ['*', '/'])) e.rest := .block hclosed .nil
    rw [hd]
    simpa using h
  | case3 c d rest hd e he =>
    obtain ⟨blanks, hblanks, htrivia⟩ := skipBlanks_over c
    have hcomment := skipComment_over (d.bumpBy 2)
    rw [he] at hcomment
    obtain ⟨hbody, hend, hopen⟩ := hcomment
    refine ⟨hend, ?_, blanks, rest, hblanks, htrivia _, hd, by simpa [hd] using hopen⟩
    have h := (over_bumpBy 2 d).trans hbody
    simpa using h
  | case4 c d hline hblock =>
    obtain ⟨blanks, hblanks, htrivia⟩ := skipBlanks_over c
    exact ⟨blanks, hblanks, htrivia _⟩

theorem skipBlanks_of_head {c : Cursor}
    (h : ∀ ch ∈ c.rest.head?, Text.isBlank ch = false ∧ ch ≠ '\uFEFF') : skipBlanks c = c := by
  have hmark : c.rest.head? ≠ some '\uFEFF' := fun hmark => (h _ hmark).2 rfl
  rw [skipBlanks, if_neg hmark, Cursor.skipWhile]
  split
  · rfl
  · next ch rest hrest =>
    rw [if_neg]
    simp [(h ch (by simp [hrest])).1]

/-- Nothing is skipped at the end, and in front of a character that is no blank and begins no
comment. -/
theorem skipTrivia_of_head {c : Cursor}
    (h : ∀ ch ∈ c.rest.head?, Text.isBlank ch = false ∧ ch ≠ '\uFEFF' ∧ ch ≠ '/') :
    skipTrivia c = (c, none) := by
  have hblanks : skipBlanks c = c := skipBlanks_of_head fun ch hch => ⟨(h ch hch).1, (h ch hch).2.1⟩
  rw [skipTrivia]
  simp only [hblanks]
  split
  · next hrest =>
    rw [hblanks] at hrest
    exact absurd rfl (h '/' (by simp [hrest])).2.2
  · next hrest =>
    rw [hblanks] at hrest
    exact absurd rfl (h '/' (by simp [hrest])).2.2
  · rfl

/-- A comment on the last line is skipped up to the end. -/
theorem skipTrivia_of_comment {c : Cursor} {body : List Char} (hrest : c.rest = '/' :: '/' :: body)
    (hbody : '\n' ∉ body) : ∃ d, skipTrivia c = (d, none) ∧ d.rest = [] ∧ c.Over c.rest d := by
  have hblanks : skipBlanks c = c := skipBlanks_of_head fun ch hch => by
    obtain rfl : '/' = ch := by simpa [hrest] using hch
    exact ⟨rfl, by decide⟩
  obtain ⟨text, hover, -, hstop⟩ := over_skipWhile (· ≠ '\n') c
  generalize he : c.skipWhile (· ≠ '\n') = e at hover hstop
  -- nothing stops the comment, as no character of it ends a line
  have hend : e.rest = [] := by
    cases hbehind : e.rest with
    | nil => rfl
    | cons ch rest =>
      obtain rfl : ch = '\n' := by simpa using hstop ch (by simp [hbehind])
      have hmem : '\n' ∈ c.rest := by simp [hover.rest, hbehind]
      simp [hrest, hbody] at hmem
  have htext : c.rest = text := by rw [hover.rest, hend, List.append_nil]
  refine ⟨e, ?_, hend, htext ▸ hover⟩
  rw [skipTrivia]
  simp only [hblanks, he]
  split
  · exact skipTrivia_of_head (by simp [hend])
  · next hblock =>
    rw [hblanks, hrest] at hblock
    simp at hblock
  · next hline _ =>
    rw [hblanks, hrest] at hline
    exact absurd rfl (hline _)

/-! ## Single tokens -/

/-- A step that starts at the cursor takes a text and marks it. -/
def Step.Scans (s : Step) (c : Cursor) : Prop :=
  ∃ text, c.Over text s.after ∧ (s.token.kind = .eof → text = [] ∧ s.after.rest = []) ∧
    ∀ before, c.Behind before → s.Marks before text

/-- Text that is no token is reported where it starts. -/
theorem fail_scans {c after : Cursor} {text : List Char} (hover : c.Over text after) (htext : text ≠ [])
    {span : Span} (hspan : ∀ before, c.Behind before → StartsBehind span before) (fault : SyntaxFault)
    (errors : List SyntaxError) : (Step.fail fault span after errors).Scans c := by
  refine ⟨text, hover, nofun, fun before hbefore => ?_⟩
  exact ⟨hspan before hbefore, fun h => absurd rfl h, fun h => absurd rfl h, fun h => absurd rfl h,
    fun _ => ⟨⟨fault, span⟩, by simp [Step.fail], hspan before hbefore⟩, fun _ => htext⟩

theorem spanTo_startsBehind {c d : Cursor} (before : List Char) (h : c.Behind before) :
    StartsBehind (c.spanTo d) before := ⟨(spanTo_start h d).1, (spanTo_start h d).2⟩

theorem string_scans {c after : Cursor} {text : List Char} (hover : c.Over text after)
    (htext : text ≠ []) (value : String) (errors : List SyntaxError) :
    Step.Scans ⟨⟨.stringLiteral, value, c.spanTo after⟩, errors, after⟩ c := by
  refine ⟨text, hover, nofun, fun before hbefore => ?_⟩
  exact ⟨spanTo_startsBehind before hbefore, fun _ hline => spanTo_len hbefore hover hline,
    fun _ => spanTo_len_le hbefore hover, fun _ h => absurd rfl h, nofun, fun _ => htext⟩

theorem take_scans {kind : TokenKind} {n : Nat} {c : Cursor} (hkind : kind ≠ .error ∧ kind ≠ .eof)
    (htext : c.rest.take n ≠ []) : (take kind n c).Scans c := by
  have hover := over_bumpBy n c
  refine ⟨c.rest.take n, hover, fun h => absurd h hkind.2, fun before hbefore => ?_⟩
  exact ⟨spanTo_startsBehind before hbefore, fun _ hline => spanTo_len hbefore hover hline,
    fun _ => spanTo_len_le hbefore hover, fun _ _ => rfl, fun h => absurd h hkind.1, fun _ => htext⟩

theorem endOfFile_scans {c : Cursor} (hrest : c.rest = []) (errors : List SyntaxError) :
    (endOfFile c errors).Scans c := by
  refine ⟨[], .refl c, fun _ => ⟨rfl, hrest⟩, fun before hbefore => ?_⟩
  refine ⟨⟨?_, ?_⟩, fun _ _ => rfl, fun _ => Nat.le_refl _, fun _ _ => rfl, nofun, fun h => absurd rfl h⟩
  · simp [endOfFile, point, Span.point, hbefore.line]
  · simp [endOfFile, point, Span.point, hbefore.col]

/-! ## Strings -/

theorem hexDigits_over (n value : Nat) (c : Cursor) : ∃ text, c.Over text (hexDigits n value c).2 := by
  induction n generalizing value c with
  | zero => exact ⟨[], .refl c⟩
  | succ n ih =>
    unfold hexDigits
    split
    · next digit hdigit =>
      obtain ⟨ch, hch, -⟩ := Option.bind_eq_some_iff.mp hdigit
      obtain ⟨rest, hrest⟩ := List.head?_eq_some_iff.mp hch
      obtain ⟨text, htext⟩ := ih (16 * value + digit) c.bump
      exact ⟨_, (over_bump hrest).trans htext⟩
    · exact ⟨[], .refl c⟩

theorem escape_over (c : Cursor) : ∃ text, c.Over text (escape c).2 := by
  unfold escape
  split
  · exact ⟨[], .refl c⟩
  · next ch rest hrest =>
    split
    · exact ⟨[], .refl c⟩
    · split
      · exact ⟨_, over_bump hrest⟩
      · split
        · obtain ⟨text, htext⟩ := hexDigits_over 4 0 c.bump
          dsimp only
          split <;> exact ⟨_, (over_bump hrest).trans htext⟩
        · exact ⟨_, over_bump hrest⟩

theorem scanString_scans {first c : Cursor} {taken : List Char} (hover : first.Over taken c)
    (htaken : taken ≠ []) (text : List Char) (errors : List SyntaxError) :
    (scanString first c text errors).Scans first := by
  fun_induction scanString first c text errors generalizing taken with
  | case1 | case2 => exact fail_scans hover htaken spanTo_startsBehind _ _
  | case3 c text errors rest hrest =>
    exact string_scans (hover.trans (over_bump hrest)) (by simp [htaken]) _ _
  | case4 c text errors rest value after he hrest _ _ ih
  | case5 c text errors rest value after he hrest _ _ ih =>
    obtain ⟨more, hmore⟩ := escape_over c.bump
    rw [he] at hmore
    exact ih (hover.trans ((over_bump hrest).trans hmore)) (by simp [htaken])
  | case6 c text errors ch rest hrest _ _ _ ih =>
    exact ih (hover.trans (over_bump hrest)) (by simp [htaken])

theorem scanVerbatim_scans {first c : Cursor} {taken : List Char} (hover : first.Over taken c)
    (htaken : taken ≠ []) (text : List Char) : (scanVerbatim first c text).Scans first := by
  fun_induction scanVerbatim first c text generalizing taken with
  | case1 =>
    exact fail_scans hover htaken (fun before h => ⟨(span_start h 2).1, (span_start h 2).2⟩) _ _
  | case2 c text rest hrest ih => exact ih (hover.trans (over_bumpBy 2 c)) (by simp [htaken])
  | case3 c text rest _ hrest =>
    exact string_scans (hover.trans (over_bump hrest)) (by simp [htaken]) _ _
  | case4 c text ch rest _ _ hrest ih => exact ih (hover.trans (over_bump hrest)) (by simp [htaken])

/-! ## Numbers, words and symbols -/

/-- Kinds of tokens that are neither an error nor the end of the source. -/
def Proper (k : TokenKind) : Prop := k ≠ .error ∧ k ≠ .eof

instance (k : TokenKind) : Decidable (Proper k) := inferInstanceAs (Decidable (_ ∧ _))

/-- A number has a kind of its own. -/
theorem numberLength_kind (cs : List Char) :
    (numberLength cs).1 = .intLiteral ∨ (numberLength cs).1 = .longLiteral ∨
      (numberLength cs).1 = .doubleLiteral := by
  unfold numberLength suffix
  dsimp only
  split <;> (try split) <;> simp

theorem runLength_pos {p : Char → Bool} {ch : Char} {rest : List Char} (h : p ch) :
    0 < runLength p (ch :: rest) := by
  simp [runLength, h]

/-- A number begins with a digit, or with a point and a digit. -/
theorem numberLength_pos {ch : Char} {rest : List Char}
    (h : ch.isDigit || (ch == '.' && rest.head?.any Char.isDigit)) :
    0 < (numberLength (ch :: rest)).2 := by
  by_cases hdigit : ch.isDigit
  · have hwhole : 0 < runLength Char.isDigit (ch :: rest) := runLength_pos hdigit
    simp only [numberLength]
    omega
  · obtain ⟨rfl, hrest⟩ : ch = '.' ∧ rest.head?.any Char.isDigit := by simpa [hdigit] using h
    have hwhole : runLength Char.isDigit ('.' :: rest) = 0 := by simp [runLength, hdigit]
    have hfraction : 0 < fractionLength ('.' :: rest) := by
      obtain _ | ⟨d, rest⟩ := rest
      · cases hrest
      · have hd : 0 < runLength Char.isDigit (d :: rest) := runLength_pos hrest
        simp only [fractionLength]
        split <;> omega
    simp only [numberLength, hwhole, List.drop_zero]
    omega

theorem take_ne_nil {n : Nat} {ch : Char} {rest cs : List Char} (hcs : cs = ch :: rest) (hn : 0 < n) :
    cs.take n ≠ [] := by
  obtain ⟨m, rfl⟩ := Nat.exists_eq_add_of_lt hn
  simp [hcs]

theorem scanNumber_scans {c : Cursor} {ch : Char} {rest : List Char} (hrest : c.rest = ch :: rest)
    (h : ch.isDigit || (ch == '.' && rest.head?.any Char.isDigit)) : (scanNumber c).Scans c := by
  have hpos := numberLength_pos h
  rw [← hrest] at hpos
  have hkind : Proper (numberLength c.rest).1 := by
    obtain hk | hk | hk := numberLength_kind c.rest <;> rw [hk] <;> decide
  unfold scanNumber
  dsimp only
  split
  · exact take_scans hkind (take_ne_nil hrest hpos)
  · exact fail_scans (over_bumpBy _ c) (take_ne_nil hrest (by omega)) spanTo_startsBehind _ _

/-- A keyword has a kind of its own. -/
theorem proper_of_ofKeyword? {word : String} {k : TokenKind} (h : TokenKind.ofKeyword? word = some k) :
    Proper k := by
  have hwords : ∀ p ∈ TokenKind.keywords, Proper p.2 := by decide
  obtain ⟨before, after, hsplit, -⟩ := List.lookup_eq_some_iff.mp h
  exact hwords (word, k) (hsplit ▸ List.mem_append_right _ List.mem_cons_self)

theorem scanWord_scans {c : Cursor} {ch : Char} {rest : List Char} (hrest : c.rest = ch :: rest)
    (h : isWordStart ch) : (scanWord c).Scans c := by
  have hpart : isWordPart ch := by
    simp only [isWordStart, isWordPart, Char.isAlphanum, Bool.or_eq_true] at h ⊢
    exact h.imp_left .inl
  refine take_scans ?_ (take_ne_nil hrest (hrest ▸ runLength_pos hpart))
  generalize String.ofList _ = word
  cases hword : TokenKind.ofKeyword? word with
  | none => decide
  | some k => exact proper_of_ofKeyword? hword

theorem scanSymbol_scans {c : Cursor} {ch : Char} {rest : List Char} (hrest : c.rest = ch :: rest) :
    (scanSymbol c).Scans c := by
  have hsymbols : ∀ p ∈ symbols, Proper p.2 ∧ 0 < p.1.length := by decide
  unfold scanSymbol
  split
  · next spelling kind hfind =>
    obtain ⟨hkind, hlength⟩ := hsymbols _ (List.mem_of_find?_eq_some hfind)
    exact take_scans hkind (take_ne_nil hrest hlength)
  · exact fail_scans (over_bump hrest) (by simp) spanTo_startsBehind _ _

/-- The token at a cursor, with its text. -/
theorem scan_scans (c : Cursor) : (scan c).Scans c := by
  unfold scan
  split
  · next hrest => exact endOfFile_scans hrest []
  · next rest hrest => exact scanString_scans (over_bump hrest) (by simp) _ _
  · next rest hrest =>
    exact scanVerbatim_scans (over_bumpBy 2 c) (take_ne_nil hrest (by decide)) _
  · next ch rest _ _ hrest =>
    split
    · next h => exact scanNumber_scans hrest h
    · split
      · next h => exact scanWord_scans hrest h
      · exact scanSymbol_scans hrest

/-! ## Whole sources -/

/-- One call takes a piece of the source. -/
theorem next_fits {c : Cursor} {before : List Char} (h : c.Behind before) :
    ∃ gap text, c.rest = gap ++ text ++ (next c).after.rest ∧
      Piece.Fits ⟨before, gap, text, next c⟩ (next c).after.rest ∧
      (next c).after.Behind (before ++ gap ++ text) := by
  have hskips := skipTrivia_skips c
  unfold next
  split
  · next d hd =>
    rw [hd] at hskips
    obtain ⟨gap, hgap, htrivia⟩ := hskips
    obtain ⟨text, htext, heof, hmarks⟩ := scan_scans d
    have hbehind := hgap.place before h
    refine ⟨gap, text, ?_, ⟨.inl ?_, hmarks _ hbehind, heof⟩, htext.place _ hbehind⟩
    · rw [hgap.rest, htext.rest, List.append_assoc]
    · rwa [htext.rest] at htrivia
  · next d opening hd =>
    rw [hd] at hskips
    obtain ⟨hend, hcomment, skipped, body, hskipped, htrivia, hopening, hbody⟩ := hskips
    have hover := hskipped.trans hcomment
    have hbehind := hover.place before h
    obtain ⟨text, htext, heof, hmarks⟩ := endOfFile_scans hend
      [⟨.unterminatedComment, opening.span (d.offset - opening.offset)⟩]
    obtain ⟨rfl, -⟩ := heof rfl
    refine ⟨skipped ++ opening.rest, [], ?_, ⟨.inr ⟨⟨skipped, body, by rw [hopening],
      hopening ▸ htrivia, hbody, _, List.mem_singleton_self _, rfl, ?_⟩, rfl⟩, hmarks _ hbehind, heof⟩, ?_⟩
    · change c.rest = skipped ++ opening.rest ++ [] ++ d.rest
      rw [List.append_nil, hover.rest]
    · have hspan := span_start (hskipped.place before h) (d.offset - opening.offset)
      exact ⟨hspan.1, hspan.2⟩
    · change d.Behind (before ++ (skipped ++ opening.rest) ++ [])
      rwa [List.append_nil]

/-- With more steps than characters, the calls come to the end of the source. -/
theorem steps_tiles {fuel : Nat} {c : Cursor} {before : List Char} (h : c.Behind before)
    (hfuel : c.rest.length < fuel) (done : List Step) :
    ∃ ps, Tiles c before ps ∧ steps fuel c done = done.reverse ++ ps.map (·.step) := by
  induction fuel generalizing c before done with
  | zero => exact absurd hfuel (Nat.not_lt_zero _)
  | succ fuel ih =>
    obtain ⟨gap, text, hrest, hfits, hbehind⟩ := next_fits h
    unfold steps
    dsimp only
    split
    · next heof =>
      obtain ⟨htext, hend⟩ := hfits.eof heof
      let p : Piece := ⟨before, gap, text, next c⟩
      exact ⟨[p], .last (p := p) rfl (hend ▸ hfits) (by simpa [hend] using hrest) heof, by simp [p]⟩
    · next heof =>
      let p : Piece := ⟨before, gap, text, next c⟩
      have htakes : 0 < text.length := List.length_pos_iff.mpr (hfits.marks.takes heof)
      have hlength := congrArg List.length hrest
      simp only [List.length_append] at hlength
      obtain ⟨ps, htiles, hsteps⟩ := ih hbehind (by omega) (next c :: done)
      exact ⟨p :: ps, .more (p := p) rfl hfits hrest heof htiles, by simpa [p] using hsteps⟩

/-- A run makes the calls from the start of the source to its end. -/
theorem run_tiles (source : List Char) : ∃ ps, Tiles (.start source) [] ps ∧
    run source = (ps.map (·.token), ps.flatMap (·.step.errors)) := by
  have hfuel : (Cursor.start source).rest.length < source.length + 1 := Nat.lt_succ_self _
  obtain ⟨ps, htiles, hsteps⟩ := steps_tiles (behind_start source) hfuel []
  refine ⟨ps, htiles, ?_⟩
  simp only [run, hsteps, List.reverse_nil, List.nil_append, List.map_map, List.flatMap_map]
  rfl

theorem Tiles.source_eq {c : Cursor} {before : List Char} {ps : List Piece} (h : Tiles c before ps) :
    c.rest = ps.flatMap fun p => p.gap ++ p.text := by
  induction h with
  | last _ _ hrest _ => simpa using hrest
  | more _ _ hrest _ _ ih => rw [hrest, ih, List.flatMap_cons]

/-- Every piece stands in the source where it says. -/
theorem Tiles.mem {c : Cursor} {before : List Char} {ps : List Piece} (h : Tiles c before ps) {p : Piece}
    (hp : p ∈ ps) : ∃ rest, p.Fits rest ∧ before ++ c.rest = p.front ++ p.text ++ rest := by
  induction h with
  | last hnext hfits hrest heof =>
    obtain rfl := List.mem_singleton.mp hp
    exact ⟨[], hfits, by simp [hrest, Piece.front]⟩
  | @more c q qs hnext hfits hrest heof tail ih =>
    obtain rfl | hp := List.mem_cons.mp hp
    · exact ⟨_, hfits, by simp [hrest, Piece.front]⟩
    · obtain ⟨rest, hfits, hsource⟩ := ih hp
      exact ⟨rest, hfits, by simpa [hrest, Piece.front] using hsource⟩

/-- The token carries the very numbers of its text. -/
structure Piece.Placed (p : Piece) : Prop where
  line : p.token.span.line.toNat = lineAfter p.front
  col : p.token.span.col.toNat = columnAfter p.front
  len : p.token.kind ≠ .error → '\n' ∉ p.text → p.token.span.len.toNat = bytes p.text

/-- No place starts over if all of them fit a word. -/
theorem Piece.Fits.placed {p : Piece} {rest : List Char} (h : p.Fits rest)
    (hfront : bytes p.front + 1 < UInt32.size) (htext : bytes p.text < UInt32.size) : p.Placed := by
  have hlines := count_newline_le p.front
  have hcolumns := bytes_lastLine_le p.front
  refine ⟨?_, ?_, fun hkind hline => ?_⟩
  · rw [token, h.marks.start.line, lineAfter, Nat.mod_eq_of_lt (by omega)]
  · rw [token, h.marks.start.col, columnAfter, Nat.mod_eq_of_lt (by omega)]
  · rw [token, h.marks.len hkind hline, Nat.mod_eq_of_lt htext]

/-- A token that is not the end of the source has a text of its own behind it, so its place fits a word
as soon as the length of the source does. -/
theorem Tiles.placed_unless_eof {source : List Char} {ps : List Piece}
    (h : Tiles (.start source) [] ps) (hsize : bytes source < UInt32.size) :
    ∀ p ∈ ps, (p.token.kind = .eof → bytes source + 1 < UInt32.size) → p.Placed := by
  intro p hp heof
  obtain ⟨rest, hfits, hsource⟩ := h.mem hp
  have hbytes : bytes source = bytes p.front + bytes p.text + bytes rest := by
    rw [← bytes_append, ← bytes_append, ← hsource]
    rfl
  refine hfits.placed ?_ (by omega)
  by_cases hkind : p.token.kind = .eof
  · have hfits := heof hkind
    omega
  · have htakes := bytes_pos (hfits.marks.takes hkind)
    omega

theorem Tiles.placed {source : List Char} {ps : List Piece} (h : Tiles (.start source) [] ps)
    (hsize : bytes source + 1 < UInt32.size) : ∀ p ∈ ps, p.Placed :=
  fun p hp => h.placed_unless_eof (Nat.lt_of_succ_lt hsize) p hp fun _ => hsize

/-- The calls of the lexer on a source that is small enough to be read cut it into pieces, from its start
to its end, and their tokens and errors are those of a run. Every token carries its very place, the end
of the source at least if the source is not as long as one can be. -/
theorem run_covers (source : List Char) (hsize : bytes source < UInt32.size) :
    ∃ ps, Tiles (.start source) [] ps ∧
      source = ps.flatMap (fun p => p.gap ++ p.text) ∧
      run source = (ps.map (·.token), ps.flatMap (·.step.errors)) ∧
      ∀ p ∈ ps, (p.token.kind = .eof → bytes source + 1 < UInt32.size) → p.Placed := by
  obtain ⟨ps, htiles, hrun⟩ := run_tiles source
  exact ⟨ps, htiles, htiles.source_eq, hrun, htiles.placed_unless_eof hsize⟩

/-- A comment, an unknown character, and a string with a character of two bytes, on two lines. -/
theorem run_covers_strings :
    let source := "/* a */ x\n  # \"é\" y".toList
    (run source).1.map (fun t => (t.kind, t.span)) =
        [(.identifier, ⟨1, 9, 1⟩), (.error, ⟨2, 3, 1⟩), (.stringLiteral, ⟨2, 5, 4⟩), (.identifier, ⟨2, 10, 1⟩),
          (.eof, ⟨2, 11, 0⟩)] ∧
      ∃ ps, Tiles (.start source) [] ps ∧ run source = (ps.map (·.token), ps.flatMap (·.step.errors)) ∧
        ∀ p ∈ ps, p.Placed := by
  intro source
  refine ⟨by decide +kernel, ?_⟩
  have hsize : bytes source + 1 < UInt32.size := by decide +kernel
  obtain ⟨ps, htiles, -, hrun, hplaced⟩ := run_covers source (Nat.lt_of_succ_lt hsize)
  exact ⟨ps, htiles, hrun, fun p hp => hplaced p hp fun _ => hsize⟩

/-- A comment of `n` characters of four bytes. -/
def wideComment (n : Nat) : List Char := '/' :: '/' :: ' ' :: List.replicate n '😀'

theorem bytes_wideComment (n : Nat) : bytes (wideComment n) = 3 + 4 * n := by
  have hwide : bytes (List.replicate n '😀') = 4 * n := by
    induction n with
    | zero => rfl
    | succ n ih =>
      have hsize : '😀'.utf8Size = 4 := rfl
      rw [List.replicate_succ, bytes_cons, ih, hsize]
      omega
  have hslash : '/'.utf8Size = 1 := rfl
  have hblank : ' '.utf8Size = 1 := rfl
  simp only [wideComment, bytes_cons, hwide, hslash, hblank]
  omega

theorem newline_notMem_wideComment (n : Nat) : '\n' ∉ wideComment n := by
  simp [wideComment]

/-- Where a comment is all there is, the only token is the end behind it. -/
theorem next_wideComment (n : Nat) : ∃ d, next (.start (wideComment n)) = endOfFile d ∧
    d.col = UInt32.ofNat (4 + 4 * n) := by
  have hnone := newline_notMem_wideComment n
  obtain ⟨d, hskip, hrest, hover⟩ :=
    skipTrivia_of_comment (c := .start (wideComment n)) rfl fun h => hnone (by simp [wideComment, h])
  refine ⟨d, ?_, ?_⟩
  · simp only [next, hskip, scan, hrest]
  · rw [(hover.place [] (behind_start _)).col]
    change UInt32.ofNat (columnAfter (wideComment n)) = _
    rw [columnAfter_of_line hnone, bytes_wideComment]
    congr 1
    omega

/-- The longest source that is read may end in column `2 ^ 32`, which its last token counts as 0. -/
theorem column_starts_over : bytes (wideComment (UInt32.size / 4 - 1)) < UInt32.size ∧
    ¬ ∃ ps, Tiles (.start (wideComment (UInt32.size / 4 - 1))) [] ps ∧ ∀ p ∈ ps, p.Placed := by
  generalize hn : UInt32.size / 4 - 1 = n
  obtain ⟨d, hnext, hcol⟩ := next_wideComment n
  have hsize := bytes_wideComment n
  have hwords : UInt32.size = 4294967296 := rfl
  refine ⟨by omega, ?_⟩
  rintro ⟨ps, htiles, hplaced⟩
  generalize hbefore : ([] : List Char) = before at htiles
  cases htiles with
  | @last _ p hstep hfits hrest heof =>
    have hfront : p.front = wideComment n := by
      rw [Piece.front, ← hbefore, List.nil_append, ← List.append_nil p.gap, ← (hfits.eof heof).1]
      exact hrest.symm
    have hzero : p.token.span.col.toNat = 0 := by
      rw [Piece.token, hstep, hnext]
      change d.col.toNat = 0
      rw [hcol, UInt32.toNat_ofNat']
      omega
    have hplace := (hplaced p (List.mem_singleton_self p)).col
    rw [hzero, hfront, columnAfter] at hplace
    omega
  | more hstep _ _ heof =>
    rw [Piece.token, hstep, hnext] at heof
    exact heof rfl

/-- A comment and blanks in front of tokens on two lines. -/
example : (run "/* a */ x\n  .5".toList).1.map (fun t => (t.lexeme, t.span)) =
    [("x", ⟨1, 9, 1⟩), (".5", ⟨2, 3, 2⟩), ("", ⟨2, 5, 0⟩)] := by decide +kernel

/-! ## Sources of known tokens -/

/-- In front of `rest` the text is read, without an error, as one token of this kind and lexeme. -/
def ReadsAs (kind : TokenKind) (text : List Char) (lexeme : String) (rest : List Char) : Prop :=
  ∀ c : Cursor, c.rest = text ++ rest → ∃ d, c.Over text d ∧ next c = ⟨⟨kind, lexeme, c.spanTo d⟩, [], d⟩

/-- The source is read as tokens of these kinds and lexemes. -/
inductive Sequence : List Char → List (TokenKind × String) → Prop
  | nil : Sequence [] []
  | cons {kind : TokenKind} {text rest : List Char} {lexeme : String} {ks : List (TokenKind × String)}
      (head : ReadsAs kind text lexeme rest) (htext : text ≠ []) (hkind : kind ≠ .eof)
      (tail : Sequence rest ks) : Sequence (text ++ rest) ((kind, lexeme) :: ks)

theorem next_of_rest_nil {c : Cursor} (h : c.rest = []) : next c = endOfFile c := by
  rw [next, skipTrivia_of_head (by simp [h])]
  simp only [scan, h]

theorem Sequence.steps {source : List Char} {ks : List (TokenKind × String)} (h : Sequence source ks)
    {fuel : Nat} {c : Cursor} (hrest : c.rest = source) (hfuel : source.length < fuel)
    (done : List Step) : ∃ ss d, Lexer.steps fuel c done = done.reverse ++ ss ++ [endOfFile d] ∧
      ss.map (fun s => (s.token.kind, s.token.lexeme)) = ks ∧ ∀ s ∈ ss, s.errors = [] := by
  induction h generalizing fuel c done with
  | nil =>
    obtain ⟨fuel, rfl⟩ := Nat.exists_eq_add_one.mpr hfuel
    refine ⟨[], c, ?_, rfl, nofun⟩
    rw [Lexer.steps, next_of_rest_nil hrest]
    simp [endOfFile]
  | @cons kind text rest lexeme ks head htext hkind tail ih =>
    obtain ⟨fuel, rfl⟩ := Nat.exists_eq_add_one.mpr (Nat.zero_lt_of_lt hfuel)
    obtain ⟨d, hover, hnext⟩ := head c hrest
    have hbehind : d.rest = rest := (List.append_cancel_left (hrest.symm.trans hover.rest)).symm
    have htakes : 0 < text.length := List.length_pos_iff.mpr htext
    rw [List.length_append] at hfuel
    have hless : rest.length < fuel := by omega
    obtain ⟨ss, e, hsteps, hss, herrors⟩ := ih hbehind hless (next c :: done)
    refine ⟨next c :: ss, e, ?_, ?_, ?_⟩
    · rw [Lexer.steps]
      simp only [hnext, hkind, if_false] at hsteps ⊢
      rw [hsteps]
      simp
    · rw [List.map_cons, hss, hnext]
    · rintro s (_ | ⟨_, hs⟩)
      · rw [hnext]
      · exact herrors s hs

theorem Sequence.run {source : List Char} {ks : List (TokenKind × String)} (h : Sequence source ks) :
    ∃ ts e, Lexer.run source = (ts ++ [e], []) ∧ ts.map (fun t => (t.kind, t.lexeme)) = ks ∧
      e.kind = .eof := by
  obtain ⟨ss, d, hsteps, hss, herrors⟩ :=
    h.steps (c := .start source) rfl (Nat.lt_succ_self source.length) []
  refine ⟨ss.map (·.token), (endOfFile d).token, ?_, ?_, rfl⟩
  · have hnone : ss.flatMap (·.errors) = [] := List.flatMap_eq_nil_iff.mpr herrors
    rw [Lexer.run, hsteps]
    simp [hnone, endOfFile]
  · rw [← hss, List.map_map]
    rfl

end ClassScript.Lexer
