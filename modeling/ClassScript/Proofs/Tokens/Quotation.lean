import ClassScript.Proofs.Tokens.Coverage
import Mathlib.Data.List.Forall2
import Mathlib.Data.Nat.Digits.Defs
import Mathlib.Tactic.Ring

/-!
Every string can be written as a literal.

Between quotes each character stands for itself or is written by an escape, and there are up to three
ways to do so; a verbatim literal only doubles its quotes. Whichever spellings are chosen, and whatever
stands behind the literal, it is read as one token that holds the string. The proofs follow the
characters of the string: one spelling takes the scanner from one character to the next.
-/

namespace ClassScript.Lexer

open Cursor

variable {c : Cursor} {ch : Char} {s w rest : List Char} {ws : List (List Char)}

/-! ## Spellings -/

/-- The letter that stands for a character behind a backslash. -/
def letter? : Char → Option Char
  | '\n' => some 'n'
  | '\t' => some 't'
  | '\r' => some 'r'
  | '\x00' => some '0'
  | '\x07' => some 'a'
  | '\x08' => some 'b'
  | '\x0c' => some 'f'
  | '\x0b' => some 'v'
  | '\\' => some '\\'
  | '"' => some '"'
  | '\'' => some '\''
  | _ => none

/-- Characters that do not stand for themselves between quotes. -/
def special : List Char := ['\\', '"', '\n', '\r']

def IsHexDigit (d : Char) (v : Nat) : Prop :=
  v < 16 ∧ (d = v.digitChar ∨ d = v.digitChar.toUpper)

instance (d : Char) (v : Nat) : Decidable (IsHexDigit d v) := inferInstanceAs (Decidable (_ ∧ _))

/-- The ways to write a character between quotes. -/
inductive Spelling (ch : Char) : List Char → Prop
  | raw (h : ch ∉ special) : Spelling ch [ch]
  | letter {l : Char} (h : letter? ch = some l) : Spelling ch ['\\', l]
  | code {ds : List Char} {vs : List Nat} (hdigits : List.Forall₂ IsHexDigit ds vs)
      (hfour : ds.length = 4) (hvalue : Nat.ofDigits 16 vs.reverse = ch.toNat) :
      Spelling ch ('\\' :: 'u' :: ds)

def quoted (ws : List (List Char)) : List Char := '"' :: (ws.flatten ++ ['"'])

def doubled (s : List Char) : List Char := s.flatMap fun ch => if ch = '"' then ['"', '"'] else [ch]

/-- A literal in which only quotes are special. -/
def verbatim (s : List Char) : List Char := '@' :: '"' :: (doubled s ++ ['"'])

theorem Spelling.exists (ch : Char) : ∃ w, Spelling ch w := by
  by_cases h : ch ∈ special
  · have hletters : ∀ ch ∈ special, (letter? ch).isSome := by simp [special, letter?]
    obtain ⟨l, hl⟩ := Option.isSome_iff_exists.mp (hletters ch h)
    exact ⟨_, .letter hl⟩
  · exact ⟨_, .raw h⟩

/-! ## Escapes -/

theorem hexDigit?_of_isHexDigit {d : Char} {v : Nat} (h : IsHexDigit d v) : hexDigit? d = some v := by
  have hdigits : ∀ v < 16, hexDigit? v.digitChar = some v ∧ hexDigit? v.digitChar.toUpper = some v := by
    decide
  obtain ⟨hv, rfl | rfl⟩ := h
  · exact (hdigits v hv).1
  · exact (hdigits v hv).2

theorem hexDigits_eq {ds : List Char} {vs : List Nat} (h : List.Forall₂ IsHexDigit ds vs) (value : Nat)
    (hrest : c.rest = ds ++ rest) : hexDigits ds.length value c =
      (some (16 ^ ds.length * value + Nat.ofDigits 16 vs.reverse), c.bumpBy ds.length) := by
  induction h generalizing value c with
  | nil => simp [hexDigits, bumpBy]
  | @cons d v ds vs hd tail ih =>
    have hbump : c.bump.rest = ds ++ rest := by simp [hrest]
    have hlength : vs.length = ds.length := tail.length_eq.symm
    simp only [List.length_cons, hexDigits, hrest, List.cons_append, List.head?_cons, Option.bind_some,
      hexDigit?_of_isHexDigit hd, ih _ hbump, bumpBy, List.reverse_cons, Nat.ofDigits_append,
      Nat.ofDigits_singleton, List.length_reverse, hlength]
    congr 2
    ring

theorem lookup_of_letter? {l : Char} (h : letter? ch = some l) :
    l ≠ '\n' ∧ simpleEscapes.lookup l = some ch := by
  unfold letter? at h
  split at h <;> cases h <;> decide

theorem escape_letter {l : Char} (h : letter? ch = some l) (hrest : c.rest = l :: rest) :
    escape c = (.ok ch, c.bump) := by
  obtain ⟨hline, hlookup⟩ := lookup_of_letter? h
  simp [escape, hrest, hline, hlookup]

theorem scalar?_toNat (ch : Char) : scalar? ch.toNat = some ch := by
  have hvalid : ch.toNat.isValidChar := ch.valid
  rw [scalar?, if_pos hvalid, Char.ofNat_toNat]

theorem escape_code {ds : List Char} {vs : List Nat} (hdigits : List.Forall₂ IsHexDigit ds vs)
    (hfour : ds.length = 4) (hvalue : Nat.ofDigits 16 vs.reverse = ch.toNat)
    (hrest : c.rest = 'u' :: (ds ++ rest)) : escape c = (.ok ch, c.bump.bumpBy 4) := by
  have hbump : c.bump.rest = ds ++ rest := by simp [hrest]
  have hcode := hexDigits_eq hdigits 0 hbump
  rw [hfour, hvalue, Nat.mul_zero, Nat.zero_add] at hcode
  have hlookup : simpleEscapes.lookup 'u' = none := by decide
  simp [escape, hrest, hlookup, hcode, scalar?_toNat]

/-! ## Quoted literals -/

theorem scanString_escape {d : Cursor} (hrest : c.rest = '\\' :: rest)
    (hescape : escape c.bump = (.ok ch, d)) (first : Cursor) (text : List Char)
    (errors : List SyntaxError) :
    scanString first c text errors = scanString first d (ch :: text) errors := by
  rw [scanString]
  split
  · simp_all
  · next ch' rest' h =>
    obtain ⟨rfl, -⟩ := List.cons.inj (hrest.symm.trans h)
    simp only [Char.reduceEq, or_self, if_false, if_true]
    split <;> simp_all

/-- The spelling of a character takes the scanner over it, to the rest of the string. -/
theorem scanString_spelling (h : Spelling ch w) (hrest : c.rest = w ++ rest) (first : Cursor)
    (text : List Char) (errors : List SyntaxError) : ∃ d, c.Over w d ∧
      scanString first c text errors = scanString first d (ch :: text) errors := by
  cases h with
  | raw hplain =>
    refine ⟨c.bump, over_bump hrest, ?_⟩
    simp only [special, List.mem_cons, List.not_mem_nil, or_false, not_or] at hplain
    rw [scanString]
    split <;> simp_all
  | @letter l hletter =>
    have hbump : c.bump.rest = l :: rest := by simp [hrest]
    exact ⟨_, (over_bump hrest).trans (over_bump hbump),
      scanString_escape hrest (escape_letter hletter hbump) first text errors⟩
  | @code ds vs hdigits hfour hvalue =>
    have hbump : c.bump.rest = 'u' :: (ds ++ rest) := by simp [hrest]
    have hdigitsOver : c.bump.bump.Over ds (c.bump.bump.bumpBy 4) := by
      have hover := over_bumpBy 4 c.bump.bump
      rwa [rest_bump, hbump, List.tail_cons, List.take_left' hfour] at hover
    exact ⟨_, (over_bump hrest).trans ((over_bump hbump).trans hdigitsOver),
      scanString_escape hrest (escape_code hdigits hfour hvalue hbump) first text errors⟩

/-- Over the spellings of a string, up to the closing quote, its characters are collected. -/
theorem scanString_quoted (h : List.Forall₂ Spelling s ws)
    (hrest : c.rest = ws.flatten ++ '"' :: rest) (first : Cursor) (text : List Char)
    (errors : List SyntaxError) : ∃ d, c.Over (ws.flatten ++ ['"']) d ∧ scanString first c text errors =
      ⟨⟨.stringLiteral, String.ofList (text.reverse ++ s), first.spanTo d⟩, errors.reverse, d⟩ := by
  induction h generalizing c text with
  | nil =>
    refine ⟨c.bump, over_bump hrest, ?_⟩
    rw [scanString]
    split <;> simp_all
  | @cons ch w s ws hspelling tail ih =>
    rw [List.flatten_cons, List.append_assoc] at hrest ⊢
    obtain ⟨d, hover, hscan⟩ := scanString_spelling hspelling hrest first text errors
    have hbehind : d.rest = ws.flatten ++ '"' :: rest :=
      (List.append_cancel_left (hrest.symm.trans hover.rest)).symm
    obtain ⟨e, hmore, hstring⟩ := ih hbehind (ch :: text)
    refine ⟨e, hover.trans hmore, ?_⟩
    rw [hscan, hstring, List.reverse_cons, List.append_assoc, List.singleton_append]

/-! ## Verbatim literals -/

theorem scanVerbatim_pair (hrest : c.rest = '"' :: '"' :: rest) (first : Cursor) (text : List Char) :
    scanVerbatim first c text = scanVerbatim first (c.bumpBy 2) ('"' :: text) := by
  rw [scanVerbatim]
  split <;> simp_all

theorem scanVerbatim_close (hrest : c.rest = '"' :: rest) (hstop : rest.head? ≠ some '"')
    (first : Cursor) (text : List Char) : scanVerbatim first c text =
      ⟨⟨.stringLiteral, String.ofList text.reverse, first.spanTo c.bump⟩, [], c.bump⟩ := by
  rw [scanVerbatim]
  split
  · simp_all
  · next tail h =>
    rw [(List.cons.inj (hrest.symm.trans h)).2] at hstop
    exact absurd rfl hstop
  · rfl
  · simp_all

theorem scanVerbatim_plain (hrest : c.rest = ch :: rest) (hplain : ch ≠ '"') (first : Cursor)
    (text : List Char) :
    scanVerbatim first c text = scanVerbatim first c.bump (ch :: text) := by
  rw [scanVerbatim]
  split
  · simp_all
  · next tail h => exact absurd (List.cons.inj (hrest.symm.trans h)).1 hplain
  · next tail _ h => exact absurd (List.cons.inj (hrest.symm.trans h)).1 hplain
  · simp_all

/-- Over a string with doubled quotes, up to a quote that none follows, its characters are collected. -/
theorem scanVerbatim_doubled (hstop : rest.head? ≠ some '"') (hrest : c.rest = doubled s ++ '"' :: rest)
    (first : Cursor) (text : List Char) : ∃ d, c.Over (doubled s ++ ['"']) d ∧ scanVerbatim first c text =
      ⟨⟨.stringLiteral, String.ofList (text.reverse ++ s), first.spanTo d⟩, [], d⟩ := by
  induction s generalizing c text with
  | nil =>
    refine ⟨c.bump, over_bump hrest, ?_⟩
    rw [scanVerbatim_close hrest hstop, List.append_nil]
  | cons ch s ih =>
    obtain rfl | hquote := eq_or_ne ch '"'
    · have hpair : c.rest = '"' :: '"' :: (doubled s ++ '"' :: rest) := hrest
      have hquotes : c.Over ['"', '"'] (c.bumpBy 2) := by
        have hover := over_bumpBy 2 c
        rwa [hpair] at hover
      obtain ⟨d, hover, hscan⟩ := ih (c := c.bumpBy 2) (by simp [hpair]) ('"' :: text)
      refine ⟨d, hquotes.trans hover, ?_⟩
      rw [scanVerbatim_pair hpair, hscan, List.reverse_cons, List.append_assoc, List.singleton_append]
    · have hdoubled : doubled (ch :: s) = ch :: doubled s := by simp [doubled, hquote]
      rw [hdoubled] at hrest ⊢
      obtain ⟨d, hover, hscan⟩ := ih (c := c.bump) (by simp [hrest]) (ch :: text)
      refine ⟨d, (over_bump hrest).trans hover, ?_⟩
      rw [scanVerbatim_plain hrest hquote, hscan, List.reverse_cons, List.append_assoc,
        List.singleton_append]

/-! ## Literals as tokens -/

theorem quoted_readsAs (h : List.Forall₂ Spelling s ws) (rest : List Char) :
    ReadsAs .stringLiteral (quoted ws) (String.ofList s) rest := by
  intro c hc
  have hopen : c.rest = '"' :: (ws.flatten ++ '"' :: rest) := by simpa [quoted] using hc
  have hinside : c.bump.rest = ws.flatten ++ '"' :: rest := by simp [hopen]
  obtain ⟨d, hover, hscan⟩ := scanString_quoted h hinside c [] []
  refine ⟨d, (over_bump hopen).trans hover, ?_⟩
  rw [next, skipTrivia_of_head (by simp [hopen, Text.isBlank])]
  simp only [scan, hopen, hscan, List.reverse_nil, List.nil_append]

theorem verbatim_readsAs (s : List Char) (hstop : rest.head? ≠ some '"') :
    ReadsAs .stringLiteral (verbatim s) (String.ofList s) rest := by
  intro c hc
  have hopen : c.rest = '@' :: '"' :: (doubled s ++ '"' :: rest) := by simpa [verbatim] using hc
  have hmark : c.Over ['@', '"'] (c.bumpBy 2) := by
    have hover := over_bumpBy 2 c
    rwa [hopen] at hover
  have hinside : (c.bumpBy 2).rest = doubled s ++ '"' :: rest := by simp [hopen]
  obtain ⟨d, hover, hscan⟩ := scanVerbatim_doubled hstop hinside c []
  refine ⟨d, hmark.trans hover, ?_⟩
  rw [next, skipTrivia_of_head (by simp [hopen, Text.isBlank])]
  simp only [scan, hopen, hscan, List.reverse_nil, List.nil_append]

/-- The text is a whole source of one literal of the string. -/
def IsLiteral (text : List Char) (value : String) : Prop :=
  ∃ t e, run text = ([t, e], []) ∧ t.kind = .stringLiteral ∧ t.lexeme = value ∧ e.kind = .eof

theorem ReadsAs.isLiteral {text : List Char} {value : String}
    (h : ReadsAs .stringLiteral text value []) (htext : text ≠ []) : IsLiteral text value := by
  obtain ⟨ts, e, hrun, hts, he⟩ := (Sequence.cons h htext (by decide) .nil).run
  obtain ⟨t, rfl, ht⟩ := List.map_eq_singleton_iff.mp hts
  rw [List.append_nil] at hrun
  exact ⟨t, e, hrun, congrArg Prod.fst ht, congrArg Prod.snd ht, he⟩

/-- Every string has a quoted literal. Any spelling of its characters between quotes, and the string
with doubled quotes in a verbatim literal that no quote follows, is read without an error as one token
that holds the string; so are both as whole sources. -/
theorem literals_read_back (s : String) :
    (∃ ws, List.Forall₂ Spelling s.toList ws) ∧
    (∀ ws, List.Forall₂ Spelling s.toList ws →
      (∀ rest, ReadsAs .stringLiteral (quoted ws) s rest) ∧ IsLiteral (quoted ws) s) ∧
    (∀ rest, rest.head? ≠ some '"' → ReadsAs .stringLiteral (verbatim s.toList) s rest) ∧
    IsLiteral (verbatim s.toList) s := by
  have hquoted (ws : List (List Char)) (h : List.Forall₂ Spelling s.toList ws) (rest : List Char) :
      ReadsAs .stringLiteral (quoted ws) s rest := by
    simpa using quoted_readsAs h rest
  have hverbatim (rest : List Char) (h : rest.head? ≠ some '"') :
      ReadsAs .stringLiteral (verbatim s.toList) s rest := by
    simpa using verbatim_readsAs s.toList h
  refine ⟨?_, fun ws h => ⟨hquoted ws h, (hquoted ws h []).isLiteral (List.cons_ne_nil _ _)⟩, hverbatim,
    (hverbatim [] (by simp)).isLiteral (List.cons_ne_nil _ _)⟩
  induction s.toList with
  | nil => exact ⟨[], .nil⟩
  | cons ch s ih =>
    obtain ⟨ws, hws⟩ := ih
    obtain ⟨w, hw⟩ := Spelling.exists ch
    exact ⟨w :: ws, .cons hw hws⟩

/-- A letter by its number, a quote, a plain letter and a line feed. -/
theorem literals_read_back_mixed :
    List.Forall₂ Spelling "é\"x\n".toList
      ["\\u00E9".toList, "\\\"".toList, "x".toList, "\\n".toList] ∧
    IsLiteral "\"\\u00E9\\\"x\\n\"".toList "é\"x\n" := by
  have hnumber : List.Forall₂ IsHexDigit ['0', '0', 'E', '9'] [0, 0, 14, 9] :=
    .cons (by decide) (.cons (by decide) (.cons (by decide) (.cons (by decide) .nil)))
  have h : List.Forall₂ Spelling ['é', '"', 'x', '\n']
      [['\\', 'u', '0', '0', 'E', '9'], ['\\', '"'], ['x'], ['\\', 'n']] :=
    .cons (.code hnumber rfl rfl) (.cons (.letter rfl) (.cons (.raw (by decide)) (.cons (.letter rfl) .nil)))
  exact ⟨h, ((literals_read_back "é\"x\n").2.1 _ h).2⟩

end ClassScript.Lexer
