import ClassScript.Proofs.Precedence.Complete
import ClassScript.Proofs.Tokens.Coverage

/-!
Integer literals are exact.

A numeral is a row of digits, however long, with or without a suffix. It is read as one token wherever
the source does not go on with the number. The expression that the token begins is the literal of its
value, or of the opposite value behind a minus: an `int` if there is no suffix and 32 bits hold the
value, else a `long` if 64 bits do, and else a report that the number is too large. No value is ever cut
off, as the word that the literal holds has the very value as an integer.
-/

namespace ClassScript

/-! ## Numerals and their values -/

structure Numeral where
  digits : List Char
  suffix : Option Char
  digits_ne_nil : digits ≠ []
  isDigit : ∀ d ∈ digits, d.isDigit
  isSuffix : ∀ l ∈ suffix, l = 'L' ∨ l = 'l'

namespace Numeral

def text (n : Numeral) : List Char := n.digits ++ n.suffix.toList

def value (n : Numeral) : Nat := Nat.ofDigitChars 10 n.digits 0

def kind (n : Numeral) : TokenKind := if n.suffix.isSome then .longLiteral else .intLiteral

/-- The source does not go on with the number behind it. -/
structure Ends (n : Numeral) (rest : List Char) : Prop where
  word : ∀ c ∈ rest.head?, Lexer.isWordPart c = false
  point : n.suffix = none → ∀ d tail, rest = '.' :: d :: tail → d.isDigit = false

/-- What is read of a number of the value `v`: a literal, or none if it is too large. -/
structure ReadsTo (n : Numeral) (v : Int) (r : Option Literal) : Prop where
  int (x : Int32) : r = some (.int x) ↔ n.suffix = none ∧ x.toInt = v
  long (x : Int64) : r = some (.long x) ↔
    ¬ (n.suffix = none ∧ -2147483648 ≤ v ∧ v < 2147483648) ∧ x.toInt = v
  tooLarge : r = none ↔ ¬ (-9223372036854775808 ≤ v ∧ v < 9223372036854775808)

variable {n : Numeral} {rest : List Char}

/-! ## Tokens -/

section
open Lexer

theorem runLength_append {p : Char → Bool} {cs : List Char} (hall : ∀ c ∈ cs, p c)
    (hstop : ∀ c ∈ rest.head?, p c = false) : runLength p (cs ++ rest) = cs.length := by
  have hnone : rest.takeWhile p = [] := by
    cases rest with
    | nil => rfl
    | cons c rest => simp [hstop c rfl]
  rw [runLength, List.takeWhile_append_of_pos hall, hnone, List.append_nil]

theorem fractionLength_eq_zero {cs : List Char}
    (h : ∀ d tail, cs = '.' :: d :: tail → d.isDigit = false) :
    fractionLength cs = 0 := by
  unfold fractionLength
  split
  · next cs =>
    cases cs with
    | nil => rfl
    | cons d tail => simp [runLength, h d tail rfl]
  · rfl

theorem exponentLength_eq_zero {cs : List Char} (h : ∀ c ∈ cs.head?, c ≠ 'e' ∧ c ≠ 'E') :
    exponentLength cs = 0 := by
  cases cs with
  | nil => rfl
  | cons c cs => simp [exponentLength, h c rfl]

theorem isWordPart_of_isDigit {c : Char} (h : c.isDigit) : isWordPart c := by
  simp [isWordPart, Char.isAlphanum, h]

/-- Behind the digits neither a digit nor a fraction nor an exponent follows. -/
theorem Ends.behind (h : n.Ends rest) :
    (∀ c ∈ (n.suffix.toList ++ rest).head?, c.isDigit = false ∧ c ≠ 'e' ∧ c ≠ 'E') ∧
    (∀ d tail, n.suffix.toList ++ rest = '.' :: d :: tail → d.isDigit = false) := by
  cases hsuffix : n.suffix with
  | none =>
    refine ⟨fun c hc => ?_, fun d tail htail => h.point hsuffix d tail htail⟩
    have hword := h.word c hc
    refine ⟨?_, ?_, ?_⟩
    · by_contra hdigit
      rw [isWordPart_of_isDigit (Bool.of_not_eq_false hdigit)] at hword
      cases hword
    all_goals
      rintro rfl
      exact absurd hword (by decide)
  | some l =>
    have hl := n.isSuffix l hsuffix
    refine ⟨fun c hc => ?_, fun d tail htail => ?_⟩
    · obtain rfl : l = c := Option.some.inj hc
      obtain rfl | rfl := hl <;> decide
    · obtain rfl := (List.cons.inj htail).1
      obtain hl | hl := hl <;> exact absurd hl (by decide)

theorem suffix_eq (h : n.Ends rest) :
    Lexer.suffix false (n.suffix.toList ++ rest) = (n.kind, n.suffix.toList.length) := by
  rw [kind]
  cases hsuffix : n.suffix with
  | none =>
    unfold Lexer.suffix
    split
    case h_5 => rfl
    all_goals
      next heq =>
      have hword := h.word _ (congrArg List.head? heq)
      exact absurd hword (by decide)
  | some l => obtain rfl | rfl := n.isSuffix l hsuffix <;> rfl

theorem numberLength_eq (h : n.Ends rest) :
    numberLength (n.text ++ rest) = (n.kind, n.text.length) := by
  obtain ⟨hhead, hpoint⟩ := h.behind
  have hwhole : runLength Char.isDigit (n.text ++ rest) = n.digits.length := by
    rw [text, List.append_assoc]
    exact runLength_append n.isDigit fun c hc => (hhead c hc).1
  have hdrop : (n.text ++ rest).drop n.digits.length = n.suffix.toList ++ rest := by
    rw [text, List.append_assoc, List.drop_left]
  have hexponent := exponentLength_eq_zero fun c hc => (hhead c hc).2
  simp only [numberLength, hwhole, hdrop, fractionLength_eq_zero hpoint, Nat.add_zero, hexponent,
    ne_eq, not_true_eq_false, decide_false, suffix_eq h]
  rw [text, List.length_append]

/-- A digit is none of the characters that begin something else. -/
theorem isDigit_plain {c : Char} (h : c.isDigit) :
    Text.isBlank c = false ∧ c ≠ '\uFEFF' ∧ c ≠ '/' ∧ c ≠ '"' ∧ c ≠ '@' := by
  refine ⟨?_, ?_, ?_, ?_, ?_⟩
  · have hrange : 48 ≤ c.toNat ∧ c.toNat ≤ 57 := by
      simpa [Char.isDigit, UInt32.le_iff_toNat_le] using h
    simp only [Text.isBlank, Bool.or_eq_false_iff, Bool.and_eq_false_iff, decide_eq_false_iff_not,
      beq_eq_false_iff_ne]
    omega
  all_goals
    rintro rfl
    exact absurd h (by decide)

theorem scan_of_isDigit {c : Cursor} {d : Char} {ds : List Char} (hrest : c.rest = d :: ds)
    (hd : d.isDigit) : scan c = scanNumber c := by
  obtain ⟨-, -, -, hquote, hverbatim⟩ := isDigit_plain hd
  unfold scan
  split
  · next h => cases hrest.symm.trans h
  · next h => exact absurd (List.cons.inj (hrest.symm.trans h)).1 hquote
  · next h => exact absurd (List.cons.inj (hrest.symm.trans h)).1 hverbatim
  · next h =>
    rw [← (List.cons.inj (hrest.symm.trans h)).1, hd, Bool.true_or, if_pos rfl]

theorem readsAs (h : n.Ends rest) : ReadsAs n.kind n.text (String.ofList n.text) rest := by
  intro c hc
  obtain ⟨d, ds, hdigits⟩ := List.exists_cons_of_ne_nil n.digits_ne_nil
  have hd : d.isDigit := n.isDigit d (hdigits ▸ List.mem_cons_self)
  have hhead : c.rest = d :: (ds ++ n.suffix.toList ++ rest) := by
    rw [hc, text, hdigits, List.cons_append, List.cons_append]
  have htake : c.rest.take n.text.length = n.text := by rw [hc, List.take_left]
  have hdrop : c.rest.drop n.text.length = rest := by rw [hc, List.drop_left]
  have hjunk : runLength isWordPart rest = 0 := @runLength_append rest isWordPart [] nofun h.word
  refine ⟨c.bumpBy n.text.length, ?_, ?_⟩
  · have hover := Cursor.over_bumpBy n.text.length c
    rwa [htake] at hover
  · have hplain := isDigit_plain hd
    rw [next, skipTrivia_of_head (by simp [hhead, hplain])]
    simp only [scan_of_isDigit hhead hd, scanNumber, hc ▸ numberLength_eq h, hdrop, hjunk, if_true, take,
      htake]

theorem text_ne_nil (n : Numeral) : n.text ≠ [] := by
  simp [text, n.digits_ne_nil]

/-- At the end of a source there is nothing to go on with. -/
theorem ends_nil (n : Numeral) : n.Ends [] := ⟨nofun, nofun⟩

end

/-! ## Literals -/

section
open Grammar

variable {t : Token} {s : State} {ts : List Token} {sub : Nat → Parse Expr}

structure IsToken (n : Numeral) (t : Token) : Prop where
  kind : t.kind = n.kind
  lexeme : t.lexeme = String.ofList n.text

theorem IsToken.magnitude (h : n.IsToken t) : t.magnitude = n.value := by
  have hsuffix : n.suffix.toList.filter Char.isDigit = [] := by
    refine List.filter_eq_nil_iff.mpr fun l hl => ?_
    obtain rfl | rfl := n.isSuffix l (Option.mem_toList.mp hl) <;> decide
  rw [Token.magnitude, h.lexeme, String.toList_ofList, text, List.filter_append,
    List.filter_eq_self.mpr n.isDigit, hsuffix, List.append_nil]
  rfl

theorem IsToken.isInteger (h : n.IsToken t) : t.kind = .intLiteral ∨ t.kind = .longLiteral := by
  have hkind : t.kind = if n.suffix.isSome then .longLiteral else .intLiteral := h.kind
  rw [hkind]
  split
  · exact .inr rfl
  · exact .inl rfl

theorem kind_eq_intLiteral_iff (n : Numeral) : n.kind = .intLiteral ↔ n.suffix = none := by
  cases hsuffix : n.suffix <;> simp [kind, hsuffix]

theorem kind_eq_longLiteral_iff (n : Numeral) : n.kind = .longLiteral ↔ n.suffix ≠ none := by
  cases hsuffix : n.suffix <;> simp [kind, hsuffix]

theorem readsTo_of_isInteger {v : Int} {l : Literal} (h : l.IsInteger n.kind v) :
    n.ReadsTo v (some l) := by
  cases h with
  | @int m hkind hvalue =>
    have hsuffix := n.kind_eq_intLiteral_iff.mp hkind
    have hfits := fitsSigned32_iff.mp (fitsSigned_int32 m)
    rw [hvalue] at hfits
    refine ⟨fun x => ?_, fun x => iff_of_false nofun fun h => h.1 ⟨hsuffix, hfits⟩,
      iff_of_false nofun fun h => h (by omega)⟩
    simp [hsuffix, ← hvalue, Int32.toInt_inj, eq_comm]
  | @long m hkind hvalue =>
    have hfits := fitsSigned64_iff.mp (fitsSigned_int64 m)
    rw [hvalue] at hfits
    have hlong : ¬ (n.suffix = none ∧ -2147483648 ≤ v ∧ v < 2147483648) := by
      rintro ⟨hsuffix, hshort⟩
      obtain hkind | ⟨-, hnot⟩ := hkind
      · exact n.kind_eq_longLiteral_iff.mp hkind hsuffix
      · rw [fitsSigned32_iff.mpr hshort] at hnot
        cases hnot
    refine ⟨fun x => iff_of_false nofun ?_, fun x => ?_, iff_of_false nofun (not_not_intro hfits)⟩
    · rintro ⟨hsuffix, rfl⟩
      exact hlong ⟨hsuffix, fitsSigned32_iff.mp (fitsSigned_int32 x)⟩
    · rw [and_iff_right hlong, ← hvalue, Int64.toInt_inj, eq_comm (a := x)]
      simp

/-- A value of 64 bits has a literal. -/
theorem exists_isInteger {v : Int} (hfits : -9223372036854775808 ≤ v ∧ v < 9223372036854775808) :
    ∃ l : Literal, l.IsInteger n.kind v := by
  by_cases hshort : n.kind = .intLiteral ∧ fitsSigned 32 v
  · exact ⟨_, .int hshort.1 (toInt_of_fitsSigned32 hshort.2)⟩
  · refine ⟨_, .long ?_ (toInt_of_fitsSigned64 (fitsSigned64_iff.mpr hfits))⟩
    by_cases hsuffix : n.suffix = none
    · have hkind := n.kind_eq_intLiteral_iff.mpr hsuffix
      exact .inr ⟨hkind, Bool.of_not_eq_true fun h => hshort ⟨hkind, h⟩⟩
    · exact .inl (n.kind_eq_longLiteral_iff.mpr hsuffix)

theorem readsTo_none {v : Int} (hlarge : ¬ (-9223372036854775808 ≤ v ∧ v < 9223372036854775808)) :
    n.ReadsTo v none := by
  refine ⟨fun x => iff_of_false nofun ?_, fun x => iff_of_false nofun ?_, iff_of_true rfl hlarge⟩
  · rintro ⟨-, rfl⟩
    have hfits := fitsSigned32_iff.mp (fitsSigned_int32 x)
    exact hlarge (by omega)
  · rintro ⟨-, rfl⟩
    exact hlarge (fitsSigned64_iff.mp (fitsSigned_int64 x))

/-- The value decides what is read. -/
theorem ReadsTo.unique {v : Int} {r r' : Option Literal} (h : n.ReadsTo v r) (h' : n.ReadsTo v r') :
    r = r' := by
  by_cases hfits : -9223372036854775808 ≤ v ∧ v < 9223372036854775808
  · by_cases hshort : n.suffix = none ∧ -2147483648 ≤ v ∧ v < 2147483648
    · have hx := toInt_of_fitsSigned32 (fitsSigned32_iff.mpr hshort.2)
      rw [(h.int _).mpr ⟨hshort.1, hx⟩, (h'.int _).mpr ⟨hshort.1, hx⟩]
    · have hx := toInt_of_fitsSigned64 (fitsSigned64_iff.mpr hfits)
      rw [(h.long _).mpr ⟨hshort, hx⟩, (h'.long _).mpr ⟨hshort, hx⟩]
  · rw [h.tooLarge.mpr hfits, h'.tooLarge.mpr hfits]

def given (r : Option Literal) (span : Span) : Parse Literal :=
  match r with
  | some l => pure l
  | none => fail .integerTooLarge span

theorem integerLiteral_cases (negative : Bool) (t : Token) :
    (∃ l, integerLiteral negative t = pure l) ∨
      integerLiteral negative t = fail .integerTooLarge t.span := by
  unfold integerLiteral
  dsimp only
  generalize (if negative then -Int.ofNat (Double.digitsValue (t.lexeme.toList.filter Char.isDigit))
    else Int.ofNat (Double.digitsValue (t.lexeme.toList.filter Char.isDigit))) = v
  split
  · exact .inl ⟨_, rfl⟩
  · split
    · exact .inl ⟨_, rfl⟩
    · exact .inr rfl

theorem exists_readsTo (n : Numeral) (negative : Bool) : ∃ r,
    n.ReadsTo (if negative then -n.value else n.value) r ∧
    ∀ t, n.IsToken t → integerLiteral negative t = given r t.span := by
  have hone (t : Token) (h : n.IsToken t) : ∃ r,
      n.ReadsTo (if negative then -n.value else n.value) r ∧
      integerLiteral negative t = given r t.span := by
    let s : State := ⟨none, [], t, [], 0⟩
    rw [← h.magnitude]
    obtain ⟨l, hl⟩ | herror := integerLiteral_cases negative t
    · have hrun : integerLiteral negative t s = .ok l s := congrFun hl s
      have hinteger := ((integerLiteral_iff h.isInteger).mp hrun).1
      exact ⟨some l, readsTo_of_isInteger (h.kind ▸ hinteger), hl⟩
    · refine ⟨none, readsTo_none fun hfits => ?_, herror⟩
      obtain ⟨l, hl⟩ := exists_isInteger (n := n) hfits
      have hok := (integerLiteral_iff (s := s) h.isInteger).mpr ⟨h.kind ▸ hl, rfl⟩
      rw [herror] at hok
      cases hok
  obtain ⟨r, hr, -⟩ := hone ⟨n.kind, String.ofList n.text, default⟩ ⟨rfl, rfl⟩
  refine ⟨r, hr, fun t ht => ?_⟩
  obtain ⟨r', hr', heq⟩ := hone t ht
  rwa [hr.unique hr']

variable {r : Option Literal}

/-- The operand that a numeral begins is its literal. -/
theorem operand_eq (h : n.IsToken t) (hr : integerLiteral false t = given r t.span)
    (hupcoming : s.upcoming = t :: ts) : operand sub s =
      (given r t.span >>= fun l => iterate (suffix? sub) (.literal l t.span)) s.next := by
  obtain ⟨rfl, -⟩ := State.takes_next hupcoming
  have hop : UnaryOp.ofToken? s.current.kind = none := by
    obtain hkind | hkind := h.isInteger <;> rw [hkind] <;> rfl
  have hprimary : primary sub s = literal s := by
    obtain hkind | hkind := h.isInteger <;>
      simp [primary, look, lookAhead, Bind.bind, Parse.bind, hkind, TokenKind.isType,
        TokenKind.valueType?]
  have hliteral : literal s =
      (given r s.current.span >>= fun l => pure (.literal l s.current.span)) s.next := by
    obtain hkind | hkind := h.isInteger <;>
      simp [literal, look, Bind.bind, Parse.bind, hkind, TokenKind.isLiteral, advance_eq, hr]
  simp only [operand, look, Bind.bind, Parse.bind, hop, hprimary, hliteral]
  cases r <;> rfl

/-- A minus right in front of the numeral belongs to the literal. -/
theorem operand_eq_neg {minus : Token} (h : n.IsToken t) (hr : integerLiteral true t = given r t.span)
    (hminus : minus.kind = .minus) (hupcoming : s.upcoming = minus :: t :: ts)
    (hdot : (ts.headD s.eof).kind ≠ .dot) : operand sub s =
      (given r t.span >>= fun l => iterate (suffix? sub) (.literal l (minus.span.merge t.span)))
        s.next.next := by
  obtain ⟨rfl, hgives⟩ := State.takes_next hupcoming
  have hupcoming₁ : s.next.upcoming = t :: ts := hgives.leaves hupcoming
  obtain ⟨rfl, -⟩ := State.takes_next hupcoming₁
  have hop : UnaryOp.ofToken? s.current.kind = some .neg := by
    rw [hminus]
    rfl
  have hnumber : (s.ahead 1).kind = .intLiteral ∨ (s.ahead 1).kind = .longLiteral :=
    s.current_next ▸ h.isInteger
  have hahead : (s.ahead 2).kind ≠ .dot := by
    rw [State.ahead, hupcoming]
    cases ts <;> exact hdot
  simp only [operand, look, lookAhead, Bind.bind, Parse.bind, hop]
  rw [if_pos ⟨trivial, hnumber, hahead⟩]
  simp only [Parse.bind, advance_eq, hr]

/-! ## Whole sources -/

/-- The source has no lexical error and is one expression, the literal, or it is reported that the
number is too large. -/
def IsExpression (source : List Char) (r : Option Literal) : Prop :=
  (Lexer.run source).2 = [] ∧ ∀ depth power, ∃ span s, s.upcoming = [] ∧
    expr (depth + 1) power (.ofTokens (Lexer.run source).1) = match r with
      | some l => .ok (.literal l span) s
      | none => .error ⟨.integerTooLarge, span⟩ s

theorem iterate_ends {α : Type} {step : α → Parse (Option α)} {a : α} (h : step a s = .ok none s) :
    iterate step a s = .ok a s := by
  simp only [iterate, repeatFrom, h]

/-- At the end of the source nothing follows the operand. -/
theorem operators_given {power : Nat} {span sp : Span} {s' : State}
    (h : operand sub s = (given r span >>= fun l => iterate (suffix? sub) (.literal l sp)) s')
    (heof : s'.current.kind = .eof) :
    operators sub power s = (given r span >>= fun l => pure (.literal l sp)) s' := by
  cases r with
  | none =>
    have h : operand sub s = .error ⟨.integerTooLarge, span⟩ s' := h
    simp only [operators, Bind.bind, Parse.bind, h]
    rfl
  | some l =>
    have hsuffix : suffix? sub (.literal l sp) s' = .ok none s' := suffix_ends (by rw [heof]; rfl)
    have hoperator : operator? sub power (.literal l sp) s' = .ok none s' := by
      refine operator_ends fun p hp => ?_
      rw [heof] at hp
      cases hp
    have h : operand sub s = iterate (suffix? sub) (.literal l sp) s' := h
    simp only [operators, Bind.bind, Parse.bind, h, iterate_ends hsuffix, iterate_ends hoperator]
    rfl

theorem isExpression_of_operand {source : List Char} {span sp : Span}
    (herrors : (Lexer.run source).2 = []) (h : ∀ sub, operand sub (.ofTokens (Lexer.run source).1) =
      (given r span >>= fun l => iterate (suffix? sub) (.literal l sp)) s)
    (hend : s.upcoming = []) (heof : s.eof.kind = .eof) : IsExpression source r := by
  refine ⟨herrors, fun depth power => ?_⟩
  have hcurrent : s.current.kind = .eof := by rwa [State.current, hend]
  have hrun : expr (depth + 1) power (.ofTokens (Lexer.run source).1) =
      (given r span >>= fun l => pure (.literal l sp)) s := operators_given (h (expr depth)) hcurrent
  cases r with
  | none => exact ⟨span, s, hend, hrun⟩
  | some l => exact ⟨sp, s, hend, hrun⟩

theorem kind_ne_eof (n : Numeral) : n.kind ≠ .eof := by
  rw [kind]
  split <;> decide

theorem isExpression (hr : ∀ t, n.IsToken t → integerLiteral false t = given r t.span) :
    IsExpression n.text r := by
  have hsequence := Lexer.Sequence.cons (readsAs n.ends_nil) n.text_ne_nil n.kind_ne_eof .nil
  obtain ⟨ts, e, hrun, hts, he⟩ := hsequence.run
  rw [List.append_nil] at hrun
  obtain ⟨t, rfl, ht⟩ := List.map_eq_singleton_iff.mp hts
  have htoken : n.IsToken t := ⟨congrArg Prod.fst ht, congrArg Prod.snd ht⟩
  have hkind : t.kind ≠ .eof := htoken.kind ▸ n.kind_ne_eof
  have hstate : State.ofTokens ([t] ++ [e]) = ⟨none, [t], e, [], 1⟩ := by
    simp [State.ofTokens, hkind, he]
  have hoperand (sub : Nat → Parse Expr) : operand sub (.ofTokens (Lexer.run n.text).1) =
      (given r t.span >>= fun l => iterate (suffix? sub) (.literal l t.span)) ⟨some t, [], e, [], 1⟩ := by
    rw [hrun, hstate]
    exact operand_eq htoken (hr t htoken) rfl
  exact isExpression_of_operand (by rw [hrun]) hoperand rfl he

/-- A minus is a token of its own in front of a digit. -/
theorem minus_readsAs (n : Numeral) : Lexer.ReadsAs .minus ['-'] "-" n.text := by
  intro c hc
  obtain ⟨d, ds, hdigits⟩ := List.exists_cons_of_ne_nil n.digits_ne_nil
  have hd : d.isDigit := n.isDigit d (hdigits ▸ List.mem_cons_self)
  have hrest : c.rest = '-' :: d :: (ds ++ n.suffix.toList) := by
    rw [hc, text, hdigits]
    rfl
  have hminus : d ≠ '-' ∧ d ≠ '=' := by
    constructor <;> (rintro rfl; exact absurd hd (by decide))
  have hfind : Lexer.symbols.find? (fun s => s.1.isPrefixOf c.rest) = some (['-'], .minus) := by
    simp [hrest, Lexer.symbols, List.isPrefixOf, Ne.symm hminus.1, Ne.symm hminus.2]
  have hsymbol : Lexer.scanSymbol c = ⟨⟨.minus, "-", c.spanTo c.bump⟩, [], c.bump⟩ := by
    rw [Lexer.scanSymbol, hfind]
    simp [Lexer.take, hrest, Lexer.Cursor.bumpBy]
  have hscan : Lexer.scan c = Lexer.scanSymbol c := by
    simp [Lexer.scan, hrest, Lexer.isWordStart]
  refine ⟨c.bump, Lexer.Cursor.over_bump hrest, ?_⟩
  rw [Lexer.next, Lexer.skipTrivia_of_head (by simp [hrest, Text.isBlank])]
  exact hscan.trans hsymbol

theorem isExpression_neg (hr : ∀ t, n.IsToken t → integerLiteral true t = given r t.span) :
    IsExpression ('-' :: n.text) r := by
  have hnumeral := Lexer.Sequence.cons (readsAs n.ends_nil) n.text_ne_nil n.kind_ne_eof .nil
  rw [List.append_nil] at hnumeral
  have hsequence := Lexer.Sequence.cons n.minus_readsAs (by decide) (by decide) hnumeral
  obtain ⟨ts, e, hrun, hts, he⟩ := hsequence.run
  obtain ⟨minus, ts, rfl, hminus, hts⟩ := List.map_eq_cons_iff.mp hts
  obtain ⟨t, rfl, ht⟩ := List.map_eq_singleton_iff.mp hts
  have htoken : n.IsToken t := ⟨congrArg Prod.fst ht, congrArg Prod.snd ht⟩
  have hkind : t.kind ≠ .eof := htoken.kind ▸ n.kind_ne_eof
  have hminus : minus.kind = .minus := congrArg Prod.fst hminus
  have hstate : State.ofTokens ([minus, t] ++ [e]) = ⟨none, [minus, t], e, [], 2⟩ := by
    simp [State.ofTokens, hkind, hminus, he]
  have hoperand (sub : Nat → Parse Expr) : operand sub (.ofTokens (Lexer.run ('-' :: n.text)).1) =
      (given r t.span >>= fun l => iterate (suffix? sub) (.literal l (minus.span.merge t.span)))
        ⟨some t, [], e, [], 2⟩ := by
    rw [← List.singleton_append, hrun, hstate]
    exact operand_eq_neg htoken (hr t htoken) hminus rfl (by rw [List.headD_nil, he]; decide)
  exact isExpression_of_operand (by rw [← List.singleton_append, hrun]) hoperand rfl he

/-- A numeral is one token, wherever the source does not go on with the number. The operand that it
begins is the literal of its value, and behind a minus, unless a point follows, of the opposite value:
an `int` if the value fits 32 bits and there is no suffix, else a `long` if it fits 64 bits, else it is
reported that the number is too large. So it is for the numeral, with and without a minus, as a whole
source. -/
theorem literal_exact (n : Numeral) :
    (∀ rest, n.Ends rest → Lexer.ReadsAs n.kind n.text (String.ofList n.text) rest) ∧
    (∃ r, n.ReadsTo n.value r ∧ IsExpression n.text r ∧
      ∀ sub s t ts, n.IsToken t → s.upcoming = t :: ts → operand sub s =
        (given r t.span >>= fun l => iterate (suffix? sub) (.literal l t.span)) s.next) ∧
    (∃ r, n.ReadsTo (-n.value) r ∧ IsExpression ('-' :: n.text) r ∧
      ∀ sub s minus t ts, n.IsToken t → minus.kind = .minus → s.upcoming = minus :: t :: ts →
        (ts.headD s.eof).kind ≠ .dot → operand sub s =
          (given r t.span >>= fun l => iterate (suffix? sub) (.literal l (minus.span.merge t.span)))
            s.next.next) := by
  obtain ⟨r, hr, hrun⟩ := n.exists_readsTo false
  obtain ⟨r', hr', hrun'⟩ := n.exists_readsTo true
  refine ⟨fun _ => readsAs, ⟨r, hr, isExpression hrun, ?_⟩, ⟨r', hr', isExpression_neg hrun', ?_⟩⟩
  · intro sub s t ts ht hupcoming
    exact operand_eq ht (hrun t ht) hupcoming
  · intro sub s minus t ts ht hminus hupcoming hdot
    exact operand_eq_neg ht (hrun' t ht) hminus hupcoming hdot

/-- The least `int` and the least `long` are written behind a minus, and one more digit is too large. -/
theorem literal_exact_least :
    IsExpression "-2147483648".toList (some (.int (-2147483648))) ∧
    IsExpression "-9223372036854775808L".toList (some (.long (-9223372036854775808))) ∧
    IsExpression "9223372036854775808".toList none := by
  obtain ⟨-, -, r, hr, hint, -⟩ := literal_exact ⟨"2147483648".toList, none, by decide, by simp, nofun⟩
  obtain ⟨-, -, r', hr', hlong, -⟩ :=
    literal_exact ⟨"9223372036854775808".toList, some 'L', by decide, by simp, by simp⟩
  obtain ⟨-, ⟨r'', hr'', hlarge, -⟩, -⟩ :=
    literal_exact ⟨"9223372036854775808".toList, none, by decide, by simp, nofun⟩
  obtain rfl := (hr.int (-2147483648)).mpr ⟨rfl, by decide⟩
  obtain rfl := (hr'.long (-9223372036854775808)).mpr ⟨by simp, by decide⟩
  obtain rfl := hr''.tooLarge.mpr (by decide)
  exact ⟨hint, hlong, hlarge⟩

end

end Numeral

end ClassScript
