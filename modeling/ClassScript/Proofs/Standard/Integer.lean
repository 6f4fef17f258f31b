import ClassScript.Proofs.Standard.Digits
import ClassScript.Standard.Convert
import Mathlib.Data.List.TakeWhile

/-!
Texts that denote integers.

A text denotes an integer if it is, without the blanks around it, a row of digits with or without a
sign. Reading gives the integer if it has enough bits for it. It stops at the first character that is
none of the row or that makes the number too large, so what is reported is decided by a beginning of
the text: an overflow if one denotes a number that is too large, whatever stands behind it, and else a
wrong format (`parseInteger_classifies`). The text that an integer is shown as is read back.
-/

namespace ClassScript.Standard

open Text (isBlank trim dropTrailing)

/-! ## Blanks around a text -/

/-- What is left of a text without the blanks around it. -/
structure Trimmed (text t : List Char) : Prop where
  around : ∃ before after, text = before ++ t ++ after ∧
    (∀ c ∈ before, isBlank c) ∧ ∀ c ∈ after, isBlank c
  first : ∀ c ∈ t.head?, isBlank c = false
  last : ∀ c ∈ t.getLast?, isBlank c = false

theorem dropWhile_append_of_head {p : Char → Bool} {front rest : List Char}
    (hfront : ∀ c ∈ front, p c) (hrest : ∀ c ∈ rest.head?, p c = false) :
    (front ++ rest).dropWhile p = rest := by
  rw [List.dropWhile_append_of_pos hfront]
  cases rest with
  | nil => rfl
  | cons c rest => rw [List.dropWhile_cons_of_neg (by simp [hrest c rfl])]

theorem Trimmed.eq_trim {text t : List Char} (h : Trimmed text t) : t = trim text := by
  obtain ⟨⟨before, after, rfl, hbefore, hafter⟩, hfirst, hlast⟩ := h
  have hback : (t ++ after).reverse.dropWhile isBlank = t.reverse := by
    rw [List.reverse_append]
    exact dropWhile_append_of_head (by simpa using hafter) (by simpa using hlast)
  rw [trim, List.append_assoc]
  cases t with
  | nil =>
    have hblank : ∀ c ∈ before ++ ([] ++ after), isBlank c := by
      simpa [or_imp, forall_and] using ⟨hbefore, hafter⟩
    have hnil : (before ++ ([] ++ after)).dropWhile isBlank = [] :=
      List.dropWhile_eq_nil_iff.mpr hblank
    rw [hnil]
    rfl
  | cons c t =>
    have hfront : (before ++ (c :: t ++ after)).dropWhile isBlank = c :: t ++ after :=
      dropWhile_append_of_head hbefore (by simpa using hfirst)
    rw [hfront, dropTrailing, hback, List.reverse_reverse]

theorem head?_dropWhile {p : Char → Bool} (cs : List Char) :
    ∀ c ∈ (cs.dropWhile p).head?, p c = false := by
  intro c hc
  have := List.head?_dropWhile_not p cs
  rwa [Option.mem_def.mp hc] at this

theorem trimmed_trim (text : List Char) : Trimmed text (trim text) := by
  have htext := List.takeWhile_append_dropWhile (p := isBlank) (l := text)
  generalize hrest : text.dropWhile isBlank = rest at htext
  have hback := List.takeWhile_append_dropWhile (p := isBlank) (l := rest.reverse)
  have hsplit : dropTrailing isBlank rest ++ (rest.reverse.takeWhile isBlank).reverse = rest := by
    rw [dropTrailing, ← List.reverse_append, hback, List.reverse_reverse]
  refine ⟨⟨text.takeWhile isBlank, (rest.reverse.takeWhile isBlank).reverse, ?_, ?_, ?_⟩, ?_, ?_⟩
  · rw [trim, hrest, List.append_assoc, hsplit, htext]
  · exact fun c => List.mem_takeWhile_imp
  · exact fun c hc => List.mem_takeWhile_imp (List.mem_reverse.mp hc)
  · intro c hc
    refine head?_dropWhile text c ?_
    rw [trim, hrest] at hc
    rw [hrest, ← hsplit, List.head?_append, Option.mem_def.mp hc]
    rfl
  · intro c hc
    rw [trim, hrest, dropTrailing, List.getLast?_reverse] at hc
    exact head?_dropWhile rest.reverse c hc

theorem trimmed_iff {text t : List Char} : Trimmed text t ↔ t = trim text :=
  ⟨Trimmed.eq_trim, fun h => h ▸ trimmed_trim text⟩

/-! ## Denoted integers -/

/-- A sign, if any, and digits, and the integer that they denote. -/
inductive Denotes : List Char → Int → Prop
  | unsigned {ds : List Char} {n : Nat} (h : Digits 10 ds n) : Denotes ds n
  | plus {ds : List Char} {n : Nat} (h : Digits 10 ds n) : Denotes ('+' :: ds) n
  | minus {ds : List Char} {n : Nat} (h : Digits 10 ds n) : Denotes ('-' :: ds) (-n)

/-! ## Digits up to a limit -/

theorem le_ofDigitChars (cs : List Char) (n : Nat) : n ≤ Nat.ofDigitChars 10 cs n := by
  induction cs generalizing n with
  | nil => exact Nat.le_refl n
  | cons c cs ih =>
    rw [Nat.ofDigitChars_cons]
    exact Nat.le_trans (by omega) (ih _)

variable {limit n m : Nat} {cs : List Char}

theorem digitsUpTo_eq_ok_iff (hn : n ≤ limit) : digitsUpTo limit n cs = .ok m ↔
    (∀ c ∈ cs, c.isDigit) ∧ Nat.ofDigitChars 10 cs n = m ∧ m ≤ limit := by
  induction cs generalizing n with
  | nil =>
    simp only [digitsUpTo, Except.ok.injEq, List.not_mem_nil, false_implies, implies_true,
      Nat.ofDigitChars_nil, true_and]
    exact ⟨fun h => ⟨h, h ▸ hn⟩, And.left⟩
  | cons c cs ih =>
    rw [digitsUpTo, Nat.ofDigitChars_cons, List.forall_mem_cons]
    by_cases hc : c.isDigit
    · simp only [hc, Bool.not_true, Bool.false_eq_true, if_false, true_and]
      split
      · next hlarge =>
        have := le_ofDigitChars cs (10 * n + (c.toNat - '0'.toNat))
        refine iff_of_false nofun ?_
        rintro ⟨-, rfl, hle⟩
        omega
      · next hle => exact ih (Nat.le_of_not_lt hle)
    · simp [hc]

/-- An overflow is reported as soon as the digits so far denote too large a number. -/
theorem digitsUpTo_eq_overflow_iff (hn : n ≤ limit) : digitsUpTo limit n cs = .error .overflow ↔
    ∃ front, front <+: cs ∧ (∀ c ∈ front, c.isDigit) ∧ limit < Nat.ofDigitChars 10 front n := by
  induction cs generalizing n with
  | nil =>
    refine iff_of_false nofun ?_
    rintro ⟨front, hfront, -, hlt⟩
    rw [List.prefix_nil.mp hfront] at hlt
    exact Nat.not_lt.mpr hn hlt
  | cons c cs ih =>
    have hcons : (∃ front, front <+: c :: cs ∧ (∀ d ∈ front, d.isDigit) ∧
          limit < Nat.ofDigitChars 10 front n) ↔
        c.isDigit ∧ ∃ front, front <+: cs ∧ (∀ d ∈ front, d.isDigit) ∧
          limit < Nat.ofDigitChars 10 front (10 * n + (c.toNat - '0'.toNat)) := by
      constructor
      · rintro ⟨_ | ⟨d, front⟩, hfront, hdigits, hlt⟩
        · exact absurd hn (Nat.not_le.mpr hlt)
        · obtain ⟨rfl, hrest⟩ := List.cons_prefix_cons.mp hfront
          rw [List.forall_mem_cons] at hdigits
          exact ⟨hdigits.1, front, hrest, hdigits.2, hlt⟩
      · rintro ⟨hc, front, hfront, hdigits, hlt⟩
        exact ⟨c :: front, List.cons_prefix_cons.mpr ⟨rfl, hfront⟩,
          List.forall_mem_cons.mpr ⟨hc, hdigits⟩, hlt⟩
    rw [digitsUpTo, hcons]
    by_cases hc : c.isDigit
    · simp only [hc, Bool.not_true, Bool.false_eq_true, if_false, true_and]
      split
      · next hlarge => exact iff_of_true rfl ⟨[], List.nil_prefix, by simp, hlarge⟩
      · next hle => exact ih (Nat.le_of_not_lt hle)
    · simp [hc]

/-- Digits up to a limit, of which there is at least one. -/
def someDigitsUpTo (limit : Nat) (ds : List Char) : Except IntegerFault Nat :=
  if ds.isEmpty then .error .format else digitsUpTo limit 0 ds

theorem someDigitsUpTo_eq_ok_iff {ds : List Char} :
    someDigitsUpTo limit ds = .ok n ↔ Digits 10 ds n ∧ n ≤ limit := by
  rw [digits_ten_iff, and_assoc, and_assoc, ← digitsUpTo_eq_ok_iff (Nat.zero_le _), someDigitsUpTo]
  cases ds <;> simp

theorem someDigitsUpTo_eq_overflow_iff {ds : List Char} :
    someDigitsUpTo limit ds = .error .overflow ↔
      ∃ front n, front <+: ds ∧ Digits 10 front n ∧ limit < n := by
  have hdigits : (∃ front n, front <+: ds ∧ Digits 10 front n ∧ limit < n) ↔
      ∃ front, front <+: ds ∧ (∀ c ∈ front, c.isDigit) ∧ limit < Nat.ofDigitChars 10 front 0 := by
    simp only [digits_ten_iff]
    constructor
    · rintro ⟨front, _, hfront, ⟨-, hdigits, rfl⟩, hlt⟩
      exact ⟨front, hfront, hdigits, hlt⟩
    · rintro ⟨front, hfront, hdigits, hlt⟩
      refine ⟨front, _, hfront, ⟨?_, hdigits, rfl⟩, hlt⟩
      rintro rfl
      exact Nat.not_lt_zero _ hlt
  rw [hdigits, ← digitsUpTo_eq_overflow_iff (Nat.zero_le _), someDigitsUpTo]
  cases ds with
  | nil => exact iff_of_false nofun nofun
  | cons c ds => rfl

/-! ## Signs -/

variable {ds t : List Char} {z : Int} {bits : Nat}

theorem not_digits_sign {c : Char} (hc : c.isDigit = false) : ¬ Digits 10 (c :: ds) n := by
  intro h
  have := (digits_ten_iff.mp h).2.1 c List.mem_cons_self
  rw [hc] at this
  cases this

theorem denotes_minus : Denotes ('-' :: ds) z ↔ ∃ n, Digits 10 ds n ∧ -(n : Int) = z := by
  constructor
  · intro h
    cases h with
    | unsigned h => exact absurd h (not_digits_sign rfl)
    | minus h => exact ⟨_, h, rfl⟩
  · rintro ⟨n, h, rfl⟩
    exact .minus h

theorem denotes_plus : Denotes ('+' :: ds) z ↔ ∃ n, Digits 10 ds n ∧ (n : Int) = z := by
  constructor
  · intro h
    cases h with
    | unsigned h => exact absurd h (not_digits_sign rfl)
    | plus h => exact ⟨_, h, rfl⟩
  · rintro ⟨n, h, rfl⟩
    exact .plus h

theorem denotes_unsigned (hds : ∀ c ∈ ds.head?, c ≠ '-' ∧ c ≠ '+') :
    Denotes ds z ↔ ∃ n, Digits 10 ds n ∧ (n : Int) = z := by
  constructor
  · intro h
    cases h with
    | unsigned h => exact ⟨_, h, rfl⟩
    | plus h => exact absurd rfl (hds '+' rfl).2
    | minus h => exact absurd rfl (hds '-' rfl).1
  · rintro ⟨n, h, rfl⟩
    exact .unsigned h

theorem not_denotes_nil : ¬ Denotes [] z := by
  rw [denotes_unsigned (by simp)]
  simp

/-- The beginnings of a text with a sign that denote something have the sign, too. -/
theorem exists_prefix_cons {c : Char} : (∃ front, front <+: c :: ds ∧ Denotes front z) ↔
    ∃ front, front <+: ds ∧ Denotes (c :: front) z := by
  constructor
  · rintro ⟨_ | ⟨d, front⟩, hfront, h⟩
    · exact absurd h not_denotes_nil
    · obtain ⟨rfl, hrest⟩ := List.cons_prefix_cons.mp hfront
      exact ⟨front, hrest, h⟩
  · rintro ⟨front, hfront, h⟩
    exact ⟨c :: front, List.cons_prefix_cons.mpr ⟨rfl, hfront⟩, h⟩

/-- A number that is read is an integer before it gets its sign. -/
theorem map_natCast (found : Except IntegerFault Nat) (sign : Int → Int) :
    (found >>= fun n => pure (n : Int)).map sign = found.map fun n : Nat => sign n := by
  cases found <;> rfl

theorem signedInteger_minus : signedInteger bits ('-' :: ds) =
    (someDigitsUpTo (Nat.pow 2 (bits - 1)) ds).map fun n : Nat => -(n : Int) := by
  cases ds with
  | nil => rfl
  | cons c ds => exact map_natCast (digitsUpTo (Nat.pow 2 (bits - 1)) 0 (c :: ds)) fun n => -n

theorem signedInteger_plus : signedInteger bits ('+' :: ds) =
    (someDigitsUpTo (Nat.pow 2 (bits - 1) - 1) ds).map fun n : Nat => (n : Int) := by
  cases ds with
  | nil => rfl
  | cons c ds => exact map_natCast (digitsUpTo (Nat.pow 2 (bits - 1) - 1) 0 (c :: ds)) id

theorem signedInteger_unsigned (hds : ∀ c ∈ ds.head?, c ≠ '-' ∧ c ≠ '+') : signedInteger bits ds =
    (someDigitsUpTo (Nat.pow 2 (bits - 1) - 1) ds).map fun n : Nat => (n : Int) := by
  cases ds with
  | nil => rfl
  | cons c ds =>
    obtain ⟨hminus, hplus⟩ := hds c rfl
    have hnegative : ((c :: ds).head? == some '-') = false := by simpa using hminus
    simp only [signedInteger, hnegative]
    split
    · next heq => exact absurd (List.cons.inj heq).1 hminus
    · next heq => exact absurd (List.cons.inj heq).1 hplus
    · exact map_natCast (digitsUpTo (Nat.pow 2 (bits - 1) - 1) 0 (c :: ds)) id

/-- A text is a sign and what stands behind it, and this part decides what the text denotes and what
is read: the sign gives the limit of the digits and the integer of a number. -/
structure Splits (bits : Nat) (t ds : List Char) (limit : Nat) (value : Nat → Int) : Prop where
  run : signedInteger bits t = (someDigitsUpTo limit ds).map value
  denotes : ∀ z, Denotes t z ↔ ∃ n, Digits 10 ds n ∧ value n = z
  begins : ∀ z, (∃ front, front <+: t ∧ Denotes front z) ↔
    ∃ front, front <+: ds ∧ ∃ n, Digits 10 front n ∧ value n = z
  fits : ∀ n, fitsSigned bits (value n) ↔ n ≤ limit

theorem exists_splits (bits : Nat) (t : List Char) :
    ∃ ds limit value, Splits bits t ds limit value := by
  have hlimit (n : Nat) : fitsSigned bits n ↔ n ≤ Nat.pow 2 (bits - 1) - 1 :=
    fitsSigned_natCast.trans (Nat.lt_iff_le_pred (Nat.two_pow_pos _))
  by_cases hminus : t.head? = some '-'
  · obtain ⟨ds, rfl⟩ := List.head?_eq_some_iff.mp hminus
    refine ⟨ds, _, _, signedInteger_minus, fun z => denotes_minus, fun z => ?_,
      fun n => fitsSigned_neg_natCast⟩
    simp only [exists_prefix_cons, denotes_minus]
  by_cases hplus : t.head? = some '+'
  · obtain ⟨ds, rfl⟩ := List.head?_eq_some_iff.mp hplus
    refine ⟨ds, _, _, signedInteger_plus, fun z => denotes_plus, fun z => ?_,
      hlimit⟩
    simp only [exists_prefix_cons, denotes_plus]
  · have hsign : ∀ c ∈ t.head?, c ≠ '-' ∧ c ≠ '+' := by
      refine fun c hc => ⟨?_, ?_⟩
      · rintro rfl
        exact hminus hc
      · rintro rfl
        exact hplus hc
    refine ⟨t, _, _, signedInteger_unsigned hsign, fun z => denotes_unsigned hsign, fun z => ?_,
      hlimit⟩
    refine exists_congr fun front => and_congr_right fun ⟨rest, hrest⟩ => denotes_unsigned ?_
    intro c hc
    refine hsign c ?_
    rw [← hrest, List.head?_append, Option.mem_def.mp hc]
    rfl

/-- What is read of a text without blanks around it. -/
theorem signedInteger_eq_ok_iff : signedInteger bits t = .ok z ↔ Denotes t z ∧ fitsSigned bits z := by
  obtain ⟨ds, limit, value, h⟩ := exists_splits bits t
  have hrun : signedInteger bits t = .ok z ↔ ∃ n, someDigitsUpTo limit ds = .ok n ∧ value n = z := by
    rw [h.run]
    cases someDigitsUpTo limit ds <;> simp [Except.map]
  rw [hrun, h.denotes]
  simp only [someDigitsUpTo_eq_ok_iff, ← h.fits]
  constructor
  · rintro ⟨n, ⟨hn, hfits⟩, rfl⟩
    exact ⟨⟨n, hn, rfl⟩, hfits⟩
  · rintro ⟨⟨n, hn, rfl⟩, hfits⟩
    exact ⟨n, ⟨hn, hfits⟩, rfl⟩

/-- An overflow is decided by a beginning of the text. -/
theorem signedInteger_eq_overflow_iff : signedInteger bits t = .error .overflow ↔
    ∃ front z, front <+: t ∧ Denotes front z ∧ ¬ fitsSigned bits z := by
  obtain ⟨ds, limit, value, h⟩ := exists_splits bits t
  have hrun : signedInteger bits t = .error .overflow ↔ someDigitsUpTo limit ds = .error .overflow := by
    rw [h.run]
    cases someDigitsUpTo limit ds <;> simp [Except.map]
  rw [hrun, someDigitsUpTo_eq_overflow_iff]
  constructor
  · rintro ⟨front, n, hfront, hn, hlt⟩
    obtain ⟨front', hfront', hdenotes⟩ := (h.begins (value n)).mpr ⟨front, hfront, n, hn, rfl⟩
    exact ⟨front', value n, hfront', hdenotes, mt (h.fits n).mp (Nat.not_le.mpr hlt)⟩
  · rintro ⟨front, z, hfront, hdenotes, hlarge⟩
    obtain ⟨front', hfront', n, hn, rfl⟩ := (h.begins z).mp ⟨front, hfront, hdenotes⟩
    exact ⟨front', n, hfront', hn, Nat.not_le.mp (mt (h.fits n).mpr hlarge)⟩

/-! ## Texts of integers -/

theorem Denotes.not_blank (h : Denotes t z) : ∀ c ∈ t, isBlank c = false := by
  have hdigits {ds : List Char} {n : Nat} (hds : Digits 10 ds n) : ∀ c ∈ ds, isBlank c = false := by
    intro c hc
    have hall : ∀ c : Char, c.toNat < 128 → ∀ v < 10, c.toLower = Nat.digitChar v →
        isBlank c = false := forall_ascii (by decide +kernel)
    obtain ⟨v, hv⟩ := hds.isDigit_of_mem hc
    exact hall c (hv.ascii (by omega)) v hv.1 hv.2
  cases h with
  | unsigned h => exact hdigits h
  | plus h => exact List.forall_mem_cons.mpr ⟨rfl, hdigits h⟩
  | minus h => exact List.forall_mem_cons.mpr ⟨rfl, hdigits h⟩

theorem Denotes.trimmed (h : Denotes t z) : Trimmed t t where
  around := ⟨[], [], by simp⟩
  first c hc := h.not_blank c (List.mem_of_mem_head? hc)
  last c hc := h.not_blank c (List.mem_of_mem_getLast? hc)

theorem denotes_toString (z : Int) : Denotes (toString z).toList z := by
  cases z with
  | ofNat n =>
    have htext : (toString (Int.ofNat n)).toList = Nat.toDigits 10 n := Nat.toList_repr
    rw [htext]
    exact .unsigned (digits_toDigits n)
  | negSucc n =>
    have htext : (toString (Int.negSucc n)).toList = '-' :: Nat.toDigits 10 (n + 1) :=
      (String.toList_append).trans (congrArg _ Nat.toList_repr)
    rw [htext]
    exact .minus (digits_toDigits (n + 1))

theorem parseInteger_toString (hfits : fitsSigned bits z) : parseInteger bits (toString z) = .ok z := by
  have hdenotes := denotes_toString z
  rw [parseInteger, ← hdenotes.trimmed.eq_trim, signedInteger_eq_ok_iff.mpr ⟨hdenotes, hfits⟩]

/-- What is read of a text is told by the text without the blanks around it. -/
theorem parseInteger_cases (bits : Nat) (text : String) :
    (∃ n, signedInteger bits (trim text.toList) = .ok n ∧ parseInteger bits text = .ok n) ∨
      (signedInteger bits (trim text.toList) = .error .format ∧
        parseInteger bits text = .error (.format text)) ∨
      (signedInteger bits (trim text.toList) = .error .overflow ∧
        parseInteger bits text = .error .overflow) := by
  rw [parseInteger]
  cases hrun : signedInteger bits (trim text.toList) with
  | ok n => exact .inl ⟨n, rfl, rfl⟩
  | error e =>
    cases e with
    | format => exact .inr (.inl ⟨rfl, rfl⟩)
    | overflow => exact .inr (.inr ⟨rfl, rfl⟩)

theorem parseInteger_eq_ok_iff {text : String} :
    parseInteger bits text = .ok z ↔ Denotes (trim text.toList) z ∧ fitsSigned bits z := by
  rw [← signedInteger_eq_ok_iff]
  obtain ⟨m, hrun, heq⟩ | ⟨hrun, heq⟩ | ⟨hrun, heq⟩ := parseInteger_cases bits text <;>
    simp [hrun, heq]

theorem parseInteger_eq_overflow_iff {text : String} :
    parseInteger bits text = .error .overflow ↔
      ∃ front z, front <+: trim text.toList ∧ Denotes front z ∧ ¬ fitsSigned bits z := by
  rw [← signedInteger_eq_overflow_iff]
  obtain ⟨m, hrun, heq⟩ | ⟨hrun, heq⟩ | ⟨hrun, heq⟩ := parseInteger_cases bits text <;>
    simp [hrun, heq]

/-- An overflow is that of the number which a text denotes, unless the text denotes none but begins
with one that is too large. -/
theorem overflow_of_number_iff {text : String} :
    (parseInteger bits text = .error .overflow ↔
        ∃ z, Denotes (trim text.toList) z ∧ ¬ fitsSigned bits z) ↔
      (∃ z, Denotes (trim text.toList) z) ∨
        ∀ front z, front <+: trim text.toList → Denotes front z → fitsSigned bits z := by
  have hwhole : (∃ z, Denotes (trim text.toList) z ∧ ¬ fitsSigned bits z) →
      parseInteger bits text = .error .overflow := fun ⟨z, hz, hlarge⟩ =>
    parseInteger_eq_overflow_iff.mpr ⟨_, z, List.prefix_rfl, hz, hlarge⟩
  constructor
  · intro hmeets
    by_cases hfails : parseInteger bits text = .error .overflow
    · exact .inl ((hmeets.mp hfails).imp fun _ hz => hz.1)
    · refine .inr fun front z hfront hz => ?_
      by_contra hlarge
      exact hfails (parseInteger_eq_overflow_iff.mpr ⟨front, z, hfront, hz, hlarge⟩)
  · rintro (⟨z, hz⟩ | hfits)
    · refine ⟨fun hfails => ⟨z, hz, fun hfits => ?_⟩, hwhole⟩
      rw [parseInteger_eq_ok_iff.mpr ⟨hz, hfits⟩] at hfails
      cases hfails
    · refine ⟨fun hfails => ?_, hwhole⟩
      obtain ⟨front, z, hfront, hz, hlarge⟩ := parseInteger_eq_overflow_iff.mp hfails
      exact absurd (hfits front z hfront hz) hlarge

/-- Reading an integer gives what the text denotes, without the blanks around it, if it has enough
bits; it fails with an overflow if a beginning denotes a number that is too large; and it fails with
the format for every other text. So overflows are those of the numbers that do not fit, unless
something else than digits follows such a number. An integer is read back from the text that it is
shown as. -/
theorem parseInteger_classifies (bits : Nat) (text : String) :
    ∃ t, (∀ s, Trimmed text.toList s ↔ s = t) ∧
      (∀ n, parseInteger bits text = .ok n ↔ Denotes t n ∧ fitsSigned bits n) ∧
      (parseInteger bits text = .error .overflow ↔
        ∃ front n, front <+: t ∧ Denotes front n ∧ ¬ fitsSigned bits n) ∧
      ((∃ n, parseInteger bits text = .ok n) ∨ parseInteger bits text = .error .overflow ∨
        parseInteger bits text = .error (.format text)) ∧
      ((parseInteger bits text = .error .overflow ↔ ∃ n, Denotes t n ∧ ¬ fitsSigned bits n) ↔
        (∃ n, Denotes t n) ∨ ∀ front n, front <+: t → Denotes front n → fitsSigned bits n) ∧
      (∀ v : Int32, text = (Value.int v).text → parseInteger 32 text = .ok v.toInt) ∧
      ∀ v : Int64, text = (Value.long v).text → parseInteger 64 text = .ok v.toInt := by
  refine ⟨trim text.toList, fun s => trimmed_iff, fun n => parseInteger_eq_ok_iff,
    parseInteger_eq_overflow_iff, ?_, overflow_of_number_iff, ?_, ?_⟩
  · obtain ⟨m, -, heq⟩ | ⟨-, heq⟩ | ⟨-, heq⟩ := parseInteger_cases bits text
    · exact .inl ⟨m, heq⟩
    · exact .inr (.inr heq)
    · exact .inr (.inl heq)
  · rintro v rfl
    exact parseInteger_toString (fitsSigned_int32 v)
  · rintro v rfl
    exact parseInteger_toString (fitsSigned_int64 v)

example : parseInteger 32 " 99999999999x" = .error .overflow := by decide +kernel

end ClassScript.Standard
