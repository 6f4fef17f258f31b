import Mathlib.Data.List.Induction

/-!
Numbers written in digits.

`Digits base cs n` tells that a text is a row of digits and which number it denotes, in the way it is
read: from the left, a digit at the end counting once and all that stands before it `base` times. It
does not say how a program reads it; a fold over the text that knows the values of single digits does
so (`digits_iff_foldlM`), and for the base ten the library's own reading of digits
(`digits_ten_iff`).
-/

namespace ClassScript.Standard

/-- The character, as a letter in either case, is the digit of this value. -/
def IsDigit (base : Nat) (c : Char) (v : Nat) : Prop := v < base ∧ c.toLower = Nat.digitChar v

inductive Digits (base : Nat) : List Char → Nat → Prop
  | one {c : Char} {v : Nat} (h : IsDigit base c v) : Digits base [c] v
  | snoc {cs : List Char} {n : Nat} {c : Char} {v : Nat} (hs : Digits base cs n)
    (h : IsDigit base c v) : Digits base (cs ++ [c]) (base * n + v)

variable {base : Nat} {c : Char} {v n : Nat} {cs : List Char}

/-! ## Single digits -/

/-- Only characters of one byte become a digit when their case is dropped. -/
theorem IsDigit.ascii (hbase : base ≤ 16) (h : IsDigit base c v) : c.toNat < 128 := by
  by_contra hlarge
  have hlower : c.toLower = c := by
    refine dif_neg ?_
    rintro ⟨-, hle⟩
    have : c.toNat ≤ 90 := hle
    omega
  have hsmall : ∀ w < 16, (Nat.digitChar w).toNat < 128 := by decide
  have := hsmall v (Nat.lt_of_lt_of_le h.1 hbase)
  rw [← h.2, hlower] at this
  exact hlarge this

/-- What holds of the characters of one byte is checked one by one. -/
theorem forall_ascii {p : Char → Prop} (h : ∀ k < 128, p (Char.ofNat k)) :
    ∀ c : Char, c.toNat < 128 → p c := by
  intro c hc
  rw [← Char.ofNat_toNat c]
  exact h _ hc

theorem isDigit_ten_iff : IsDigit 10 c v ↔ c.isDigit ∧ c.toNat - '0'.toNat = v := by
  constructor
  · intro h
    have hall : ∀ c : Char, c.toNat < 128 → ∀ w < 10, c.toLower = Nat.digitChar w →
        c.isDigit ∧ c.toNat - '0'.toNat = w := forall_ascii (by decide +kernel)
    exact hall c (h.ascii (by omega)) v h.1 h.2
  · rintro ⟨hdigit, rfl⟩
    have hall : ∀ c : Char, c.toNat < 128 → c.isDigit →
        c.toNat - '0'.toNat < 10 ∧ c.toLower = Nat.digitChar (c.toNat - '0'.toNat) :=
      forall_ascii (by decide +kernel)
    have hle : c ≤ '9' := by
      simp only [Char.isDigit, Bool.and_eq_true, decide_eq_true_eq] at hdigit
      exact hdigit.2
    exact hall c (Nat.lt_of_le_of_lt hle (by decide)) hdigit

/-! ## Rows of digits -/

theorem Digits.ne_nil (h : Digits base cs n) : cs ≠ [] := by
  cases h <;> simp

@[simp] theorem not_digits_nil : ¬ Digits base [] n := fun h => h.ne_nil rfl

theorem Digits.isDigit_of_mem (h : Digits base cs n) (hc : c ∈ cs) : ∃ v, IsDigit base c v := by
  induction h with
  | one h =>
    obtain rfl := List.mem_singleton.mp hc
    exact ⟨_, h⟩
  | snoc _ h ih =>
    obtain hc | hc := List.mem_append.mp hc
    · exact ih hc
    · obtain rfl := List.mem_singleton.mp hc
      exact ⟨_, h⟩

theorem digits_append_singleton :
    Digits base (cs ++ [c]) n ↔
      ∃ m v, (cs = [] ∧ m = 0 ∨ Digits base cs m) ∧ IsDigit base c v ∧ base * m + v = n := by
  constructor
  · intro h
    generalize hds : cs ++ [c] = ds at h
    cases h with
    | one h =>
      obtain ⟨rfl, rfl⟩ : cs = [] ∧ c = _ := by simpa [List.append_eq_singleton_iff] using hds
      exact ⟨0, _, .inl ⟨rfl, rfl⟩, h, by simp⟩
    | snoc hs h =>
      obtain ⟨rfl, heq⟩ := List.append_inj' hds rfl
      obtain rfl := List.singleton_inj.mp heq
      exact ⟨_, _, .inr hs, h, rfl⟩
  · rintro ⟨m, v, ⟨rfl, rfl⟩ | hs, h, rfl⟩
    · simpa using Digits.one h
    · exact .snoc hs h

/-- Digits are read by a fold that knows the value of every single one. -/
theorem digits_iff_foldlM {digit? : Char → Option Nat}
    (hdigit : ∀ c v, digit? c = some v ↔ IsDigit base c v) :
    Digits base cs n ↔
      cs ≠ [] ∧ cs.foldlM (fun m c => (digit? c).map (base * m + ·)) 0 = some n := by
  induction cs using List.reverseRecOn generalizing n with
  | nil => simp
  | append_singleton cs c ih =>
    rw [digits_append_singleton]
    by_cases hcs : cs = []
    · subst hcs
      simp [hdigit]
    · simp only [hcs, false_and, false_or, ih, ne_eq, not_false_eq_true, true_and,
        List.foldlM_append, List.foldlM_cons, List.foldlM_nil, bind_pure, List.append_eq_nil_iff,
        Option.bind_eq_bind, Option.bind_eq_some_iff, Option.map_eq_some_iff, hdigit]
      constructor
      · rintro ⟨m, v, hm, hv, rfl⟩
        exact ⟨m, hm, v, hv, rfl⟩
      · rintro ⟨m, hm, v, hv, rfl⟩
        exact ⟨m, v, hm, hv, rfl⟩

theorem digits_ten_iff :
    Digits 10 cs n ↔ cs ≠ [] ∧ (∀ c ∈ cs, c.isDigit) ∧ Nat.ofDigitChars 10 cs 0 = n := by
  induction cs using List.reverseRecOn generalizing n with
  | nil => simp
  | append_singleton cs c ih =>
    rw [digits_append_singleton]
    by_cases hcs : cs = []
    · subst hcs
      simp [isDigit_ten_iff, Nat.ofDigitChars]
    · simp only [hcs, false_and, false_or, ih, isDigit_ten_iff]
      simp [hcs, Nat.ofDigitChars, or_imp, forall_and, and_assoc]

theorem digits_toDigits (n : Nat) : Digits 10 (Nat.toDigits 10 n) n :=
  digits_ten_iff.mpr ⟨Nat.toDigits_ne_nil,
    fun _ hc => Nat.isDigit_of_mem_toDigits (by omega) (by omega) hc,
    Nat.ofDigitChars_toDigits (by omega) (by omega)⟩

end ClassScript.Standard
