/-!
The ranges of signed integers of a given width.
-/

namespace ClassScript

/-- The first number above the range of signed integers of `bits` bits. -/
def signedLimit (bits : Nat) : Int := Int.ofNat (Nat.pow 2 (bits - 1))

def fitsSigned (bits : Nat) (n : Int) : Bool := -signedLimit bits ≤ n && n < signedLimit bits

theorem fitsSigned_iff {bits : Nat} {v : Int} :
    fitsSigned bits v ↔ -signedLimit bits ≤ v ∧ v < signedLimit bits := by
  simp only [fitsSigned, Bool.and_eq_true, decide_eq_true_eq]

theorem fitsSigned_natCast {bits n : Nat} : fitsSigned bits n ↔ n < Nat.pow 2 (bits - 1) := by
  rw [fitsSigned_iff, signedLimit, Int.ofNat_eq_natCast]
  omega

theorem fitsSigned_neg_natCast {bits n : Nat} :
    fitsSigned bits (-(n : Int)) ↔ n ≤ Nat.pow 2 (bits - 1) := by
  have : 0 < Nat.pow 2 (bits - 1) := Nat.two_pow_pos (bits - 1)
  rw [fitsSigned_iff, signedLimit, Int.ofNat_eq_natCast]
  omega

/-! ## Words of 32 and of 64 bits -/

theorem fitsSigned32_iff {v : Int} : fitsSigned 32 v ↔ -2147483648 ≤ v ∧ v < 2147483648 :=
  fitsSigned_iff

theorem fitsSigned64_iff {v : Int} :
    fitsSigned 64 v ↔ -9223372036854775808 ≤ v ∧ v < 9223372036854775808 :=
  fitsSigned_iff

theorem fitsSigned_int32 (m : Int32) : fitsSigned 32 m.toInt :=
  fitsSigned32_iff.mpr ⟨m.le_toInt, m.toInt_lt⟩

theorem fitsSigned_int64 (m : Int64) : fitsSigned 64 m.toInt :=
  fitsSigned64_iff.mpr ⟨m.le_toInt, m.toInt_lt⟩

theorem toInt_of_fitsSigned32 {v : Int} (h : fitsSigned 32 v) : (Int32.ofInt v).toInt = v :=
  Int32.toInt_ofInt_of_le (fitsSigned32_iff.mp h).1 (fitsSigned32_iff.mp h).2

theorem toInt_of_fitsSigned64 {v : Int} (h : fitsSigned 64 v) : (Int64.ofInt v).toInt = v :=
  Int64.toInt_ofInt_of_le (fitsSigned64_iff.mp h).1 (fitsSigned64_iff.mp h).2

end ClassScript
