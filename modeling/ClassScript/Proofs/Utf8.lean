import ClassScript.Text.Utf8

/-!
Bytes of strings, read back.

`lossy` reads any bytes; on the bytes of a string it finds nothing to replace and gives the characters
of the string. A character takes one to four bytes, and the bounds that a first byte sets to the
second one leave out just what no character is encoded as: longer forms than needed, surrogates, and
numbers above the last character.
-/

namespace ClassScript.Text

/-! ## Bytes of characters -/

theorem bytesOf_ofList (cs : List Char) :
    bytesOf (String.ofList cs) = cs.flatMap String.utf8EncodeChar := by
  simp [bytesOf, String.ofList, List.utf8Encode]

theorem encodeChar_ascii {c : Char} (h : c.toNat < 0x80) :
    String.utf8EncodeChar c = [UInt8.ofNat c.toNat] := by
  have hle : c.val.toNat ≤ 0x7f := Nat.le_of_lt_succ h
  simp only [String.utf8EncodeChar, if_pos hle]
  rfl

/-! ## Bytes inside a sequence -/

theorem isContinuation_ofNat {n : Nat} (h : n < 64) :
    isContinuation (UInt8.ofNat (n + 0x80)) = true := by
  simp [isContinuation, UInt8.le_iff_toNat_le]
  omega

theorem low_ofNat {n : Nat} (h : n < 64) : low (UInt8.ofNat (n + 0x80)) = n := by
  simp [low]
  omega

/-- The second byte of a sequence is in the range that the first one allows. -/
theorem isSecond_ofNat {a n : Nat} (ha : a < 256) (hn : n < 64) (he0 : a = 0xe0 → 0x20 ≤ n)
    (hed : a = 0xed → n < 0x20) (hf0 : a = 0xf0 → 0x10 ≤ n) (hf4 : a = 0xf4 → n < 0x10) :
    isSecond (UInt8.ofNat a) (UInt8.ofNat (n + 0x80)) = true := by
  have heq {k : Nat} (hk : k < 256) (h : UInt8.ofNat a = UInt8.ofNat k) : a = k := by
    rwa [← UInt8.toNat_inj, UInt8.toNat_ofNat_of_lt' ha, UInt8.toNat_ofNat_of_lt' hk] at h
  have hrange {k m : Nat} (hk : k ≤ n + 0x80) (hm : n + 0x80 ≤ m) (hm' : m < 256) :
      (UInt8.ofNat k ≤ UInt8.ofNat (n + 0x80) && UInt8.ofNat (n + 0x80) ≤ UInt8.ofNat m) = true := by
    simp [UInt8.le_iff_toNat_le]
    omega
  unfold isSecond
  split
  · next h =>
    have := he0 (heq (by decide) h)
    exact hrange (k := 0xa0) (m := 0xbf) (by omega) (by omega) (by decide)
  split
  · next h =>
    have := hed (heq (by decide) h)
    exact hrange (k := 0x80) (m := 0x9f) (by omega) (by omega) (by decide)
  split
  · next h =>
    have := hf0 (heq (by decide) h)
    exact hrange (k := 0x90) (m := 0xbf) (by omega) (by omega) (by decide)
  split
  · next h =>
    have := hf4 (heq (by decide) h)
    exact hrange (k := 0x80) (m := 0x8f) (by omega) (by omega) (by decide)
  · exact isContinuation_ofNat hn

/-! ## Sequences, by their lengths -/

variable {v : Nat} (rest : List UInt8)

theorem lossy_one (h : v ≤ 0x7f) : lossy (UInt8.ofNat v :: rest) = Char.ofNat v :: lossy rest := by
  have hfirst : UInt8.ofNat v < 0x80 := by
    simp [UInt8.lt_iff_toNat_lt]
    omega
  rw [lossy.eq_def]
  simp only [if_pos hfirst]
  congr 2
  simp
  omega

theorem lossy_two (h : 0x7f < v) (h' : v ≤ 0x7ff) :
    lossy (UInt8.ofNat (v / 64 % 32 + 0xc0) :: UInt8.ofNat (v % 64 + 0x80) :: rest) =
      Char.ofNat v :: lossy rest := by
  have hlow : v % 64 < 64 := Nat.mod_lt _ (by decide)
  generalize hfirst : UInt8.ofNat (v / 64 % 32 + 0xc0) = first
  have hn : first.toNat = v / 64 + 0xc0 := by
    simp [← hfirst]
    omega
  have hone : ¬ first < 0x80 := by simp [UInt8.lt_iff_toNat_lt, hn]
  have htwo : (0xc2 ≤ first && first ≤ 0xdf) = true := by
    simp [UInt8.le_iff_toNat_le, hn]
    omega
  rw [lossy, if_neg hone, if_pos htwo]
  simp only [isContinuation_ofNat hlow, low_ofNat hlow, if_true, hn]
  congr 2
  omega

theorem lossy_three (h : 0x7ff < v) (h' : v ≤ 0xffff) (hv : v.isValidChar) :
    lossy (UInt8.ofNat (v / 4096 % 16 + 0xe0) :: UInt8.ofNat (v / 64 % 64 + 0x80) ::
      UInt8.ofNat (v % 64 + 0x80) :: rest) = Char.ofNat v :: lossy rest := by
  have hmid : v / 64 % 64 < 64 := Nat.mod_lt _ (by decide)
  have hlow : v % 64 < 64 := Nat.mod_lt _ (by decide)
  have hsecond : isSecond (UInt8.ofNat (v / 4096 % 16 + 0xe0)) (UInt8.ofNat (v / 64 % 64 + 0x80)) := by
    unfold Nat.isValidChar at hv
    apply isSecond_ofNat <;> omega
  generalize hfirst : UInt8.ofNat (v / 4096 % 16 + 0xe0) = first at *
  have hn : first.toNat = v / 4096 + 0xe0 := by
    simp [← hfirst]
    omega
  have hone : ¬ first < 0x80 := by simp [UInt8.lt_iff_toNat_lt, hn]
  have htwo : ¬ (0xc2 ≤ first && first ≤ 0xdf) = true := by simp [UInt8.le_iff_toNat_le, hn]
  have hthree : (0xe0 ≤ first && first ≤ 0xef) = true := by
    simp [UInt8.le_iff_toNat_le, hn]
    omega
  rw [lossy, if_neg hone, if_neg htwo, if_pos hthree]
  simp only [hsecond, isContinuation_ofNat hlow, low_ofNat hlow, low_ofNat hmid, if_true, hn]
  congr 2
  omega

theorem lossy_four (h : 0xffff < v) (h' : v < 0x110000) :
    lossy (UInt8.ofNat (v / 262144 % 8 + 0xf0) :: UInt8.ofNat (v / 4096 % 64 + 0x80) ::
      UInt8.ofNat (v / 64 % 64 + 0x80) :: UInt8.ofNat (v % 64 + 0x80) :: rest) =
      Char.ofNat v :: lossy rest := by
  have hhigh : v / 4096 % 64 < 64 := Nat.mod_lt _ (by decide)
  have hmid : v / 64 % 64 < 64 := Nat.mod_lt _ (by decide)
  have hlow : v % 64 < 64 := Nat.mod_lt _ (by decide)
  have hsecond : isSecond (UInt8.ofNat (v / 262144 % 8 + 0xf0))
      (UInt8.ofNat (v / 4096 % 64 + 0x80)) := by
    apply isSecond_ofNat <;> omega
  generalize hfirst : UInt8.ofNat (v / 262144 % 8 + 0xf0) = first at *
  have hn : first.toNat = v / 262144 + 0xf0 := by
    simp [← hfirst]
    omega
  have hone : ¬ first < 0x80 := by simp [UInt8.lt_iff_toNat_lt, hn]
  have htwo : ¬ (0xc2 ≤ first && first ≤ 0xdf) = true := by simp [UInt8.le_iff_toNat_le, hn]
  have hthree : ¬ (0xe0 ≤ first && first ≤ 0xef) = true := by simp [UInt8.le_iff_toNat_le, hn]
  have hfour : (0xf0 ≤ first && first ≤ 0xf4) = true := by
    simp [UInt8.le_iff_toNat_le, hn]
    omega
  rw [lossy, if_neg hone, if_neg htwo, if_neg hthree, if_pos hfour]
  simp only [hsecond, isContinuation_ofNat hlow, isContinuation_ofNat hmid, low_ofNat hlow,
    low_ofNat hmid, low_ofNat hhigh, if_true, hn]
  congr 2
  omega

/-! ## Strings -/

/-- The bytes of a character are read as that character, whatever follows. -/
theorem lossy_encodeChar (c : Char) :
    lossy (String.utf8EncodeChar c ++ rest) = c :: lossy rest := by
  have hc : c = Char.ofNat c.val.toNat := (Char.ofNat_toNat c).symm
  have hv : c.val.toNat.isValidChar := c.valid
  conv => rhs; rw [hc]
  fun_cases String.utf8EncodeChar c with
  | case1 v h => exact lossy_one rest h
  | case2 v h h' => exact lossy_two rest (by omega) h'
  | case3 v h h' h'' => exact lossy_three rest (by omega) h'' hv
  | case4 v h h' h'' =>
    unfold Nat.isValidChar at hv
    exact lossy_four rest (by omega) (by omega)

theorem lossy_bytesOf (cs : List Char) : lossy (bytesOf (String.ofList cs)) = cs := by
  rw [bytesOf_ofList]
  induction cs with
  | nil => rfl
  | cons c cs ih => rw [List.flatMap_cons, lossy_encodeChar, ih]

end ClassScript.Text
