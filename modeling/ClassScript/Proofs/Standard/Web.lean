import ClassScript.Proofs.Utf8
import ClassScript.Standard.Web
import Mathlib.Data.List.TakeDrop

/-!
Texts in URLs and in HTML.

What is encoded is clean, and decoding gives the text back. In a URL it consists of letters, digits, a
few marks, pluses, and escapes in capital digits; in HTML it holds no character that means something
but the ampersands that start the entities.

Both are read back part by part, whatever follows. Every byte of a URL is read by itself, so an escape
at the end of a text and a percent sign or a plus inside it need no case of their own. An entity ends
at the first semicolon behind its ampersand, so one that comes first in a text is read as it was
written, and with it the text can be read one character of the original after the other.
-/

namespace ClassScript.Standard

/-! ## URLs -/

namespace Url

open Text

/-! ### Clean texts -/

def IsUpperHex (c : Char) : Prop := ('0' ≤ c ∧ c ≤ '9') ∨ ('A' ≤ c ∧ c ≤ 'F')

/-- A character that may stand anywhere in an encoded text. -/
def IsSafe (c : Char) : Prop :=
  ('A' ≤ c ∧ c ≤ 'Z') ∨ ('a' ≤ c ∧ c ≤ 'z') ∨ ('0' ≤ c ∧ c ≤ '9') ∨
    c ∈ ['-', '_', '.', '!', '*', '(', ')', '+']

instance (c : Char) : Decidable (IsUpperHex c) := inferInstanceAs (Decidable (_ ∨ _))

instance (c : Char) : Decidable (IsSafe c) := inferInstanceAs (Decidable (_ ∨ _))

/-- A text of safe characters and of percent signs, each with two digits behind it. -/
inductive Clean : List Char → Prop
  | nil : Clean []
  | safe {c : Char} {cs : List Char} (h : IsSafe c) (hs : Clean cs) : Clean (c :: cs)
  | escape {a b : Char} {cs : List Char} (ha : IsUpperHex a) (hb : IsUpperHex b) (hs : Clean cs) :
    Clean ('%' :: a :: b :: cs)

/-! ### Digits and plain bytes -/

theorem isUpperHex_upperHex : ∀ n < 16, IsUpperHex (upperHex n) := by decide

theorem hexValue?_upperHex :
    ∀ n < 16, hexValue? (UInt8.ofNat (upperHex n).toNat) = some (UInt8.ofNat n) := by decide

/-- A plain byte is all of a safe character, and neither a percent sign nor a plus. -/
theorem of_isPlain {b : UInt8} (h : isPlain b = true) :
    IsSafe (Char.ofNat b.toNat) ∧ String.utf8EncodeChar (Char.ofNat b.toNat) = [b] ∧
      b ≠ 0x25 ∧ b ≠ 0x2b := by
  have hall : ∀ n < 256, isPlain (UInt8.ofNat n) = true →
      IsSafe (Char.ofNat n) ∧ String.utf8EncodeChar (Char.ofNat n) = [UInt8.ofNat n] ∧
        UInt8.ofNat n ≠ 0x25 ∧ UInt8.ofNat n ≠ 0x2b := by
    decide +kernel
  have hb := hall b.toNat b.toNat_lt
  rw [UInt8.ofNat_toNat] at hb
  exact hb h

theorem ascii_of_isUpperHex {c : Char} (h : IsUpperHex c) : c.toNat < 0x80 := by
  have hle : c ≤ 'F' := by
    obtain ⟨-, h⟩ | ⟨-, h⟩ := h
    · exact Char.le_trans h (by decide)
    · exact h
  exact Nat.lt_of_le_of_lt hle (by decide)

/-! ### Bytes -/

theorem decodeBytes_cons {b : UInt8} (h : b ≠ 0x25) (rest : List UInt8) :
    decodeBytes (b :: rest) = (if b = 0x2b then 0x20 else b) :: decodeBytes rest := by
  rw [decodeBytes.eq_def]
  split <;> simp_all

/-- A capital digit is one byte, which has the value of the digit. -/
theorem encodeChar_upperHex {n : Nat} (h : n < 16) :
    ∃ b, String.utf8EncodeChar (upperHex n) = [b] ∧ hexValue? b = some (UInt8.ofNat n) :=
  ⟨_, encodeChar_ascii (ascii_of_isUpperHex (isUpperHex_upperHex n h)), hexValue?_upperHex n h⟩

theorem decodeBytes_escape {a b x y : UInt8} (hx : hexValue? a = some x) (hy : hexValue? b = some y)
    (rest : List UInt8) : decodeBytes (0x25 :: a :: b :: rest) = (16 * x + y) :: decodeBytes rest := by
  rw [decodeBytes, hx, hy]

/-- Every byte is read back from what it is written as, whatever follows. -/
theorem decodeBytes_encodeByte (b : UInt8) (rest : List UInt8) :
    decodeBytes ((encodeByte b).flatMap String.utf8EncodeChar ++ rest) = b :: decodeBytes rest := by
  unfold encodeByte
  split
  · next hspace =>
    subst hspace
    exact decodeBytes_cons (b := 0x2b) (by decide) rest
  split
  · next hplain =>
    obtain ⟨-, hone, hpercent, hplus⟩ := of_isPlain hplain
    rw [List.flatMap_singleton, hone, List.singleton_append,
      decodeBytes_cons hpercent, if_neg hplus]
  · have hb := b.toNat_lt
    obtain ⟨hi, hhi, hx⟩ := encodeChar_upperHex (n := b.toNat / 16) (by omega)
    obtain ⟨lo, hlo, hy⟩ := encodeChar_upperHex (n := b.toNat % 16) (by omega)
    have hvalue : 16 * UInt8.ofNat (b.toNat / 16) + UInt8.ofNat (b.toNat % 16) = b := by
      rw [← UInt8.toNat_inj]
      simp
      omega
    simp only [List.flatMap_cons, List.flatMap_nil, hhi, hlo]
    exact (decodeBytes_escape hx hy rest).trans (by rw [hvalue])

/-- What a byte is written as is clean, in front of a clean text. -/
theorem clean_encodeByte (b : UInt8) {cs : List Char} (h : Clean cs) : Clean (encodeByte b ++ cs) := by
  unfold encodeByte
  split
  · exact .safe (by decide) h
  split
  · next hplain => exact .safe (of_isPlain hplain).1 h
  · have hb := b.toNat_lt
    exact .escape (isUpperHex_upperHex _ (by omega)) (isUpperHex_upperHex _ (by omega)) h

/-! ### Texts -/

theorem clean_flatMap (bs : List UInt8) : Clean (bs.flatMap encodeByte) := by
  induction bs with
  | nil => exact .nil
  | cons b bs ih =>
    rw [List.flatMap_cons]
    exact clean_encodeByte b ih

theorem decodeBytes_encode (bs : List UInt8) :
    decodeBytes (bytesOf (String.ofList (bs.flatMap encodeByte))) = bs := by
  rw [bytesOf_ofList, List.flatMap_assoc]
  induction bs with
  | nil => rfl
  | cons b bs ih => rw [List.flatMap_cons, decodeBytes_encodeByte, ih]

/-- Encoding can be undone, and what it gives is clean. -/
theorem decode_encode_clean (text : List Char) :
    decode (encode text) = text ∧ Clean (encode text) := by
  constructor
  · rw [decode, encode, decodeBytes_encode, lossy_bytesOf]
  · exact clean_flatMap _

example : encode "1+1 = 2%, é".toList = "1%2B1+%3D+2%25%2C+%C3%A9".toList := by decide +kernel

end Url

/-! ## HTML -/

namespace Html

/-! ### Reading from the front -/

theorem decodeFrom_skip (cs rest : List Char) :
    decodeFrom (cs ++ rest) cs.length = decodeFrom rest 0 := by
  induction cs with
  | nil => rfl
  | cons c cs ih => exact ih

theorem decodeFrom_plain {c : Char} (h : c ≠ '&') (rest : List Char) :
    decodeFrom (c :: rest) 0 = c :: decodeFrom rest 0 := by
  rw [decodeFrom, if_neg h]

theorem span_semicolon {name : List Char} (h : ';' ∉ name) (rest : List Char) :
    (name ++ ';' :: rest).span (· ≠ ';') = (name, ';' :: rest) := by
  have hname : ∀ c ∈ name, decide (c ≠ ';') = true := by
    intro c hc
    exact decide_eq_true fun hsemi => h (hsemi ▸ hc)
  rw [List.span_eq_takeWhile_dropWhile, List.takeWhile_append_of_pos hname,
    List.dropWhile_append_of_pos hname]
  simp

/-- An entity is read as the character that it names, whatever follows. -/
theorem decodeFrom_entity {name : List Char} {c : Char} (hname : ';' ∉ name)
    (hc : entity? name = some c) (rest : List Char) :
    decodeFrom ('&' :: name ++ ';' :: rest) 0 = c :: decodeFrom rest 0 := by
  have hahead : entityAhead? (name ++ ';' :: rest) = some (c, name.length + 1) := by
    simp only [entityAhead?, span_semicolon hname, hc]
    rfl
  have hskip := decodeFrom_skip (name ++ [';']) rest
  rw [List.append_assoc, List.length_append] at hskip
  rw [List.cons_append, decodeFrom, if_pos rfl, hahead]
  exact congrArg (c :: ·) hskip

/-! ### Encoded characters -/

/-- The names of the entities that encoded texts hold. -/
def written : List (List Char) :=
  ["amp".toList, "lt".toList, "gt".toList, "quot".toList, "#39".toList]

/-- A character is written as an entity that names it, or as itself. -/
theorem encodeChar_cases (c : Char) :
    (∃ name ∈ written, entity? name = some c ∧ encodeChar c = '&' :: name ++ [';']) ∨
      c ∉ ['&', '<', '>', '"', '\''] ∧ encodeChar c = [c] := by
  unfold encodeChar
  split
  · next h => exact .inl ⟨"amp".toList, by decide, h ▸ by decide, rfl⟩
  split
  · next h => exact .inl ⟨"lt".toList, by decide, h ▸ by decide, rfl⟩
  split
  · next h => exact .inl ⟨"gt".toList, by decide, h ▸ by decide, rfl⟩
  split
  · next h => exact .inl ⟨"quot".toList, by decide, h ▸ by decide, rfl⟩
  split
  · next h => exact .inl ⟨"#39".toList, by decide, h ▸ by decide, rfl⟩
  · exact .inr ⟨by simp [*], rfl⟩

theorem semicolon_not_mem_written : ∀ name ∈ written, ';' ∉ name := by decide

theorem decodeFrom_encodeChar (c : Char) (rest : List Char) :
    decodeFrom (encodeChar c ++ rest) 0 = c :: decodeFrom rest 0 := by
  obtain ⟨name, hname, hc, hchar⟩ | ⟨hplain, hchar⟩ := encodeChar_cases c
  · rw [hchar, List.append_assoc]
    exact decodeFrom_entity (semicolon_not_mem_written name hname) hc rest
  · rw [hchar]
    exact decodeFrom_plain (List.ne_of_not_mem_cons hplain) rest

/-! ### Safe texts -/

/-- A text without the characters that mean something in HTML, except for ampersands that start one
of the entities that encoding writes. -/
structure Safe (text : List Char) : Prop where
  plain : ∀ c ∈ text, c ∉ ['<', '>', '"', '\'']
  entities : ∀ before after, text = before ++ '&' :: after →
    ∃ name ∈ written, name ++ [';'] <+: after

theorem Safe.nil : Safe [] where
  plain := by simp
  entities := by simp

theorem Safe.append {xs ys : List Char} (hx : Safe xs) (hy : Safe ys) : Safe (xs ++ ys) where
  plain c hc := (List.mem_append.mp hc).elim (hx.plain c) (hy.plain c)
  entities before after h := by
    obtain ⟨as, -, hys⟩ | ⟨bs, hxs, hbs⟩ := List.append_eq_append_iff.mp h
    · exact hy.entities as after hys
    · obtain ⟨rfl, hys⟩ | ⟨bs, rfl, rfl⟩ := List.cons_eq_append_iff.mp hbs
      · exact hy.entities [] after hys
      · obtain ⟨name, hname, hpre⟩ := hx.entities before bs hxs
        exact ⟨name, hname, hpre.trans (List.prefix_append bs ys)⟩

theorem Safe.entity {name : List Char} (h : name ∈ written) : Safe ('&' :: name ++ [';']) where
  plain c hc := by
    have hplain : ∀ name ∈ written, ('&' :: name ++ [';']).all (· ∉ ['<', '>', '"', '\'']) := by
      decide
    exact of_decide_eq_true (List.all_eq_true.mp (hplain name h) c hc)
  entities before after heq := by
    have hno : ∀ name ∈ written, '&' ∉ name ++ [';'] := by decide
    obtain ⟨-, hafter⟩ | ⟨bs, -, hrest⟩ := List.cons_eq_append_iff.mp heq
    · exact ⟨name, h, (List.cons.inj hafter).2 ▸ List.prefix_rfl⟩
    · refine absurd ?_ (hno name h)
      rw [show name ++ [';'] = bs ++ '&' :: after from hrest]
      simp

theorem safe_encodeChar (c : Char) : Safe (encodeChar c) := by
  obtain ⟨name, hname, -, hchar⟩ | ⟨hplain, hchar⟩ := encodeChar_cases c
  · rw [hchar]
    exact .entity hname
  · rw [hchar]
    rw [List.mem_cons, not_or] at hplain
    obtain ⟨hamp, hplain⟩ := hplain
    refine ⟨by simpa using hplain, fun before after h => ?_⟩
    have : '&' ∈ [c] := by simp [h]
    exact absurd (List.mem_singleton.mp this).symm hamp

/-- Encoding can be undone, and what it gives is safe. -/
theorem decode_encode_safe (text : List Char) :
    decode (encode text) = text ∧ Safe (encode text) := by
  unfold decode encode
  induction text with
  | nil => exact ⟨rfl, .nil⟩
  | cons c cs ih =>
    rw [List.flatMap_cons, decodeFrom_encodeChar, ih.1]
    exact ⟨rfl, (safe_encodeChar c).append ih.2⟩

example : encode "a &lt; <b>;".toList = "a &amp;lt; &lt;b&gt;;".toList := by decide

end Html

end ClassScript.Standard
