import ClassScript.Proofs.Canonical

/-!
Images that were cut off.

`Steady r` tells what a reader does with the front of bytes that it succeeds on: it finds them
truncated, or it gives the same answer and leaves less. It never comes to another error, as no tag,
text or count is looked at before all of it is there. A count may be refused before its items are
read; that is a truncation, too.
-/

namespace ClassScript

variable {α β : Type}

/-- What is read from the front of bytes of which all but `rest` spell `a`, and which `back` follows. -/
inductive Cut (total : Nat) (back : List UInt8) (a : α) (rest : List UInt8) :
    Except ImageError (α × List UInt8) → Prop
  | short {offset : Nat} (h : offset ≤ total) : Cut total back a rest (.error (.truncated offset))
  | same {left : List UInt8} (h : rest = left ++ back) : Cut total back a rest (.ok (a, left))

/-- A reader finds a front truncated, or reads the same from it. -/
def Steady (r : Reader α) : Prop :=
  ∀ total bs a rest, r total bs = .ok (a, rest) → ∀ total' front back, bs = front ++ back →
    Cut total' back a rest (r total' front)

theorem Cut.bind {total : Nat} {front mid back rest : List UInt8} {r : Reader α} {f : α → Reader β}
    {a : α} {b : β} (hr : Cut total back a mid (r total front))
    (hf : ∀ left, mid = left ++ back → Cut total back b rest (f a total left)) :
    Cut total back b rest ((r >>= f) total front) := by
  simp only [Bind.bind, Reader.bind]
  generalize r total front = result at hr
  cases hr with
  | short h => exact .short h
  | same h => exact hf _ h

namespace Steady

open Reader (bind_ok take_ok tag_ok)

variable {r : Reader α} {f : α → Reader β}

theorem pure (a : α) : Steady (Pure.pure a) := by
  intro total bs a' rest h total' front back hbs
  cases h
  exact .same hbs

theorem bind (hr : Steady r) (hf : ∀ a, Steady (f a)) : Steady (r >>= f) := by
  intro total bs b rest h total' front back hbs
  obtain ⟨a, mid, ha, hb⟩ := bind_ok h
  exact (hr _ _ _ _ ha _ _ _ hbs).bind fun left hleft => hf a _ _ _ _ hb _ _ _ hleft

/-! ## Bytes and numbers -/

theorem takeOnto_short {n : Nat} {bs : List UInt8} (h : bs.length < n) (done : List UInt8) :
    Reader.takeOnto n done bs = none := by
  induction n generalizing bs done with
  | zero => omega
  | succ n ih =>
    cases bs with
    | nil => rfl
    | cons b bs => exact ih (Nat.lt_of_succ_lt_succ h) (b :: done)

theorem take_short {n : Nat} {bs : List UInt8} (h : bs.length < n) (total : Nat) :
    Reader.take n total bs = .error (.truncated (total - bs.length)) := by
  rw [Reader.take, takeOnto_short h]

theorem take (n : Nat) : Steady (Reader.take n) := by
  intro total bs out rest h total' front back hbs
  obtain ⟨rfl, rfl⟩ := take_ok h
  by_cases hlength : front.length < out.length
  · rw [take_short hlength]
    exact .short (Nat.sub_le ..)
  · obtain ⟨left, rfl, rfl⟩ | ⟨left, rfl, rfl⟩ := List.append_eq_append_iff.mp hbs
    · rw [Reads.take out total' left]
      exact .same rfl
    · obtain rfl : left = [] := by simpa using hlength
      have hread := Reads.take front total' []
      simp only [List.append_nil] at hread ⊢
      rw [hread]
      exact .same rfl

theorem nat (size : Nat) : Steady (Reader.nat size) := (take size).bind fun _ => pure _

theorem byte : Steady Reader.byte := (take 1).bind fun _ => pure _

/-- A meaning does not depend on what follows. -/
theorem tag {what : String} {meaning : UInt8 → Option α} : Steady (Reader.tag what meaning) := by
  intro total bs a rest h total' front back hbs
  obtain ⟨x, hx, rfl⟩ := tag_ok h
  cases front with
  | nil => exact .short (Nat.le_refl total')
  | cons y front =>
    obtain ⟨rfl, rfl⟩ := List.cons.inj hbs
    have hread : Reader.tag what meaning total' ([x] ++ front) = .ok (a, front) :=
      Reads.tag hx total' front
    rw [List.singleton_append] at hread
    rw [hread]
    exact .same rfl

/-- A front may be too short for the items that a count promises. -/
theorem count (least : Nat) : Steady (Reader.count least) := by
  intro total bs n rest h total' front back hbs
  obtain ⟨start, mid, hstart, h⟩ := bind_ok h
  cases hstart
  obtain ⟨k, mid, hk, h⟩ := bind_ok h
  obtain ⟨room, mid', hroom, h⟩ := bind_ok h
  cases hroom
  split at h
  · cases h
  · cases h
    refine Cut.bind (.same hbs) fun front' hfront => ?_
    refine (nat 4 _ _ _ _ hk _ _ _ hfront).bind fun left hleft => ?_
    refine Cut.bind (.same hleft) fun left' hleft' => ?_
    split
    · exact .short (Nat.sub_le ..)
    · exact .same hleft'

/-! ## Texts and lists -/

theorem bytes : Steady Reader.bytes := (nat 4).bind take

theorem text : Steady Reader.text := by
  intro total bs s rest h total' front back hbs
  obtain ⟨start, mid, hstart, h⟩ := bind_ok h
  cases hstart
  obtain ⟨payload, mid, hpayload, h⟩ := bind_ok h
  refine Cut.bind (.same hbs) fun front' hfront => ?_
  refine (bytes _ _ _ _ hpayload _ _ _ hfront).bind fun left hleft => ?_
  cases hs : Text.ofBytes? payload with
  | none =>
    simp only [hs] at h
    cases h
  | some s' =>
    simp only [hs] at h
    cases h
    exact .same hleft

theorem timesOnto (hr : Steady r) (n : Nat) (done : List α) : Steady (Reader.timesOnto r n done) := by
  induction n generalizing done with
  | zero => exact pure _
  | succ n ih => exact hr.bind fun a => ih (a :: done)

theorem times (hr : Steady r) (n : Nat) : Steady (Reader.times n r) := hr.timesOnto n []

/-- Items behind a count. -/
theorem counted {c : Reader Nat} (hc : Steady c) (hr : Steady r) {f : List α → Reader β}
    (hf : ∀ xs, Steady (f xs)) : Steady (c >>= fun n => Reader.times n r >>= f) :=
  hc.bind fun n => (hr.times n).bind hf

/-! ## Parts of images -/

theorem types : Steady Decode.types := byte.bind fun n => tag.times n.toNat

theorem constant : Steady Decode.constant :=
  tag.bind fun kind =>
    match kind with
    | .int => (nat 4).bind fun _ => pure _
    | .long => (nat 8).bind fun _ => pure _
    | .double => (nat 8).bind fun _ => pure _
    | .string => text.bind fun _ => pure _

theorem nativeImport : Steady Decode.nativeImport :=
  (nat 8).bind fun _ => text.bind fun _ => types.bind fun _ => tag.bind fun _ => pure _

theorem field : Steady Decode.field :=
  text.bind fun _ => tag.bind fun _ => tag.bind fun _ => tag.bind fun _ =>
    (nat 2).bind fun _ => pure _

theorem method : Steady Decode.method :=
  text.bind fun _ => tag.bind fun _ => tag.bind fun _ => tag.bind fun _ =>
    types.bind fun _ => tag.bind fun _ => (nat 2).bind fun _ => bytes.bind fun _ => pure _

theorem class_ : Steady Decode.class_ :=
  text.bind fun _ => tag.bind fun _ => (nat 2).counted field fun _ =>
    (nat 2).counted method fun _ => pure _

theorem version : Steady Decode.version :=
  (nat 2).bind fun v total bs _ rest h total' front back hbs => by
    by_cases hversion : v = Encode.version
    · subst hversion
      exact pure () total bs () rest h total' front back hbs
    · have hrefuse : (if v = Encode.version then (Pure.pure () : Reader Unit) else fun _ _ =>
          .error (.unsupportedVersion v)) = fun _ _ => .error (.unsupportedVersion v) :=
        if_neg hversion
      cases (congrFun (congrFun hrefuse total) bs).symm.trans h

end Steady

/-! ## Images -/

/-- The mark in front of an image is there, or it is missed as such. -/
theorem Decode.magic_front (total : Nat) {rest front back : List UInt8}
    (h : Encode.magic ++ rest = front ++ back) :
    if front.length < 4 then Decode.magic total front = .error .badMagic
    else ∃ left, rest = left ++ back ∧ Decode.magic total front = .ok ((), left) := by
  split
  · next hlength => rw [Decode.magic, Steady.take_short hlength]
  · next hlength =>
    obtain ⟨left, rfl, rfl⟩ | ⟨left, hmagic, rfl⟩ := List.append_eq_append_iff.mp h
    · exact ⟨left, rfl, Reads.magic total left⟩
    · obtain rfl : left = [] := List.eq_nil_of_length_eq_zero (by
        have := congrArg List.length hmagic
        simp [Encode.magic] at this
        omega)
      rw [List.append_nil] at hmagic
      exact ⟨[], rfl, by simpa [hmagic] using Reads.magic total []⟩

/-- What is read of an image whose mark is there. -/
theorem Decode.image_front {total : Nat} (total' : Nat) {bs rest front back : List UInt8} {m : Image}
    (h : Decode.image total bs = .ok (m, rest)) (hbs : bs = front ++ back)
    (hlength : 4 ≤ front.length) : Cut total' back m rest (Decode.image total' front) := by
  obtain ⟨⟨⟩, mid, hmagic, h⟩ := Reader.bind_ok h
  rw [Exact.magic hmagic] at hbs
  have hfront := Decode.magic_front total' hbs
  rw [if_neg (by omega)] at hfront
  obtain ⟨left, hleft, hread⟩ := hfront
  have hcut : Cut total' back () mid (Decode.magic total' front) := by
    rw [hread]
    exact .same hleft
  refine hcut.bind fun left hleft => ?_
  refine Steady.bind .version (fun _ => ?_) _ _ _ _ h _ _ _ hleft
  exact Steady.tag.bind fun _ => Steady.tag.bind fun _ => Steady.text.bind fun _ =>
    (Steady.count 4).counted .text fun _ => (Steady.count 5).counted .constant fun _ =>
      (Steady.count 14).counted .nativeImport fun _ => (Steady.count 9).counted .class_ fun _ =>
        .pure _

/-- A front of an accepted image is found to be cut off, and nothing else is found wrong with it. -/
theorem Image.decode_front {m : Image} {front back : List UInt8}
    (h : Image.decode (front ++ back) = .ok m) (hback : back ≠ []) :
    if front.length < 4 then Image.decode front = .error .badMagic
    else ∃ offset ≤ front.length, Image.decode front = .error (.truncated offset) := by
  have hread : Decode.image (front ++ back).length (front ++ back) = .ok (m, []) := by
    have := Reads.image (Image.encode_of_decode h).2 (front ++ back).length []
    rwa [List.append_nil] at this
  split
  · next hlength =>
    obtain ⟨⟨⟩, mid, hmagic, -⟩ := Reader.bind_ok hread
    have hfront := Decode.magic_front front.length (Exact.magic hmagic).symm
    rw [if_pos hlength] at hfront
    have himage : Decode.image front.length front = .error .badMagic := by
      simp only [Decode.image, Bind.bind, Reader.bind, hfront]
    rw [Image.decode, himage]
  · next hlength =>
    have hcut := Decode.image_front front.length hread rfl (Nat.le_of_not_lt hlength)
    unfold Image.decode
    generalize Decode.image front.length front = result at hcut
    cases hcut with
    | @short offset hoffset => exact ⟨offset, hoffset, rfl⟩
    | same hnil => exact absurd (List.append_eq_nil_iff.mp hnil.symm).2 hback

theorem Image.decode_extended {m : Image} {bytes extra : List UInt8}
    (h : Image.decode bytes = .ok m) (hextra : extra ≠ []) :
    Image.decode (bytes ++ extra) = .error (.trailingBytes extra.length) := by
  have hread := Reads.image (Image.encode_of_decode h).2 (bytes ++ extra).length extra
  rw [Image.decode, hread]
  exact if_neg (by simpa using hextra)

/-- What is missing from an accepted image is noticed as such, and so is what is too much: no
accepted image begins another one. -/
theorem Image.decode_cut {m : Image} {bytes : List UInt8} (h : Image.decode bytes = .ok m) :
    (∀ front, front <+: bytes → front ≠ bytes →
      if front.length < 4 then Image.decode front = .error .badMagic
      else ∃ offset ≤ front.length, Image.decode front = .error (.truncated offset)) ∧
    (∀ extra, extra ≠ [] →
      Image.decode (bytes ++ extra) = .error (.trailingBytes extra.length)) ∧
    ∀ other m', Image.decode other = .ok m' → bytes <+: other → other = bytes := by
  refine ⟨?_, fun extra hextra => Image.decode_extended h hextra, ?_⟩
  · rintro front ⟨back, rfl⟩ hne
    exact Image.decode_front h fun hback => hne (by rw [hback, List.append_nil])
  · rintro other m' hother ⟨extra, rfl⟩
    by_contra hne
    have hextra : extra ≠ [] := fun hnil => hne (by rw [hnil, List.append_nil])
    cases (Image.decode_extended h hextra).symm.trans hother

/-- A class with a field, and with a method that branches to a constant or to the field. -/
def branchImage : Image where
  name := "m"
  checked := true
  release := false
  references := ["System.Runtime"]
  constants := #[.string "a"]
  imports := #[]
  classes := #[⟨"T", .pub, #[⟨"s", .string, .priv, false, true, 0⟩],
    #[⟨"M", .method, .pub, false, [.bool], .string, 1,
      #[5, 0, 0, 51, 0, 4, 0, 0, 0, 56, 7, 0, 0, 56]⟩]⟩]

theorem branchImage_verified : Verify.image branchImage = .ok () := by decide +kernel

theorem Image.decode_cut_branch :
    ∃ bytes, Image.decode bytes = .ok branchImage ∧
      (∀ front, front <+: bytes → front ≠ bytes →
        if front.length < 4 then Image.decode front = .error .badMagic
        else ∃ offset ≤ front.length, Image.decode front = .error (.truncated offset)) ∧
      (∀ extra, extra ≠ [] →
        Image.decode (bytes ++ extra) = .error (.trailingBytes extra.length)) ∧
      ∀ other m', Image.decode other = .ok m' → bytes <+: other → other = bytes := by
  obtain ⟨bytes, hbytes⟩ : ∃ bytes, branchImage.encode = .ok bytes := ⟨_, by rfl⟩
  have hread := Image.decode_of_encode hbytes branchImage_verified
  exact ⟨bytes, hread, Image.decode_cut hread⟩

end ClassScript
