import ClassScript.Image.Decode
import Mathlib.Algebra.Group.Nat.Defs
import Mathlib.Data.List.Forall2

/-!
Images are read back as they were written.

`Reads r a bs` tells that a reader takes exactly the bytes `bs` and gives `a`, whatever follows them.
Every writer has a lemma about its reader. Doubles and strings are read back bit for bit.
-/

namespace ClassScript

/-- A reader takes exactly these bytes and gives `a`. -/
def Reads {α : Type} (r : Reader α) (a : α) (bs : List UInt8) : Prop :=
  ∀ (total : Nat) (rest : List UInt8), r total (bs ++ rest) = .ok (a, rest)

theorem ok_bind {ε α β : Type} {x : Except ε α} {f : α → Except ε β} {b : β}
    (h : (x >>= f) = .ok b) : ∃ a, x = .ok a ∧ f a = .ok b := by
  cases x with
  | ok a => exact ⟨a, rfl, h⟩
  | error e => cases h

theorem forall₂_of_mapM {ε α β : Type} {f : α → Except ε β} {as : List α} {bs : List β}
    (h : as.mapM f = .ok bs) : List.Forall₂ (fun a b => f a = .ok b) as bs := by
  induction as generalizing bs with
  | nil =>
    cases h
    exact .nil
  | cons a as ih =>
    rw [List.mapM_cons] at h
    obtain ⟨b, hb, h⟩ := ok_bind h
    obtain ⟨cs, hcs, h⟩ := ok_bind h
    cases h
    exact .cons hb (ih hcs)

theorem exists_mapM_ok {ε α β : Type} {f : α → Except ε β} {as : List α}
    (h : ∀ a ∈ as, ∃ b, f a = .ok b) : ∃ bs, as.mapM f = .ok bs := by
  induction as with
  | nil => exact ⟨[], rfl⟩
  | cons a as ih =>
    obtain ⟨b, hb⟩ := h a List.mem_cons_self
    obtain ⟨bs, hbs⟩ := ih fun c hc => h c (List.mem_cons_of_mem _ hc)
    exact ⟨b :: bs, by rw [List.mapM_cons, hb, hbs]; rfl⟩

namespace Reads

variable {α β : Type} {r : Reader α} {f : α → Reader β} {a : α} {b : β} {bs cs : List UInt8}

theorem pure (a : α) : Reads (pure a) a [] := fun _ _ => rfl

theorem run_of_ok {total : Nat} {rest : List UInt8} (h : r total bs = .ok (a, rest))
    (f : α → Reader β) : (r >>= f) total bs = f a total rest := by
  simp only [Bind.bind, Reader.bind, h]

/-- What follows a reader goes on behind the bytes it takes. -/
theorem run (h : Reads r a bs) (f : α → Reader β) (total : Nat) (rest : List UInt8) :
    (r >>= f) total (bs ++ rest) = f a total rest := run_of_ok (h total rest) f

theorem bind (h : Reads r a bs) (hf : Reads (f a) b cs) : Reads (r >>= f) b (bs ++ cs) := by
  intro total rest
  rw [List.append_assoc, h.run]
  exact hf total rest

/-- A reader that looks at what is left. -/
theorem run_remaining (f : List UInt8 → Reader β) (total : Nat) (rest : List UInt8) :
    (Reader.remaining >>= f) total rest = f rest total rest := rfl

/-- A reader that has nothing left to read. -/
theorem last (h : Reads r a bs) (hf : Reads (f a) b []) : Reads (r >>= f) b bs := by
  have := h.bind hf
  rwa [List.append_nil] at this

/-! ## Bytes and numbers -/

theorem takeOnto_append (bs done rest : List UInt8) :
    Reader.takeOnto bs.length done (bs ++ rest) = some (bs.reverse ++ done, rest) := by
  induction bs generalizing done with
  | nil => rfl
  | cons b bs ih =>
    rw [List.length_cons, List.cons_append, Reader.takeOnto, ih, List.reverse_cons,
      List.append_assoc]
    rfl

theorem take (bs : List UInt8) : Reads (Reader.take bs.length) bs bs := by
  intro total rest
  rw [Reader.take, takeOnto_append]
  simp

theorem byte (b : UInt8) : Reads Reader.byte b [b] := (take [b]).last (pure _)

theorem length_littleEndian (size n : Nat) : (Encode.littleEndian size n).length = size := by
  induction size generalizing n with
  | zero => rfl
  | succ size ih => rw [Encode.littleEndian, List.length_cons, ih]

theorem number_littleEndian {size n : Nat} (h : n < 256 ^ size) :
    Reader.number (Encode.littleEndian size n) = n := by
  induction size generalizing n with
  | zero => simp only [Nat.pow_zero, Nat.lt_one_iff] at h; exact h.symm
  | succ size ih =>
    have hn : n / 256 < 256 ^ size := by
      rw [Nat.pow_succ] at h
      exact Nat.div_lt_of_lt_mul (by rwa [Nat.mul_comm])
    rw [Encode.littleEndian, Reader.number, ih hn, UInt8.toNat_ofNat']
    omega

theorem nat {size n : Nat} (h : n < 256 ^ size) :
    Reads (Reader.nat size) n (Encode.littleEndian size n) := by
  have := (take (Encode.littleEndian size n)).last (f := fun bs => Pure.pure (Reader.number bs))
    (pure _)
  rwa [length_littleEndian, number_littleEndian h] at this

/-- A byte that stands for something. -/
theorem tag {what : String} {meaning : UInt8 → Option α} {b : UInt8} (h : meaning b = some a) :
    Reads (Reader.tag what meaning) a [b] := by
  intro total rest
  rw [Reader.tag, run_remaining, (byte b).run]
  simp only [h]
  rfl

/-! ## Texts -/

theorem count_inv {size n : Nat} {what : String} (h : Encode.count size what n = .ok bs) :
    n < 256 ^ size ∧ bs = Encode.littleEndian size n := by
  unfold Encode.count at h
  split at h
  · next hn =>
    cases h
    exact ⟨hn, rfl⟩
  · cases h

theorem bytes {bs out : List UInt8} (h : Encode.bytes bs = .ok out) :
    Reads Reader.bytes bs out ∧ 4 ≤ out.length := by
  obtain ⟨n, hn, h⟩ := ok_bind h
  obtain ⟨hbound, rfl⟩ := count_inv hn
  cases h
  exact ⟨(nat hbound).bind (take bs), by simp [length_littleEndian]⟩

theorem ofBytes?_bytesOf (s : String) : Text.ofBytes? (Text.bytesOf s) = some s := by
  have hb : (⟨(Text.bytesOf s).toArray⟩ : ByteArray) = s.toByteArray := rfl
  rw [Text.ofBytes?]
  simp only [hb, dif_pos s.isValidUTF8]

theorem text {s : String} {out : List UInt8} (h : Encode.text s = .ok out) :
    Reads Reader.text s out ∧ 4 ≤ out.length := by
  obtain ⟨hbytes, hleast⟩ := bytes h
  refine ⟨fun total rest => ?_, hleast⟩
  rw [Reader.text, run_remaining, hbytes.run]
  simp only [ofBytes?_bytesOf]
  rfl

/-! ## Lists -/

/-- What is written for the items of a list. -/
theorem all_inv {f : α → Except EncodeError (List UInt8)} {xs : List α} {out : List UInt8}
    (h : Encode.all f xs = .ok out) :
    ∃ pieces, List.Forall₂ (fun a p => f a = .ok p) xs pieces ∧ out = pieces.flatten := by
  obtain ⟨pieces, hp, h⟩ := ok_bind h
  cases h
  exact ⟨pieces, forall₂_of_mapM hp, rfl⟩

theorem timesOnto {xs : List α} {pieces : List (List UInt8)}
    (h : List.Forall₂ (Reads r) xs pieces) (done : List α) :
    Reads (Reader.timesOnto r xs.length done) (done.reverse ++ xs) pieces.flatten := by
  induction h generalizing done with
  | nil =>
    rw [List.append_nil]
    exact pure _
  | @cons x p xs pieces hx _ ih =>
    intro total rest
    have := ih (x :: done) total rest
    rw [List.flatten_cons, List.append_assoc]
    simp only [List.length_cons, Reader.timesOnto, hx total]
    simpa using this

theorem times {xs : List α} {pieces : List (List UInt8)}
    (h : List.Forall₂ (Reads r) xs pieces) :
    Reads (Reader.times xs.length r) xs pieces.flatten := timesOnto h []

theorem length_flatten {g : α → Except EncodeError (List UInt8)} {least : Nat} {xs : List α}
    {pieces : List (List UInt8)} (h : List.Forall₂ (fun a p => g a = .ok p) xs pieces)
    (hg : ∀ a p, g a = .ok p → Reads r a p ∧ least ≤ p.length) :
    xs.length * least ≤ pieces.flatten.length := by
  induction h with
  | nil => simp
  | cons hx _ ih =>
    have := (hg _ _ hx).2
    rw [List.length_cons, List.flatten_cons, List.length_append, Nat.succ_mul]
    omega

/-- A count is read if what is left is long enough for so many items. -/
theorem count {least n total : Nat} {left : List UInt8} (h : n < 256 ^ 4)
    (hleft : n * least ≤ left.length) :
    Reader.count least total (Encode.littleEndian 4 n ++ left) = .ok (n, left) := by
  rw [Reader.count, run_remaining, (nat h).run, run_remaining, if_neg (Nat.not_lt.mpr hleft)]
  rfl

/-- A list behind its count, which promises no more items than fit. -/
theorem counted {g : α → Except EncodeError (List UInt8)} {least : Nat} {what : String}
    {xs : List α} {out : List UInt8} (h : Encode.counted 4 what g xs = .ok out)
    (hg : ∀ a p, g a = .ok p → Reads r a p ∧ least ≤ p.length) {f : List α → Reader β}
    (hf : Reads (f xs) b cs) :
    Reads (Reader.count least >>= fun n => Reader.times n r >>= f) b (out ++ cs) := by
  obtain ⟨n, hn, h⟩ := ok_bind h
  obtain ⟨items, hitems, h⟩ := ok_bind h
  cases h
  obtain ⟨hbound, rfl⟩ := count_inv hn
  obtain ⟨pieces, hpieces, rfl⟩ := all_inv hitems
  have hlength := length_flatten hpieces hg
  have hrest := (times (hpieces.imp fun a p hp => (hg a p hp).1)).bind hf
  intro total rest
  have hleft : xs.length * least ≤ (pieces.flatten ++ (cs ++ rest)).length := by
    rw [List.length_append]
    omega
  rw [List.append_assoc, List.append_assoc, run_of_ok (count hbound hleft),
    ← List.append_assoc]
  exact hrest total rest

/-- A list behind a count of two bytes. -/
theorem shortCounted {g : α → Except EncodeError (List UInt8)} {what : String} {xs : List α}
    {out : List UInt8} (h : Encode.counted 2 what g xs = .ok out)
    (hg : ∀ a p, g a = .ok p → Reads r a p) {f : List α → Reader β} (hf : Reads (f xs) b cs) :
    Reads (Reader.nat 2 >>= fun n => Reader.times n r >>= f) b (out ++ cs) := by
  obtain ⟨n, hn, h⟩ := ok_bind h
  obtain ⟨items, hitems, h⟩ := ok_bind h
  cases h
  obtain ⟨hbound, rfl⟩ := count_inv hn
  obtain ⟨pieces, hpieces, rfl⟩ := all_inv hitems
  rw [List.append_assoc]
  exact (nat hbound).bind ((times (hpieces.imp fun a p hp => hg a p hp)).bind hf)

theorem le_counted {size : Nat} {g : α → Except EncodeError (List UInt8)} {what : String}
    {xs : List α} {out : List UInt8} (h : Encode.counted size what g xs = .ok out) :
    size ≤ out.length := by
  obtain ⟨n, hn, h⟩ := ok_bind h
  obtain ⟨items, -, h⟩ := ok_bind h
  cases h
  obtain ⟨-, rfl⟩ := count_inv hn
  simp [length_littleEndian]

/-! ## Parts of images -/

theorem tags (ts : List ValueType) :
    Reads (Reader.times ts.length Decode.valueType) ts (ts.map (·.tag)) := by
  have hpieces : List.Forall₂ (Reads Decode.valueType) ts (ts.map fun t => [t.tag]) := by
    induction ts with
    | nil => exact .nil
    | cons t ts ih => exact .cons (tag (ValueType.ofTag?_tag t)) ih
  have hflatten : (ts.map fun t => [t.tag]).flatten = ts.map (·.tag) := by
    clear hpieces
    induction ts with
    | nil => rfl
    | cons t ts ih => rw [List.map_cons, List.flatten_cons, ih, List.map_cons, List.singleton_append]
  exact hflatten ▸ times hpieces

theorem types {ts : List ValueType} {out : List UInt8} (h : Encode.types ts = .ok out) :
    Reads Decode.types ts out ∧ 1 ≤ out.length := by
  obtain ⟨n, hn, h⟩ := ok_bind h
  cases h
  obtain ⟨hbound, rfl⟩ := count_inv hn
  have hcount : (UInt8.ofNat ts.length).toNat = ts.length := by
    rw [UInt8.toNat_ofNat']
    exact Nat.mod_eq_of_lt hbound
  refine ⟨(byte (UInt8.ofNat ts.length)).bind ?_, by simp [length_littleEndian]⟩
  rw [hcount]
  exact tags ts

theorem constant {c : Constant} {out : List UInt8} (h : Encode.constant c = .ok out) :
    Reads Decode.constant c out ∧ 5 ≤ out.length := by
  have read {k : Decode.ConstantTag} {b : UInt8} (hb : Decode.constantTag? b = some k) :
      Reads (Reader.tag "constant" Decode.constantTag?) k [b] := tag hb
  cases c with
  | int n =>
    cases h
    refine ⟨(read (b := 1) rfl).bind ((nat n.toUInt32.toNat_lt).last ?_), by
      simp [length_littleEndian]⟩
    rw [UInt32.ofNat_toNat, Int32.toInt32_toUInt32]
    exact pure _
  | long n =>
    cases h
    refine ⟨(read (b := 2) rfl).bind ((nat n.toUInt64.toNat_lt).last ?_), by
      simp [length_littleEndian]⟩
    rw [UInt64.ofNat_toNat, Int64.toInt64_toUInt64]
    exact pure _
  | double d =>
    cases h
    refine ⟨(read (b := 3) rfl).bind ((nat d.bits.toNat_lt).last ?_), by
      simp [length_littleEndian]⟩
    rw [UInt64.ofNat_toNat]
    exact pure _
  | string s =>
    obtain ⟨t, ht, h⟩ := ok_bind h
    cases h
    obtain ⟨hread, hleast⟩ := text ht
    exact ⟨(read (b := 4) rfl).bind (hread.last (pure _)), by simp; omega⟩

theorem nativeImport {i : NativeImport} {out : List UInt8} (h : Encode.nativeImport i = .ok out) :
    Reads Decode.nativeImport i out ∧ 14 ≤ out.length := by
  obtain ⟨name, hname, h⟩ := ok_bind h
  obtain ⟨params, hparams, h⟩ := ok_bind h
  cases h
  obtain ⟨hname, hleast⟩ := text hname
  obtain ⟨hparams, hleast'⟩ := types hparams
  refine ⟨(nat i.identity.value.toNat_lt).bind (hname.bind (hparams.bind
    ((tag (ValueType.ofTag?_tag i.returns)).last ?_))), by simp [length_littleEndian]; omega⟩
  rw [UInt64.ofNat_toNat]
  exact pure _

theorem flags?_flags (a b : Bool) : Decode.flags? (Encode.flags a b) = some (a, b) := by
  cases a <;> cases b <;> rfl

theorem field {f : FieldImage} {out : List UInt8} (h : Encode.field f = .ok out) :
    Reads Decode.field f out := by
  obtain ⟨name, hname, h⟩ := ok_bind h
  cases h
  refine (text hname).1.bind ?_
  refine (tag (ValueType.ofTag?_tag f.type)).bind ((tag (Visibility.ofTag?_tag f.visibility)).bind
    ((tag (flags?_flags f.isStatic f.isReadonly)).bind ((nat f.slot.toNat_lt).last ?_)))
  rw [UInt16.ofNat_toNat]
  exact pure _

theorem bool?_bool (b : Bool) : Decode.bool? (if b then 1 else 0) = some b := by
  cases b <;> rfl

theorem method {f : MethodImage} {out : List UInt8} (h : Encode.method f = .ok out) :
    Reads Decode.method f out := by
  obtain ⟨name, hname, h⟩ := ok_bind h
  obtain ⟨params, hparams, h⟩ := ok_bind h
  obtain ⟨code, hcode, h⟩ := ok_bind h
  cases h
  refine (text hname).1.bind ?_
  refine (tag (MethodKind.ofTag?_tag f.kind)).bind ((tag (Visibility.ofTag?_tag f.visibility)).bind
    ((tag (bool?_bool f.isStatic)).bind ((types hparams).1.bind
      ((tag (ValueType.ofTag?_tag f.returns)).bind ((nat f.locals.toNat_lt).bind
        ((bytes hcode).1.last ?_))))))
  rw [UInt16.ofNat_toNat]
  exact pure _

theorem class_ {c : ClassImage} {out : List UInt8} (h : Encode.class_ c = .ok out) :
    Reads Decode.class_ c out ∧ 9 ≤ out.length := by
  obtain ⟨name, hname, h⟩ := ok_bind h
  obtain ⟨fields, hfields, h⟩ := ok_bind h
  obtain ⟨methods, hmethods, h⟩ := ok_bind h
  cases h
  obtain ⟨hname, hleast⟩ := text hname
  have hfirst := le_counted hfields
  have hsecond := le_counted hmethods
  refine ⟨hname.bind ((tag (Visibility.ofTag?_tag c.visibility)).bind ?_), ?_⟩
  · rw [← List.append_nil methods]
    exact shortCounted hfields (fun _ _ => field)
      (shortCounted hmethods (fun _ _ => method) (pure _))
  · simp only [List.length_append, List.length_cons]
    omega

/-! ## Images -/

theorem kind?_libraryKind : Decode.kind? Encode.libraryKind = some () := rfl

theorem magic : Reads Decode.magic () Encode.magic := by
  intro total rest
  have h : Reader.take 4 total (Encode.magic ++ rest) = .ok (Encode.magic, rest) :=
    take Encode.magic total rest
  rw [Decode.magic, h]
  rfl

theorem version : Reads Decode.version () (Encode.littleEndian 2 Encode.version) :=
  (nat (by decide)).last (pure _)

/-- What was written is read back before it is verified. -/
theorem image {m : Image} {out : List UInt8} (h : m.encode = .ok out) :
    Reads Decode.image m out := by
  obtain ⟨name, hname, h⟩ := ok_bind h
  obtain ⟨references, hreferences, h⟩ := ok_bind h
  obtain ⟨constants, hconstants, h⟩ := ok_bind h
  obtain ⟨imports, himports, h⟩ := ok_bind h
  obtain ⟨classes, hclasses, h⟩ := ok_bind h
  cases h
  refine magic.bind (version.bind ?_)
  refine (tag (flags?_flags m.checked m.release)).bind ((tag kind?_libraryKind).bind
    ((text hname).1.bind ?_))
  rw [← List.append_nil classes]
  exact counted hreferences (fun _ _ => text) (counted hconstants (fun _ _ => constant)
    (counted himports (fun _ _ => nativeImport) (counted hclasses (fun _ _ => class_) (pure _))))

end Reads

/-- An image that was written is the one that is read, if its code passes verification. -/
theorem Image.decode_of_encode {m : Image} {bytes : List UInt8} (h : m.encode = .ok bytes)
    (hm : Verify.image m = .ok ()) : Image.decode bytes = .ok m := by
  have := Reads.image h bytes.length []
  rw [List.append_nil] at this
  rw [Image.decode, this]
  simp [hm, Except.map]

end ClassScript
