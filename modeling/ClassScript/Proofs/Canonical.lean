import ClassScript.Proofs.Codec

/-!
No bytes but the written ones are read.

`Exact r w` tells that a reader takes from the front just what the writer `w` writes for its answer:
no count, tag, flag or byte has a second spelling. So an image has one encoding, and reading accepts
it and nothing else.
-/

namespace ClassScript

/-- A reader takes what is written for its answer. -/
def Exact {α : Type} (r : Reader α) (w : α → Except EncodeError (List UInt8)) : Prop :=
  ∀ total bs a rest, r total bs = .ok (a, rest) → ∃ out, w a = .ok out ∧ bs = out ++ rest

namespace Reader

variable {α β : Type} {r : Reader α} {f : α → Reader β} {total n : Nat} {bs rest : List UInt8} {a : α}
  {b : β}

/-! ## Readers that succeed -/

theorem bind_ok (h : (r >>= f) total bs = .ok (b, rest)) :
    ∃ a mid, r total bs = .ok (a, mid) ∧ f a total mid = .ok (b, rest) := by
  simp only [Bind.bind, Reader.bind] at h
  split at h
  · next a mid hr => exact ⟨a, mid, hr, h⟩
  · cases h

theorem takeOnto_some {done taken : List UInt8} (h : takeOnto n done bs = some (taken, rest)) :
    ∃ out, out.length = n ∧ taken = out.reverse ++ done ∧ bs = out ++ rest := by
  induction n generalizing done bs with
  | zero =>
    cases h
    exact ⟨[], rfl, rfl, rfl⟩
  | succ n ih =>
    cases bs with
    | nil => cases h
    | cons x bs =>
      obtain ⟨out, rfl, rfl, rfl⟩ := ih h
      exact ⟨x :: out, rfl, by simp, rfl⟩

theorem take_ok {out : List UInt8} (h : take n total bs = .ok (out, rest)) :
    out.length = n ∧ bs = out ++ rest := by
  unfold take at h
  split at h
  · next taken rest' htaken =>
    cases h
    obtain ⟨out, hlength, rfl, hbs⟩ := takeOnto_some htaken
    rw [List.append_nil, List.reverse_reverse]
    exact ⟨hlength, hbs⟩
  · cases h

theorem littleEndian_number (bs : List UInt8) :
    Encode.littleEndian bs.length (number bs) = bs ∧ number bs < 256 ^ bs.length := by
  induction bs with
  | nil => exact ⟨rfl, Nat.one_pos⟩
  | cons x bs ih =>
    obtain ⟨hspelled, hbound⟩ := ih
    have hx := x.toNat_lt
    have hlow : UInt8.ofNat (x.toNat + 256 * number bs) = x :=
      UInt8.toNat_inj.mp (by rw [UInt8.toNat_ofNat']; omega)
    have hhigh : (x.toNat + 256 * number bs) / 256 = number bs := by omega
    rw [List.length_cons, Encode.littleEndian, number, hlow, hhigh, hspelled, Nat.pow_succ]
    exact ⟨rfl, by omega⟩

theorem nat_ok {size : Nat} (h : nat size total bs = .ok (n, rest)) :
    n < 256 ^ size ∧ bs = Encode.littleEndian size n ++ rest := by
  obtain ⟨out, mid, hout, h⟩ := bind_ok h
  cases h
  obtain ⟨rfl, rfl⟩ := take_ok hout
  obtain ⟨hspelled, hbound⟩ := littleEndian_number out
  exact ⟨hbound, by rw [hspelled]⟩

theorem byte_ok {x : UInt8} (h : byte total bs = .ok (x, rest)) : bs = x :: rest := by
  obtain ⟨out, mid, hout, h⟩ := bind_ok h
  cases h
  obtain ⟨hlength, rfl⟩ := take_ok hout
  obtain ⟨y, rfl⟩ := List.length_eq_one_iff.mp hlength
  rfl

theorem tag_ok {what : String} {meaning : UInt8 → Option α}
    (h : tag what meaning total bs = .ok (a, rest)) : ∃ x, meaning x = some a ∧ bs = x :: rest := by
  obtain ⟨start, mid, hstart, h⟩ := bind_ok h
  cases hstart
  obtain ⟨x, mid, hx, h⟩ := bind_ok h
  obtain rfl := byte_ok hx
  cases hmeaning : meaning x with
  | none =>
    simp only [hmeaning] at h
    cases h
  | some a' =>
    simp only [hmeaning] at h
    cases h
    exact ⟨x, hmeaning, rfl⟩

theorem count_ok {least : Nat} (h : count least total bs = .ok (n, rest)) :
    n < 256 ^ 4 ∧ bs = Encode.littleEndian 4 n ++ rest := by
  obtain ⟨start, mid, hstart, h⟩ := bind_ok h
  cases hstart
  obtain ⟨m, mid, hm, h⟩ := bind_ok h
  obtain ⟨left, mid', hleft, h⟩ := bind_ok h
  cases hleft
  split at h
  · cases h
  · cases h
    exact nat_ok hm

end Reader

theorem Encode.count_ok {size n : Nat} (what : String) (h : n < 256 ^ size) :
    Encode.count size what n = .ok (Encode.littleEndian size n) := if_pos h

namespace Exact

open Reader

variable {α : Type} {r : Reader α} {w : α → Except EncodeError (List UInt8)}

/-! ## Texts and lists -/

theorem bytes : Exact Reader.bytes Encode.bytes := by
  intro total bs out rest h
  obtain ⟨n, mid, hn, hout⟩ := bind_ok h
  obtain ⟨rfl, rfl⟩ := take_ok hout
  obtain ⟨hbound, rfl⟩ := nat_ok hn
  refine ⟨Encode.littleEndian 4 out.length ++ out, ?_, (List.append_assoc ..).symm⟩
  rw [Encode.bytes, Encode.count_ok _ hbound]
  rfl

theorem bytesOf_of_ofBytes? {bs : List UInt8} {s : String} (h : Text.ofBytes? bs = some s) :
    Text.bytesOf s = bs := by
  simp only [Text.ofBytes?] at h
  split at h
  · cases h
    rfl
  · cases h

theorem text : Exact Reader.text Encode.text := by
  intro total bs s rest h
  obtain ⟨start, mid, hstart, h⟩ := bind_ok h
  cases hstart
  obtain ⟨payload, mid, hpayload, h⟩ := bind_ok h
  cases hs : Text.ofBytes? payload with
  | none =>
    simp only [hs] at h
    cases h
  | some s' =>
    simp only [hs] at h
    cases h
    rw [Encode.text, bytesOf_of_ofBytes? hs]
    exact bytes _ _ _ _ hpayload

theorem timesOnto (hr : Exact r w) {n total : Nat} {bs rest : List UInt8} {done xs : List α}
    (h : Reader.timesOnto r n done total bs = .ok (xs, rest)) :
    ∃ ys pieces, xs = done.reverse ++ ys ∧ ys.length = n ∧ ys.mapM w = .ok pieces ∧
      bs = pieces.flatten ++ rest := by
  induction n generalizing done bs with
  | zero =>
    cases h
    exact ⟨[], [], (List.append_nil _).symm, rfl, rfl, rfl⟩
  | succ n ih =>
    simp only [Reader.timesOnto] at h
    split at h
    · next y mid hy =>
      obtain ⟨out, hout, rfl⟩ := hr _ _ _ _ hy
      obtain ⟨ys, pieces, rfl, rfl, hpieces, rfl⟩ := ih h
      refine ⟨y :: ys, out :: pieces, by simp, rfl, ?_, by simp⟩
      rw [List.mapM_cons, hout, hpieces]
      rfl
    · cases h

theorem times (hr : Exact r w) {n total : Nat} {bs rest : List UInt8} {xs : List α}
    (h : Reader.times n r total bs = .ok (xs, rest)) :
    xs.length = n ∧ ∃ out, Encode.all w xs = .ok out ∧ bs = out ++ rest := by
  obtain ⟨ys, pieces, rfl, rfl, hpieces, rfl⟩ := hr.timesOnto h
  refine ⟨rfl, pieces.flatten, ?_, rfl⟩
  simp only [Encode.all, hpieces]
  rfl

/-- Items behind their number. -/
theorem counted (hr : Exact r w) {size n total : Nat} {bs rest : List UInt8} {xs : List α}
    (what : String) (hn : n < 256 ^ size) (h : Reader.times n r total bs = .ok (xs, rest)) :
    ∃ out, Encode.counted size what w xs = .ok out ∧
      Encode.littleEndian size n ++ bs = out ++ rest := by
  obtain ⟨rfl, items, hitems, rfl⟩ := hr.times h
  refine ⟨Encode.littleEndian size xs.length ++ items, ?_, (List.append_assoc ..).symm⟩
  rw [Encode.counted, Encode.count_ok _ hn, hitems]
  rfl

/-! ## Parts of images -/

theorem valueType : Exact Decode.valueType fun t => .ok [t.tag] := by
  intro total bs t rest h
  obtain ⟨x, hx, rfl⟩ := tag_ok h
  exact ⟨[x], congrArg (fun y => Except.ok [y]) (ValueType.tag_of_ofTag? hx), rfl⟩

theorem tags (ts : List ValueType) :
    Encode.all (fun t => .ok [t.tag]) ts = .ok (ts.map (·.tag)) := by
  induction ts with
  | nil => rfl
  | cons t ts ih =>
    obtain ⟨pieces, hpieces, hflat⟩ := ok_bind ih
    rw [Encode.all, List.mapM_cons, hpieces]
    exact congrArg (fun r => r.map (t.tag :: ·)) hflat

theorem types : Exact Decode.types Encode.types := by
  intro total bs ts rest h
  obtain ⟨n, mid, hn, h⟩ := bind_ok h
  obtain rfl := byte_ok hn
  obtain ⟨hlength, out, hout, rfl⟩ := valueType.times h
  rw [tags] at hout
  cases hout
  have hbound : ts.length < 256 ^ 1 := hlength ▸ n.toNat_lt
  have hcount : Encode.littleEndian 1 ts.length = [n] := by
    rw [hlength, Encode.littleEndian, UInt8.ofNat_toNat]
    rfl
  refine ⟨n :: ts.map (·.tag), ?_, rfl⟩
  rw [Encode.types, Encode.count_ok _ hbound, hcount]
  rfl

/-- The byte in front of a constant of a kind. -/
def tagOf : Decode.ConstantTag → UInt8
  | .int => 1
  | .long => 2
  | .double => 3
  | .string => 4

theorem constant_of_constantTag? {x : UInt8} {kind : Decode.ConstantTag}
    (h : Decode.constantTag? x = some kind) : tagOf kind = x := by
  unfold Decode.constantTag? at h
  grind [tagOf]

theorem constant : Exact Decode.constant Encode.constant := by
  intro total bs c rest hread
  obtain ⟨kind, mid, hkind, h⟩ := bind_ok hread
  obtain ⟨x, hx, rfl⟩ := tag_ok hkind
  obtain rfl := constant_of_constantTag? hx
  cases kind with
  | int =>
    obtain ⟨n, mid, hn, h⟩ := bind_ok h
    cases h
    obtain ⟨hbound, rfl⟩ := nat_ok hn
    refine ⟨1 :: Encode.littleEndian 4 n, ?_, rfl⟩
    rw [Encode.constant, UInt32.toUInt32_toInt32, UInt32.toNat_ofNat_of_lt' hbound]
    rfl
  | long =>
    obtain ⟨n, mid, hn, h⟩ := bind_ok h
    cases h
    obtain ⟨hbound, rfl⟩ := nat_ok hn
    refine ⟨2 :: Encode.littleEndian 8 n, ?_, rfl⟩
    rw [Encode.constant, UInt64.toUInt64_toInt64, UInt64.toNat_ofNat_of_lt' hbound]
    rfl
  | double =>
    obtain ⟨n, mid, hn, h⟩ := bind_ok h
    cases h
    obtain ⟨hbound, rfl⟩ := nat_ok hn
    refine ⟨3 :: Encode.littleEndian 8 n, ?_, rfl⟩
    rw [Encode.constant, UInt64.toNat_ofNat_of_lt' hbound]
    rfl
  | string =>
    obtain ⟨s, mid, hs, h⟩ := bind_ok h
    cases h
    obtain ⟨out, hout, rfl⟩ := text _ _ _ _ hs
    refine ⟨4 :: out, ?_, rfl⟩
    rw [Encode.constant, hout]
    rfl

theorem nativeImport : Exact Decode.nativeImport Encode.nativeImport := by
  intro total bs i rest h
  obtain ⟨hash, _, hhash, h⟩ := bind_ok h
  obtain ⟨name, _, hname, h⟩ := bind_ok h
  obtain ⟨params, _, hparams, h⟩ := bind_ok h
  obtain ⟨returns, _, hreturns, h⟩ := bind_ok h
  cases h
  obtain ⟨hbound, rfl⟩ := nat_ok hhash
  obtain ⟨nameOut, hnameOut, rfl⟩ := text _ _ _ _ hname
  obtain ⟨paramsOut, hparamsOut, rfl⟩ := types _ _ _ _ hparams
  obtain ⟨x, hx, rfl⟩ := tag_ok hreturns
  refine ⟨Encode.littleEndian 8 hash ++ (nameOut ++ (paramsOut ++ [x])), ?_, by simp⟩
  rw [Encode.nativeImport, hnameOut, hparamsOut, ValueType.tag_of_ofTag? hx,
    UInt64.toNat_ofNat_of_lt' hbound]
  rfl

theorem flags_of_flags? {x : UInt8} {p q : Bool} (h : Decode.flags? x = some (p, q)) :
    Encode.flags p q = x := by
  unfold Decode.flags? at h
  split at h
  · next hx =>
    cases h
    have hnat : x.toNat < 4 := hx
    have : x = 0 ∨ x = 1 ∨ x = 2 ∨ x = 3 := by
      simp only [← UInt8.toNat_inj]
      simp
      omega
    obtain rfl | rfl | rfl | rfl := this <;> rfl
  · cases h

theorem bool_of_bool? {x : UInt8} {p : Bool} (h : Decode.bool? x = some p) :
    (if p then 1 else 0) = x := by
  unfold Decode.bool? at h
  grind

theorem field : Exact Decode.field Encode.field := by
  intro total bs f rest h
  obtain ⟨name, _, hname, h⟩ := bind_ok h
  obtain ⟨type, _, htype, h⟩ := bind_ok h
  obtain ⟨vis, _, hvis, h⟩ := bind_ok h
  obtain ⟨⟨isStatic, isReadonly⟩, _, hflags, h⟩ := bind_ok h
  obtain ⟨slot, _, hslot, h⟩ := bind_ok h
  cases h
  obtain ⟨nameOut, hnameOut, rfl⟩ := text _ _ _ _ hname
  obtain ⟨x, hx, rfl⟩ := tag_ok htype
  obtain ⟨y, hy, rfl⟩ := tag_ok hvis
  obtain ⟨z, hz, rfl⟩ := tag_ok hflags
  obtain ⟨hbound, rfl⟩ := nat_ok hslot
  refine ⟨nameOut ++ ([x, y, z] ++ Encode.littleEndian 2 slot), ?_, by simp⟩
  rw [Encode.field, hnameOut, ValueType.tag_of_ofTag? hx, Visibility.tag_of_ofTag? hy,
    flags_of_flags? hz, UInt16.toNat_ofNat_of_lt' hbound]
  rfl

theorem method : Exact Decode.method Encode.method := by
  intro total bs f rest h
  obtain ⟨name, _, hname, h⟩ := bind_ok h
  obtain ⟨kind, _, hkind, h⟩ := bind_ok h
  obtain ⟨vis, _, hvis, h⟩ := bind_ok h
  obtain ⟨isStatic, _, hstatic, h⟩ := bind_ok h
  obtain ⟨params, _, hparams, h⟩ := bind_ok h
  obtain ⟨returns, _, hreturns, h⟩ := bind_ok h
  obtain ⟨locals, _, hlocals, h⟩ := bind_ok h
  obtain ⟨code, _, hcode, h⟩ := bind_ok h
  cases h
  obtain ⟨nameOut, hnameOut, rfl⟩ := text _ _ _ _ hname
  obtain ⟨x, hx, rfl⟩ := tag_ok hkind
  obtain ⟨y, hy, rfl⟩ := tag_ok hvis
  obtain ⟨z, hz, rfl⟩ := tag_ok hstatic
  obtain ⟨paramsOut, hparamsOut, rfl⟩ := types _ _ _ _ hparams
  obtain ⟨t, ht, rfl⟩ := tag_ok hreturns
  obtain ⟨hbound, rfl⟩ := nat_ok hlocals
  obtain ⟨codeOut, hcodeOut, rfl⟩ := bytes _ _ _ _ hcode
  refine ⟨nameOut ++ ([x, y, z] ++ (paramsOut ++ (t :: (Encode.littleEndian 2 locals ++ codeOut)))),
    ?_, by simp⟩
  rw [Encode.method, hnameOut, hparamsOut, List.toList_toArray, hcodeOut, MethodKind.tag_of_ofTag? hx,
    Visibility.tag_of_ofTag? hy, bool_of_bool? hz, ValueType.tag_of_ofTag? ht,
    UInt16.toNat_ofNat_of_lt' hbound]
  rfl

theorem class_ : Exact Decode.class_ Encode.class_ := by
  intro total bs c rest h
  obtain ⟨name, _, hname, h⟩ := bind_ok h
  obtain ⟨vis, _, hvis, h⟩ := bind_ok h
  obtain ⟨fieldCount, _, hfieldCount, h⟩ := bind_ok h
  obtain ⟨fields, _, hfields, h⟩ := bind_ok h
  obtain ⟨methodCount, _, hmethodCount, h⟩ := bind_ok h
  obtain ⟨methods, _, hmethods, h⟩ := bind_ok h
  cases h
  obtain ⟨nameOut, hnameOut, rfl⟩ := text _ _ _ _ hname
  obtain ⟨x, hx, rfl⟩ := tag_ok hvis
  obtain ⟨hfieldBound, rfl⟩ := nat_ok hfieldCount
  obtain ⟨fieldsOut, hfieldsOut, hfieldBytes⟩ := field.counted "fields" hfieldBound hfields
  obtain ⟨hmethodBound, rfl⟩ := nat_ok hmethodCount
  obtain ⟨methodsOut, hmethodsOut, hmethodBytes⟩ := method.counted "methods" hmethodBound hmethods
  refine ⟨nameOut ++ (x :: (fieldsOut ++ methodsOut)), ?_, ?_⟩
  · rw [Encode.class_, hnameOut, List.toList_toArray, hfieldsOut, List.toList_toArray, hmethodsOut,
      Visibility.tag_of_ofTag? hx]
    rfl
  · simp [hfieldBytes, hmethodBytes]

/-! ## Images -/

/-- Items behind a count that the rest of the image has room for. -/
theorem guarded (hr : Exact r w) {least n total : Nat} {bs mid rest : List UInt8} {xs : List α}
    (what : String) (hn : Reader.count least total bs = .ok (n, mid))
    (h : Reader.times n r total mid = .ok (xs, rest)) :
    ∃ out, Encode.counted 4 what w xs = .ok out ∧ bs = out ++ rest := by
  obtain ⟨hbound, rfl⟩ := Reader.count_ok hn
  exact hr.counted what hbound h

theorem magic {total : Nat} {bs rest : List UInt8} (h : Decode.magic total bs = .ok ((), rest)) :
    bs = Encode.magic ++ rest := by
  unfold Decode.magic at h
  split at h
  · next out mid hout =>
    split at h
    · next hmagic =>
      cases h
      exact hmagic ▸ (take_ok hout).2
    · cases h
  · cases h

theorem version {total : Nat} {bs rest : List UInt8}
    (h : Decode.version total bs = .ok ((), rest)) :
    bs = Encode.littleEndian 2 Encode.version ++ rest := by
  obtain ⟨v, mid, hv, h⟩ := bind_ok h
  by_cases hversion : v = Encode.version
  · subst hversion
    cases h
    exact (nat_ok hv).2
  · have hrefuse : (if v = Encode.version then (pure () : Reader Unit) else fun _ _ =>
        .error (.unsupportedVersion v)) = fun _ _ => .error (.unsupportedVersion v) := if_neg hversion
    cases (congrFun (congrFun hrefuse total) mid).symm.trans h

theorem kind_of_kind? {x : UInt8} (h : Decode.kind? x = some ()) : x = Encode.libraryKind := by
  unfold Decode.kind? at h
  split at h
  · assumption
  · cases h

/-- An image is read from its encoding only. -/
theorem image : Exact Decode.image Image.encode := by
  intro total bs m rest h
  obtain ⟨⟨⟩, _, hmagic, h⟩ := bind_ok h
  obtain ⟨⟨⟩, _, hversion, h⟩ := bind_ok h
  obtain ⟨⟨checked, release⟩, _, hflags, h⟩ := bind_ok h
  obtain ⟨⟨⟩, _, hkind, h⟩ := bind_ok h
  obtain ⟨name, _, hname, h⟩ := bind_ok h
  obtain ⟨_, _, hreferenceCount, h⟩ := bind_ok h
  obtain ⟨references, _, hreferences, h⟩ := bind_ok h
  obtain ⟨_, _, hconstantCount, h⟩ := bind_ok h
  obtain ⟨constants, _, hconstants, h⟩ := bind_ok h
  obtain ⟨_, _, himportCount, h⟩ := bind_ok h
  obtain ⟨imports, _, himports, h⟩ := bind_ok h
  obtain ⟨_, _, hclassCount, h⟩ := bind_ok h
  obtain ⟨classes, _, hclasses, h⟩ := bind_ok h
  cases h
  obtain rfl := magic hmagic
  obtain rfl := version hversion
  obtain ⟨x, hx, rfl⟩ := tag_ok hflags
  obtain ⟨y, hy, rfl⟩ := tag_ok hkind
  obtain rfl := kind_of_kind? hy
  obtain ⟨nameOut, hnameOut, rfl⟩ := text _ _ _ _ hname
  obtain ⟨referencesOut, hreferencesOut, rfl⟩ := text.guarded "references" hreferenceCount hreferences
  obtain ⟨constantsOut, hconstantsOut, rfl⟩ := constant.guarded "constants" hconstantCount hconstants
  obtain ⟨importsOut, himportsOut, rfl⟩ := nativeImport.guarded "imports" himportCount himports
  obtain ⟨classesOut, hclassesOut, rfl⟩ := class_.guarded "classes" hclassCount hclasses
  refine ⟨Encode.magic ++ (Encode.littleEndian 2 Encode.version ++ ([x, Encode.libraryKind] ++
    (nameOut ++ (referencesOut ++ (constantsOut ++ (importsOut ++ classesOut)))))), ?_, by simp⟩
  rw [Image.encode, hnameOut, hreferencesOut, List.toList_toArray, hconstantsOut, List.toList_toArray,
    himportsOut, List.toList_toArray, hclassesOut, flags_of_flags? hx]
  rfl

end Exact

/-- An image that is accepted is verified, and it was read from its encoding. -/
theorem Image.encode_of_decode {m : Image} {bytes : List UInt8} (h : Image.decode bytes = .ok m) :
    Verify.image m = .ok () ∧ m.encode = .ok bytes := by
  unfold Image.decode at h
  split at h
  · cases h
  · next m' rest hread =>
    obtain ⟨out, hout, rfl⟩ := Exact.image _ _ _ _ hread
    split at h
    · next hrest =>
      obtain rfl := List.isEmpty_iff.mp hrest
      cases hverified : Verify.image m' with
      | error e =>
        rw [hverified] at h
        cases h
      | ok u =>
        rw [hverified] at h
        cases h
        rw [List.append_nil]
        exact ⟨hverified, hout⟩
    · cases h

/-- Bytes are accepted as an image just if the image is verified and they are what is written for it:
reading undoes writing, and every accepted sequence of bytes is the one encoding of its image. -/
theorem Image.decode_eq_ok_iff {m : Image} {bytes : List UInt8} :
    Image.decode bytes = .ok m ↔ Verify.image m = .ok () ∧ m.encode = .ok bytes :=
  ⟨Image.encode_of_decode, fun ⟨hverified, hbytes⟩ => m.decode_of_encode hbytes hverified⟩

end ClassScript
