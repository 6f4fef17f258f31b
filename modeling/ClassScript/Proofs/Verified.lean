import ClassScript.Proofs.Verification

/-!
Code that passes verification.

The walk over a method reads whole instructions one behind the other, so it spells the code; it
refuses operands that name nothing, and it marks just the places where it has found an instruction.
So the code of every method of an image that passes is well-formed, whoever wrote it.
-/

namespace ClassScript

open Code (Instruction)

/-! ## Instructions from bytes -/

namespace Code

theorem spelled_operandOf (high low : UInt8) :
    operandOf high low ≤ Emitter.maxOperand ∧ spelled (operandOf high low) = [high, low] := by
  have hhigh := high.toNat_lt
  have hlow := low.toNat_lt
  have hbound : operandOf high low ≤ Emitter.maxOperand := by
    unfold operandOf Emitter.maxOperand
    omega
  have hnat : (UInt16.ofNat (operandOf high low)).toNat = high.toNat * 256 + low.toNat := by
    rw [UInt16.toNat_ofNat']
    unfold operandOf
    omega
  have h8 : 2 ^ (UInt16.toNat 8 % 16) = 256 := rfl
  refine ⟨hbound, ?_⟩
  rw [spelled, Nat.min_eq_left hbound, operandBytes]
  simp only [List.cons.injEq, and_true, ← UInt8.toNat_inj, UInt16.toNat_toUInt8,
    UInt16.toNat_shiftRight, hnat, Nat.shiftRight_eq_div_pow, h8]
  omega

/-- An operand that is found is spelled where it is found. -/
theorem spelled_of_operandAt? {code : Code} {before rest : List UInt8} {n : Nat}
    (h : code.toList = before ++ rest) (hn : code.operandAt? before.length = some n) :
    n ≤ Emitter.maxOperand ∧ ∃ after, rest = spelled n ++ after := by
  have at_ (k : Nat) : code[before.length + k]? = rest[k]? := by
    rw [← Array.getElem?_toList, h, List.getElem?_append_right (by omega), Nat.add_sub_cancel_left]
  unfold operandAt? at hn
  have hfirst := at_ 0
  rw [Nat.add_zero] at hfirst
  rw [hfirst, at_ 1] at hn
  match rest with
  | [] => cases hn
  | [_] => cases hn
  | high :: low :: after =>
    cases hn
    obtain ⟨hbound, hspelled⟩ := spelled_operandOf high low
    exact ⟨hbound, after, by rw [hspelled]; rfl⟩

/-- An instruction that is decoded is spelled where it stands. -/
theorem bytes_of_instructionAt {code : Code} {before rest : List UInt8} {b : UInt8} {i : Instruction}
    (h : code.toList = before ++ b :: rest) (hi : code.instructionAt before.length b = .ok i) :
    i.Fits ∧ ∃ after, b :: rest = i.bytes ++ after := by
  have hrest : code.toList = (before ++ [b]) ++ rest := by simpa using h
  have hlength : (before ++ [b]).length = before.length + 1 := by simp
  unfold instructionAt at hi
  split at hi
  · cases hi
  · next op hop =>
    obtain rfl := Opcode.byte_of_ofByte? hop
    split at hi
    · next hc =>
      cases hi
      refine ⟨⟨Nat.zero_le _, Nat.zero_le _, fun _ => rfl, fun _ => rfl⟩, rest, ?_⟩
      simp [Instruction.bytes, Instruction.operands, hc]
    · next hc =>
      split at hi
      · next a ha =>
        cases hi
        obtain ⟨hbound, after, rfl⟩ := spelled_of_operandAt? hrest (hlength ▸ ha)
        refine ⟨⟨hbound, Nat.zero_le _, fun h0 => by simp [hc] at h0, fun _ => rfl⟩, after, ?_⟩
        simp [Instruction.bytes, Instruction.operands, hc]
      · cases hi
    · next hzero hone =>
      split at hi
      · next a c ha hb =>
        cases hi
        obtain ⟨hfirst, after, rfl⟩ := spelled_of_operandAt? hrest (hlength ▸ ha)
        have hrest' : code.toList = (before ++ [op.byte] ++ spelled a) ++ after := by
          rw [hrest, List.append_assoc _ (spelled a)]
        have hlength' : (before ++ [op.byte] ++ spelled a).length = before.length + 3 := by simp
        obtain ⟨hsecond, after', rfl⟩ := spelled_of_operandAt? hrest' (hlength' ▸ hb)
        have htwo : op.operandCount = 2 := by
          have := Instruction.operandCount_le op
          have : op.operandCount ≠ 0 := hzero
          have : op.operandCount ≠ 1 := hone
          omega
        refine ⟨⟨hfirst, hsecond, fun h0 => absurd (htwo.symm.trans h0) (by decide),
          fun h2 => absurd (htwo ▸ h2) (by decide)⟩, after', ?_⟩
        simp [Instruction.bytes, Instruction.operands, htwo]
      · cases hi

end Code

namespace Flow

open Layout (Spells)

/-! ## The walk over a method -/

/-- What a walk from an offset on has found in the code that is spelled there. -/
structure Walked (b : Verify.Bounds) (offset : Nat) (is : Asm) (starts : Array Bool)
    (jumps : List (Nat × Nat)) (w : Verify.Walk) : Prop where
  operands : ∀ i ∈ is, Verify.operandDefect? b i = none
  starts : ∀ p : Nat, w.starts[p]? = some true → starts[p]? = some true ∨
    ∃ front back : Asm, is = front ++ back ∧ p = offset + front.size
  kept : ∀ j ∈ jumps, j ∈ w.jumps
  jumps : ∀ (front : Asm) (i : Instruction) (back : Asm) (r : Option Nat), is = front ++ i :: back →
    Verify.target? i (offset + front.size + i.width) = some r →
    ∃ t, r = some t ∧ (offset + front.size, t) ∈ w.jumps

variable {b : Verify.Bounds} {offset : Nat} {starts : Array Bool} {jumps jumps' : List (Nat × Nat)}
  {w : Verify.Walk} {i : Instruction} {is : Asm}

theorem mark_iff {n p : Nat} (h : (starts.setIfInBounds n true)[p]? = some true) :
    starts[p]? = some true ∨ p = n := by
  rw [Array.getElem?_setIfInBounds] at h
  split at h
  · next hn => exact .inr hn.symm
  · exact .inl h

/-- A walk over an instruction, and over those behind it. -/
theorem Walked.cons (hi : Verify.operandDefect? b i = none)
    (hjumps : ∀ j ∈ jumps, j ∈ jumps')
    (hjump : ∀ r, Verify.target? i (offset + i.width) = some r → ∃ t, r = some t ∧ (offset, t) ∈ jumps')
    (h : Walked b (offset + i.width) is (starts.setIfInBounds offset true) jumps' w) :
    Walked b offset (i :: is) starts jumps w where
  operands j hj := by
    obtain rfl | hj := List.mem_cons.mp hj
    · exact hi
    · exact h.operands j hj
  starts p hp := by
    obtain hp | ⟨front, back, rfl, rfl⟩ := h.starts p hp
    · obtain hp | rfl := mark_iff hp
      · exact .inl hp
      · exact .inr ⟨[], i :: is, rfl, rfl⟩
    · exact .inr ⟨i :: front, back, rfl, by rw [Asm.size_cons, Nat.add_assoc]⟩
  kept j hj := h.kept j (hjumps j hj)
  jumps front j back r his hr := by
    obtain ⟨rfl, rfl, rfl⟩ | ⟨front, rfl, rfl⟩ := List.cons_eq_append_iff.mp his
    · obtain ⟨t, rfl, ht⟩ := hjump r hr
      exact ⟨t, rfl, h.kept _ ht⟩
    · have := h.jumps front j back r rfl
      rw [Asm.size_cons, ← Nat.add_assoc] at hr ⊢
      exact this hr

/-- A walk that comes to the end has read whole instructions. -/
theorem walkFrom_walked {code : Code} (before : List UInt8) {rest : List UInt8}
    (hcode : code.toList = before ++ rest)
    (h : Verify.walkFrom b code before.length starts jumps = .ok w) :
    ∃ is : Asm, rest = is.bytes ∧ is.Fits ∧ Walked b before.length is starts jumps w := by
  have hlength : code.size = before.length + rest.length := by
    rw [← Array.length_toList, hcode, List.length_append]
  generalize hn : rest.length = n at hlength
  induction n using Nat.strongRecOn generalizing before rest starts jumps with
  | _ n ih =>
    rw [Verify.walkFrom] at h
    cases rest with
    | nil =>
      rw [dif_neg (by simp at hn; omega)] at h
      cases h
      refine ⟨[], rfl, Asm.fits_nil, by simp, fun p hp => ?_, fun j hj => hj, fun front i back r his => ?_⟩
      · obtain hp | rfl := mark_iff hp
        · exact .inl hp
        · exact .inr ⟨[], [], rfl, by simp at hn; simp; omega⟩
      · simp at his
    | cons byte rest =>
      have hbyte : code[before.length]? = some byte := Code.getElem?_of_toList before rest hcode
      obtain ⟨hlt, hget⟩ := Array.getElem?_eq_some_iff.mp hbyte
      rw [dif_pos hlt, hget] at h
      split at h
      · cases h
      · cases h
      · next i hi =>
        obtain ⟨hfits, after, hafter⟩ := Code.bytes_of_instructionAt hcode hi
        have hcode' : code.toList = before ++ i.bytes ++ after := by
          rw [hcode, hafter, List.append_assoc]
        have hnext : (before ++ i.bytes).length = before.length + i.op.width := by
          rw [List.length_append, Instruction.length_bytes]
          rfl
        have hshorter : after.length < n := by
          have hsum := congrArg List.length hafter
          have hwidth := i.width_pos
          rw [List.length_append, Instruction.length_bytes, hn] at hsum
          omega
        -- what is found behind the instruction, with the jumps known by then
        have continued {jumps' : List (Nat × Nat)}
            (hrest : Verify.walkFrom b code (before.length + i.op.width)
              (starts.setIfInBounds before.length true) jumps' = .ok w) :
            ∃ is : Asm, after = is.bytes ∧ is.Fits ∧ Walked b (before.length + i.width) is
              (starts.setIfInBounds before.length true) jumps' w := by
          rw [← hnext] at hrest
          have := ih after.length hshorter (before ++ i.bytes) hcode' hrest rfl
            (by rw [← Array.length_toList, hcode', List.length_append])
          rwa [hnext] at this
        have assembled {jumps' : List (Nat × Nat)} (hoperands : Verify.operandDefect? b i = none)
            (hjumps : ∀ j ∈ jumps, j ∈ jumps')
            (hjump : ∀ r, Verify.target? i (before.length + i.width) = some r →
              ∃ t, r = some t ∧ (before.length, t) ∈ jumps')
            (hrest : Verify.walkFrom b code (before.length + i.op.width)
              (starts.setIfInBounds before.length true) jumps' = .ok w) :
            ∃ is : Asm, byte :: rest = is.bytes ∧ is.Fits ∧
              Walked b before.length is starts jumps w := by
          obtain ⟨is, rfl, his, hwalked⟩ := continued hrest
          exact ⟨i :: is, hafter, (Asm.fits_cons i is).mpr ⟨hfits, his⟩,
            hwalked.cons hoperands hjumps hjump⟩
        dsimp only at h
        split at h
        · cases h
        · next hoperands =>
          split at h
          · next htarget =>
            exact assembled hoperands (fun j hj => hj) (fun r hr => by cases htarget.symm.trans hr) h
          · cases h
          · next t htarget =>
            refine assembled hoperands (fun j hj => List.mem_cons_of_mem _ hj) (fun r hr => ?_) h
            cases htarget.symm.trans hr
            exact ⟨t, rfl, List.mem_cons_self⟩

/-- Code without a defect is well-formed. -/
theorem wellFormed_of_complaint? {params : Nat} {code : Code}
    (h : Verify.complaint? b params code = none) :
    params ≤ b.locals ∧ ∃ is, Spells code is ∧ WellFormed b is := by
  unfold Verify.complaint? at h
  split at h
  · cases h
  · next hparams =>
    split at h
    · cases h
    · next w hw =>
      obtain ⟨is, hbytes, hfits, hwalked⟩ := walkFrom_walked [] (List.nil_append _).symm hw
      refine ⟨Nat.le_of_not_lt hparams, is, ⟨hbytes, hfits⟩, hwalked.operands,
        fun front i back r his hr => ?_⟩
      have hjump := hwalked.jumps front i back r his
      rw [List.length_nil, Nat.zero_add] at hjump
      obtain ⟨t, rfl, ht⟩ := hjump hr
      have hmarked : w.starts.getD t false = true := by
        have := List.find?_eq_none.mp (Option.map_eq_none_iff.mp h) _ (List.mem_reverse.mpr ht)
        simpa using this
      have hstart : w.starts[t]? = some true := by
        rw [Array.getD_eq_getD_getElem?] at hmarked
        cases hget : w.starts[t]? with
        | none => simp [hget] at hmarked
        | some x => simpa [hget] using hmarked
      obtain hnone | ⟨front', back', his', ht'⟩ := hwalked.starts t hstart
      · simp [Array.getElem?_replicate] at hnone
      · exact ⟨front', back', his', by rw [ht', List.length_nil, Nat.zero_add]⟩

/-! ## Images -/

theorem ok_of_forM {ε α : Type} {f : α → Except ε Unit} {as : List α} (h : as.forM f = .ok ()) :
    ∀ a ∈ as, f a = .ok () := by
  induction as with
  | nil => nofun
  | cons a as ih =>
    have h : (f a >>= fun _ => as.forM f) = .ok () := h
    obtain ⟨u, ha, hrest⟩ := ok_bind h
    intro x hx
    obtain rfl | hx := List.mem_cons.mp hx
    · exact ha
    · exact ih hrest x hx

theorem sound_of_verified {m : Image} (h : Verify.image m = .ok ()) {c : ClassImage}
    (hc : c ∈ m.classes.toList) {f : MethodImage} (hf : f ∈ c.methods.toList) : SoundMethod m c f := by
  have hverdict := ok_of_forM (ok_of_forM h c hc) f hf
  unfold Verify.method at hverdict
  split at hverdict
  · cases hverdict
  · next hnone =>
    obtain ⟨hparams, is, hspells, hwell⟩ := wellFormed_of_complaint? hnone
    exact ⟨hparams, is, hspells, hwell⟩

end Flow
end ClassScript
