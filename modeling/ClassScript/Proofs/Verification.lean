import ClassScript.Proofs.Codec
import ClassScript.Proofs.Flow.Method

/-!
Compiled code passes verification.

Every instruction that can be executed names things that exist, and every jump leads to a place that
a state is assigned to, which is a boundary of instructions. So the walk over a method finds no
defect, and an image that is compiled and written is read back.
-/

namespace ClassScript.Flow

open Code (Instruction)
open Layout
open Layout.Fragment

variable {Γ : Context} {s : State} {i : Instruction} {w : Ways} {κ : Around}
  {known : Nat → Option State}

/-! ## Instructions -/

theorem target?_unary {op : Opcode} {t t' : ValueType} (h : op.unaryType? t = some t')
    (after : Nat) : Verify.target? (.plain op) after = none := by
  cases op <;> first | rfl | simp [Opcode.unaryType?] at h

theorem target?_binary {op : Opcode} {l r t : ValueType} (h : op.binaryType? l r = some t)
    (after : Nat) : Verify.target? (.plain op) after = none := by
  cases op <;> first | rfl | simp [Opcode.binaryType?, Opcode.arith?, Opcode.order?] at h

/-- An instruction that has a target leads there. -/
theorem Executes.jumps (h : Executes Γ s i w) {after : Nat} {r : Option Nat}
    (hr : Verify.target? i after = some r) : ∃ t, w.jump = some t := by
  cases h with
  | unary h => simp [target?_unary h] at hr
  | binary h => simp [target?_binary h] at hr
  | jump | loop => exact ⟨_, rfl⟩
  | jumpIfFalse | jumpIfTrue => exact ⟨_, rfl⟩
  | _ => cases hr

theorem operandDefect?_unary {b : Verify.Bounds} {op : Opcode} {t t' : ValueType}
    (h : op.unaryType? t = some t') : Verify.operandDefect? b (.plain op) = none := by
  cases op <;> first | rfl | simp [Opcode.unaryType?] at h

theorem operandDefect?_binary {b : Verify.Bounds} {op : Opcode} {l r t : ValueType}
    (h : op.binaryType? l r = some t) : Verify.operandDefect? b (.plain op) = none := by
  cases op <;> first | rfl | simp [Opcode.binaryType?, Opcode.arith?, Opcode.order?] at h

/-- What the operands of a method are checked against allows for what is known of the method. -/
structure Bounded (Γ : Context) (b : Verify.Bounds) : Prop where
  image : b.image = Γ.image
  statics : Γ.image.staticTypes.length ≤ b.statics
  fields : (Γ.image.fieldTypes Γ.cls).length ≤ b.fields
  isStatic : b.isStatic = Γ.isStatic
  locals : Γ.locals.length ≤ b.locals

/-- The operands of an instruction that can be executed name things that exist. -/
theorem Executes.operands {b : Verify.Bounds} (h : Executes Γ s i w) (hb : Bounded Γ b) :
    Verify.operandDefect? b i = none := by
  have bound {α : Type} {as : List α} {n limit : Nat} {a : α} (hlimit : as.length ≤ limit)
      (ha : as[n]? = some a) : n < limit :=
    Nat.lt_of_lt_of_le (List.getElem?_eq_some_iff.mp ha).1 hlimit
  cases h with
  | constant hc => exact if_pos (hb.image ▸ (Array.getElem?_eq_some_iff.mp hc).1)
  | getLocal ht => exact if_pos (bound hb.locals ht)
  | setLocal ht => exact if_pos (bound hb.locals ht)
  | getField ht hr =>
    have hstatic := hb.isStatic.trans hr
    simp [Verify.operandDefect?, Instruction.unary, hstatic, bound hb.fields ht]
  | setField ht hr =>
    have hstatic := hb.isStatic.trans hr
    simp [Verify.operandDefect?, Instruction.unary, hstatic, bound hb.fields ht]
  | getStatic ht => exact if_pos (bound hb.statics ht)
  | setStatic ht => exact if_pos (bound hb.statics ht)
  | unary h => exact operandDefect?_unary h
  | binary h => exact operandDefect?_binary h
  | @call c j f ts h =>
    obtain ⟨k, hk, hj⟩ := Option.bind_eq_some_iff.mp h
    simp only [Verify.operandDefect?, hb.image, hk]
    exact if_pos (Array.getElem?_eq_some_iff.mp hj).1
  | callNative h => exact if_pos (hb.image ▸ (Array.getElem?_eq_some_iff.mp h).1)
  | _ => rfl

/-! ## The walk over a method -/

/-- What a walk has found behind an offset: all boundaries, and jumps to places that a state is
assigned to. What was found before is kept. -/
structure Finds (known : Nat → Option State) (offset : Nat) (F : Fragment) (starts : Array Bool)
    (jumps : List (Nat × Nat)) (w : Verify.Walk) : Prop where
  kept : ∀ p : Nat, starts[p]? = some true → w.starts[p]? = some true
  starts : ∀ p, Boundary F p → w.starts[offset + p]? = some true
  jumps : ∀ j ∈ w.jumps, j ∈ jumps ∨ ∃ s, known j.2 = some s

/-- A walk accepts code that can be executed. -/
theorem walkFrom_accepts {b : Verify.Bounds} (hb : Bounded Γ b) {code : Code} {rest : Asm}
    (before : List UInt8) (starts : Array Bool) (jumps : List (Nat × Nat))
    (hcode : code.toList = before ++ rest.bytes) (hfits : rest.Fits)
    (h : AllowsAll Γ κ known before.length (ops rest)) (hsize : starts.size = code.size + 1) :
    ∃ w, Verify.walkFrom b code before.length starts jumps = .ok w ∧
      Finds known before.length (ops rest) starts jumps w := by
  have kept {starts : Array Bool} {n p : Nat} (hp : starts[p]? = some true) :
      (starts.setIfInBounds n true)[p]? = some true := by
    have := (Array.getElem?_eq_some_iff.mp hp).1
    rw [Array.getElem?_setIfInBounds]
    split
    · simp [this, ‹n = p›]
    · exact hp
  have hlength : code.size = before.length + rest.size := by
    rw [← Array.length_toList, hcode, List.length_append, Asm.length_bytes]
  induction rest generalizing before starts jumps with
  | nil =>
    have hend : code.size = before.length := hlength
    refine ⟨⟨starts.setIfInBounds code.size true, jumps⟩, ?_, fun p => kept, fun p hp => ?_,
      fun j hj => .inl hj⟩
    · rw [Verify.walkFrom, dif_neg (by omega)]
    · obtain rfl : p = 0 := hp
      simp only [Nat.add_zero, ← hend]
      rw [Array.getElem?_setIfInBounds_self_of_lt (by omega)]
  | cons i rest ih =>
    obtain ⟨hi, hrest⟩ := (Asm.fits_cons i rest).mp hfits
    obtain ⟨⟨s, w, hs, hw, hnext, hjump⟩, hall⟩ := h
    have hwidth := i.width_pos
    rw [Asm.size_cons] at hlength
    have hbyte : code[before.length]? = some i.op.byte :=
      Code.getElem?_of_toList before (i.operands ++ Asm.bytes rest) (by
        rw [hcode, Asm.bytes_cons, Code.Instruction.bytes, List.cons_append])
    have hdecode := Code.instructionAt_of_toList before (Asm.bytes rest) hi (by
      rw [hcode, Asm.bytes_cons])
    have hnextLength : (before ++ i.bytes).length = before.length + i.op.width := by
      rw [List.length_append, Instruction.length_bytes]
      rfl
    have go (jumps : List (Nat × Nat)) := ih (before ++ i.bytes)
      (starts.setIfInBounds before.length true) jumps
      (by rw [hcode, Asm.bytes_cons, List.append_assoc]) hrest
      (by rw [hnextLength]; exact hall) (by simpa using hsize)
      (by rw [hnextLength, hlength, Nat.add_assoc]; rfl)
    rw [hnextLength] at go
    -- the walk goes on with the jumps that it has found by then
    have continued {jumps' : List (Nat × Nat)} {r : Except Verify.Complaint Verify.Walk}
        (hr : r = Verify.walkFrom b code (before.length + i.op.width)
          (starts.setIfInBounds before.length true) jumps')
        (hjumps : ∀ j ∈ jumps', j ∈ jumps ∨ ∃ s, known j.2 = some s) :
        ∃ w, r = .ok w ∧ Finds known before.length (ops (i :: rest)) starts jumps w := by
      obtain ⟨v, hv, hkept, hstarts, hfound⟩ := go jumps'
      refine ⟨v, hr.trans hv, fun p hp => hkept p (kept hp), fun p hp => ?_, fun j hj => ?_⟩
      · obtain rfl | ⟨q, rfl, hq⟩ := hp
        · refine hkept _ ?_
          rw [Nat.add_zero, Array.getElem?_setIfInBounds_self_of_lt (by omega)]
        · rw [← Nat.add_assoc]
          exact hstarts q hq
      · exact (hfound j hj).elim (hjumps j) .inr
    rw [Verify.walkFrom, dif_pos (by omega)]
    obtain ⟨hlt, hget⟩ := Array.getElem?_eq_some_iff.mp hbyte
    simp only [hget, hdecode, hw.operands hb]
    cases htarget : Verify.target? i (before.length + i.op.width) with
    | none => exact continued rfl fun j hj => .inl hj
    | some r =>
      obtain ⟨t, ht⟩ := hw.jumps htarget
      obtain ⟨p, hp, u, hu, -⟩ := hjump t ht
      obtain rfl : r = some p := Option.some.inj (htarget.symm.trans hp)
      refine continued rfl fun j hj => ?_
      obtain rfl | hj := List.mem_cons.mp hj
      · exact .inr ⟨u, hu⟩
      · exact .inl hj

/-- Code that can be executed in a frame that holds its parameters has no defect. -/
theorem complaint?_eq_none {b : Verify.Bounds} (hb : Bounded Γ b) {f : MethodImage} {is : Asm}
    {B : List Extent} (h : Annotated Γ f is B known) :
    Verify.complaint? b f.params.length f.code = none := by
  obtain ⟨hcode, hfits⟩ := h.spells
  obtain ⟨κ, S, hflows⟩ := h.flows
  obtain ⟨w, hw, hfound⟩ := walkFrom_accepts hb []
    (Array.replicate (f.code.size + 1) false) [] hcode hfits hflows.pieces (by simp)
  have hparams : f.params.length ≤ b.locals := Nat.le_trans h.params.length_le hb.locals
  have htargets : (w.jumps.reverse.find? fun j => !w.starts.getD j.2 false) = none := by
    rw [List.find?_eq_none]
    intro j hj
    obtain hj | ⟨s, hs⟩ := hfound.jumps j (List.mem_reverse.mp hj)
    · cases hj
    · have := hfound.starts _ (hflows.places _ s hs)
      rw [List.length_nil, Nat.zero_add] at this
      simp [Array.getD_eq_getD_getElem?, this]
  simp only [List.length_nil] at hw
  rw [Verify.complaint?, if_neg (Nat.not_lt.mpr hparams), hw]
  exact congrArg (Option.map _) htargets

/-! ## Images -/

theorem staticTypes_length (m : Image) : m.staticTypes.length = m.staticCount := by
  have hfold (cs : List ClassImage) (n : Nat) :
      cs.foldl (fun n c => n + c.fields.countP (·.isStatic)) n = n + (cs.flatMap fun c =>
        (c.fields.toList.filter (·.isStatic)).map (·.type)).length := by
    induction cs generalizing n with
    | nil => rfl
    | cons c cs ih =>
      rw [List.foldl_cons, ih, List.flatMap_cons, List.length_append, List.length_map,
        ← List.countP_eq_length_filter, Array.countP_toList, Nat.add_assoc]
  rw [Image.staticCount, ← Array.foldl_toList, hfold, Nat.zero_add]
  rfl

theorem fieldTypes_length {m : Image} {cls : Nat} {c : ClassImage} (h : m.classes[cls]? = some c) :
    (m.fieldTypes cls).length = c.instanceFields.length := by
  rw [Image.fieldTypes, h]
  exact List.length_map _

theorem forM_ok {ε α : Type} {f : α → Except ε Unit} {as : List α}
    (h : ∀ a ∈ as, f a = .ok ()) : as.forM f = .ok () := by
  induction as with
  | nil => rfl
  | cons a as ih =>
    change (f a >>= fun _ => as.forM f) = .ok ()
    rw [h a List.mem_cons_self]
    exact ih fun b hb => h b (List.mem_cons_of_mem _ hb)

/-- Instructions name things that exist, and every jump leads to one of them or to the end. -/
structure WellFormed (b : Verify.Bounds) (is : Asm) : Prop where
  operands : ∀ i ∈ is, Verify.operandDefect? b i = none
  jumps : ∀ (front : Asm) (i : Instruction) (back : Asm) (r : Option Nat), is = front ++ i :: back →
    Verify.target? i (front.size + i.width) = some r →
    ∃ front' back' : Asm, is = front' ++ back' ∧ r = some front'.size

theorem wellFormed {b : Verify.Bounds} (hb : Bounded Γ b) {f : MethodImage} {is : Asm}
    {B : List Extent} (h : Annotated Γ f is B known) : WellFormed b is := by
  refine ⟨fun i hi => ?_, fun front i back r his hr => ?_⟩
  · obtain ⟨front, back, his⟩ := List.append_of_mem hi
    obtain ⟨s, w, -, hw, -⟩ := h.allows his
    exact hw.operands hb
  · obtain ⟨s, w, -, hw, -, hjump⟩ := h.allows his
    obtain ⟨t, ht⟩ := hw.jumps hr
    obtain ⟨p, hp, u, hu, -⟩ := hjump t ht
    obtain ⟨front', back', his', rfl⟩ := h.split hu
    exact ⟨front', back', his', Option.some.inj (hr.symm.trans hp)⟩

def boundsOf (m : Image) (c : ClassImage) (f : MethodImage) : Verify.Bounds :=
  ⟨m, m.staticCount, c.instanceFields.length, f.isStatic, f.locals.toNat⟩

/-- The frame of a method has room for its parameters, and its code spells instructions that are
well-formed. -/
structure SoundMethod (m : Image) (c : ClassImage) (f : MethodImage) : Prop where
  params : f.params.length ≤ f.locals.toNat
  code : ∃ is, Spells f.code is ∧ WellFormed (boundsOf m c f) is

/-- All code of an image that is laid from symbols in order is sound and passes verification. -/
theorem method_sound {symbols : Symbols} {release : Bool} {m : Image} {libraries : List Library}
    (hs : symbols.Sound libraries) (h : LaidImage symbols release m) {c : ClassImage}
    {f : MethodImage} (hc : c ∈ m.classes.toList) (hf : f ∈ c.methods.toList) :
    SoundMethod m c f ∧ Verify.complaint? (boundsOf m c f) f.params.length f.code = none := by
  obtain ⟨cls, hcls⟩ := List.getElem?_of_mem hc
  obtain ⟨i, hi⟩ := List.getElem?_of_mem hf
  rw [Array.getElem?_toList] at hcls hi
  have hmethod : m.method? cls i = some f := by
    rw [Image.method?, hcls]
    exact hi
  obtain ⟨k, g, is, l, B, -, -, -, -, locals, hlocals⟩ := annotated_of_laid hs h hmethod
  obtain ⟨known, hannotated⟩ := hlocals False False.elim
  have hb : Bounded (contextOf m cls f locals g.loose False) (boundsOf m c f) :=
    ⟨rfl, Nat.le_of_eq (staticTypes_length m), Nat.le_of_eq (fieldTypes_length hcls), rfl,
      Nat.le_of_eq hannotated.size⟩
  have hparams : f.params.length ≤ f.locals.toNat :=
    hannotated.size ▸ hannotated.params.length_le
  exact ⟨⟨hparams, is, hannotated.spells, wellFormed hb hannotated⟩,
    complaint?_eq_none hb hannotated⟩

theorem verified_of_laid {symbols : Symbols} {release : Bool} {m : Image} {libraries : List Library}
    (hs : symbols.Sound libraries) (h : LaidImage symbols release m) :
    Verify.image m = .ok () := by
  refine forM_ok fun c hc => forM_ok fun f hf => ?_
  have hnone := (method_sound hs h hc hf).2
  rw [boundsOf] at hnone
  rw [Verify.method, hnone]

end ClassScript.Flow

namespace ClassScript

/-- An image that is compiled and written is read back as it was: it passes verification, as all
its operands name things that exist and all its jumps lead to instructions or to the end. -/
theorem Compilation.decode_encode {name : String} {options : Options} {libraries : List Library}
    {script : Script} {m : Image} {bytes : List UInt8}
    (h : (Compilation.ofScript name options libraries script).image = some m)
    (hbytes : m.encode = .ok bytes) : Image.decode bytes = .ok m ∧
      ∀ c ∈ m.classes.toList, ∀ f ∈ c.methods.toList, Flow.SoundMethod m c f := by
  have hs := Layout.symbolsOf_sound options libraries script
  have hlaid := Layout.laid_of_compiled h
  exact ⟨m.decode_of_encode hbytes (Flow.verified_of_laid hs hlaid),
    fun c hc f hf => (Flow.method_sound hs hlaid hc hf).1⟩

/-- `public class T { public bool M() { while (true) ; } }` -/
def loopScript : Script where
  usings := []
  items := [.type {
    modifiers := ⟨some .pub, false, false, {}⟩
    name := ⟨"T", {}⟩
    members := [.method ⟨some .pub, false, false, {}⟩ ⟨.keyword .bool, {}⟩ ⟨"M", {}⟩ []
      (.block [.whileLoop (.literal (.bool true) {}) (.empty {}) {}] {}) {}]
    span := {} }]
  span := {}

/-- The symbols of a class are those of its members and of the constructor it has without one. -/
theorem Registration.ofScript_loopScript :
    (ofScript [] [] loopScript).diagnostics = [] ∧
      (ofScript [] [] loopScript).symbols.classes = #[{
        name := ⟨"T", []⟩
        visibility := .pub
        isStatic := false
        usings := []
        decl := (loopScript.classes.map (·.decl)).headD default
        fields := #[]
        methods := #[
          ⟨"M", .method, .pub, false, [], .bool, .declared []
            (.block [.whileLoop (.literal (.bool true) {}) (.empty {}) {}] {}) {}, {}⟩,
          ⟨".ctor", .constructor, .pub, false, [], .void, .implied, {}⟩] }] := by
  simp [ofScript, loopScript, Script.classes, Item.classesOf, Item.classes, spacesOf, spaces,
    usingsOf, usings, Symbols.start, addClasses, classError?, classSymbol, addClass, List.range_succ,
    addMembers, members, member, method, paramTypes, Symbols.resolveType, methodFault?,
    Members.start, Members.hasSignature, Members.addMethod, MethodSymbol.isInvocable, withImplied,
    impliedMethod, constructorName]

theorem Compilation.decode_encode_loop :
    ∃ m bytes, (Compilation.ofScript "m" {} [] loopScript).image = some m ∧
      m.encode = .ok bytes ∧ Image.decode bytes = .ok m ∧
      ∀ c ∈ m.classes.toList, ∀ f ∈ c.methods.toList, Flow.SoundMethod m c f := by
  have himage : (Compilation.ofScript "m" {} [] loopScript).image = some {
      name := "m"
      checked := true
      release := true
      references := []
      constants := #[]
      imports := #[]
      classes := #[⟨"T", .pub, #[], #[
        ⟨"M", .method, .pub, false, [], .bool, 0, #[53, 0, 3]⟩,
        ⟨".ctor", .constructor, .pub, false, [], .void, 0, #[57]⟩]⟩] } := by
    obtain ⟨hnone, hclasses⟩ := Registration.ofScript_loopScript
    simp only [Compilation.ofScript, hnone, hclasses]
    decide +kernel
  exact ⟨_, _, himage, by rfl, Compilation.decode_encode himage (by rfl)⟩

end ClassScript
