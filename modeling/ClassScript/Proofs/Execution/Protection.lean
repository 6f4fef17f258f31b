import ClassScript.LoadedModule
import ClassScript.Proofs.Canonical
import ClassScript.Proofs.Execution.Reachability
import ClassScript.Proofs.Verified

/-!
What verification protects the machine from.

`Guarded p m` tells that every frame of `m` stands at a boundary of instructions of an existing
method and has room for all its locals, that no more frames are active than may be, and that all
static slots are there. Every step keeps it, whoever wrote the code that passed verification. What
can still be wrong is what the walk over the code does not look at: the stack, the types of values,
the receiver, and whether a method ends with a return.
-/

namespace ClassScript

open Code (Instruction)

/-- Code that is spelled in two ways is spelled in one: the instruction at an offset is what is decoded
there. -/
theorem Layout.Spells.unique {code : Code} {is js : Asm} (h : Spells code is) (h' : Spells code js) :
    is = js := by
  have rest (front as bs : Asm) (ha : Spells code (front ++ as)) (hb : Spells code (front ++ bs)) :
      as = bs := by
    have hsize : (front ++ as).size = (front ++ bs).size := by
      rw [← Asm.length_bytes, ← ha.1, hb.1, Asm.length_bytes]
    rw [Asm.size_append, Asm.size_append] at hsize
    induction as generalizing front bs with
    | nil =>
      cases bs with
      | nil => rfl
      | cons j bs =>
        have := j.width_pos
        simp at hsize
        omega
    | cons i as ih =>
      cases bs with
      | nil =>
        have := i.width_pos
        simp at hsize
        omega
      | cons j bs =>
        obtain rfl := Option.some.inj
          ((Code.decode?_of_spells ha).symm.trans (Code.decode?_of_spells hb))
        rw [List.append_cons] at ha hb
        rw [ih (front ++ [i]) bs ha hb (by simp at hsize ⊢; omega)]
  exact rest [] is js h h'

/-- Whole instructions stand in front of an offset of the code, and behind it. -/
def Code.IsBoundary (code : Code) (o : Nat) : Prop :=
  ∃ front back : Asm, Layout.Spells code (front ++ back) ∧ o = front.size

/-- Defects that verification does not rule out. -/
def CodeDefect.Unverified : CodeDefect → Prop
  | ranPastEnd | stackUnderflow | noField _ | notACondition _ | operandTypes _ _ => True
  | _ => False

/-- All code of a program is sound, and every import has a body. -/
structure Program.Verified (p : Program) : Prop where
  methods : ∀ c ∈ p.image.classes.toList, ∀ f ∈ c.methods.toList, Flow.SoundMethod p.image c f
  natives : p.natives.size = p.image.imports.size

/-- A frame stands between instructions of its method and has room for all locals. -/
structure Frame.Guarded (p : Program) (f : Frame) (g : MethodImage) : Prop where
  method : p.method? f.cls f.method = some g
  boundary : g.code.IsBoundary f.ip
  locals : f.locals.size = g.locals.toNat

structure Machine.Guarded (p : Program) (m : Machine) : Prop where
  frames : ∀ f ∈ m.frames, ∃ g, f.Guarded p g
  depth : m.frames.length ≤ Machine.maxFrames
  statics : m.statics.size = p.image.staticCount

/-- A fault that an instruction of verified code may end with while so many frames are active. -/
def Fault.Allowed (i : Instruction) (depth : Nat) : Fault → Prop
  | .invalidCode _ d => d.Unverified
  | .callDepthExceeded limit =>
    i.op = .call ∧ depth = Machine.maxFrames ∧ limit = Machine.maxFrames
  | _ => True

/-- What a step of an instruction leads to is guarded, and no other fault ends it. -/
def Step.Guarded (p : Program) (i : Instruction) (depth : Nat) : Step → Prop
  | .next m => m.frames ≠ [] ∧ m.Guarded p
  | .done _ m => m.Guarded p
  | .fault e m => m.Guarded p ∧ e.Allowed i depth

namespace Machine

variable {p : Program} {m : Machine} {f : Frame} {fs : List Frame} {g : MethodImage}
  {i : Instruction} {depth offset : Nat}

/-- The stack, the fields and the output do not matter. -/
theorem Guarded.of_eq {m' : Machine} (h : m.Guarded p) (hframes : m'.frames = m.frames)
    (hstatics : m'.statics.size = m.statics.size) : m'.Guarded p where
  frames := hframes ▸ h.frames
  depth := hframes ▸ h.depth
  statics := hstatics.trans h.statics

/-- The innermost frame moves to another boundary, or its locals change. -/
theorem Guarded.update {m' : Machine} {ip : Nat} {locals : Array Value} (h : m.Guarded p)
    (hm : m.frames = f :: fs) (hg : f.Guarded p g) (hip : g.code.IsBoundary ip)
    (hlocals : locals.size = f.locals.size)
    (hframes : m'.frames = ⟨f.cls, f.method, ip, locals⟩ :: fs)
    (hstatics : m'.statics = m.statics) : m'.Guarded p where
  frames e he := by
    rw [hframes] at he
    obtain rfl | he := List.mem_cons.mp he
    · exact ⟨g, hg.method, hip, hlocals.trans hg.locals⟩
    · exact h.frames e (hm ▸ List.mem_cons_of_mem _ he)
  depth := by
    have := h.depth
    rw [hm] at this
    rwa [hframes]
  statics := hstatics ▸ h.statics

theorem Guarded.goTo {ip : Nat} (h : m.Guarded p) (hm : m.frames = f :: fs) (hg : f.Guarded p g)
    (hip : g.code.IsBoundary ip) : (m.goTo ip).frames ≠ [] ∧ (m.goTo ip).Guarded p := by
  obtain ⟨frames, stack, fields, statics, sink⟩ := m
  obtain rfl := hm
  exact ⟨nofun, h.update rfl hg hip rfl rfl rfl⟩

/-! ## Parts of instructions -/

theorem pop_guarded {k : Value → Machine → Step} (hm : m.Guarded p)
    (hk : ∀ v m', m'.frames = m.frames → m'.statics = m.statics → m'.Guarded p →
      (k v m').Guarded p i depth) : (m.pop offset k).Guarded p i depth := by
  obtain ⟨frames, stack, fields, statics, sink⟩ := m
  cases stack with
  | nil => exact ⟨hm, trivial⟩
  | cons v stack => exact hk v _ rfl rfl (hm.of_eq rfl rfl)

theorem popArgs_guarded {n : Nat} {k : List Value → Machine → Step} (hm : m.Guarded p)
    (hk : ∀ args m', args.length = n → m'.frames = m.frames → m'.Guarded p →
      (k args m').Guarded p i depth) : (m.popArgs n offset k).Guarded p i depth := by
  obtain ⟨frames, stack, fields, statics, sink⟩ := m
  simp only [popArgs]
  cases htake : takeArgs n [] stack with
  | none => exact ⟨hm, trivial⟩
  | some taken =>
    obtain ⟨args, rest⟩ := taken
    obtain ⟨taken, rfl, rfl, rfl⟩ := takeArgs_eq_some htake
    exact hk _ _ (by simp) rfl (hm.of_eq rfl rfl)

theorem pushSlot_guarded {v : Option Value} {d : CodeDefect} (hm : m.Guarded p)
    (hframes : m.frames ≠ []) (hv : v = none → d.Unverified) :
    (m.pushSlot offset v d).Guarded p i depth := by
  cases v with
  | none => exact ⟨hm, hv rfl⟩
  | some v => exact ⟨hframes, hm.of_eq rfl rfl⟩

theorem pushResult_guarded {r : Except EvalError Value} (hm : m.Guarded p)
    (hframes : m.frames ≠ []) : (m.pushResult offset r).Guarded p i depth := by
  cases r with
  | ok v => exact ⟨hframes, hm.of_eq rfl rfl⟩
  | error e => cases e <;> exact ⟨hm, trivial⟩

theorem setLocal_guarded {slot : Nat} {v : Value} (hm : m.Guarded p) (hframes : m.frames = f :: fs)
    (hg : f.Guarded p g) (hslot : slot < g.locals.toNat) :
    (m.setLocal offset slot v).Guarded p i depth := by
  obtain ⟨frames, stack, fields, statics, sink⟩ := m
  obtain rfl := hframes
  have hsize : slot < f.locals.size := hg.locals ▸ hslot
  simp only [setLocal, if_pos hsize]
  exact ⟨by simp, hm.update rfl hg hg.boundary (Array.size_setIfInBounds ..) rfl rfl⟩

theorem setField_guarded {slot : Nat} {v : Value} (hm : m.Guarded p) (hframes : m.frames ≠ []) :
    (m.setField offset slot v).Guarded p i depth := by
  obtain ⟨frames, stack, fields, statics, sink⟩ := m
  cases fields with
  | none => exact ⟨hm, trivial⟩
  | some fields =>
    simp only [setField]
    split
    · exact ⟨hframes, hm.of_eq rfl rfl⟩
    · exact ⟨hm, trivial⟩

theorem setStatic_guarded {slot : Nat} {v : Value} (hm : m.Guarded p) (hframes : m.frames ≠ [])
    (hslot : slot < p.image.staticCount) : (m.setStatic offset slot v).Guarded p i depth := by
  obtain ⟨frames, stack, fields, statics, sink⟩ := m
  have hsize : slot < statics.size := hm.statics ▸ hslot
  simp only [setStatic, if_pos hsize]
  exact ⟨hframes, hm.of_eq rfl (Array.size_setIfInBounds ..)⟩

theorem branch_guarded {target : Nat} {op : Opcode} {wanted : Bool} (hm : m.Guarded p)
    (hframes : m.frames = f :: fs) (hg : f.Guarded p g) (htarget : g.code.IsBoundary target) :
    (m.branch offset target op wanted).Guarded p i depth := by
  refine pop_guarded hm fun v m' hframes' _ hm' => ?_
  rw [hframes] at hframes'
  cases v with
  | bool b =>
    by_cases hb : b = wanted
    · simp only [hb, if_true]
      exact hm'.goTo hframes' hg htarget
    · simp only [hb, if_false]
      exact ⟨by simp [hframes'], hm'⟩
  | _ => exact ⟨hm', trivial⟩

/-- A method is entered at its start, unless too many are active. -/
theorem enter_guarded {c j : Nat} {args : List Value} (hp : p.Verified) (hm : m.Guarded p)
    (hg : p.method? c j = some g) (hargs : args.length = g.params.length)
    (hi : m.frames.length = Machine.maxFrames → i.op = .call ∧ depth = Machine.maxFrames) :
    (enter p c j args m).Guarded p i depth := by
  have hdepth := hm.depth
  unfold enter
  split
  · next hfull =>
    obtain ⟨hop, hdepth⟩ := hi (by omega)
    exact ⟨hm, hop, hdepth, rfl⟩
  · next hroom =>
    simp only [hg, ne_eq, hargs, not_true_eq_false, if_false]
    obtain ⟨k, hk, hj⟩ := Option.bind_eq_some_iff.mp hg
    obtain ⟨hparams, is, hspells, -⟩ := hp.methods k (Array.mem_toList_iff.mpr
      (Array.mem_of_getElem? hk)) g (Array.mem_toList_iff.mpr (Array.mem_of_getElem? hj))
    refine ⟨nofun, ⟨fun e he => ?_, ?_, hm.statics⟩⟩
    · obtain rfl | he := List.mem_cons.mp he
      · exact ⟨g, hg, ⟨[], is, hspells, rfl⟩, size_frameLocals (hargs ▸ hparams)⟩
      · exact hm.frames e he
    · rw [List.length_cons]
      omega

theorem leave_guarded {result : Option Value} (hm : m.Guarded p) :
    (m.leave result).Guarded p i depth := by
  obtain ⟨frames, stack, fields, statics, sink⟩ := m
  obtain ⟨hframes, hdepth, hstatics⟩ := hm
  cases frames with
  | nil => exact ⟨nofun, Nat.zero_le _, hstatics⟩
  | cons f fs =>
    cases fs with
    | nil => exact ⟨nofun, Nat.zero_le _, hstatics⟩
    | cons e fs =>
      exact ⟨nofun, fun x hx => hframes x (List.mem_cons_of_mem f hx),
        Nat.le_of_succ_le hdepth, hstatics⟩

theorem callNative_guarded {j : Nat} (hp : p.Verified) (hm : m.Guarded p) (hframes : m.frames ≠ [])
    (hj : j < p.image.imports.size) : (m.callNative p offset j).Guarded p i depth := by
  have himport := Array.getElem?_eq_getElem hj
  have hnative := Array.getElem?_eq_getElem (hp.natives ▸ hj : j < p.natives.size)
  simp only [callNative, himport, hnative]
  refine popArgs_guarded hm fun args m' _ hframes' hm' => ?_
  split
  · exact ⟨hm'.of_eq rfl rfl, trivial⟩
  · exact ⟨hframes' ▸ hframes, hm'.of_eq rfl rfl⟩

/-! ## Instructions -/

/-- The method of a frame, and the class that it is checked with. -/
theorem sound_of_method? {c j : Nat} (hp : p.Verified) (hg : p.method? c j = some g) :
    ∃ k ∈ p.image.classes.toList, Flow.SoundMethod p.image k g := by
  obtain ⟨k, hk, hj⟩ := Option.bind_eq_some_iff.mp hg
  have hk := Array.mem_toList_iff.mpr (Array.mem_of_getElem? hk)
  exact ⟨k, hk, hp.methods k hk g (Array.mem_toList_iff.mpr (Array.mem_of_getElem? hj))⟩

/-- An instruction that passed verification keeps the machine guarded. -/
theorem execute_guarded {k : ClassImage} {after : Nat} (hp : p.Verified) (hm : m.Guarded p)
    (hframes : m.frames = f :: fs) (hg : f.Guarded p g)
    (hi : Verify.operandDefect? (Flow.boundsOf p.image k g) i = none)
    (hjump : ∀ r, Verify.target? i after = some r → ∃ t, r = some t ∧ g.code.IsBoundary t) :
    (execute p i offset after m).Guarded p i m.frames.length := by
  have hsome : m.frames ≠ [] := by simp [hframes]
  have hinRange {value limit : Nat} {d : Verify.Defect}
      (h : (if value < limit then none else some d) = none) : value < limit := by
    by_contra hge
    rw [if_neg hge] at h
    cases h
  have hgoes {t : Nat} (ht : Verify.target? i after = some (some t)) : g.code.IsBoundary t := by
    obtain ⟨t', heq, ht'⟩ := hjump _ ht
    cases heq
    exact ht'
  unfold execute
  split <;> rename_i hop
  case h_1 => -- `constant`
    have hlt : i.first < p.image.constants.size :=
      hinRange (by simpa only [Verify.operandDefect?, Flow.boundsOf, hop] using hi)
    refine pushSlot_guarded hm hsome fun hnone => ?_
    rw [Array.getElem?_eq_getElem hlt] at hnone
    cases hnone
  case h_2 | h_3 => exact ⟨hsome, hm.of_eq rfl rfl⟩
  case h_4 => exact pop_guarded hm fun v m' hframes' _ hm' => ⟨hframes' ▸ hsome, hm'⟩
  case h_5 => exact pushSlot_guarded hm hsome fun _ => trivial
  case h_6 => -- `getLocal`
    have hlt : i.first < g.locals.toNat :=
      hinRange (by simpa only [Verify.operandDefect?, Flow.boundsOf, hop] using hi)
    refine pushSlot_guarded hm hsome fun hnone => ?_
    rw [local?, hframes] at hnone
    have hge : f.locals.size ≤ i.first := Array.getElem?_eq_none_iff.mp hnone
    exact absurd hlt (Nat.not_lt.mpr (hg.locals ▸ hge))
  case h_7 => -- `setLocal`
    have hlt := hinRange (by simpa only [Verify.operandDefect?, Flow.boundsOf, hop] using hi)
    exact pop_guarded hm fun v m' hframes' _ hm' =>
      setLocal_guarded hm' (hframes'.trans hframes) hg hlt
  case h_8 => exact pushSlot_guarded hm hsome fun _ => trivial
  case h_9 =>
    exact pop_guarded hm fun v m' hframes' _ hm' => setField_guarded hm' (hframes' ▸ hsome)
  case h_10 => -- `getStatic`
    have hlt : i.first < p.image.staticCount :=
      hinRange (by simpa only [Verify.operandDefect?, Flow.boundsOf, hop] using hi)
    refine pushSlot_guarded hm hsome fun hnone => ?_
    exact absurd hlt (Nat.not_lt.mpr (hm.statics ▸ Array.getElem?_eq_none_iff.mp hnone))
  case h_11 => -- `setStatic`
    have hlt := hinRange (by simpa only [Verify.operandDefect?, Flow.boundsOf, hop] using hi)
    exact pop_guarded hm fun v m' hframes' _ hm' => setStatic_guarded hm' (hframes' ▸ hsome) hlt
  case h_12 => exact hm.goTo hframes hg (hgoes (by simp only [Verify.target?, hop]))
  case h_13 => exact branch_guarded hm hframes hg (hgoes (by simp only [Verify.target?, hop]))
  case h_14 => exact branch_guarded hm hframes hg (hgoes (by simp only [Verify.target?, hop]))
  case h_15 => -- `loop`
    split
    · next hle => exact hm.goTo hframes hg (hgoes (by simp only [Verify.target?, hop, if_pos hle]))
    · next hgt =>
      obtain ⟨t, heq, -⟩ := hjump none (by simp only [Verify.target?, hop, if_neg hgt])
      cases heq
  case h_16 => -- `call`
    simp only [Verify.operandDefect?, hop] at hi
    split at hi
    · cases hi
    · next c hc =>
      have hc : p.image.classes[i.first]? = some c := hc
      have hlt := hinRange hi
      have hmethod : p.method? i.first i.second = some c.methods[i.second] := by
        rw [Program.method?, hc, Option.bind_some, Array.getElem?_eq_getElem hlt]
      simp only [hmethod]
      refine popArgs_guarded hm fun args m' hargs hframes' hm' => ?_
      exact enter_guarded hp hm' hmethod hargs fun hfull => ⟨hop, hframes' ▸ hfull⟩
  case h_17 => -- `callNative`
    have hlt := hinRange (by simpa only [Verify.operandDefect?, Flow.boundsOf, hop] using hi)
    exact callNative_guarded hp hm hsome hlt
  case h_18 => exact pop_guarded hm fun v m' _ _ hm' => leave_guarded hm'
  case h_19 => exact leave_guarded hm
  case h_20 => -- an instruction that computes a value
    split
    · exact pop_guarded hm fun v m' hframes' _ hm' => pushResult_guarded hm' (hframes' ▸ hsome)
    · refine pop_guarded hm fun v m' hframes' _ hm' => ?_
      exact pop_guarded hm' fun w m'' hframes'' _ hm'' =>
        pushResult_guarded hm'' (hframes'' ▸ hframes' ▸ hsome)

/-! ## Runs -/

/-- The next instruction of a guarded machine, or the end of the code, and what a step leads to. -/
theorem step_guarded (hp : p.Verified) (hm : m.Guarded p) (hframes : m.frames ≠ []) :
    (∃ i, m.fetch? p = some i ∧ (step p m).Guarded p i m.frames.length) ∨
      ∃ o, step p m = .fault (.invalidCode o .ranPastEnd) m := by
  obtain ⟨f, fs, hm'⟩ := List.exists_cons_of_ne_nil hframes
  obtain ⟨g, hg⟩ := hm.frames f (hm' ▸ List.mem_cons_self)
  obtain ⟨front, back, hspells, hip⟩ := hg.boundary
  cases back with
  | nil =>
    refine .inr ⟨f.ip, ?_⟩
    have hsize : g.code.size = f.ip := by
      rw [hip, ← Array.length_toList, hspells.1, List.append_nil, Asm.length_bytes]
    have hend : g.code[f.ip]? = none := Array.getElem?_eq_none (Nat.le_of_eq hsize)
    unfold step
    simp only [hm', hg.method, hend, refuse]
  | cons i back =>
    have hi : m.fetch? p = some i := fetch_of_spells hm' hg.method hspells hip
    obtain ⟨f', fs', hframes', hstep⟩ := step_of_fetch hi
    obtain ⟨rfl, rfl⟩ := List.cons.inj (hm'.symm.trans hframes')
    obtain ⟨k, hk, hsound⟩ := sound_of_method? hp hg.method
    obtain ⟨-, is, hspells', hwell⟩ := hsound
    obtain rfl := hspells.unique hspells'
    have hafter : f.ip + i.width = (front ++ [i]).size := by simp [hip]
    have hnext : g.code.IsBoundary (f.ip + i.width) :=
      ⟨front ++ [i], back, by simpa using hspells, hafter⟩
    obtain ⟨-, hgo⟩ := hm.goTo hm' hg hnext
    have hgoFrames : (m.goTo (f.ip + i.width)).frames = { f with ip := f.ip + i.width } :: fs :=
      goTo_frames hm'
    refine .inl ⟨i, hi, ?_⟩
    have hexec : (execute p i f.ip (f.ip + i.width) (m.goTo (f.ip + i.width))).Guarded p i
        (m.goTo (f.ip + i.width)).frames.length := execute_guarded hp hgo hgoFrames
      ⟨hg.method, hnext, hg.locals⟩ (hwell.operands i (by simp)) fun r hr => by
        rw [hip] at hr
        obtain ⟨front', back', his, rfl⟩ := hwell.jumps front i back r rfl hr
        exact ⟨_, rfl, front', back', his ▸ hspells, rfl⟩
    rw [hstep]
    rw [hgoFrames] at hexec
    rw [hm']
    exact hexec

theorem Reaches.guarded {start : Machine} {stored stored' : List (List Nat)} (hp : p.Verified)
    (hframes : start.frames ≠ []) (hstart : start.Guarded p)
    (h : Reaches p start stored m stored') : m.frames ≠ [] ∧ m.Guarded p := by
  induction h with
  | refl => exact ⟨hframes, hstart⟩
  | step _ hi hstep ih =>
    obtain ⟨i, -, hguarded⟩ | ⟨o, hfault⟩ := step_guarded hp ih.2 ih.1
    · rw [hstep] at hguarded
      exact hguarded
    · cases hstep.symm.trans hfault

/-- A run of verified code begins. -/
theorem enter_idle {c j : Nat} {args : List Value} (fields : Option (Array Value))
    {statics : Array Value} (sink : Sink) (hp : p.Verified) (hg : p.method? c j = some g)
    (hargs : args.length = g.params.length) (hstatics : statics.size = p.image.staticCount) :
    ∃ start, enter p c j args (.idle fields statics sink) = .next start ∧ start.frames ≠ [] ∧
      start.Guarded p := by
  have henter : enter p c j args (.idle fields statics sink) =
      .next ⟨[⟨c, j, 0, frameLocals args g.locals.toNat⟩], [], fields, statics, sink⟩ := by
    simp [enter, idle, hg, hargs, maxFrames]
  have hguarded : (enter p c j args (.idle fields statics sink)).Guarded p (.plain .call) maxFrames :=
    enter_guarded hp ⟨by simp [idle], Nat.zero_le _, hstatics⟩ hg hargs fun _ => ⟨rfl, rfl⟩
  rw [henter] at hguarded
  exact ⟨_, henter, hguarded⟩

end Machine

def Step.machine : Step → Machine
  | .next m | .done _ m | .fault _ m => m

theorem Step.Guarded.machine {p : Program} {i : Instruction} {depth : Nat} {s : Step}
    (h : s.Guarded p i depth) : s.machine.Guarded p := by
  cases s with
  | next m => exact h.2
  | done v m => exact h
  | fault e m => exact h.1

theorem LoadedModule.size_firstStatics (m : Image) : (firstStatics m).size = m.staticCount := by
  have hfold (fields : List FieldImage) (slots : Array Value) :
      (fields.foldl (fun slots f => slots.setIfInBounds f.slot.toNat f.type.default) slots).size =
        slots.size := by
    induction fields generalizing slots with
    | nil => rfl
    | cons f fields ih => rw [List.foldl_cons, ih, Array.size_setIfInBounds]
  rw [firstStatics, defaultSlots, hfold, Array.size_replicate]

/-- An image that is accepted, whoever wrote it, cannot lead the machine astray: the static slots that
loading makes are those that its code is checked against, and in every run all frames stand between
instructions, no more than 1024 of them. No run ends with a defect that verification looks for, and
none ends for its depth but at a call of the frame that would be one too many. -/
theorem Image.decode_protects {bytes : List UInt8} {m : Image} {p : Program}
    (h : Image.decode bytes = .ok m) (hp : p.image = m) (hnatives : p.natives.size = m.imports.size)
    {c j : Nat} {f : MethodImage} (hf : p.method? c j = some f) {args : List Value}
    (hargs : args.length = f.params.length) (fields : Option (Array Value)) {statics : Array Value}
    (hstatics : statics.size = m.staticCount) (sink : Sink) :
    (LoadedModule.firstStatics m).size = m.staticCount ∧
    ∃ start, Machine.enter p c j args (.idle fields statics sink) = .next start ∧
      ∀ machine stored, Machine.Reaches p start [[]] machine stored →
        (∀ frame ∈ machine.frames, ∃ g, p.method? frame.cls frame.method = some g ∧
          g.code.IsBoundary frame.ip) ∧
        machine.frames.length ≤ 1024 ∧
        (Machine.step p machine).machine.statics.size = m.staticCount ∧
        ∀ e m', Machine.step p machine = .fault e m' →
          (∀ o d, e = .invalidCode o d → d.Unverified) ∧
          ∀ limit, e = .callDepthExceeded limit → machine.frames.length = 1024 ∧
            ∃ i, machine.fetch? p = some i ∧ i.op = .call := by
  subst hp
  have hp : p.Verified := ⟨fun k hk g hg => Flow.sound_of_verified (Image.encode_of_decode h).1 hk hg,
    hnatives⟩
  obtain ⟨start, henter, hframes, hstart⟩ :=
    Machine.enter_idle fields sink hp hf hargs hstatics
  refine ⟨LoadedModule.size_firstStatics _, start, henter, fun machine stored hreach => ?_⟩
  obtain ⟨hsome, hm⟩ := hreach.guarded hp hframes hstart
  refine ⟨fun frame hframe => ?_, hm.depth, ?_⟩
  · obtain ⟨g, hg⟩ := hm.frames frame hframe
    exact ⟨g, hg.method, hg.boundary⟩
  · obtain ⟨i, hi, hstep⟩ | ⟨o, hstep⟩ := Machine.step_guarded hp hm hsome
    · refine ⟨hstep.machine.statics, fun e m' hfault => ?_⟩
      rw [hfault] at hstep
      refine ⟨fun o d he => ?_, fun limit he => ?_⟩
      · exact (he ▸ hstep.2 : Fault.Allowed i _ (.invalidCode o d))
      · obtain ⟨hop, hdepth, -⟩ : Fault.Allowed i _ (.callDepthExceeded limit) := he ▸ hstep.2
        exact ⟨hdepth, i, hi, hop⟩
    · rw [hstep]
      refine ⟨hm.statics, fun e m' hfault => ?_⟩
      cases hfault
      exact ⟨fun o d he => by cases he; trivial, by simp⟩

/-- A method that calls itself before anything else, takes what is not there, and does not return. -/
def runawayImage : Image where
  name := "m"
  checked := true
  release := false
  references := []
  constants := #[]
  imports := #[]
  classes := #[⟨"T", .pub, #[], #[⟨"M", .method, .pub, false, [.int], .void, 1,
    #[5, 0, 0, 54, 0, 0, 0, 0, 3, 51, 0, 0]⟩]⟩]

theorem Image.decode_protects_runaway :
    ∃ bytes, Image.decode bytes = .ok runawayImage ∧
      (LoadedModule.firstStatics runawayImage).size = runawayImage.staticCount ∧
      ∃ start, Machine.enter ⟨runawayImage, #[]⟩ 0 0 [.int 3] (.idle none #[] .empty) = .next start ∧
        ∀ machine stored, Machine.Reaches ⟨runawayImage, #[]⟩ start [[]] machine stored →
          (∀ frame ∈ machine.frames, ∃ g,
            Program.method? ⟨runawayImage, #[]⟩ frame.cls frame.method = some g ∧
              g.code.IsBoundary frame.ip) ∧
          machine.frames.length ≤ 1024 ∧
          (Machine.step ⟨runawayImage, #[]⟩ machine).machine.statics.size =
            runawayImage.staticCount ∧
          ∀ e m', Machine.step ⟨runawayImage, #[]⟩ machine = .fault e m' →
            (∀ o d, e = .invalidCode o d → d.Unverified) ∧
            ∀ limit, e = .callDepthExceeded limit → machine.frames.length = 1024 ∧
              ∃ i, machine.fetch? ⟨runawayImage, #[]⟩ = some i ∧ i.op = .call := by
  obtain ⟨bytes, hbytes⟩ : ∃ bytes, runawayImage.encode = .ok bytes := ⟨_, by rfl⟩
  have hread := Image.decode_of_encode hbytes (by decide +kernel)
  exact ⟨bytes, hread, Image.decode_protects (p := ⟨runawayImage, #[]⟩) hread rfl rfl (c := 0) (j := 0)
    rfl rfl none rfl .empty⟩

end ClassScript
