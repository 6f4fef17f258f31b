import ClassScript.Proofs.Execution.Run
import ClassScript.Proofs.Layout.Live

/-!
Heights of the stack.

`Reachable code p` follows fall-through and jumps from the start of a method, whatever the conditions
are. `Balanced m f height` tells that `height` counts the values on the stack at all those places.
Since all frames share one stack, a machine that runs balanced code never takes a value that is not
its own, and a call leaves the values of its caller as they were.
-/

namespace ClassScript

open Code (Instruction)

/-! ## The graph of a method -/

namespace Code

def decode? (code : Code) (p : Nat) : Option Instruction :=
  (code[p]?).bind fun byte => (code.instructionAt p byte).toOption

/-- Code that spells an instruction behind others has it there. -/
theorem decode?_of_spells {code : Code} {front back : Asm} {i : Instruction}
    (h : Layout.Spells code (front ++ i :: back)) : code.decode? front.size = some i := by
  obtain ⟨hcode, hfits⟩ := h
  rw [Asm.bytes_append, Asm.bytes_cons] at hcode
  have hbyte : code[front.size]? = some i.op.byte :=
    front.length_bytes ▸ Code.getElem?_of_toList _ (i.operands ++ Asm.bytes back) hcode
  have hdecode : code.instructionAt front.size i.op.byte = .ok i :=
    front.length_bytes ▸ Code.instructionAt_of_toList _ _ (hfits i (by simp)) hcode
  rw [Code.decode?, hbyte, Option.bind_some, hdecode]
  rfl

/-- The offsets that an instruction leads to; `after` is the one behind it. -/
def Instruction.leadsTo (i : Instruction) (after : Nat) : List Nat :=
  match i.op with
  | .ret | .retVoid => []
  | .jump => [after + i.first]
  | .jumpIfFalse | .jumpIfTrue => [after, after + i.first]
  | .loop => if i.first ≤ after then [after - i.first] else []
  | _ => [after]

/-- An offset is reached from the start along fall-through and jumps. -/
inductive Reachable (code : Code) : Nat → Prop
  | start : Reachable code 0
  | edge {p q : Nat} {i : Instruction} (h : Reachable code p) (hi : code.decode? p = some i)
      (hq : q ∈ i.leadsTo (p + i.width)) : Reachable code q

end Code

/-- How many values an instruction takes from the stack, and how many it leaves there instead. -/
def Image.effect? (m : Image) (i : Instruction) : Option (Nat × Nat) :=
  match i.op with
  | .constant | .pushTrue | .pushFalse | .getLocal | .getField | .getStatic => some (0, 1)
  | .pop | .setLocal | .setField | .setStatic | .jumpIfFalse | .jumpIfTrue | .ret => some (1, 0)
  | .dup => some (1, 2)
  | .jump | .loop | .retVoid => some (0, 0)
  | .call => (m.method? i.first i.second).map fun f =>
      (f.params.length, if f.returns.isVoid then 0 else 1)
  | .callNative => (m.imports[i.first]?).map fun f =>
      (f.params.length, if f.returns.isVoid then 0 else 1)
  | op => some (if op.isUnary then 1 else 2, 1)

/-- `height` is the number of values that a method has on the stack in front of every instruction
that can be reached. -/
structure Balanced (m : Image) (f : MethodImage) (height : Nat → Nat) : Prop where
  start : height 0 = 0
  edge : ∀ p i, f.code.Reachable p → f.code.decode? p = some i →
    ∃ takes gives, m.effect? i = some (takes, gives) ∧ takes ≤ height p ∧
      ∀ q ∈ i.leadsTo (p + i.width), height q = height p - takes + gives
  ret : ∀ p i, f.code.Reachable p → f.code.decode? p = some i → i.op = .ret → height p = 1
  retVoid : ∀ p i, f.code.Reachable p → f.code.decode? p = some i → i.op = .retVoid → height p = 0

namespace Machine

/-- A run comes from a machine to another one, and has more than `depth` frames on its way. -/
inductive Above (p : Program) (depth : Nat) (m : Machine) : Machine → Prop
  | refl : Above p depth m m
  | step {m' m'' : Machine} (h : Above p depth m m') (hdeep : depth < m'.frames.length)
      (hstep : step p m' = .next m'') : Above p depth m m''

/-- The next instruction is the one at which the innermost frame stands. -/
theorem fetch?_eq {p : Program} {m : Machine} {f : Frame} {fs : List Frame} {g : MethodImage}
    (hm : m.frames = f :: fs) (hg : p.method? f.cls f.method = some g) :
    m.fetch? p = g.code.decode? f.ip := by
  unfold fetch?
  rw [hm]
  simp only [hg, Option.bind_some]
  rfl

/-- Nothing is executed any more where there are no more frames. -/
theorem Above.eq_of_le {p : Program} {depth : Nat} {m m' : Machine} (h : Above p depth m m')
    (hle : m.frames.length ≤ depth) : m' = m := by
  induction h with
  | refl => rfl
  | step _ hdeep _ ih =>
    rw [ih] at hdeep
    exact absurd hdeep (Nat.not_lt.mpr hle)

end Machine

theorem length_returned (t : ValueType) : (returned t).length = if t.isVoid then 0 else 1 := by
  unfold returned
  split <;> rfl

namespace Flow

open Machine

/-! ## Instructions -/

variable {Γ : Context} {s : State} {i : Instruction} {w : Ways}

/-- An opcode that computes something from one operand takes one. -/
theorem effect?_unary {m : Image} {op : Opcode} {t t' : ValueType} (h : op.unaryType? t = some t') :
    m.effect? (.plain op) = some (1, 1) := by
  cases op <;> first | rfl | simp [Opcode.unaryType?] at h

theorem effect?_binary {m : Image} {op : Opcode} {l r t : ValueType}
    (h : op.binaryType? l r = some t) : m.effect? (.plain op) = some (2, 1) := by
  cases op <;> first | rfl | simp [Opcode.binaryType?, Opcode.arith?, Opcode.order?] at h

theorem leadsTo_unary {op : Opcode} {t t' : ValueType} (h : op.unaryType? t = some t')
    (after : Nat) : (Instruction.plain op).leadsTo after = [after] := by
  cases op <;> first | rfl | simp [Opcode.unaryType?] at h

theorem leadsTo_binary {op : Opcode} {l r t : ValueType} (h : op.binaryType? l r = some t)
    (after : Nat) : (Instruction.plain op).leadsTo after = [after] := by
  cases op <;> first | rfl | simp [Opcode.binaryType?, Opcode.arith?, Opcode.order?] at h

structure Shifts (Γ : Context) (s : State) (i : Instruction) (w : Ways) (takes gives : Nat) : Prop where
  effect : Γ.image.effect? i = some (takes, gives)
  enough : takes ≤ s.stack.length
  next : ∀ t, w.next = some t → t.stack.length = s.stack.length - takes + gives
  jump : ∀ t, w.jump = some t → t.stack.length = s.stack.length - takes + gives

/-- An instruction that leads on without a jump. -/
theorem Shifts.on {t : State} {takes gives : Nat} (heffect : Γ.image.effect? i = some (takes, gives))
    (htakes : takes ≤ s.stack.length) (ht : t.stack.length = s.stack.length - takes + gives) :
    Shifts Γ s i (.on t) takes gives where
  effect := heffect
  enough := htakes
  next u hu := by
    cases hu
    exact ht
  jump := nofun

/-- An instruction that can be executed changes the height as its opcode says. -/
theorem Executes.shifts (h : Executes Γ s i w) (hsane : Γ.sane) :
    ∃ takes gives, Shifts Γ s i w takes gives := by
  cases h with
  | constant | pushTrue | pushFalse | getLocal | getField | getStatic =>
    exact ⟨0, 1, .on rfl (Nat.zero_le _) rfl⟩
  | pop hs | setLocal _ hs | setField _ _ hs | setStatic _ hs =>
    exact ⟨1, 0, .on rfl (by simp [hs hsane]) (by simp [hs hsane])⟩
  | dup hs => exact ⟨1, 2, .on rfl (by simp [hs hsane]) (by simp [hs hsane])⟩
  | unary h hs => exact ⟨1, 1, .on (effect?_unary h) (by simp [hs hsane]) (by simp [hs hsane])⟩
  | binary h hs => exact ⟨2, 1, .on (effect?_binary h) (by simp [hs hsane]) (by simp [hs hsane])⟩
  | jump | loop =>
    exact ⟨0, 0, rfl, Nat.zero_le _, (fun t ht => by cases ht), fun t ht => by cases ht; rfl⟩
  | jumpIfFalse hs | jumpIfTrue hs =>
    have hstack := hs hsane
    exact ⟨1, 0, rfl, by simp [hstack], (fun t ht => by cases ht; simp [hstack]),
      fun t ht => by cases ht; simp [hstack]⟩
  | @call c j f ts hf _ hs =>
    refine ⟨f.params.length, if f.returns.isVoid then 0 else 1, .on ?_ ?_ ?_⟩
    · simp [Image.effect?, hf]
    · simp [hs hsane]
    · simp [hs hsane, length_returned, Nat.add_comm]
  | @callNative n f ts hf hs =>
    refine ⟨f.params.length, if f.returns.isVoid then 0 else 1, .on ?_ ?_ ?_⟩
    · simp [Image.effect?, Instruction.unary, hf]
    · simp [hs hsane]
    · simp [hs hsane, length_returned, Nat.add_comm]
  | ret _ hs =>
    exact ⟨1, 0, rfl, by simp [hs hsane], (fun t ht => by cases ht), fun t ht => by cases ht⟩
  | retVoid =>
    exact ⟨0, 0, rfl, Nat.zero_le _, (fun t ht => by cases ht), fun t ht => by cases ht⟩

/-- An instruction leads to the one behind it or to its target, as its ways say. -/
theorem Executes.leadsTo (h : Executes Γ s i w) {after q : Nat} (hq : q ∈ i.leadsTo after) :
    (q = after ∧ ∃ t, w.next = some t) ∨
      (Verify.target? i after = some (some q) ∧ ∃ t, w.jump = some t) := by
  have behind {t : State} (hi : i.leadsTo after = [after]) (hw : w.next = some t) :
      (q = after ∧ ∃ t, w.next = some t) ∨
        (Verify.target? i after = some (some q) ∧ ∃ t, w.jump = some t) := by
    rw [hi] at hq
    exact .inl ⟨List.mem_singleton.mp hq, _, hw⟩
  cases h with
  | unary h => exact behind (leadsTo_unary h after) rfl
  | binary h => exact behind (leadsTo_binary h after) rfl
  | jump =>
    obtain rfl := List.mem_singleton.mp hq
    exact .inr ⟨rfl, _, rfl⟩
  | @loop d =>
    change q ∈ (if d ≤ after then [after - d] else []) at hq
    split at hq
    · next hd =>
      obtain rfl := List.mem_singleton.mp hq
      exact .inr ⟨congrArg some (if_pos hd), _, rfl⟩
    · cases hq
  | jumpIfFalse | jumpIfTrue =>
    obtain rfl | hq := List.mem_cons.mp hq
    · exact .inl ⟨rfl, _, rfl⟩
    · obtain rfl := List.mem_singleton.mp hq
      exact .inr ⟨rfl, _, rfl⟩
  | ret | retVoid => cases hq
  | _ => exact behind rfl rfl

/-- A return takes its value from a stack that holds nothing else. -/
theorem Executes.of_ret (h : Executes Γ s i w) (hop : i.op = .ret) (hsane : Γ.sane) :
    s.stack = [Γ.returns] := by
  cases h with
  | ret _ hs => exact hs hsane
  | unary h =>
    cases hop
    simp [Opcode.unaryType?] at h
  | binary h =>
    cases hop
    simp [Opcode.binaryType?, Opcode.arith?, Opcode.order?] at h
  | _ => cases hop

theorem Executes.of_retVoid (h : Executes Γ s i w) (hop : i.op = .retVoid) (hsane : Γ.sane) :
    s.stack = [] := by
  cases h with
  | retVoid _ hs => exact hs hsane
  | unary h =>
    cases hop
    simp [Opcode.unaryType?] at h
  | binary h =>
    cases hop
    simp [Opcode.binaryType?, Opcode.arith?, Opcode.order?] at h
  | _ => cases hop

/-! ## Methods -/

section

variable {f : MethodImage} {is : Asm} {B : List Layout.Extent} {known : Nat → Option State}

/-- Where a state is known and an instruction starts, it can be executed. -/
theorem Annotated.decoded (h : Annotated Γ f is B known) {p : Nat} (hp : known p = some s)
    (hi : f.code.decode? p = some i) : ∃ w, Executes Γ s i w ∧
      (∀ t, w.next = some t → Leads Γ known t (p + i.width)) ∧
      ∀ t, w.jump = some t → ∃ q, Verify.target? i (p + i.width) = some (some q) ∧
        Leads Γ known t q := by
  obtain ⟨front, back, rfl, rfl⟩ := h.split hp
  cases back with
  | nil =>
    have hsize : f.code.size = front.size := by
      rw [← Array.length_toList, h.spells.1, List.append_nil, Asm.length_bytes]
    simp [Code.decode?, ← hsize] at hi
  | cons j back =>
    obtain rfl := Option.some.inj (hi.symm.trans (Code.decode?_of_spells h.spells))
    obtain ⟨s', w, hs', hw, hnext, hjump⟩ := h.allows rfl
    rw [hp] at hs'
    cases hs'
    exact ⟨w, hw, hnext, hjump⟩

/-- Where an instruction leads a state is known as well. -/
theorem Annotated.edge (h : Annotated Γ f is B known) {p q : Nat} (hp : known p = some s)
    (hi : f.code.decode? p = some i) (hq : q ∈ i.leadsTo (p + i.width)) :
    ∃ w t, Executes Γ s i w ∧ (w.next = some t ∨ w.jump = some t) ∧ Leads Γ known t q := by
  obtain ⟨w, hw, hnext, hjump⟩ := h.decoded hp hi
  obtain ⟨rfl, t, ht⟩ | ⟨hq, t, ht⟩ := hw.leadsTo hq
  · exact ⟨w, t, hw, .inl ht, hnext t ht⟩
  · obtain ⟨q', hq', hlead⟩ := hjump t ht
    rw [hq] at hq'
    cases hq'
    exact ⟨w, t, hw, .inr ht, hlead⟩

theorem Annotated.reachable (h : Annotated Γ f is B known) {p : Nat} (hp : f.code.Reachable p) :
    ∃ s, known p = some s := by
  induction hp with
  | start =>
    obtain ⟨κ, S, hflows⟩ := h.flows
    obtain ⟨s, hs, -⟩ := hflows.start
    exact ⟨s, hs⟩
  | edge _ hi hq ih =>
    obtain ⟨s, hs⟩ := ih
    obtain ⟨w, t, -, -, u, hu, -⟩ := h.edge hs hi hq
    exact ⟨u, hu⟩

def heightOf (known : Nat → Option State) (p : Nat) : Nat :=
  ((known p).map (·.stack.length)).getD 0

theorem heightOf_eq {p : Nat} (h : known p = some s) : heightOf known p = s.stack.length := by
  rw [heightOf, h]
  rfl

theorem heightOf_of_leads {t : State} {p : Nat} (hsane : Γ.sane) (h : Leads Γ known t p) :
    heightOf known p = t.stack.length := by
  obtain ⟨u, hu, hbelow⟩ := h
  rw [heightOf_eq hu, hbelow.stack hsane]

/-- Code that can be executed is balanced, and nothing is on the stack between statements. -/
theorem Annotated.balanced (h : Annotated Γ f is B known) (hsane : Γ.sane) :
    Balanced Γ.image f (heightOf known) ∧
      ∀ e ∈ B, heightOf known e.start = 0 ∧ heightOf known e.stop = 0 := by
  obtain ⟨κ, S, hflows⟩ := h.flows
  refine ⟨⟨heightOf_of_leads hsane hflows.start, fun p i hp hi => ?_, fun p i hp hi hop => ?_,
    fun p i hp hi hop => ?_⟩, fun e he => ?_⟩
  · obtain ⟨s, hs⟩ := h.reachable hp
    obtain ⟨w, hw, -⟩ := h.decoded hs hi
    obtain ⟨takes, gives, hshifts⟩ := hw.shifts hsane
    rw [heightOf_eq hs]
    refine ⟨takes, gives, hshifts.effect, hshifts.enough, fun q hq => ?_⟩
    obtain ⟨w', t, hw', ht, hlead⟩ := h.edge hs hi hq
    obtain ⟨takes', gives', hshifts'⟩ := hw'.shifts hsane
    obtain ⟨rfl, rfl⟩ := Prod.mk.inj (Option.some.inj (hshifts.effect.symm.trans hshifts'.effect))
    rw [heightOf_of_leads hsane hlead]
    exact ht.elim (hshifts'.next t) (hshifts'.jump t)
  · obtain ⟨s, hs⟩ := h.reachable hp
    obtain ⟨w, hw, -⟩ := h.decoded hs hi
    rw [heightOf_eq hs, hw.of_ret hop hsane]
    rfl
  · obtain ⟨s, hs⟩ := h.reachable hp
    obtain ⟨w, hw, -⟩ := h.decoded hs hi
    rw [heightOf_eq hs, hw.of_retVoid hop hsane]
    rfl
  · have empty {p : Nat} (hp : (p, .entry (.clear false fun _ => True)) ∈ marks Γ B) :
        heightOf known p = 0 := by
      have hlead : Leads Γ known (.clear false fun _ => True) p := hflows.marks _ hp
      exact heightOf_of_leads hsane hlead
    exact ⟨empty (List.mem_flatMap.mpr ⟨e, he, by simp⟩), empty (List.mem_flatMap.mpr ⟨e, he, by simp⟩)⟩

end

end Flow

/-! ## Calls -/

namespace Machine

variable {p : Program} {m m' : Machine} {offset : Nat}

/-- Arguments that are taken lie on top of the rest of the stack. -/
theorem popArgs_next {n : Nat} {k : List Value → Machine → Step}
    (h : m.popArgs n offset k = .next m') : n ≤ m.stack.length ∧ ∃ args, args.length = n ∧
      k args ⟨m.frames, m.stack.drop n, m.fields, m.statics, m.sink⟩ = .next m' := by
  obtain ⟨frames, stack, fields, statics, sink⟩ := m
  simp only [popArgs] at h
  cases htake : takeArgs n [] stack with
  | none =>
    rw [htake] at h
    cases h
  | some taken =>
    obtain ⟨args, rest⟩ := taken
    rw [htake] at h
    obtain ⟨taken, rfl, rfl, rfl⟩ := takeArgs_eq_some htake
    exact ⟨by simp, taken.reverse, by simp, by simpa using h⟩

/-- A call puts a frame on top of the others and takes its arguments. -/
theorem call_next {c j after : Nat} (h : execute p ⟨.call, c, j⟩ offset after m = .next m') :
    ∃ g args, p.method? c j = some g ∧ g.params.length ≤ m.stack.length ∧
      args.length = g.params.length ∧
      m' = ⟨⟨c, j, 0, frameLocals args g.locals.toNat⟩ :: m.frames, m.stack.drop g.params.length,
        m.fields, m.statics, m.sink⟩ := by
  simp only [execute] at h
  cases hg : p.method? c j with
  | none =>
    rw [hg] at h
    cases h
  | some g =>
    rw [hg] at h
    obtain ⟨hle, args, hlength, henter⟩ := popArgs_next h
    obtain ⟨g', hg', -, rfl⟩ := enter_next henter
    rw [hg] at hg'
    cases hg'
    exact ⟨g, args, rfl, hle, hlength, rfl⟩

/-- A library function takes its arguments and leaves its result, if it has one. -/
theorem callNative_next {n : Nat} (h : m.callNative p offset n = .next m') :
    ∃ f result, p.image.imports[n]? = some f ∧ f.params.length ≤ m.stack.length ∧
      m'.frames = m.frames ∧ m'.stack = result ++ m.stack.drop f.params.length ∧
      result.length = if f.returns.isVoid then 0 else 1 := by
  unfold callNative at h
  split at h
  · cases h
  · next f hf =>
    split at h
    · cases h
    · next body _ =>
      obtain ⟨hle, args, -, hrun⟩ := popArgs_next h
      simp only at hrun
      split at hrun
      · cases hrun
      · next v sink _ =>
        cases hrun
        refine ⟨f, if f.returns.isVoid then [] else [v], hf, hle, rfl, ?_, ?_⟩
        · split <;> rfl
        · split <;> rfl

end Machine

namespace Flow

open Machine

variable {W : Setting} {b : Base} {m m' m₀ m₁ m₂ : Machine} {stored stored' : List (List Nat)}

theorem Callers.length_le {fs : List Frame} {stack : List Value} {r : ValueType}
    (h : Callers W b fs stored stack r) : b.frames.length ≤ fs.length := by
  induction h with
  | base => exact Nat.le_refl _
  | frame _ _ _ _ _ ih => exact Nat.le_succ_of_le ih

/-- The frames of a run are left with the result of the lowest one on the stack. -/
structure Left (W : Setting) (b : Base) (m : Machine) : Prop where
  frames : m.frames = b.frames
  stack : W.sane → ∃ result, m.stack = result ++ b.stack ∧ result.length = (returned b.returns).length

/-- A run goes on above the frames of its base until they are left. -/
theorem Running.above (h : Running W b m stored) (hstrict : ¬ W.strict)
    (habove : Above W.program b.frames.length m m') :
    (∃ stored', Running W b m' stored') ∨ Left W b m' := by
  induction habove with
  | refl => exact .inl ⟨stored, h⟩
  | @step m' m'' _ hdeep hstep ih =>
    obtain ⟨stored', h'⟩ | hleft := ih
    · obtain ⟨i, hi, hproceeds⟩ := h'.step fun h => absurd h hstrict
      rw [hstep] at hproceeds
      cases hproceeds with
      | next h => exact .inl ⟨_, h⟩
      | left _ hresult hstack => exact .inr ⟨rfl, fun hsane => ⟨_, hstack hsane, hresult.length_eq⟩⟩
    · rw [hleft.frames] at hdeep
      exact absurd hdeep (Nat.lt_irrefl _)

/-- A run that comes back to the frames of its base has left its own ones. -/
theorem Running.comesBack (h : Running W b m stored) (hstrict : ¬ W.strict)
    (habove : Above W.program b.frames.length m m') (hlength : m'.frames.length = b.frames.length) :
    Left W b m' := by
  obtain ⟨stored', h'⟩ | hleft := h.above hstrict habove
  · cases h' with
    | intro _ _ _ hcallers _ =>
      have := hcallers.length_le
      simp only [List.length_cons] at hlength
      omega
  · exact hleft

/-- A call from code that can be executed runs above the rest of the stack. -/
theorem Running.enters (h : Running W b m₀ stored) {i : Code.Instruction}
    (hi : m₀.fetch? W.program = some i) (hop : i.op = .call)
    (hstep : Machine.step W.program m₀ = .next m₁) (hstrict : ¬ W.strict) :
    ∃ (g : MethodImage) (f : Frame) (fs : List Frame),
      W.program.method? i.first i.second = some g ∧
      g.params.length ≤ m₀.stack.length ∧ m₁.frames = f :: fs ∧ fs.length = m₀.frames.length ∧
      Running W ⟨fs, stored, m₀.stack.drop g.params.length, g.returns⟩ m₁ ([] :: stored) := by
  cases h with
  | @intro f fs slots stored g s stack rest fields statics sink hstands htop hstack hcallers hkept =>
  obtain ⟨i', w, hexec, hnext, -, hfetch⟩ := hstands.fetch
  obtain rfl := Option.some.inj (hi.symm.trans (hfetch _ rfl))
  obtain ⟨f', fs', hframes, hexecute⟩ := step_of_fetch hi
  obtain ⟨rfl, rfl⟩ := List.cons.inj hframes
  rw [hexecute] at hstep
  cases hexec with
  | unary h =>
    cases hop
    simp [Opcode.unaryType?] at h
  | binary h =>
    cases hop
    simp [Opcode.binaryType?, Opcode.arith?, Opcode.order?] at h
  | @call c j g' ts hg hr hs =>
    obtain ⟨g₁, args, hg₁, hle, hlength, rfl⟩ := call_next hstep
    have hg : W.program.method? c j = some g' := hg
    obtain rfl : g' = g₁ := Option.some.inj (hg.symm.trans hg₁)
    have hhome (hstatic : g'.isStatic = false) : W.home = some c := by
      obtain hs | ⟨rfl, hr⟩ := hr
      · rw [hs] at hstatic
        cases hstatic
      · exact hstands.home hr
    obtain ⟨u, hu, hutop, hnil⟩ := stands_entered hg hlength (fun h => absurd h hstrict) hhome
    refine ⟨g', _, _, hg, hle, rfl, rfl, .intro hu (fun c hc => ?_) (fun hsane => ⟨[], rfl, ?_⟩) .base
      hkept⟩
    · rw [hutop] at hc
      cases hc
    · rw [hnil hsane]
      exact .nil
  | _ => cases hop

/-- A run from outside of which types are not kept track of, and heights of stacks only where they
are `sane`. -/
def untypedSetting {sane : Prop} (p : Program) (N : Notes p.image sane) (c : Nat) : Setting where
  program := p
  sane := sane
  strict := False
  notes := N
  home := some c
  sane_of_strict := False.elim
  sound := False.elim

theorem untypedSetting_kept {sane : Prop} (p : Program) (N : Notes p.image sane) (c : Nat)
    (fields : Option (Array Value)) (statics : Array Value) :
    Kept (untypedSetting p N c) fields statics := ⟨False.elim, False.elim⟩

/-- A call that is completed has replaced its arguments by its result. -/
structure Completes (p : Program) (m₀ m₁ m₂ : Machine) (i : Code.Instruction) : Prop where
  effect : ∃ takes gives result, p.image.effect? i = some (takes, gives) ∧
    takes ≤ m₀.stack.length ∧ m₂.stack = result ++ m₀.stack.drop takes ∧ result.length = gives
  /-- The frames of the callers are as they were. -/
  frames : m₂.frames = m₁.frames.drop (m₁.frames.length - m₀.frames.length)

theorem Running.completes (h : Running W b m₀ stored) (hsane : W.sane) (hstrict : ¬ W.strict)
    {i : Code.Instruction} (hi : m₀.fetch? W.program = some i)
    (hop : i.op = .call ∨ i.op = .callNative) (hstep : Machine.step W.program m₀ = .next m₁)
    (habove : Above W.program m₀.frames.length m₁ m₂)
    (hlength : m₂.frames.length = m₀.frames.length) : Completes W.program m₀ m₁ m₂ i := by
  obtain hop | hop := hop
  · obtain ⟨g, f, fs, hg, hle, hframes, hfs, hrunning⟩ := h.enters hi hop hstep hstrict
    have hleft := hrunning.comesBack hstrict (hfs ▸ habove) (hfs ▸ hlength)
    obtain ⟨result, hstack, hresult⟩ := hleft.stack hsane
    refine ⟨⟨g.params.length, if g.returns.isVoid then 0 else 1, result, ?_, hle, hstack, ?_⟩, ?_⟩
    · have hg : W.program.image.method? i.first i.second = some g := hg
      simp [Image.effect?, hop, hg]
    · rw [hresult, length_returned]
    · rw [hleft.frames, hframes, List.length_cons, hfs, Nat.add_sub_cancel_left]
      rfl
  · obtain ⟨f, fs, hframes, hexecute⟩ := step_of_fetch hi
    have hnative : execute W.program i f.ip (f.ip + i.width) (m₀.goTo (f.ip + i.width)) =
        (m₀.goTo (f.ip + i.width)).callNative W.program f.ip i.first := by
      simp only [execute, hop]
    rw [hexecute, hnative] at hstep
    obtain ⟨g, result, hg, hle, hframes', hstack, hresult⟩ := callNative_next hstep
    obtain ⟨frames, stack, fields, statics, sink⟩ := m₀
    obtain rfl : frames = f :: fs := hframes
    have hframes₁ : m₁.frames.length = (f :: fs).length := by
      rw [hframes']
      rfl
    obtain rfl := habove.eq_of_le (Nat.le_of_eq hframes₁)
    refine ⟨⟨g.params.length, if g.returns.isVoid then 0 else 1, result, ?_, hle, hstack, hresult⟩, ?_⟩
    · simp [Image.effect?, hop, hg]
    · rw [hframes₁, Nat.sub_self, List.drop_zero]

end Flow

/-! ## Compiled programs -/

/-- No run of a program finds its stack empty, and a call leaves alone what its caller has there. -/
structure Program.KeepsStacks (p : Program) : Prop where
  underflow : ∀ fuel c j args fields statics sink o,
    Machine.call p fuel c j args (.idle fields statics sink) = some o →
      ∀ offset, o.result ≠ .error (.invalidCode offset .stackUnderflow)
  calls : ∀ c j args fields statics sink start stored m₀ m₁ m₂ i,
    Machine.enter p c j args (.idle fields statics sink) = .next start →
      Machine.Reaches p start [[]] m₀ stored → m₀.fetch? p = some i →
        i.op = .call ∨ i.op = .callNative → Machine.step p m₀ = .next m₁ →
          Machine.Above p m₀.frames.length m₁ m₂ → m₂.frames.length = m₀.frames.length →
            Flow.Completes p m₀ m₁ m₂ i

theorem Flow.Notes.keepsStacks {p : Program} (N : Flow.Notes p.image True) : p.KeepsStacks where
  underflow fuel c j args fields statics sink o h offset ho := by
    cases hg : p.method? c j with
    | none =>
      unfold Machine.call at h
      simp only [Machine.enter, Machine.idle, hg] at h
      cases h
      cases ho
    | some g =>
      have hends := Flow.call_ends (W := Flow.untypedSetting p N c) hg (fun _ => rfl) False.elim
        (Flow.untypedSetting_kept p N c _ _) False.elim h
      exact (hends.fault _ ho).2 trivial rfl
  calls c j args fields statics sink start stored m₀ m₁ m₂ i henter hreach hi hop hstep habove
      hlength := by
    obtain ⟨g, hg, -, -⟩ := Machine.enter_next henter
    have hstart := Flow.running_entered (W := Flow.untypedSetting p N c) hg (fun _ => rfl) False.elim
      (Flow.untypedSetting_kept p N c _ _) henter
    have hrunning := hstart.reaches rfl False.elim hreach
    exact hrunning.completes trivial id hi hop hstep habove hlength

/-- Every method that is compiled can be given heights, none of its statements leaves anything on
the stack, and no run of the image takes what is not its own. -/
theorem Compilation.stack_discipline {name : String} {options : Options} {libraries : List Library}
    {script : Script} {m : Image} (hfunctions : DistinctFunctions libraries)
    (hkeywords : ValueKeywords libraries)
    (h : (Compilation.ofScript name options libraries script).image = some m) :
    (∀ c j f, m.method? c j = some f → ∃ k g is locals B height,
      (Layout.symbolsOf options libraries script).classes[c]? = some k ∧ k.methods[j]? = some g ∧
        Layout.LaysMethod ⟨m.constants, m.imports⟩
          ⟨Layout.symbolsOf options libraries script, options.release, c, k⟩ g is locals B ∧
        Layout.Spells f.code is ∧ Balanced m f height ∧
        ∀ e ∈ B, height e.start = 0 ∧ height e.stop = 0) ∧
      ∀ p : Program, p.image = m → p.KeepsStacks := by
  have hs := Layout.symbolsOf_sound options libraries script
  have hlaid := Layout.laid_of_compiled h
  refine ⟨fun c j f hf => ?_, fun p hp => ?_⟩
  · obtain ⟨k, g, is, l, B, hk, hg, -, hlays, locals, hlocals⟩ := Flow.annotated_of_laid hs hlaid hf
    obtain ⟨known, hknown⟩ := hlocals True fun _ => ⟨hfunctions, hkeywords⟩
    obtain ⟨hbalanced, hplaces⟩ := hknown.balanced trivial
    exact ⟨k, g, is, l, B, _, hk, hg, hlays, hknown.spells, hbalanced, hplaces⟩
  · subst hp
    obtain ⟨N, -⟩ := Flow.exists_notes hs hlaid fun _ : True => ⟨hfunctions, hkeywords⟩
    exact N.keepsStacks

/-! ## A sample

A script with two classes that uses a library function: its loop is left by `break` and goes on by
`continue`, and its last statement cannot be reached. -/

/-- `bool Ring(bool)` of a class `Bell`, which gives its argument back. -/
def bellFunction : NativeFunction :=
  ⟨"Bell", "Ring", [.bool], .bool, false, NativeFunction.staticIdentity "Bell" "Ring" [.bool], do
    let b ← Native.bool 0
    Native.give (.bool b)⟩

def bellClass : NativeClass := ⟨"Bell", none, [bellFunction], []⟩

def bells : Library :=
  .build "bells" [] [⟨"", "Bell", none, [],
    [.static "Ring" [.bool] .bool do
      let b ← Native.bool 0
      Native.give (.bool b)]⟩]

theorem bells_eq : bells = ⟨"bells", [], [bellClass],
    (∅ : Std.HashMap Identity NativeFunction).insert bellFunction.identity bellFunction⟩ := by
  simp [bells, bellClass, bellFunction, Library.build, Library.addClass, ClassSpec.fullName,
    FunctionSpec.static, FunctionSpec.build, Library.addNamespace, Library.empty, Library.spaces,
    Text.splitOn, Library.extendClass]

namespace Watch

def awake : Expr := .member (.this {}) ⟨"awake", {}⟩ {}

def seen : Expr := .ident ⟨"seen", {}⟩

def isOpen : Expr := .ident ⟨"open", {}⟩

/-- `seen = Gate.Flip(); if (quick) break; this.awake = Bell.Ring(!seen); continue;` -/
def round : List Stmt := [
  .expr (.assign .assign seen (.call (.member (.ident ⟨"Gate", {}⟩) ⟨"Flip", {}⟩ {}) [] {}) {}) {},
  .ifElse (.ident ⟨"quick", {}⟩) (.breakLoop {}) none {},
  .expr (.assign .assign awake (.call (.member (.ident ⟨"Bell", {}⟩) ⟨"Ring", {}⟩ {})
    [.unary .not seen {}] {}) {}) {},
  .continueLoop {}]

/-- `bool seen; while (this.awake) { … } return seen; this.awake = true;` -/
def watchBody : Body :=
  .block [
    .decl ⟨⟨.keyword .bool, {}⟩, [⟨⟨"seen", {}⟩, none, {}⟩], {}⟩,
    .whileLoop awake (.block round {}) {},
    .ret (some seen) {},
    .expr (.assign .assign awake (.literal (.bool true) {}) {}) {}] {}

/-- `open = !open; return open;` -/
def flipBody : Body :=
  .block [.expr (.assign .assign isOpen (.unary .not isOpen {}) {}) {}, .ret (some isOpen) {}] {}

/-- `public class Post { bool awake = true; public bool Watch(bool quick) { … } }`
`public class Gate { static bool open = true; public static bool Flip() { … } }` -/
def script : Script where
  usings := []
  items := [
    .type {
      modifiers := ⟨some .pub, false, false, {}⟩
      name := ⟨"Post", {}⟩
      members := [
        .field ⟨none, false, false, {}⟩ ⟨.keyword .bool, {}⟩
          [⟨⟨"awake", {}⟩, some (.literal (.bool true) {}), {}⟩] {},
        .method ⟨some .pub, false, false, {}⟩ ⟨.keyword .bool, {}⟩ ⟨"Watch", {}⟩
          [⟨⟨.keyword .bool, {}⟩, ⟨"quick", {}⟩, {}⟩] watchBody {}]
      span := {} },
    .type {
      modifiers := ⟨some .pub, false, false, {}⟩
      name := ⟨"Gate", {}⟩
      members := [
        .field ⟨none, true, false, {}⟩ ⟨.keyword .bool, {}⟩
          [⟨⟨"open", {}⟩, some (.literal (.bool true) {}), {}⟩] {},
        .method ⟨some .pub, true, false, {}⟩ ⟨.keyword .bool, {}⟩ ⟨"Flip", {}⟩ [] flipBody {}]
      span := {} }]
  span := {}

/-! ### What is registered -/

def awakeField : FieldSymbol :=
  ⟨"awake", .bool, .priv, false, false, 0, some (.literal (.bool true) {}), {}⟩

def openField : FieldSymbol :=
  ⟨"open", .bool, .priv, true, false, 0, some (.literal (.bool true) {}), {}⟩

def watchMethod : MethodSymbol :=
  ⟨"Watch", .method, .pub, false, [.bool], .bool,
    .declared [⟨⟨.keyword .bool, {}⟩, ⟨"quick", {}⟩, {}⟩] watchBody {}, {}⟩

def flipMethod : MethodSymbol := ⟨"Flip", .method, .pub, true, [], .bool, .declared [] flipBody {}, {}⟩

def constructor : MethodSymbol := ⟨".ctor", .constructor, .pub, false, [], .void, .implied, {}⟩

def initializer : MethodSymbol := ⟨".cctor", .typeInitializer, .priv, true, [], .void, .implied, {}⟩

def post : ClassSymbol where
  name := ⟨"Post", []⟩
  visibility := .pub
  isStatic := false
  usings := []
  decl := (script.classes.map (·.decl)).headD default
  fields := #[awakeField]
  methods := #[watchMethod, constructor]

def gate : ClassSymbol where
  name := ⟨"Gate", []⟩
  visibility := .pub
  isStatic := false
  usings := []
  decl := (script.classes.map (·.decl)).getLastD default
  fields := #[openField]
  methods := #[flipMethod, constructor, initializer]

def symbols : Symbols where
  libraries := [bells]
  namespaces := ∅
  globalUsings := []
  classes := #[post, gate]
  places := ((∅ : Std.HashMap String Nat).insert "Post" 0).insert "Gate" 1
  staticCount := 1

open Registration in
theorem ofScript_script : Registration.ofScript [bells] [] script = ⟨symbols, []⟩ := by
  have hspaces : bells.namespaces = [] := rfl
  simp [ofScript, script, symbols, post, gate, awakeField, openField, watchMethod, flipMethod,
    constructor, initializer, Script.classes, Item.classesOf, Item.classes, spacesOf, spaces, usingsOf,
    usings, Symbols.start, addClasses, classError?, classSymbol, addClass, List.range_succ, addMembers,
    members, member, method, paramTypes, paramType, Symbols.resolveType, methodFault?, field,
    declarator, fieldFault?, Members.start, Members.hasSignature, Members.addMethod, Members.addField,
    MethodSymbol.isInvocable, withImplied, impliedMethod, constructorName, initializerName,
    ValueType.isVoid, maxSlots, QualifiedName.text, hspaces]

theorem distinctFunctions : DistinctFunctions [bells] := by
  simp [DistinctFunctions, bells_eq, bellClass]

theorem valueKeywords : ValueKeywords [bells] := by
  simp [ValueKeywords, bells_eq, bellClass]

theorem symbolsOf_script : Layout.symbolsOf {} [bells] script = symbols :=
  congrArg Registration.symbols ofScript_script

theorem lookup_gate : symbols.lookupClass? post "Gate" = some (.script 1) := by
  simp [Symbols.lookupClass?, Symbols.candidates, post, Symbols.qualify, List.range_succ,
    Symbols.findClass?, symbols]

theorem lookup_bell : symbols.lookupClass? post "Bell" = some (.native bellClass) := by
  have hfind : bells.findClass? "Bell" = some bellClass := by rw [bells_eq]; rfl
  simp [Symbols.lookupClass?, Symbols.candidates, post, Symbols.qualify, List.range_succ,
    Symbols.findClass?, symbols, hfind]

/-! ### Expressions -/

section

open Compile Layout

variable {release : Bool} {locals : LocalScope} {s : CodeState}

def postSite (release : Bool) : ClassSite := ⟨symbols, release, 0, post⟩

def gateSite (release : Bool) : ClassSite := ⟨symbols, release, 1, gate⟩

def watchSite (release : Bool) : Site := methodSite (postSite release) watchMethod

def flipSite (release : Bool) : Site := methodSite (gateSite release) flipMethod

def ringImport : NativeImport := ⟨bellFunction.identity, "Bell.Ring", [.bool], .bool⟩

def ring : ImportTable where
  imports := #[ringImport]
  places := (∅ : Std.HashMap Identity Nat).insert bellFunction.identity 0

attribute [local simp] Returns.bind_iff Returns.enter_iff effect valueOf value meaning isEffect asPlace
  asValue asName asObject valueLevels objectLevels maxDepth Expr.bare placeOf isWritable AssignOp.binary?
  applyUnary unaryOp? materialize loadOp coerce Conversion.implicit? endAssign store storeOp storedType
  Pushed.unknown ValueType.isVoid Place.type memberMeaning thisMeaning thisMember arguments

theorem name_local {site : Site} {name : String} {v : LocalVar} (h : locals.find? name = some v) :
    nameMeaning site locals ⟨name, {}⟩ = pure (.localVar v.slot v.type) := by
  simp [nameMeaning, h]

theorem name_gate (h : locals.find? "Gate" = none) :
    nameMeaning (watchSite release) locals ⟨"Gate", {}⟩ = pure (.type (.script 1)) := by
  have hfield : (watchSite release).owner.field? "Gate" = none := rfl
  have hmethod : (watchSite release).owner.hasMethod "Gate" = false :=
    show post.hasMethod "Gate" = false by simp [ClassSymbol.hasMethod, post, watchMethod, constructor]
  have hclass : (watchSite release).symbols.lookupClass? (watchSite release).owner "Gate" = _ :=
    lookup_gate
  simp [nameMeaning, h, hfield, hmethod, hclass, outerMeaning]

theorem name_bell (h : locals.find? "Bell" = none) :
    nameMeaning (watchSite release) locals ⟨"Bell", {}⟩ = pure (.type (.native bellClass)) := by
  have hfield : (watchSite release).owner.field? "Bell" = none := rfl
  have hmethod : (watchSite release).owner.hasMethod "Bell" = false :=
    show post.hasMethod "Bell" = false by simp [ClassSymbol.hasMethod, post, watchMethod, constructor]
  have hclass : (watchSite release).symbols.lookupClass? (watchSite release).owner "Bell" = _ :=
    lookup_bell
  simp [nameMeaning, h, hfield, hmethod, hclass, outerMeaning]

theorem name_open (h : locals.find? "open" = none) :
    nameMeaning (flipSite release) locals ⟨"open", {}⟩ = pure (.field 1 openField) := by
  have hfield : (flipSite release).owner.field? "open" = some openField := rfl
  simp [nameMeaning, h, hfield]
  rfl

theorem member_flip :
    scriptMember (watchSite release) 1 ⟨"Flip", {}⟩ = pure (.methods (.script 1 false) "Flip") := by
  have hfield : (classAt (watchSite release) 1).field? "Flip" = none := rfl
  have hmethod : (classAt (watchSite release) 1).hasMethod "Flip" = true :=
    show gate.hasMethod "Flip" = true by
      simp [ClassSymbol.hasMethod, MethodSymbol.isInvocable, gate, flipMethod]
  simp [scriptMember, hfield, hmethod]

theorem call_flip {start : Nat} {p : Pushed} {t : CodeState} :
    Returns (call (watchSite release) start (.script 1 false) "Flip" [] {}) s p t ↔
      p = ⟨.bool, none, start⟩ ∧ t = ⟨s.emitter.emitCall 1 0, s.imports⟩ := by
  have hchoose : choose ((classAt (watchSite release) 1).methodsNamed "Flip") (·.1.params)
      (fun f => (classAt (watchSite release) 1).display f.1) "Flip" [] {} = pure (flipMethod, 0) := rfl
  simp [call, callScript, hchoose, flipMethod, checkAccess, Visibility.isOwnClassOnly, convertArguments,
    countOperand, Emitter.maxOperand, -bind_pure_comp]
  constructor <;> rintro ⟨rfl, rfl⟩ <;> exact ⟨rfl, rfl⟩

theorem import_bell {e : Emitter} {n : Nat} {t : CodeState} :
    Returns (importFunction bellFunction none {}) ⟨e, .empty⟩ n t ↔ n = 0 ∧ t = ⟨e, ring⟩ := by
  have hadd : ImportTable.empty.add bellFunction none = (some 0, ring) := by
    simp [ImportTable.add, ImportTable.empty, ring, ringImport, ImportTable.maxImports,
      ImportTable.importOf, NativeFunction.fullName, bellFunction]
  have hmodify {α : Type} (f : CodeState → α × CodeState) (s : CodeState) (a : α) (t : CodeState) :
      Returns (modifyGet f) s a t ↔ a = (f s).1 ∧ t = (f s).2 := by
    constructor
    · intro h; cases h; exact ⟨rfl, rfl⟩
    · rintro ⟨rfl, rfl⟩; rfl
  simp [importFunction, hmodify, hadd]
  constructor <;> rintro ⟨rfl, rfl⟩ <;> exact ⟨rfl, rfl⟩

theorem call_ring {stop start : Nat} {span : Span} {e : Emitter} {p : Pushed} {t : CodeState} :
    Returns (call (watchSite release) start (.function bellClass) "Ring"
        [⟨⟨.bool, none, start⟩, stop, span⟩] {}) ⟨e, .empty⟩ p t ↔
      p = ⟨.bool, none, start⟩ ∧ t = ⟨e.emitWith .callNative 0, ring⟩ := by
  have hchoose : choose (bellClass.functionsNamed "Ring") (·.params) (·.signature) "Ring"
      [⟨⟨.bool, none, start⟩, stop, span⟩] {} = pure bellFunction := rfl
  have hparams : bellFunction.params = [.bool] := rfl
  have hreturns : bellFunction.returns = .bool := rfl
  simp [call, callLibrary, hchoose, hparams, hreturns, convertArguments, convertAt, Conversion.widening?,
    Conversion.op?, import_bell, -bind_pure_comp]
  constructor <;> rintro ⟨rfl, rfl⟩ <;> exact ⟨rfl, rfl⟩

theorem field_awake : (watchSite release).owner.field? "awake" = some awakeField := rfl

theorem returns_local {site : Site} {name : String} {v : LocalVar} (h : locals.find? name = some v)
    (hbool : v.type = .bool) : Returns (valueOf site locals (.ident ⟨name, {}⟩) .bool) s
      (.unknown .bool s.emitter.offset) ⟨s.emitter.emitWith .getLocal v.slot, s.imports⟩ := by
  simp [name_local h, hbool, -bind_pure_comp]

theorem returns_awake : Returns (valueOf (watchSite release) locals awake .bool) s
    (.unknown .bool s.emitter.offset) ⟨s.emitter.emitWith .getField 0, s.imports⟩ := by
  have hthis : (watchSite release).isStatic = false := rfl
  simp [awake, hthis, field_awake, awakeField, -bind_pure_comp]

theorem returns_open (h : locals.find? "open" = none) :
    Returns (valueOf (flipSite release) locals isOpen .bool) s (.unknown .bool s.emitter.offset)
      ⟨s.emitter.emitWith .getStatic 0, s.imports⟩ := by
  simp [isOpen, name_open h, openField, -bind_pure_comp]

theorem returns_true {site : Site} :
    Returns (valueOf site locals (.literal (.bool true) {}) .bool) s
      (.known (.bool true) s.emitter.offset) ⟨s.emitter.emit .pushTrue, s.imports⟩ := by
  simp [Literal.value, push, Pushed.known, Value.type, Emitter.emitValue, -bind_pure_comp]

theorem returns_unset {site : Site} {name : Ident} :
    Returns (localValue site (some .bool) ⟨name, none, {}⟩ locals) s .bool
      ⟨s.emitter.emit .pushFalse, s.imports⟩ := by
  simp [localValue, ValueType.default, Emitter.emitValue, -bind_pure_comp]

/-- `seen = Gate.Flip()` -/
theorem returns_flip (hseen : locals.find? "seen" = some ⟨"seen", .bool, 1⟩)
    (hgate : locals.find? "Gate" = none) :
    Returns (effect (watchSite release) locals (.assign .assign seen
        (.call (.member (.ident ⟨"Gate", {}⟩) ⟨"Flip", {}⟩ {}) [] {}) {})) s ()
      ⟨(s.emitter.emitCall 1 0).emitWith .setLocal 1, s.imports⟩ := by
  simp [seen, name_local hseen, name_gate hgate, member_flip, call_flip, -bind_pure_comp]

/-- `this.awake = Bell.Ring(!seen)` -/
theorem returns_ring (himports : s.imports = .empty)
    (hseen : locals.find? "seen" = some ⟨"seen", .bool, 1⟩) (hbell : locals.find? "Bell" = none) :
    Returns (effect (watchSite release) locals (.assign .assign awake
        (.call (.member (.ident ⟨"Bell", {}⟩) ⟨"Ring", {}⟩ {}) [.unary .not seen {}] {}) {})) s ()
      ⟨(((s.emitter.emitWith .getLocal 1).emit .not).emitWith .callNative 0).emitWith .setField 0,
        ring⟩ := by
  have hthis : (watchSite release).isStatic = false := rfl
  have hring : libraryMember bellClass ⟨"Ring", {}⟩ = pure (.methods (.function bellClass) "Ring") := rfl
  simp [seen, awake, name_local hseen, name_bell hbell, hring, call_ring, hthis, field_awake, awakeField,
    himports, -bind_pure_comp]

/-- `this.awake = true` -/
theorem returns_wake : Returns (effect (watchSite release) locals
      (.assign .assign awake (.literal (.bool true) {}) {})) s ()
    ⟨(s.emitter.emit .pushTrue).emitWith .setField 0, s.imports⟩ := by
  have hthis : (watchSite release).isStatic = false := rfl
  simp [awake, hthis, field_awake, awakeField, Literal.value, push, Pushed.known, Value.type,
    Emitter.emitValue, -bind_pure_comp]

/-- `open = !open` -/
theorem returns_turn (h : locals.find? "open" = none) :
    Returns (effect (flipSite release) locals (.assign .assign isOpen (.unary .not isOpen {}) {})) s ()
      ⟨((s.emitter.emitWith .getStatic 0).emit .not).emitWith .setStatic 0, s.imports⟩ := by
  simp [isOpen, name_open h, openField, -bind_pure_comp]

end

/-! ### Methods -/

section

open Compile Layout

variable {release : Bool} {e : Emitter} {imports : ImportTable} {reports : List Diagnostic}
  {blocks : List (List String)}

def scope : Std.HashMap String LocalVar :=
  ((∅ : Std.HashMap String LocalVar).insert "quick" ⟨"quick", .bool, 0⟩).insert "seen" ⟨"seen", .bool, 1⟩

theorem find_seen : (LocalScope.mk scope blocks 2).find? "seen" = some ⟨"seen", .bool, 1⟩ := by
  simp [LocalScope.find?, scope]

theorem find_quick : (LocalScope.mk scope blocks 2).find? "quick" = some ⟨"quick", .bool, 0⟩ := by
  rw [LocalScope.find?, scope, Std.HashMap.getElem?_insert, if_neg (by simp),
    Std.HashMap.getElem?_insert_self]

theorem find_none {name : String} (hquick : "quick" ≠ name) (hseen : "seen" ≠ name) :
    (LocalScope.mk scope blocks 2).find? name = none := by
  simp [LocalScope.find?, scope, hquick, hseen]

theorem runs_params : Runs (declareParams [⟨⟨.keyword .bool, {}⟩, ⟨"quick", {}⟩, {}⟩] [.bool])
    ⟨⟨e, imports⟩, .start, reports⟩ () ⟨⟨e, imports⟩, (LocalScope.start.add "quick" .bool).2, reports⟩ := by
  have hconflict : LocalScope.start.conflict? "quick" {} = none := by
    simp [LocalScope.conflict?, LocalScope.start, LocalScope.maxSlots]
  unfold Runs
  simp [declareParams, hconflict]
  rfl

/-- `bool seen;` -/
theorem runs_seen : Runs (statement (watchSite release) true
      (.decl ⟨⟨.keyword .bool, {}⟩, [⟨⟨"seen", {}⟩, none, {}⟩], {}⟩))
    ⟨⟨e, imports⟩, (LocalScope.start.add "quick" .bool).2.open_, reports⟩ true
    ⟨⟨(e.emit .pushFalse).emitWith .setLocal 1, imports⟩, ⟨scope, [["seen"], ["quick"]], 2⟩,
      reports⟩ := by
  have hconflict : (LocalScope.start.add "quick" .bool).2.open_.conflict? "seen" {} = none := by
    simp [LocalScope.conflict?, LocalScope.start, LocalScope.add, LocalScope.open_, LocalScope.maxSlots]
  have hdeclare : Runs (declareLocal ⟨"seen", {}⟩ .bool)
      ⟨⟨e.emit .pushFalse, imports⟩, (LocalScope.start.add "quick" .bool).2.open_, reports⟩ ()
      ⟨⟨(e.emit .pushFalse).emitWith .setLocal 1, imports⟩, ⟨scope, [["seen"], ["quick"]], 2⟩,
        reports⟩ := by
    unfold Runs
    simp [declareLocal, hconflict]
    rfl
  rw [statement]
  exact .andThen (.andThen (Runs.attempted returns_unset) (.andThen hdeclare rfl)) rfl

def watchCode : Code :=
  #[2, 6, 0, 1, 7, 0, 0, 51, 0, 33, 54, 0, 1, 0, 0, 6, 0, 1, 5, 0, 0, 51, 0, 3, 50, 0, 16, 5, 0, 1, 49,
    55, 0, 0, 8, 0, 0, 53, 0, 36, 53, 0, 39, 5, 0, 1, 56]

/-- The code of `Watch`; only a release leaves the last statement out. -/
def watchCodeOf (release : Bool) : Code :=
  if release then watchCode else watchCode ++ #[1, 8, 0, 0]

theorem runs_watch (release : Bool) : ∃ e locals, Runs (methodCode (watchSite release) watchMethod #[])
      (beginMethod .start) () ⟨⟨e, ring⟩, locals, [unreachableCode {}]⟩ ∧
    e.code = watchCodeOf release ∧ e.oversized = false ∧ e.pool = .empty ∧ locals.frameSize = 2 := by
  refine ⟨_, _, .andThen runs_params (.andThen rfl (.andThen (.block (.next runs_seen (.next
    (.whileLoop returns_awake (.block (.next
      (.expr (returns_flip find_seen (find_none (by decide) (by decide)))) (.next
      (.ifThen (returns_local find_quick rfl) (.breakLoop ?_)) (.next
      (.expr (returns_ring rfl find_seen (find_none (by decide) (by decide)))) (.next
      (.continueLoop ?_) .done))))))
    (.next (.ret rfl (returns_local find_seen rfl)) (.deadEnd rfl (.expr returns_wake)))))) rfl)),
    ?_, ?_, ?_, rfl⟩
  · rfl
  · rfl
  · cases release <;> rfl
  · cases release <;> rfl
  · cases release <;> rfl

theorem runs_flip (release : Bool) (imports : ImportTable) (reports : List Diagnostic) :
    ∃ e locals, Runs (methodCode (flipSite release) flipMethod #[])
      ⟨⟨.start .empty, imports⟩, .start, reports⟩ () ⟨⟨e, imports⟩, locals, reports⟩ ∧
    e.code = #[9, 0, 0, 49, 10, 0, 0, 9, 0, 0, 56] ∧ e.oversized = false ∧ e.pool = .empty ∧
    locals.frameSize = 0 := by
  have hopen : LocalScope.start.open_.find? "open" = none := by
    simp [LocalScope.find?, LocalScope.start, LocalScope.open_]
  refine ⟨_, _, .andThen rfl (.andThen rfl (.andThen (.block (.next (.expr (returns_turn hopen)) (.next
    (.ret rfl (returns_open hopen)) .done))) rfl)), rfl, rfl, rfl, rfl⟩

/-! ### The image -/

theorem initializerCode_true {c : ClassSite} {isStatic : Bool} {f : FieldSymbol} {m : ModuleState}
    (hfields : c.owner.fields.toList.filter (·.isStatic == isStatic) = [f]) (htype : f.type = .bool)
    (hvalue : f.value = some (.literal (.bool true) {})) (hslot : f.slot = 0) (hpool : m.pool = .empty) :
    initializerCode c isStatic m = (if isStatic then #[1, 10, 0, 0] else #[1, 8, 0, 0], m) := by
  obtain ⟨pool, imports, reports⟩ := m
  change pool = .empty at hpool
  subst hpool
  have hruns (store : Opcode) : Runs (initializers (initializerSite c isStatic) store [f])
      ⟨⟨.start .empty, imports⟩, .start, reports⟩ ()
      ⟨⟨(Emitter.emit (.start .empty) .pushTrue).emitWith store 0, imports⟩, .start, reports⟩ := by
    rw [initializers, hvalue, htype, hslot]
    exact .andThen (Runs.attempted returns_true) (.andThen rfl rfl)
  have hcode : ((Emitter.emit (.start .empty) .pushTrue).emitWith
      (if isStatic then .setStatic else .setField) 0).code =
        if isStatic then #[1, 10, 0, 0] else #[1, 8, 0, 0] := by
    cases isStatic <;> rfl
  simp only [initializerCode, hfields]
  rw [Runs.writeMethod (hruns _) rfl]
  exact congrArg (·, _) hcode

def postImage (release : Bool) : ClassImage where
  name := "Post"
  visibility := .pub
  fields := #[⟨"awake", .bool, .priv, false, false, 0⟩]
  methods := #[
    ⟨"Watch", .method, .pub, false, [.bool], .bool, 2, watchCodeOf release⟩,
    ⟨".ctor", .constructor, .pub, false, [], .void, 0, #[1, 8, 0, 0, 57]⟩]

def gateImage : ClassImage where
  name := "Gate"
  visibility := .pub
  fields := #[⟨"open", .bool, .priv, true, false, 0⟩]
  methods := #[
    ⟨"Flip", .method, .pub, true, [], .bool, 0, #[9, 0, 0, 49, 10, 0, 0, 9, 0, 0, 56]⟩,
    ⟨".ctor", .constructor, .pub, false, [], .void, 0, #[57]⟩,
    ⟨".cctor", .typeInitializer, .priv, true, [], .void, 0, #[1, 10, 0, 0, 57]⟩]

theorem classImage_post : classImage (postSite release) .start =
    (postImage release, ⟨.empty, ring, [unreachableCode {}]⟩) := by
  have hinstance : initializerCode (postSite release) false .start = (#[1, 8, 0, 0], .start) :=
    initializerCode_true rfl rfl rfl rfl rfl
  have hstatic : initializerCode (postSite release) true .start = (#[], .start) := rfl
  have hmethods : (postSite release).owner.methods.toList = [watchMethod, constructor] := rfl
  have hname : (postSite release).owner.name.text = "Post" := rfl
  have hfields : (postSite release).owner.fields.map fieldImage = (postImage release).fields :=
    show post.fields.map fieldImage = #[⟨"awake", .bool, .priv, false, false, 0⟩] by
      simp [post, fieldImage, awakeField]
  obtain ⟨e, locals, hruns, hcode, hfits, hpool, hsize⟩ := runs_watch release
  have hwatch : method (postSite release) #[1, 8, 0, 0] #[] watchMethod .start =
      (⟨"Watch", .method, .pub, false, [.bool], .bool, 2, watchCodeOf release⟩,
        ⟨.empty, ring, [unreachableCode {}]⟩) := by
    rw [Runs.method rfl hruns hfits, hcode, hpool, hsize]
    rfl
  have hconstructor (m : ModuleState) : method (postSite release) #[1, 8, 0, 0] #[] constructor m =
      (⟨".ctor", .constructor, .pub, false, [], .void, 0, #[1, 8, 0, 0, 57]⟩, m) := rfl
  simp only [classImage, hinstance, hstatic, hmethods, inOrder, hwatch, hconstructor, hname, hfields]
  rfl

theorem classImage_gate {m : ModuleState} (hpool : m.pool = .empty) :
    classImage (gateSite release) m = (gateImage, m) := by
  obtain ⟨pool, imports, reports⟩ := m
  change pool = .empty at hpool
  subst hpool
  have hinstance : initializerCode (gateSite release) false ⟨.empty, imports, reports⟩ =
      (#[], ⟨.empty, imports, reports⟩) := rfl
  have hstatic : initializerCode (gateSite release) true ⟨.empty, imports, reports⟩ =
      (#[1, 10, 0, 0], ⟨.empty, imports, reports⟩) := initializerCode_true rfl rfl rfl rfl rfl
  have hmethods : (gateSite release).owner.methods.toList = [flipMethod, constructor, initializer] := rfl
  have hname : (gateSite release).owner.name.text = "Gate" := rfl
  have hfields : (gateSite release).owner.fields.map fieldImage = gateImage.fields :=
    show gate.fields.map fieldImage = #[⟨"open", .bool, .priv, true, false, 0⟩] by
      simp [gate, fieldImage, openField]
  obtain ⟨e, locals, hruns, hcode, hfits, hempty, hsize⟩ := runs_flip release imports reports
  have hflip : method (gateSite release) #[] #[1, 10, 0, 0] flipMethod ⟨.empty, imports, reports⟩ =
      (⟨"Flip", .method, .pub, true, [], .bool, 0, #[9, 0, 0, 49, 10, 0, 0, 9, 0, 0, 56]⟩,
        ⟨.empty, imports, reports⟩) := by
    rw [Runs.method (m := ⟨.empty, imports, reports⟩) rfl hruns hfits, hcode, hempty, hsize]
    rfl
  have hconstructor (m : ModuleState) : method (gateSite release) #[] #[1, 10, 0, 0] constructor m =
      (⟨".ctor", .constructor, .pub, false, [], .void, 0, #[57]⟩, m) := rfl
  have hinitializer (m : ModuleState) : method (gateSite release) #[] #[1, 10, 0, 0] initializer m =
      (⟨".cctor", .typeInitializer, .priv, true, [], .void, 0, #[1, 10, 0, 0, 57]⟩, m) := rfl
  simp only [classImage, hinstance, hstatic, hmethods, inOrder, hflip, hconstructor, hinitializer, hname,
    hfields]
  rfl

def image (release : Bool) : Image where
  name := "m"
  checked := true
  release := release
  references := ["bells"]
  constants := #[]
  imports := ring.imports
  classes := #[postImage release, gateImage]

/-- The sample is compiled, with a warning about its last statement. -/
theorem ofScript_eq : Compilation.ofScript "m" { release := release } [bells] script =
    ⟨some (image release), [unreachableCode {}]⟩ := by
  have hall : inOrder classImage
      (symbols.classes.toList.zipIdx.map fun x => ⟨symbols, release, x.2, x.1⟩) .start =
        ([postImage release, gateImage], ⟨.empty, ring, [unreachableCode {}]⟩) := by
    change inOrder classImage [postSite release, gateSite release] .start = _
    simp only [inOrder, classImage_post, classImage_gate]
  simp only [Compilation.ofScript, ofScript_script]
  rw [hall]
  rfl

theorem compiled (release : Bool) :
    (Compilation.ofScript "m" { release := release } [bells] script).image = some (image release) :=
  congrArg Compilation.image ofScript_eq

end

end Watch

/-- The method of the sample goes round its loop, and comes to each statement with an empty stack. -/
theorem Compilation.stack_discipline_watch : DistinctFunctions [bells] ∧ ValueKeywords [bells] ∧
    (Compilation.ofScript "m" {} [bells] Watch.script).image = some (Watch.image true) ∧
    (∃ f height, (Watch.image true).method? 0 0 = some f ∧ Balanced (Watch.image true) f height) ∧
    ∀ p : Program, p.image = Watch.image true → p.KeepsStacks := by
  have h := @Compilation.stack_discipline "m" {} [bells] Watch.script (Watch.image true)
    Watch.distinctFunctions Watch.valueKeywords (Watch.compiled true)
  refine ⟨Watch.distinctFunctions, Watch.valueKeywords, Watch.compiled true, ?_, h.2⟩
  obtain ⟨_, _, _, _, _, height, _, _, _, _, hbalanced, _⟩ := h.1 0 0 _ rfl
  exact ⟨_, height, rfl, hbalanced⟩

end ClassScript
