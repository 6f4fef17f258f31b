import ClassScript.Proofs.Execution.Protection
import ClassScript.Proofs.Execution.Twins
import ClassScript.Proofs.Reorder.Relayout

/-!
Machines that run two modules in which the same things have different places.

All that tells two such machines apart are the places of their methods: they stand at the same offsets,
with the same values everywhere. An instruction and what it is relocated to name the same things, so a
step of the one is a step of the other, and both runs end with the same result or the same fault.
-/

namespace ClassScript

open Code (Instruction)
open Machine

/-- Two programs in which what a relocation relates is the same. -/
structure Program.Relocates (ρ : Relocation) (p p' : Program) : Prop where
  source : ρ.source = ⟨p.image.constants, p.image.imports⟩
  target : ρ.target = ⟨p'.image.constants, p'.image.imports⟩
  checked : p.image.checked = p'.image.checked
  verified : p.Verified
  methods : ∀ c i j, ρ.methods c i j → ∃ g g', p.method? c i = some g ∧ p'.method? c j = some g' ∧
    g.Relocates ρ g'
  natives : ∀ (i j : Nat) (a b : NativeImport), p.image.imports[i]? = some a →
    p'.image.imports[j]? = some b → a.identity = b.identity →
    a.name = b.name ∧ a.params.length = b.params.length ∧ a.returns = b.returns ∧
      p.natives[i]? = p'.natives[j]?

/-- Two frames of the same method, between the same instructions. -/
structure Frame.Relocates (ρ : Relocation) (p : Program) (f f' : Frame) : Prop where
  cls : f.cls = f'.cls
  ip : f.ip = f'.ip
  locals : f.locals = f'.locals
  method : ρ.methods f.cls f.method f'.method
  boundary : ∃ g, p.method? f.cls f.method = some g ∧ g.code.IsBoundary f.ip

inductive Machine.Relocates (ρ : Relocation) (p : Program) : Machine → Machine → Prop
  | intro {fs fs' : List Frame} {stack : List Value} {fields : Option (Array Value)}
      {statics : Array Value} {sink : Sink} (h : List.Forall₂ (Frame.Relocates ρ p) fs fs') :
      Machine.Relocates ρ p ⟨fs, stack, fields, statics, sink⟩ ⟨fs', stack, fields, statics, sink⟩

inductive Step.Relocates (ρ : Relocation) (p : Program) : Step → Step → Prop
  | next {m m' : Machine} (h : m.Relocates ρ p m') : Step.Relocates ρ p (.next m) (.next m')
  | done {v : Value} {m m' : Machine} (h : m.heap = m'.heap) :
      Step.Relocates ρ p (.done v m) (.done v m')
  | fault {e : Fault} {m m' : Machine} (h : m.heap = m'.heap) :
      Step.Relocates ρ p (.fault e m) (.fault e m')

/-- The innermost method can go on at an offset. -/
def Machine.Lands (p : Program) (m : Machine) (o : Nat) : Prop :=
  ∀ f fs, m.frames = f :: fs → ∃ g, p.method? f.cls f.method = some g ∧ g.code.IsBoundary o

namespace MethodImage.Relocates

variable {ρ : Relocation} {g g' : MethodImage}

theorem params (h : g.Relocates ρ g') : g.params = g'.params := by
  have hparams := congrArg MethodImage.params h.outline
  exact hparams

theorem locals (h : g.Relocates ρ g') : g.locals = g'.locals := by
  have hlocals := congrArg MethodImage.locals h.outline
  exact hlocals

theorem signature (h : g.Relocates ρ g') : g.signature = g'.signature := by
  have hsignature := congrArg MethodImage.signature h.outline
  exact hsignature

/-- Code begins between two instructions. -/
theorem boundary_zero (h : g.Relocates ρ g') : g.code.IsBoundary 0 := by
  obtain ⟨is, -, hspells, -⟩ := h.code
  exact ⟨[], is, hspells, rfl⟩

theorem size (h : g.Relocates ρ g') : g.code.size = g'.code.size := by
  obtain ⟨is, js, his, hjs, hmaps⟩ := h.code
  rw [← Array.length_toList, ← Array.length_toList, his.1, hjs.1, Asm.length_bytes, Asm.length_bytes,
    hmaps.size]

end MethodImage.Relocates

/-! ## Parts of instructions -/

namespace Machine.Relocates

variable {ρ : Relocation} {p p' : Program} {m m' : Machine} {offset : Nat}

theorem heap (h : m.Relocates ρ p m') : m.heap = m'.heap := by
  cases h
  rfl

theorem refuse (h : m.Relocates ρ p m') (o : Nat) (d : CodeDefect) :
    Step.Relocates ρ p (m.refuse o d) (m'.refuse o d) := .fault h.heap

theorem push (h : m.Relocates ρ p m') (v : Value) : (m.push v).Relocates ρ p (m'.push v) := by
  cases h with
  | intro h => exact .intro h

theorem pushSlot (h : m.Relocates ρ p m') (v : Option Value) (missing : CodeDefect) :
    Step.Relocates ρ p (m.pushSlot offset v missing) (m'.pushSlot offset v missing) := by
  cases v with
  | none => exact h.refuse _ _
  | some v => exact .next (h.push v)

theorem pushResult (h : m.Relocates ρ p m') (r : Except EvalError Value) :
    Step.Relocates ρ p (m.pushResult offset r) (m'.pushResult offset r) := by
  cases r with
  | error e => exact .fault h.heap
  | ok v => exact .next (h.push v)

theorem pop (h : m.Relocates ρ p m') {k k' : Value → Machine → Step}
    (hk : ∀ v n n', n.Relocates ρ p n' → n.frames = m.frames → Step.Relocates ρ p (k v n) (k' v n')) :
    Step.Relocates ρ p (m.pop offset k) (m'.pop offset k') := by
  cases h with
  | @intro fs fs' stack fields statics sink hfs =>
    cases stack with
    | nil => exact .fault rfl
    | cons v stack => exact hk v _ _ (.intro hfs) rfl

theorem popArgs (h : m.Relocates ρ p m') (count : Nat) {k k' : List Value → Machine → Step}
    (hk : ∀ args n n', n.Relocates ρ p n' → Step.Relocates ρ p (k args n) (k' args n')) :
    Step.Relocates ρ p (m.popArgs count offset k) (m'.popArgs count offset k') := by
  cases h with
  | @intro fs fs' stack fields statics sink hfs =>
    simp only [Machine.popArgs]
    cases takeArgs count [] stack with
    | none => exact .fault rfl
    | some taken => exact hk taken.1 _ _ (.intro hfs)

theorem local?_eq (h : m.Relocates ρ p m') (slot : Nat) : m.local? slot = m'.local? slot := by
  cases h with
  | intro h =>
    cases h with
    | nil => rfl
    | cons hf _ => simp only [Machine.local?, hf.locals]

theorem field?_eq (h : m.Relocates ρ p m') (slot : Nat) : m.field? slot = m'.field? slot := by
  cases h
  rfl

theorem setLocal (h : m.Relocates ρ p m') (slot : Nat) (v : Value) :
    Step.Relocates ρ p (m.setLocal offset slot v) (m'.setLocal offset slot v) := by
  cases h with
  | intro h =>
    cases h with
    | nil => exact .fault rfl
    | @cons f f' fs fs' hf hfs =>
      obtain ⟨cls, method, ip, locals⟩ := f
      obtain ⟨cls', method', ip', locals'⟩ := f'
      obtain ⟨hcls, hip, hlocals, hmethod, hboundary⟩ := hf
      obtain rfl : locals = locals' := hlocals
      simp only [Machine.setLocal]
      split
      · exact .next (.intro (.cons ⟨hcls, hip, rfl, hmethod, hboundary⟩ hfs))
      · exact .fault rfl

theorem setField (h : m.Relocates ρ p m') (slot : Nat) (v : Value) :
    Step.Relocates ρ p (m.setField offset slot v) (m'.setField offset slot v) := by
  cases h with
  | @intro fs fs' stack fields statics sink hfs =>
    cases fields with
    | none => exact .fault rfl
    | some fields =>
      simp only [Machine.setField]
      split
      · exact .next (.intro hfs)
      · exact .fault rfl

theorem setStatic (h : m.Relocates ρ p m') (slot : Nat) (v : Value) :
    Step.Relocates ρ p (m.setStatic offset slot v) (m'.setStatic offset slot v) := by
  cases h with
  | intro hfs =>
    simp only [Machine.setStatic]
    split
    · exact .next (.intro hfs)
    · exact .fault rfl

theorem goTo (h : m.Relocates ρ p m') {ip : Nat} (hip : m.Lands p ip) :
    (m.goTo ip).Relocates ρ p (m'.goTo ip) := by
  cases h with
  | intro h =>
    cases h with
    | nil => exact .intro .nil
    | @cons f f' fs fs' hf hfs =>
      exact .intro (.cons ⟨hf.cls, rfl, hf.locals, hf.method, hip f fs rfl⟩ hfs)

theorem branch (h : m.Relocates ρ p m') {target : Nat} (htarget : m.Lands p target) (op : Opcode)
    (wanted : Bool) :
    Step.Relocates ρ p (m.branch offset target op wanted) (m'.branch offset target op wanted) := by
  refine h.pop fun v n n' hn hframes => ?_
  have hlands : n.Lands p target := fun f fs hf => htarget f fs (hframes ▸ hf)
  cases v with
  | bool b =>
    dsimp only
    split
    · exact .next (hn.goTo hlands)
    · exact .next hn
  | _ => exact hn.refuse _ _

/-- Returning to a caller, or from the outermost method. -/
theorem leave (h : m.Relocates ρ p m') (result : Option Value) :
    Step.Relocates ρ p (m.leave result) (m'.leave result) := by
  cases h with
  | intro h =>
    cases h with
    | nil => exact .done rfl
    | cons _ hfs =>
      cases hfs with
      | nil => exact .done rfl
      | cons hf hfs => exact .next (.intro (.cons hf hfs))

section

variable (hp : p.Relocates ρ p')

include hp

/-- Beginning the same method. -/
theorem enter (h : m.Relocates ρ p m') {c i j : Nat} (hij : ρ.methods c i j) (args : List Value) :
    Step.Relocates ρ p (Machine.enter p c i args m) (Machine.enter p' c j args m') := by
  obtain ⟨g, g', hg, hg', hsame⟩ := hp.methods c i j hij
  unfold Machine.enter
  cases h with
  | intro hfs =>
    rw [hg, hg']
    dsimp only
    rw [hfs.length_eq, hsame.params, hsame.signature, hsame.locals]
    split
    · exact .fault rfl
    · split
      · exact .fault rfl
      · exact .next (.intro (.cons ⟨rfl, rfl, rfl, hij, g, hg, hsame.boundary_zero⟩ hfs))

theorem call (h : m.Relocates ρ p m') {c i j : Nat} (hij : ρ.methods c i j) (after : Nat) :
    Step.Relocates ρ p (Machine.execute p ⟨.call, c, i⟩ offset after m)
      (Machine.execute p' ⟨.call, c, j⟩ offset after m') := by
  obtain ⟨g, g', hg, hg', hsame⟩ := hp.methods c i j hij
  simp only [Machine.execute, hg, hg']
  rw [hsame.params]
  exact h.popArgs _ fun args n n' hn => hn.enter hp hij args

theorem callNative (h : m.Relocates ρ p m') {i j : Nat} {a b : NativeImport}
    (ha : p.image.imports[i]? = some a) (hb : p'.image.imports[j]? = some b)
    (hab : a.identity = b.identity) :
    Step.Relocates ρ p (m.callNative p offset i) (m'.callNative p' offset j) := by
  obtain ⟨hname, hparams, hreturns, hbody⟩ := hp.natives i j a b ha hb hab
  have hbound : i < p.natives.size := by
    rw [hp.verified.natives]
    exact (Array.getElem?_eq_some_iff.mp ha).1
  unfold Machine.callNative
  rw [ha, hb, ← hbody, Array.getElem?_eq_getElem hbound]
  dsimp only
  rw [← hname, ← hparams, ← hreturns]
  refine h.popArgs _ fun args n n' hn => ?_
  cases hn with
  | @intro fs fs' stack fields statics sink hfs =>
    dsimp only
    cases (p.natives[i]).run args.toArray sink with
    | mk result sink =>
      cases result with
      | error e => exact .fault rfl
      | ok v => exact .next (.intro hfs)

/-- An instruction that computes a value from one operand or two. -/
theorem value (h : m.Relocates ρ p m') (op : Opcode) :
    Step.Relocates ρ p
      (if op.isUnary then
        m.pop offset fun v m => m.pushResult offset (op.evalUnary p.image.checked v)
      else
        m.pop offset fun right m => m.pop offset fun left m =>
          m.pushResult offset (op.evalBinary p.image.checked left right))
      (if op.isUnary then
        m'.pop offset fun v m => m.pushResult offset (op.evalUnary p'.image.checked v)
      else
        m'.pop offset fun right m => m.pop offset fun left m =>
          m.pushResult offset (op.evalBinary p'.image.checked left right)) := by
  rw [hp.checked]
  split
  · exact h.pop fun v n n' hn _ => hn.pushResult _
  · exact h.pop fun right n n' hn _ => hn.pop fun left q q' hq _ => hq.pushResult _

/-- An instruction that names nothing which could have another place. -/
theorem straight (h : m.Relocates ρ p m') {i : Instruction} (hi : i.op.refers = false) {after : Nat}
    (hjump : ∀ r, Verify.target? i after = some r → ∃ t, r = some t ∧ m.Lands p t) :
    Step.Relocates ρ p (Machine.execute p i offset after m) (Machine.execute p' i offset after m') := by
  obtain ⟨op, a, b⟩ := i
  have lands (hop : op = .jump ∨ op = .jumpIfFalse ∨ op = .jumpIfTrue) : m.Lands p (after + a) := by
    obtain ⟨t, ht, hlands⟩ := hjump (some (after + a)) (by obtain rfl | rfl | rfl := hop <;> rfl)
    cases ht
    exact hlands
  cases op with
  | constant | call | callNative => cases hi
  | pushTrue => exact .next (h.push _)
  | pushFalse => exact .next (h.push _)
  | pop => exact h.pop fun _ _ _ hn _ => .next hn
  | dup =>
    simp only [Machine.execute]
    rw [show m'.stack = m.stack by cases h; rfl]
    exact h.pushSlot _ _
  | getLocal =>
    simp only [Machine.execute]
    rw [h.local?_eq]
    exact h.pushSlot _ _
  | setLocal => exact h.pop fun v _ _ hn _ => hn.setLocal a v
  | getField =>
    simp only [Machine.execute]
    rw [h.field?_eq]
    exact h.pushSlot _ _
  | setField => exact h.pop fun v _ _ hn _ => hn.setField a v
  | getStatic =>
    simp only [Machine.execute]
    rw [show m'.statics = m.statics by cases h; rfl]
    exact h.pushSlot _ _
  | setStatic => exact h.pop fun v _ _ hn _ => hn.setStatic a v
  | jump => exact .next (h.goTo (lands (.inl rfl)))
  | jumpIfFalse => exact h.branch (lands (.inr (.inl rfl))) _ _
  | jumpIfTrue => exact h.branch (lands (.inr (.inr rfl))) _ _
  | loop =>
    obtain ⟨t, ht, hlands⟩ := hjump _ rfl
    simp only [Machine.execute]
    split
    · next hle =>
      rw [if_pos hle] at ht
      cases ht
      exact .next (h.goTo hlands)
    · exact h.refuse _ _
  | ret => exact h.pop fun v _ _ hn _ => hn.leave (some v)
  | retVoid => exact h.leave none
  | _ =>
    simp only [Machine.execute]
    exact h.value hp _

/-- An instruction and what it is relocated to do the same. -/
theorem execute (h : m.Relocates ρ p m') {i j : Instruction} (hij : ρ.Maps i j) {after : Nat}
    (hjump : ∀ r, Verify.target? i after = some r → ∃ t, r = some t ∧ m.Lands p t) :
    Step.Relocates ρ p (Machine.execute p i offset after m) (Machine.execute p' j offset after m') := by
  cases hij with
  | same hi => exact h.straight hp hi hjump
  | constant hi hj =>
    rw [hp.source] at hi
    rw [hp.target] at hj
    simp only [Machine.execute, Instruction.unary]
    rw [show p.image.constants[_]? = _ from hi, show p'.image.constants[_]? = _ from hj]
    exact h.pushSlot _ _
  | function hi hj hab =>
    rw [hp.source] at hi
    rw [hp.target] at hj
    exact h.callNative hp hi hj hab
  | method hij => exact h.call hp hij after

end

end Machine.Relocates

/-! ## Runs -/

section

variable {ρ : Relocation} {p p' : Program} (hp : p.Relocates ρ p') {m m' : Machine}

include hp

/-- Machines in the same methods do the same, and are in the same methods again. -/
theorem step_relocates (h : m.Relocates ρ p m') : Step.Relocates ρ p (step p m) (step p' m') := by
  obtain @⟨fs, fs', stack, fields, statics, sink, hfs⟩ := h
  cases hfs with
  | nil => exact .fault rfl
  | @cons f f' fs fs' hf hfs =>
    obtain ⟨g, hg, front, back, hspells, hip⟩ := hf.boundary
    obtain ⟨k, g', hk, hg', hsame⟩ := hp.methods _ _ _ hf.method
    obtain rfl : g = k := Option.some.inj (hg.symm.trans hk)
    rw [hf.cls] at hg'
    obtain ⟨is, js, his, hjs, hmaps⟩ := hsame.code
    obtain rfl := hspells.unique his
    obtain ⟨front', back', rfl, hfront, hback⟩ := hmaps.split
    have hip' : f'.ip = front'.size := hf.ip ▸ hip.trans hfront.size
    cases hback with
    | nil =>
      have hend {code : Code} {is : Asm} (h : Layout.Spells code (is ++ [])) : code[is.size]? = none := by
        refine Array.getElem?_eq_none (Nat.le_of_eq ?_)
        rw [← Array.length_toList, h.1, List.append_nil, Asm.length_bytes]
      unfold step
      dsimp only
      rw [hg, hg']
      dsimp only
      rw [hip, hip', hend hspells, hend hjs, hfront.size]
      exact .fault rfl
    | @cons i j back back' hij hback =>
      have hi : Machine.fetch? p ⟨f :: fs, stack, fields, statics, sink⟩ = some i :=
        fetch_of_spells rfl hg hspells hip
      have hj : Machine.fetch? p' ⟨f' :: fs', stack, fields, statics, sink⟩ = some j :=
        fetch_of_spells rfl hg' hjs hip'
      obtain ⟨_, _, hframes, hstep⟩ := step_of_fetch hi
      obtain ⟨rfl, rfl⟩ := List.cons.inj hframes
      obtain ⟨_, _, hframes', hstep'⟩ := step_of_fetch hj
      obtain ⟨rfl, rfl⟩ := List.cons.inj hframes'
      obtain ⟨k, hk, hsound⟩ := sound_of_method? hp.verified hg
      obtain ⟨-, is, his, hwell⟩ := hsound
      obtain rfl := hspells.unique his
      -- the next instruction, and those that jumps lead to, stand between others
      have hnext : g.code.IsBoundary (f.ip + i.width) :=
        ⟨front ++ [i], back, by simpa using hspells, by simp [hip]⟩
      have hm : Machine.Relocates ρ p ⟨f :: fs, stack, fields, statics, sink⟩
          ⟨f' :: fs', stack, fields, statics, sink⟩ := .intro (.cons hf hfs)
      have hlands : Machine.Lands p ⟨f :: fs, stack, fields, statics, sink⟩ (f.ip + i.width) := by
        intro e es hes
        obtain ⟨rfl, rfl⟩ := List.cons.inj hes
        exact ⟨g, hg, hnext⟩
      rw [hstep, hstep', ← hf.ip, ← hij.width]
      refine (hm.goTo hlands).execute hp hij fun r hr => ?_
      rw [hip] at hr
      obtain ⟨front₁, back₁, heq, rfl⟩ := hwell.jumps front i back r rfl hr
      refine ⟨_, rfl, fun e es hes => ?_⟩
      obtain ⟨rfl, rfl⟩ := List.cons.inj ((goTo_frames rfl).symm.trans hes)
      exact ⟨g, hg, front₁, back₁, heq ▸ hspells, rfl⟩

/-- Machines in the same methods run alike. -/
theorem run_relocates (h : m.Relocates ρ p m') (n : Nat) :
    (run p n m).map (Outcome.told id) = (run p' n m').map (Outcome.told id) := by
  induction n generalizing m m' with
  | zero => rfl
  | succ n ih =>
    have hstep := step_relocates hp h
    simp only [run]
    generalize step p m = x at hstep ⊢
    generalize step p' m' = y at hstep ⊢
    cases hstep with
    | next h => exact ih h
    | done h | fault h => exact congrArg some (Prod.ext rfl h)

/-- The same method runs alike in both programs. -/
theorem call_relocates {c i j : Nat} (hij : ρ.methods c i j) (n : Nat) (args : List Value) (s : Heap) :
    (call p n c i args (.idle s.fields s.statics s.sink)).map (Outcome.told id) =
      (call p' n c j args (.idle s.fields s.statics s.sink)).map (Outcome.told id) := by
  have hidle : (Machine.idle s.fields s.statics s.sink).Relocates ρ p
      (.idle s.fields s.statics s.sink) := .intro .nil
  have henter := hidle.enter hp hij args
  unfold call
  generalize enter p c i args _ = x at henter ⊢
  generalize enter p' c j args _ = y at henter ⊢
  cases henter with
  | next h => exact run_relocates hp h n
  | done h | fault h => exact congrArg some (Prod.ext rfl h)

end
end ClassScript
