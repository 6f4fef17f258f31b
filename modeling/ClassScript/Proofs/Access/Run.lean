import ClassScript.Proofs.Access.Module
import ClassScript.Proofs.Simulation.Run

/-!
What runs reach for.

An instruction changes a slot only if it is the one that stores to it, and begins a method only if it
is the one that calls it (`step_touches`). So in every run of a program whose code is granted what it
does, all methods at work but the first one are ordinary methods, those that use the receiver are of
its class, and readonly slots stay as they are unless the first method is the one that makes them.
-/

namespace ClassScript

open Code (Instruction)

/-! ## Steps -/

def Machine.calls (m : Machine) : List (Nat × Nat) := m.frames.map fun f => (f.cls, f.method)

/-- What an instruction changes of the slots and the methods at work of a machine. -/
structure Step.Touches (i : Instruction) (m : Machine) (s : Step) : Prop where
  fields : s.machine.fields = m.fields ∨ i.op = .setField ∧ ∃ fs v, m.fields = some fs ∧
    s.machine.fields = some (fs.setIfInBounds i.first v)
  statics : s.machine.statics = m.statics ∨
    i.op = .setStatic ∧ ∃ v, s.machine.statics = m.statics.setIfInBounds i.first v
  calls : ∀ m', s = .next m' → m'.calls <:+ m.calls ∨
    i.op = .call ∧ m'.calls = (i.first, i.second) :: m.calls

namespace Step.Touches

variable {i : Instruction} {m m' : Machine} {s : Step} {frames : List Frame} {stack : List Value}
  {fields : Option (Array Value)} {statics : Array Value} {sink : Sink} {offset : Nat}

/-- Nothing is touched but the stack, the locals and the output. -/
theorem next (hcalls : m'.calls = m.calls) (hfields : m'.fields = m.fields)
    (hstatics : m'.statics = m.statics) : (Step.next m').Touches i m :=
  ⟨.inl hfields, .inl hstatics, fun m'' h => by cases h; exact .inl (hcalls ▸ List.suffix_rfl)⟩

theorem fault {e : Fault} (hfields : m'.fields = m.fields) (hstatics : m'.statics = m.statics) :
    (Step.fault e m').Touches i m :=
  ⟨.inl hfields, .inl hstatics, nofun⟩

/-- What is touched after the stack changed. -/
theorem restack (h : s.Touches i m') (hcalls : m'.calls = m.calls) (hfields : m'.fields = m.fields)
    (hstatics : m'.statics = m.statics) : s.Touches i m :=
  ⟨hfields ▸ h.fields, hstatics ▸ h.statics, hcalls ▸ h.calls⟩

theorem pop {k : Value → Machine → Step} (hk : ∀ v m', (k v m').Touches i m') :
    (m.pop offset k).Touches i m := by
  obtain ⟨frames, stack, fields, statics, sink⟩ := m
  cases stack with
  | nil => exact .fault rfl rfl
  | cons v stack => exact (hk v ⟨frames, stack, fields, statics, sink⟩).restack rfl rfl rfl

theorem popArgs {n : Nat} {k : List Value → Machine → Step}
    (hk : ∀ args m', (k args m').Touches i m') : (m.popArgs n offset k).Touches i m := by
  obtain ⟨frames, stack, fields, statics, sink⟩ := m
  simp only [Machine.popArgs]
  split
  · exact (hk _ _).restack rfl rfl rfl
  · exact .fault rfl rfl

theorem pushSlot {v : Option Value} {missing : CodeDefect} :
    (m.pushSlot offset v missing).Touches i m := by
  cases v with
  | none => exact .fault rfl rfl
  | some v => exact .next rfl rfl rfl

theorem pushResult {r : Except EvalError Value} : (m.pushResult offset r).Touches i m := by
  cases r with
  | ok v => exact .next rfl rfl rfl
  | error e => exact .fault rfl rfl

theorem goTo {ip : Nat} : (Step.next (m.goTo ip)).Touches i m := by
  obtain ⟨frames, stack, fields, statics, sink⟩ := m
  cases frames <;> exact .next rfl rfl rfl

theorem setLocal {slot : Nat} {v : Value} : (m.setLocal offset slot v).Touches i m := by
  obtain ⟨frames, stack, fields, statics, sink⟩ := m
  cases frames with
  | nil => exact .fault rfl rfl
  | cons f frames =>
    simp only [Machine.setLocal]
    split
    · exact .next rfl rfl rfl
    · exact .fault rfl rfl

theorem setField {v : Value} (hop : i.op = .setField) : (m.setField offset i.first v).Touches i m := by
  obtain ⟨frames, stack, fields, statics, sink⟩ := m
  cases fields with
  | none => exact .fault rfl rfl
  | some fields =>
    simp only [Machine.setField]
    split
    · exact ⟨.inr ⟨hop, fields, v, rfl, rfl⟩, .inl rfl,
        fun m' h => by cases h; exact .inl List.suffix_rfl⟩
    · exact .fault rfl rfl

theorem setStatic {v : Value} (hop : i.op = .setStatic) :
    (m.setStatic offset i.first v).Touches i m := by
  obtain ⟨frames, stack, fields, statics, sink⟩ := m
  simp only [Machine.setStatic]
  split
  · exact ⟨.inl rfl, .inr ⟨hop, v, rfl⟩, fun m' h => by cases h; exact .inl List.suffix_rfl⟩
  · exact .fault rfl rfl

theorem branch {target : Nat} {op : Opcode} {wanted : Bool} :
    (m.branch offset target op wanted).Touches i m := by
  refine pop fun v m' => ?_
  cases v with
  | bool b =>
    dsimp only
    split
    · exact goTo
    · exact .next rfl rfl rfl
  | _ => exact .fault rfl rfl

theorem enter {p : Program} {args : List Value} (hop : i.op = .call) :
    (Machine.enter p i.first i.second args m).Touches i m := by
  unfold Machine.enter
  split
  · exact .fault rfl rfl
  · split
    · exact .fault rfl rfl
    · split
      · exact .fault rfl rfl
      · exact ⟨.inl rfl, .inl rfl, fun m' h => by cases h; exact .inr ⟨hop, rfl⟩⟩

theorem leave {result : Option Value} : (m.leave result).Touches i m := by
  obtain ⟨frames, stack, fields, statics, sink⟩ := m
  match frames with
  | [] | [_] => exact ⟨.inl rfl, .inl rfl, nofun⟩
  | f :: e :: frames =>
    exact ⟨.inl rfl, .inl rfl, fun m' h => by cases h; exact .inl (List.suffix_cons ..)⟩

theorem callNative {p : Program} {n : Nat} : (m.callNative p offset n).Touches i m := by
  unfold Machine.callNative
  split
  · exact .fault rfl rfl
  · split
    · exact .fault rfl rfl
    · refine popArgs fun args m' => ?_
      obtain ⟨frames, stack, fields, statics, sink⟩ := m'
      dsimp only
      split
      · exact .fault rfl rfl
      · exact .next rfl rfl rfl

theorem execute (p : Program) (offset after : Nat) (m : Machine) :
    (Machine.execute p i offset after m).Touches i m := by
  unfold Machine.execute
  split <;> rename_i hop
  case h_1 | h_5 | h_6 | h_8 | h_10 => exact pushSlot
  case h_2 | h_3 => exact .next rfl rfl rfl
  case h_4 => exact pop fun _ _ => .next rfl rfl rfl
  case h_7 => exact pop fun _ _ => setLocal
  case h_9 => exact pop fun _ _ => setField hop
  case h_11 => exact pop fun _ _ => setStatic hop
  case h_12 => exact goTo
  case h_13 | h_14 => exact branch
  case h_15 =>
    split
    · exact goTo
    · exact .fault rfl rfl
  case h_16 =>
    split
    · exact .fault rfl rfl
    · exact popArgs fun _ _ => enter hop
  case h_17 => exact callNative
  case h_18 => exact pop fun _ _ => leave
  case h_19 => exact leave
  case h_20 => -- an instruction that computes a value
    split
    · exact pop fun _ _ => pushResult
    · exact pop fun _ _ => pop fun _ _ => pushResult

end Step.Touches

/-- Verified code of which every instruction is granted to its method. -/
structure Program.Disciplined (p : Program) : Prop where
  verified : p.Verified
  grants : ∀ cls j g, p.method? cls j = some g → ∀ i, g.code.Holds i → p.image.Grants cls g i

namespace Machine

variable {p : Program} {i : Instruction} {m m' m'' : Machine} {home : Option Nat} {kind : MethodKind}

theorem step_touches (h : m.fetch? p = some i) : (step p m).Touches i m := by
  obtain ⟨f, fs, hframes, hstep⟩ := step_of_fetch h
  rw [hstep]
  refine (Step.Touches.execute p _ _ _).restack ?_ ?_ ?_
  all_goals
    obtain ⟨frames, stack, fields, statics, sink⟩ := m
    obtain rfl : frames = f :: fs := hframes
    rfl

/-! ## Discipline -/

/-- The run of a method of this kind, with the fields of an instance of the class `home`, if there is
one: other methods at work are ordinary ones, and those that use the receiver are of its class. -/
structure Disciplined (p : Program) (home : Option Nat) (kind : MethodKind) (m : Machine) : Prop where
  guarded : m.Guarded p
  active : m.frames ≠ []
  calls : ∀ c ∈ m.calls, ∃ g, p.method? c.1 c.2 = some g ∧
    (g.kind = .method ∨ g.kind = kind) ∧ (g.isStatic = false → home = some c.1)

/-- The method at work holds the instruction that is executed next. -/
theorem Guarded.holds (hm : m.Guarded p) (hi : m.fetch? p = some i) :
    ∃ f fs g, m.frames = f :: fs ∧ p.method? f.cls f.method = some g ∧ g.code.Holds i := by
  obtain ⟨f, fs, hframes, -⟩ := step_of_fetch hi
  obtain ⟨g, hg⟩ := hm.frames f (hframes ▸ List.mem_cons_self)
  obtain ⟨front, back, hspells, hip⟩ := hg.boundary
  refine ⟨f, fs, g, hframes, hg.method, ?_⟩
  cases back with
  | nil =>
    have hsize : g.code.size = f.ip := by
      rw [hip, ← Array.length_toList, hspells.1, List.append_nil, Asm.length_bytes]
    have hend : g.code[f.ip]? = none := Array.getElem?_eq_none (Nat.le_of_eq hsize)
    unfold fetch? at hi
    simp [hframes, hg.method, hend] at hi
  | cons j back =>
    obtain rfl := Option.some.inj (hi.symm.trans (fetch_of_spells hframes hg.method hspells hip))
    exact ⟨front, back, hspells⟩

variable (hp : p.Disciplined)

include hp

/-- The method at work and what its next instruction may do. -/
theorem Disciplined.grants (hm : m.Disciplined p home kind) (hi : m.fetch? p = some i) :
    ∃ f fs g, m.frames = f :: fs ∧ p.method? f.cls f.method = some g ∧
      p.image.Grants f.cls g i ∧ (g.kind = .method ∨ g.kind = kind) ∧
      (g.isStatic = false → home = some f.cls) := by
  obtain ⟨f, fs, g, hframes, hg, hholds⟩ := hm.guarded.holds hi
  have hmem : (f.cls, f.method) ∈ m.calls := by
    rw [Machine.calls, hframes]
    exact List.mem_cons_self
  obtain ⟨g', hg', hkind, hhome⟩ := hm.calls _ hmem
  cases hg.symm.trans hg'
  exact ⟨f, fs, g, hframes, hg, hp.grants _ _ g hg i hholds, hkind, hhome⟩

/-- Every step keeps the discipline: a method that is called is an ordinary one, and uses the receiver
only if its caller does, which is of the same class. -/
theorem step_disciplined (hm : m.Disciplined p home kind) (h : step p m = .next m') :
    m'.Disciplined p home kind := by
  obtain ⟨i, hi, hguarded⟩ | ⟨o, hfault⟩ := step_guarded hp.verified hm.guarded hm.active
  · have htouches := step_touches hi
    rw [h] at hguarded htouches
    refine ⟨hguarded.2, hguarded.1, fun c hc => ?_⟩
    obtain hsuffix | ⟨hop, hcalls⟩ := htouches.calls m' rfl
    · exact hm.calls c (hsuffix.subset hc)
    rw [hcalls] at hc
    obtain rfl | hc := List.mem_cons.mp hc
    · obtain ⟨f, fs, g, hframes, hg, hgrants, -, hhome⟩ := hm.grants hp hi
      obtain ⟨callee, hcallee, hkind, hreceiver, -⟩ := hgrants.call hop
      refine ⟨callee, hcallee, .inl hkind, fun hinstance => ?_⟩
      obtain ⟨hcls, hstatic⟩ := hreceiver hinstance
      exact hcls ▸ hhome hstatic
    · exact hm.calls c hc
  · cases h.symm.trans hfault

theorem GoesTo.disciplined (h : GoesTo p m m') (hm : m.Disciplined p home kind) :
    m'.Disciplined p home kind := by
  induction h with
  | refl => exact hm
  | step hstep _ ih => exact ih (step_disciplined hp hm hstep)

/-- The run of a method begins with discipline. -/
theorem enter_disciplined {cls j : Nat} {g : MethodImage} {args : List Value}
    {fields : Option (Array Value)} {statics : Array Value} {sink : Sink}
    (hg : p.method? cls j = some g) (hhome : g.isStatic = false → home = some cls)
    (hstatics : statics.size = p.image.staticCount)
    (h : enter p cls j args (.idle fields statics sink) = .next m) :
    m.Disciplined p home g.kind := by
  have hargs : args.length = g.params.length := by
    by_contra hargs
    simp [enter, idle, maxFrames, hg, hargs, refuse] at h
  obtain ⟨start, hstart, hactive, hguarded⟩ := enter_idle fields sink hp.verified hg hargs hstatics
  cases h.symm.trans hstart
  refine ⟨hguarded, hactive, fun c hc => ?_⟩
  have hentered : (enter p cls j args (.idle fields statics sink)).Touches ⟨.call, cls, j⟩
      (.idle fields statics sink) := Step.Touches.enter (i := ⟨.call, cls, j⟩) rfl
  obtain hsuffix | ⟨-, hcalls⟩ := hentered.calls m h
  · have hnone := List.suffix_nil.mp hsuffix
    rw [hnone] at hc
    cases hc
  · rw [hcalls] at hc
    obtain rfl := List.mem_singleton.mp hc
    exact ⟨g, hg, .inr rfl, hhome⟩

end Machine
/-! ## Compiled scripts -/

/-- Programs of images that are compiled keep the discipline. -/
theorem Program.disciplined_of_laid {s : Symbols} {release : Bool} {libraries : List Library}
    {p : Program} (hs : s.Sound libraries) (hlaid : Layout.LaidImage s release p.image)
    (hnatives : p.natives.size = p.image.imports.size) : p.Disciplined where
  verified := ⟨fun _ hk _ hg => Flow.sound_of_verified (Flow.verified_of_laid hs hlaid) hk hg, hnatives⟩
  grants _ _ _ hg _ hi := grants_of_laid hs hlaid hg hi

/-- Calls in an image that is compiled lead to ordinary methods, those of instance methods from
instance methods of the same class; instance fields are used by instance methods only, and what is
another class's is public or internal. So in every run, begun on a method of the class whose fields it
holds, all code that uses instance fields is of this class, and all code is granted what it does. -/
theorem Compilation.access_discipline {name : String} {options : Options} {libraries : List Library}
    {script : Script} {m : Image}
    (h : (Compilation.ofScript name options libraries script).image = some m) :
    (∀ cls j g, m.method? cls j = some g → ∀ i, g.code.Holds i → m.Grants cls g i) ∧
    ∀ p : Program, p.image = m → p.natives.size = m.imports.size →
      ∀ cls j g args fields statics sink start, m.method? cls j = some g →
        statics.size = m.staticCount →
        Machine.enter p cls j args (.idle fields statics sink) = .next start →
        ∀ machine, Machine.GoesTo p start machine →
          ∀ f fs i, machine.frames = f :: fs → machine.fetch? p = some i →
            (∃ g', m.method? f.cls f.method = some g' ∧ m.Grants f.cls g' i) ∧
            (i.op = .getField ∨ i.op = .setField → f.cls = cls ∧ g.isStatic = false) := by
  have hs := Layout.symbolsOf_sound options libraries script
  have hlaid := Layout.laid_of_compiled h
  refine ⟨fun cls j g hg i hi => grants_of_laid hs hlaid hg hi, ?_⟩
  rintro p rfl hnatives cls j g args fields statics sink start hg hstatics hstart machine hgoes f fs i
    hframes hi
  have hp := Program.disciplined_of_laid hs hlaid hnatives
  have hhome : g.isStatic = false → (if g.isStatic then none else some cls) = some cls := by
    intro hinstance
    rw [hinstance]
    rfl
  have hm := hgoes.disciplined hp (Machine.enter_disciplined hp hg hhome hstatics hstart)
  obtain ⟨f', fs', g', hframes', hg', hgrants, -, hhome'⟩ := hm.grants hp hi
  obtain ⟨rfl, rfl⟩ := List.cons.inj (hframes.symm.trans hframes')
  refine ⟨⟨g', hg', hgrants⟩, fun hop => ?_⟩
  have hfield := hhome' (hgrants.field hop).1
  cases hstatic : g.isStatic with
  | true =>
    rw [hstatic] at hfield
    cases hfield
  | false =>
    rw [hstatic] at hfield
    exact ⟨(Option.some.inj hfield).symm, rfl⟩

/-- The sample's method reads and stores to its own field, and calls a static method of another class,
which uses a static field. -/
theorem Compilation.access_discipline_watch :
    (Compilation.ofScript "m" {} [bells] Watch.script).image = some (Watch.image true) ∧
      (∀ i, ((Watch.image true).classes[0]!.methods[0]!).code.Holds i →
        (Watch.image true).Grants 0 (Watch.image true).classes[0]!.methods[0]! i) ∧
      (∀ i, ((Watch.image true).classes[1]!.methods[0]!).code.Holds i →
        (Watch.image true).Grants 1 (Watch.image true).classes[1]!.methods[0]! i) ∧
      ∀ ring : Native Unit, ∃ start, Machine.enter ⟨Watch.image true, #[ring]⟩ 0 0 [.bool true]
          (.idle (some #[.bool true]) #[.bool true] .empty) = .next start ∧
        ∀ machine, Machine.GoesTo ⟨Watch.image true, #[ring]⟩ start machine →
          ∀ f fs i, machine.frames = f :: fs → machine.fetch? ⟨Watch.image true, #[ring]⟩ = some i →
            (∃ g', (Watch.image true).method? f.cls f.method = some g' ∧
              (Watch.image true).Grants f.cls g' i) ∧
            (i.op = .getField ∨ i.op = .setField → f.cls = 0) := by
  obtain ⟨hgrants, hruns⟩ := Compilation.access_discipline (Watch.compiled true)
  refine ⟨Watch.compiled true, hgrants 0 0 _ rfl, hgrants 1 0 _ rfl, fun ring => ⟨_, rfl,
    fun machine hgoes f fs i hframes hi => ?_⟩⟩
  obtain ⟨hg, hfield⟩ := hruns ⟨Watch.image true, #[ring]⟩ rfl rfl 0 0 _ [.bool true]
    (some #[.bool true]) #[.bool true] .empty _ rfl rfl rfl machine hgoes f fs i hframes hi
  exact ⟨hg, fun hop => (hfield hop).1⟩

end ClassScript
