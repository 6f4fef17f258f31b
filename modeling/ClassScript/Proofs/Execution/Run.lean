import ClassScript.Proofs.Execution.Step

/-!
Runs of machines that run annotated code.

What one step preserves is preserved by a run, and holds when it ends. A method that is called from
outside begins in a frame that stands at its start, so this covers every run of a module.
-/

namespace ClassScript

open Code (Instruction)

/-! ## Locals that are read -/

namespace Machine

variable {p : Program} {m m' m₁ : Machine} {stored stored' : List (List Nat)} {i : Instruction}

/-- A run goes on behind its first step. -/
theorem Reaches.head (hi : m.fetch? p = some i) (hstep : Machine.step p m = .next m₁)
    (h : Reaches p m₁ (storedBy i stored) m' stored') : Reaches p m stored m' stored' := by
  induction h with
  | refl => exact .step .refl hi hstep
  | step _ hi' hstep' ih => exact .step ih hi' hstep'

theorem Reaches.trans {m'' : Machine} {stored'' : List (List Nat)}
    (h : Reaches p m stored m' stored') (h' : Reaches p m' stored' m'' stored'') :
    Reaches p m stored m'' stored'' := by
  induction h' with
  | refl => exact h
  | step _ hi hstep ih => exact .step ih hi hstep

/-- Every local that is read in a run is a parameter, or was stored in its frame before. -/
def Initialized (p : Program) (m : Machine) (stored : List (List Nat)) : Prop :=
  ∀ m' stored' n, Reaches p m stored m' stored' → m'.fetch? p = some (.unary .getLocal n) →
    m'.HasStored p stored' n

theorem Initialized.next (h : Initialized p m stored) (hi : m.fetch? p = some i)
    (hstep : Machine.step p m = .next m₁) : Initialized p m₁ (storedBy i stored) :=
  fun m' stored' n hreach hn => h m' stored' n (hreach.head hi hstep) hn

/-- A method begins with as many arguments as it has parameters. -/
theorem enter_next {c j : Nat} {args : List Value} {fs : List Frame} {stack : List Value}
    {fields : Option (Array Value)} {statics : Array Value} {sink : Sink}
    (h : enter p c j args ⟨fs, stack, fields, statics, sink⟩ = .next m) :
    ∃ g, p.method? c j = some g ∧ args.length = g.params.length ∧
      m = ⟨⟨c, j, 0, frameLocals args g.locals.toNat⟩ :: fs, stack, fields, statics, sink⟩ := by
  unfold enter at h
  split at h
  · cases h
  · split at h
    · cases h
    · next g hg =>
      by_cases hlength : args.length = g.params.length
      · rw [if_neg (not_not.mpr hlength)] at h
        cases h
        exact ⟨g, hg, hlength, rfl⟩
      · rw [if_pos hlength] at h
        cases h

end Machine

namespace Flow

open Machine

variable {W : Setting} {b : Base} {m m' : Machine} {stored stored' : List (List Nat)}

/-! ## Runs -/

/-- A run from a machine that runs annotated code comes to machines that do as well, as long as it
does not leave the frames of the run. -/
theorem Running.next (h : Running W b m stored)
    (hread : W.strict → Initialized W.program m stored) {i : Instruction}
    (hi : m.fetch? W.program = some i) (hstep : Machine.step W.program m = .next m') :
    Proceeds W b (storedBy i stored) (.next m') := by
  obtain ⟨i', hi', hproceeds⟩ := h.step fun hstrict n hn => hread hstrict m stored n .refl hn
  rw [hi] at hi'
  cases hi'
  rwa [hstep] at hproceeds

/-- The frames of a run from outside are not left before it ends. -/
theorem Proceeds.running (h : Proceeds W b stored (.next m)) (hframes : b.frames = []) :
    Running W b m stored := by
  cases h with
  | next h => exact h
  | left hne => exact absurd hframes hne

theorem Running.reaches (h : Running W b m stored) (hframes : b.frames = [])
    (hread : W.strict → Initialized W.program m stored)
    (hreach : Reaches W.program m stored m' stored') : Running W b m' stored' := by
  induction hreach with
  | refl => exact h
  | step hreach hi hstep ih =>
    refine (ih.next (fun hstrict m'' stored'' n hreach' hn => ?_) hi hstep).running hframes
    exact hread hstrict m'' stored'' n (hreach.trans hreach') hn

/-! ## Ends of runs -/

structure Ends (W : Setting) (returns : ValueType) (o : Outcome) : Prop where
  fault : ∀ e, o.result = .error e → Permitted W e
  value : ∀ v, o.result = .ok v → Holds W.strict v returns
  kept : Kept W o.machine.fields o.machine.statics

theorem Ends.faulted {returns : ValueType} {e : Fault} (he : Permitted W e)
    (hkept : Kept W m.fields m.statics) : Ends W returns ⟨.error e, m⟩ where
  fault e' h := by
    cases h
    exact he
  value := nofun
  kept := hkept

theorem Ends.returned {returns : ValueType} {v : Value} (hv : Holds W.strict v returns)
    (hkept : Kept W m.fields m.statics) : Ends W returns ⟨.ok v, m⟩ where
  fault := nofun
  value v' h := by
    cases h
    exact hv
  kept := hkept

theorem Running.ends {fuel : Nat} {o : Outcome} (h : Running W b m stored) (hframes : b.frames = [])
    (hread : W.strict → Initialized W.program m stored) (hrun : run W.program fuel m = some o) :
    Ends W b.returns o := by
  induction fuel generalizing m stored with
  | zero => cases hrun
  | succ fuel ih =>
    obtain ⟨i, hi, hproceeds⟩ := h.step fun hstrict n hn => hread hstrict m stored n .refl hn
    unfold run at hrun
    generalize hstep : Machine.step W.program m = r at hproceeds hrun
    cases r with
    | next m' =>
      exact ih (hproceeds.running hframes) (fun hstrict => (hread hstrict).next hi hstep) hrun
    | done v m' =>
      cases hrun
      cases hproceeds with
      | done _ hv hkept => exact .returned hv hkept
    | fault e m' =>
      cases hrun
      cases hproceeds with
      | fault he hkept => exact .faulted he hkept

/-! ## Calls from outside -/

def Base.outside (returns : ValueType) : Base := ⟨[], [], [], returns⟩

variable {c j : Nat} {g : MethodImage} {args : List Value} {fields : Option (Array Value)}
  {statics : Array Value} {sink : Sink}

/-- A method that begins on an idle machine runs annotated code. -/
theorem running_entered (hmethod : W.program.method? c j = some g)
    (hhome : g.isStatic = false → W.home = some c)
    (htypes : W.strict → args.map (·.type) = g.params) (hkept : Kept W fields statics)
    (henter : enter W.program c j args (.idle fields statics sink) = .next m) :
    Running W (.outside g.returns) m [[]] := by
  obtain ⟨g', hg', hlength, -⟩ := enter_next henter
  rw [hmethod] at hg'
  cases hg'
  have hcallers : Callers W (.outside g.returns) [] [] [] g.returns := .base
  have hproceeds : Proceeds W (.outside g.returns) [[]]
      (enter W.program c j args (.idle fields statics sink)) :=
    proceeds_enter hmethod hlength htypes hhome hcallers hkept
  rw [henter] at hproceeds
  exact hproceeds.running rfl

/-- A method that is called with arguments of the types of its parameters ends as it should. -/
theorem call_ends {fuel : Nat} {o : Outcome} (hmethod : W.program.method? c j = some g)
    (hhome : g.isStatic = false → W.home = some c)
    (htypes : W.strict → args.map (·.type) = g.params) (hkept : Kept W fields statics)
    (hread : W.strict → ∀ m, enter W.program c j args (.idle fields statics sink) = .next m →
      Initialized W.program m [[]])
    (hcall : call W.program fuel c j args (.idle fields statics sink) = some o) :
    Ends W g.returns o := by
  by_cases hlength : args.length = g.params.length
  · have henter : enter W.program c j args (.idle fields statics sink) =
        .next ⟨[⟨c, j, 0, frameLocals args g.locals.toNat⟩], [], fields, statics, sink⟩ := by
      simp [enter, idle, maxFrames, hmethod, hlength]
    have hrunning := running_entered hmethod hhome htypes hkept henter
    unfold call at hcall
    rw [henter] at hcall
    exact hrunning.ends rfl (fun hstrict => hread hstrict _ henter) hcall
  · have henter : enter W.program c j args (.idle fields statics sink) = refuse
        (.idle fields statics sink) 0 (.argumentCount g.signature g.params.length args.length) := by
      simp [enter, idle, maxFrames, hmethod, hlength]
    unfold call at hcall
    rw [henter] at hcall
    cases hcall
    refine .faulted ⟨fun hstrict => hlength ?_, fun _ => nofun⟩ hkept
    rw [← htypes hstrict, List.length_map]

/-! ## Compiled images -/

/-- All methods of an image that is compiled have notes. -/
theorem exists_notes {s : Symbols} {release : Bool} {image : Image} {libraries : List Library}
    {sane : Prop} (hs : s.Sound libraries) (h : Layout.LaidImage s release image)
    (hsane : sane → DistinctFunctions libraries ∧ ValueKeywords libraries) :
    ∃ N : Notes image sane, ∀ c i f, image.method? c i = some f →
      (N.note c i).loose = s.looseAt c i ∧ ∃ k g l, s.classes[c]? = some k ∧
        k.methods[i]? = some g ∧ Layout.LaysMethod ⟨image.constants, image.imports⟩
          ⟨s, release, c, k⟩ g (N.note c i).code l (N.note c i).statements := by
  have hnote (c i : Nat) : ∃ n : Note, ∀ f, image.method? c i = some f →
      Annotated (contextOf image c f n.types n.loose sane) f n.code n.statements n.known ∧
        n.loose = s.looseAt c i ∧ ∃ k g l, s.classes[c]? = some k ∧ k.methods[i]? = some g ∧
          Layout.LaysMethod ⟨image.constants, image.imports⟩ ⟨s, release, c, k⟩ g n.code l
            n.statements := by
    cases hf : image.method? c i with
    | none => exact ⟨⟨[], [], [], [], fun _ => none⟩, nofun⟩
    | some f =>
      obtain ⟨k, g, is, l, B, hk, hg, -, hlays, locals, hlocals⟩ := annotated_of_laid hs h hf
      obtain ⟨known, hknown⟩ := hlocals sane hsane
      refine ⟨⟨locals, g.loose, is, B, known⟩, fun f' hf' => ?_⟩
      cases hf'
      refine ⟨hknown, ?_, k, g, l, hk, hg, hlays⟩
      rw [Symbols.looseAt, hk, Option.bind_some, hg]
      rfl
  choose note hnote using hnote
  exact ⟨⟨note, fun c i f hf => (hnote c i f hf).1⟩, fun c i f hf => (hnote c i f hf).2⟩

end Flow
end ClassScript
