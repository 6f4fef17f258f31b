import ClassScript.Proofs.Execution.Heights

/-!
Locals that are read.

A local is read only if it is a parameter, if it was stored earlier in its frame, or if its slot is a
loose one: a name that is declared where a branch or a body is expected stays in scope behind it,
though its declaration may be skipped. So a script whose declarations stand in blocks reads no slot
that nothing was stored in.
-/

namespace ClassScript

namespace Flow

open Machine

variable {W : Setting} {b : Base} {m : Machine} {stored : List (List Nat)} {n : Nat}

/-- A local that is read is stored or loose. -/
theorem Running.reads (h : Running W b m stored)
    (hn : m.fetch? W.program = some (.unary .getLocal n)) : m.HasStored W.program stored n ∨
      ∃ f fs, m.frames = f :: fs ∧ n ∈ (W.note f.cls f.method).loose := by
  cases h with
  | @intro f fs slots stored g s stack rest fields statics sink hstands htop hstack hcallers hkept =>
  obtain ⟨i, w, hexec, -, -, hfetch⟩ := hstands.fetch
  cases (hfetch _ rfl).symm.trans hn
  cases hexec with
  | getLocal _ hread =>
    obtain hstored | hloose := hread hstands.live
    · exact .inl ⟨g, hstands.method, hstands.stored n hstored⟩
    · exact .inr ⟨f, fs, rfl, hloose⟩
  | unary h => simp [Opcode.unaryType?] at h
  | binary h => simp [Opcode.binaryType?, Opcode.arith?, Opcode.order?] at h

/-- Every machine of a run from outside runs annotated code. -/
theorem Notes.reaches {p : Program} (N : Notes p.image False) {c j : Nat} {args : List Value}
    {fields : Option (Array Value)} {statics : Array Value} {sink : Sink} {start : Machine}
    (henter : enter p c j args (.idle fields statics sink) = .next start)
    (hreach : Reaches p start [[]] m stored) :
    ∃ returns, Running (untypedSetting p N c) (.outside returns) m stored := by
  obtain ⟨g, hg, -, -⟩ := enter_next henter
  have hstart := running_entered (W := untypedSetting p N c) hg (fun _ => rfl) False.elim
    (untypedSetting_kept p N c _ _) henter
  exact ⟨g.returns, hstart.reaches rfl False.elim hreach⟩

end Flow

/-- In every run of a program, a local that is read is a parameter, was stored earlier in its frame,
or has a loose slot. -/
def Program.ReadsStored (p : Program) (s : Symbols) : Prop :=
  ∀ c j args fields statics sink start m stored n,
    Machine.enter p c j args (.idle fields statics sink) = .next start →
      Machine.Reaches p start [[]] m stored → m.fetch? p = some (.unary .getLocal n) →
        m.HasStored p stored n ∨ ∃ f fs, m.frames = f :: fs ∧ n ∈ s.looseAt f.cls f.method

/-- Without loose slots, every local that is read is stored or a parameter. -/
theorem Program.ReadsStored.initialized {p : Program} {s : Symbols} (h : p.ReadsStored s)
    (hnone : ∀ c j, s.looseAt c j = []) {c j : Nat} {args : List Value} {fields : Option (Array Value)}
    {statics : Array Value} {sink : Sink} {start : Machine}
    (henter : Machine.enter p c j args (.idle fields statics sink) = .next start) :
    Machine.Initialized p start [[]] := by
  intro m stored n hreach hn
  obtain hstored | ⟨f, fs, -, hmem⟩ := h c j args fields statics sink start m stored n henter hreach hn
  · exact hstored
  · rw [hnone] at hmem
    cases hmem

theorem Program.readsStored_of_laid {p : Program} {s : Symbols} {libraries : List Library}
    {release : Bool} (hs : s.Sound libraries) (h : Layout.LaidImage s release p.image) :
    p.ReadsStored s := by
  intro c j args fields statics sink start m stored n henter hreach hn
  obtain ⟨N, hloose⟩ := Flow.exists_notes hs h False.elim
  obtain ⟨returns, hrunning⟩ := N.reaches henter hreach
  refine (hrunning.reads hn).imp id ?_
  rintro ⟨f, fs, hframes, hmem⟩
  cases hrunning with
  | intro hstands =>
    obtain ⟨rfl, rfl⟩ := List.cons.inj hframes
    exact ⟨_, _, rfl, (hloose _ _ _ hstands.method).1 ▸ hmem⟩

/-- Programs that are compiled read no local but those that are stored or loose. -/
theorem Compilation.reads_stored {name : String} {options : Options} {libraries : List Library}
    {script : Script} {m : Image} {p : Program}
    (h : (Compilation.ofScript name options libraries script).image = some m) (hp : p.image = m) :
    p.ReadsStored (Layout.symbolsOf options libraries script) ∧
      ((∀ c j, (Layout.symbolsOf options libraries script).looseAt c j = []) →
        ∀ c j args fields statics sink start,
          Machine.enter p c j args (.idle fields statics sink) = .next start →
            Machine.Initialized p start [[]]) := by
  subst hp
  have hreads : p.ReadsStored (Layout.symbolsOf options libraries script) :=
    Program.readsStored_of_laid (Layout.symbolsOf_sound options libraries script)
      (Layout.laid_of_compiled h)
  exact ⟨hreads, fun hnone c j args fields statics sink start henter => hreads.initialized hnone henter⟩

/-- The declaration of the sample stands in a block. -/
theorem Watch.looseAt_eq (c j : Nat) : Watch.symbols.looseAt c j = [] := by
  obtain _ | _ | c := c
  · obtain _ | _ | j := j <;> rfl
  · obtain _ | _ | _ | j := j <;> rfl
  · rfl

/-- The sample has a local that is stored before a loop and in it, and read in it and behind it. -/
theorem Compilation.reads_stored_watch :
    (Compilation.ofScript "m" {} [bells] Watch.script).image = some (Watch.image true) ∧
      ((Watch.image true).classes[0]!.methods[0]!).code.decode? 18 = some (.unary .getLocal 0) ∧
      ((Watch.image true).classes[0]!.methods[0]!).code.decode? 43 = some (.unary .getLocal 1) ∧
      (∀ c j, (Layout.symbolsOf {} [bells] Watch.script).looseAt c j = []) ∧
      ∀ ring : Native Unit,
        (⟨Watch.image true, #[ring]⟩ : Program).ReadsStored (Layout.symbolsOf {} [bells] Watch.script) ∧
        ∀ args fields statics sink start,
          Machine.enter ⟨Watch.image true, #[ring]⟩ 0 0 args (.idle fields statics sink) = .next start →
            Machine.Initialized ⟨Watch.image true, #[ring]⟩ start [[]] := by
  have hnone (c j : Nat) : (Layout.symbolsOf {} [bells] Watch.script).looseAt c j = [] := by
    rw [Watch.symbolsOf_script]
    exact Watch.looseAt_eq c j
  refine ⟨Watch.compiled true, rfl, rfl, hnone, fun ring => ?_⟩
  obtain ⟨hreads, hinitialized⟩ := Compilation.reads_stored (p := ⟨Watch.image true, #[ring]⟩)
    (Watch.compiled true) rfl
  exact ⟨hreads, hinitialized hnone 0 0⟩

end ClassScript
