import ClassScript.Proofs.Execution.Twins
import ClassScript.Proofs.Loading
import ClassScript.Proofs.Release.Method

/-!
Machines and modules that run a script and its release.

Every step of the one machine is a step of the other one: machines that mirror each other stand at
matching places in all their frames and have the rest in common, and executing an instruction keeps it
so, or ends both runs alike. The lemmas follow the parts that instructions are made of; `step_mirrors`
puts them together, and `run_observed` is the induction on the instructions of a run.

The two images have one outline, which is all that requests look for in them, and their methods run
alike; so the loaded modules are twins, and stay so from the loading on.
-/

namespace ClassScript

open Code (Instruction)
open Machine

/-! ## Programs and machines that mirror each other -/

structure Program.Mirrors (p p' : Program) : Prop where
  constants : p.image.constants = p'.image.constants
  imports : p.image.imports = p'.image.imports
  checked : p.image.checked = p'.image.checked
  natives : p.natives = p'.natives
  methods : ∀ c i, Option.Rel MethodImage.Mirrors (p.method? c i) (p'.method? c i)

namespace MethodImage.Mirrors

variable {g g' : MethodImage}

theorem params (h : g.Mirrors g') : g.params = g'.params := by
  have hparams := congrArg MethodImage.params h.outline
  exact hparams

theorem locals (h : g.Mirrors g') : g.locals = g'.locals := by
  have hlocals := congrArg MethodImage.locals h.outline
  exact hlocals

theorem signature (h : g.Mirrors g') : g.signature = g'.signature := by
  have hsignature := congrArg MethodImage.signature h.outline
  exact hsignature

end MethodImage.Mirrors

/-- A method is in both programs or in none. -/
theorem Program.Mirrors.method_cases {p p' : Program} (h : p.Mirrors p') (c i : Nat) :
    p.method? c i = none ∧ p'.method? c i = none ∨
      ∃ g g', p.method? c i = some g ∧ p'.method? c i = some g' ∧ g.Mirrors g' := by
  have hmethods := h.methods c i
  generalize p.method? c i = o at hmethods ⊢
  generalize p'.method? c i = o' at hmethods ⊢
  cases hmethods with
  | none => exact .inl ⟨rfl, rfl⟩
  | some h => exact .inr ⟨_, _, rfl, rfl, h⟩

/-- Two frames stand at places from which the same `n` instructions are executed. -/
structure Frame.Mirrors (p p' : Program) (n : Nat) (f f' : Frame) : Prop where
  cls : f.cls = f'.cls
  method : f.method = f'.method
  locals : f.locals = f'.locals
  place : ∃ g g', p.method? f.cls f.method = some g ∧ p'.method? f'.cls f'.method = some g' ∧
    Matches g.code.decode? g'.code.decode? n none f.ip f'.ip

structure Activation.Mirrors (n : Nat) (A B : Activation) : Prop where
  cls : A.cls = B.cls
  method : A.method = B.method
  callers : List.Forall₂ (Frame.Mirrors A.program B.program n) A.callers B.callers

/-- Two machines that can execute the same `n` instructions. A condition that is known is on top. -/
inductive Machine.Mirrors (p p' : Program) (n : Nat) : Machine → Machine → Prop
  | intro {A B : Activation} {known : Option Bool} {o q : Nat} {stack : List Value} {s : Store}
      (hp : A.program = p) (hp' : B.program = p') (h : A.Mirrors n B)
      (hplace : Matches A.op? B.op? n known o q)
      (hknown : ∀ b, known = some b → stack.head? = some (.bool b)) :
      Machine.Mirrors p p' n (A.machine o stack s) (B.machine q stack s)

/-- What two machines do next is the same, but for the places of faults. -/
inductive Step.Mirrors (p p' : Program) (n : Nat) : Step → Step → Prop
  | next {m m' : Machine} (h : Machine.Mirrors p p' n m m') : Step.Mirrors p p' n (.next m) (.next m')
  | done {v : Value} {m m' : Machine} (h : m.heap = m'.heap) :
      Step.Mirrors p p' n (.done v m) (.done v m')
  | fault {e e' : Fault} {m m' : Machine} (he : e.placeless = e'.placeless)
      (h : m.heap = m'.heap) : Step.Mirrors p p' n (.fault e m) (.fault e' m')

/-! ## Parts of instructions -/

theorem Frame.Mirrors.of_succ {p p' : Program} {n : Nat} {f f' : Frame}
    (h : f.Mirrors p p' (n + 1) f') : f.Mirrors p p' n f' := by
  obtain ⟨g, g', hg, hg', hplace⟩ := h.place
  exact ⟨h.cls, h.method, h.locals, g, g', hg, hg', hplace.of_succ⟩

/-- Beginning a method in both programs. -/
theorem enter_mirrors {p p' : Program} (hp : p.Mirrors p') {n : Nat} {frames frames' : List Frame}
    (hframes : List.Forall₂ (Frame.Mirrors p p' n) frames frames') (c i : Nat) (args stack : List Value)
    (s : Heap) :
    Step.Mirrors p p' n (enter p c i args ⟨frames, stack, s.fields, s.statics, s.sink⟩)
      (enter p' c i args ⟨frames', stack, s.fields, s.statics, s.sink⟩) := by
  unfold enter
  dsimp only
  rw [hframes.length_eq]
  split
  · exact .fault rfl rfl
  · rcases hp.method_cases c i with ⟨hg, hg'⟩ | ⟨g, g', hg, hg', h⟩
    · rw [hg, hg']
      exact .fault rfl rfl
    · rw [hg, hg']
      dsimp only
      rw [h.params, h.signature, h.locals]
      split
      · exact .fault rfl rfl
      · refine .next (.intro (A := ⟨p, c, i, g, hg, frames⟩) (B := ⟨p', c, i, g', hg', frames'⟩)
          (s := ⟨frameLocals args g'.locals.toNat, s⟩) rfl rfl ⟨rfl, rfl, hframes⟩ (h.code n) ?_)
        simp

namespace Activation.Mirrors

variable {A B : Activation} {n o q offset offset' : Nat} {stack : List Value} {s : Store}

theorem of_succ (h : A.Mirrors (n + 1) B) : A.Mirrors n B :=
  ⟨h.cls, h.method, h.callers.imp fun _ _ => Frame.Mirrors.of_succ⟩

/-- Both methods go on at matching places. -/
theorem go (h : A.Mirrors n B) (hplace : Matches A.op? B.op? n none o q) (stack : List Value)
    (s : Store) :
    Machine.Mirrors A.program B.program n (A.machine o stack s) (B.machine q stack s) :=
  .intro rfl rfl h hplace (by simp)

/-- The frames of both methods, as callers. -/
theorem frames (h : A.Mirrors n B) (hplace : Matches A.op? B.op? n none o q) (locals : Array Value) :
    List.Forall₂ (Frame.Mirrors A.program B.program n)
      (⟨A.cls, A.method, o, locals⟩ :: A.callers) (⟨B.cls, B.method, q, locals⟩ :: B.callers) :=
  .cons ⟨h.cls, h.method, rfl, A.image, B.image, A.found, B.found, hplace⟩ h.callers

theorem pop {k k' : Value → Machine → Step}
    (hk : ∀ v rest, stack = v :: rest → Step.Mirrors A.program B.program n
      (k v (A.machine o rest s)) (k' v (B.machine q rest s))) :
    Step.Mirrors A.program B.program n ((A.machine o stack s).pop offset k)
      ((B.machine q stack s).pop offset' k') := by
  cases stack with
  | nil => exact .fault rfl rfl
  | cons v rest => exact hk v rest rfl

theorem popArgs (count : Nat) {k k' : List Value → Machine → Step}
    (hk : ∀ args rest, Step.Mirrors A.program B.program n
      (k args (A.machine o rest s)) (k' args (B.machine q rest s))) :
    Step.Mirrors A.program B.program n ((A.machine o stack s).popArgs count offset k)
      ((B.machine q stack s).popArgs count offset' k') := by
  simp only [Machine.popArgs, Activation.machine]
  cases takeArgs count [] stack with
  | none => exact .fault rfl rfl
  | some taken => exact hk taken.1 taken.2

theorem pushSlot (h : A.Mirrors n B) (hplace : Matches A.op? B.op? n none o q) (v : Option Value)
    (missing : CodeDefect) :
    Step.Mirrors A.program B.program n ((A.machine o stack s).pushSlot offset v missing)
      ((B.machine q stack s).pushSlot offset' v missing) := by
  cases v with
  | none => exact .fault rfl rfl
  | some v => exact .next (h.go hplace (v :: stack) s)

theorem pushResult (h : A.Mirrors n B) (hplace : Matches A.op? B.op? n none o q)
    (r : Except EvalError Value) :
    Step.Mirrors A.program B.program n ((A.machine o stack s).pushResult offset r)
      ((B.machine q stack s).pushResult offset' r) := by
  cases r with
  | error e => exact .fault (by cases e <;> rfl) rfl
  | ok v => exact .next (h.go hplace (v :: stack) s)

theorem setLocal (h : A.Mirrors n B) (hplace : Matches A.op? B.op? n none o q) (slot : Nat)
    (v : Value) :
    Step.Mirrors A.program B.program n ((A.machine o stack s).setLocal offset slot v)
      ((B.machine q stack s).setLocal offset' slot v) := by
  simp only [Machine.setLocal, Activation.machine]
  split
  · exact .next (h.go hplace stack ⟨s.locals.setIfInBounds slot v, s.heap⟩)
  · exact .fault rfl rfl

theorem setField (h : A.Mirrors n B) (hplace : Matches A.op? B.op? n none o q) (slot : Nat)
    (v : Value) :
    Step.Mirrors A.program B.program n ((A.machine o stack s).setField offset slot v)
      ((B.machine q stack s).setField offset' slot v) := by
  obtain ⟨locals, fields, statics, sink⟩ := s
  cases fields with
  | none => exact .fault rfl rfl
  | some fields =>
    simp only [Machine.setField, Activation.machine]
    split
    · exact .next (h.go hplace stack ⟨locals, some (fields.setIfInBounds slot v), statics, sink⟩)
    · exact .fault rfl rfl

theorem setStatic (h : A.Mirrors n B) (hplace : Matches A.op? B.op? n none o q) (slot : Nat)
    (v : Value) :
    Step.Mirrors A.program B.program n ((A.machine o stack s).setStatic offset slot v)
      ((B.machine q stack s).setStatic offset' slot v) := by
  obtain ⟨locals, fields, statics, sink⟩ := s
  unfold Machine.setStatic
  dsimp only [Activation.machine]
  split
  · exact .next (h.go hplace stack ⟨locals, fields, statics.setIfInBounds slot v, sink⟩)
  · exact .fault rfl rfl

/-- A conditional jump goes a way that can be taken. -/
theorem branch (h : A.Mirrors n B) {known : Option Bool} {wanted : Bool} {target target' : Nat}
    {op : Opcode} (hknown : ∀ b, known = some b → stack.head? = some (.bool b))
    (hjump : known ≠ some !wanted → Matches A.op? B.op? n none target target')
    (hnext : known ≠ some wanted → Matches A.op? B.op? n none o q) :
    Step.Mirrors A.program B.program n ((A.machine o stack s).branch offset target op wanted)
      ((B.machine q stack s).branch offset' target' op wanted) := by
  refine pop fun v rest hstack => ?_
  subst hstack
  have htop (c : Bool) (hc : known = some c) : v = .bool c := Option.some.inj (hknown c hc)
  cases v with
  | bool b =>
    by_cases hb : b = wanted
    · subst hb
      simp only [if_true]
      refine .next (h.go (hjump ?_) rest s)
      intro hc
      cases b <;> cases htop _ hc
    · simp only [if_neg hb]
      refine .next (h.go (hnext ?_) rest s)
      intro hc
      cases htop _ hc
      exact hb rfl
  | _ => exact .fault rfl rfl

theorem callNative (hp : A.program.Mirrors B.program) (h : A.Mirrors n B)
    (hplace : Matches A.op? B.op? n none o q) (i : Nat) :
    Step.Mirrors A.program B.program n ((A.machine o stack s).callNative A.program offset i)
      ((B.machine q stack s).callNative B.program offset' i) := by
  unfold Machine.callNative
  rw [hp.imports, hp.natives]
  cases B.program.image.imports[i]? with
  | none => exact .fault rfl rfl
  | some imp =>
    dsimp only
    cases B.program.natives[i]? with
    | none => exact .fault rfl rfl
    | some body =>
      refine popArgs _ fun args rest => ?_
      simp only [Activation.machine]
      cases body.run args.toArray s.heap.sink with
      | mk result sink =>
        cases result with
        | error e => exact .fault rfl rfl
        | ok v =>
          exact .next (h.go hplace (if imp.returns.isVoid then rest else v :: rest)
            ⟨s.locals, s.heap.fields, s.heap.statics, sink⟩)

theorem call (hp : A.program.Mirrors B.program) (h : A.Mirrors n B)
    (hplace : Matches A.op? B.op? n none o q) (c i : Nat) :
    Step.Mirrors A.program B.program n
      (Machine.execute A.program ⟨.call, c, i⟩ offset o (A.machine o stack s))
      (Machine.execute B.program ⟨.call, c, i⟩ offset' q (B.machine q stack s)) := by
  simp only [Machine.execute]
  rcases hp.method_cases c i with ⟨hg, hg'⟩ | ⟨g, g', hg, hg', hmethod⟩
  · rw [hg, hg']
    exact .fault rfl rfl
  · rw [hg, hg']
    dsimp only
    rw [hmethod.params]
    exact popArgs _ fun args rest => enter_mirrors hp (h.frames hplace s.locals) c i args rest s.heap

/-- An instruction that computes a value from one operand or two. -/
theorem value (hp : A.program.Mirrors B.program) (h : A.Mirrors n B)
    (hplace : Matches A.op? B.op? n none o q) (op : Opcode) :
    Step.Mirrors A.program B.program n
      (if op.isUnary then
        (A.machine o stack s).pop offset fun v m =>
          m.pushResult offset (op.evalUnary A.program.image.checked v)
      else
        (A.machine o stack s).pop offset fun right m => m.pop offset fun left m =>
          m.pushResult offset (op.evalBinary A.program.image.checked left right))
      (if op.isUnary then
        (B.machine q stack s).pop offset' fun v m =>
          m.pushResult offset' (op.evalUnary B.program.image.checked v)
      else
        (B.machine q stack s).pop offset' fun right m => m.pop offset' fun left m =>
          m.pushResult offset' (op.evalBinary B.program.image.checked left right)) := by
  rw [hp.checked]
  split
  · exact pop fun v rest _ => h.pushResult hplace _
  · exact pop fun right rest _ => pop fun left rest _ => h.pushResult hplace _

/-- Returning to a caller, or from the outermost method. -/
theorem leave (h : A.Mirrors n B) (result : Option Value) :
    Step.Mirrors A.program B.program n ((A.machine o stack s).leave result)
      ((B.machine q stack s).leave result) := by
  have hcallers := h.callers
  simp only [Machine.leave, Activation.machine]
  generalize A.callers = fs at hcallers ⊢
  generalize B.callers = fs' at hcallers ⊢
  cases hcallers with
  | nil => exact .done rfl
  | @cons f f' fs fs' hf hfs =>
    obtain ⟨cls, method, ip, locals⟩ := f
    obtain ⟨cls', method', ip', locals'⟩ := f'
    obtain ⟨hcls, hmethod, hlocals, g, g', hg, hg', hplace⟩ := hf
    obtain rfl : locals = locals' := hlocals
    refine .next (.intro (A := ⟨A.program, cls, method, g, hg, fs⟩)
      (B := ⟨B.program, cls', method', g', hg', fs'⟩) (s := ⟨locals, s.heap⟩) rfl rfl
      ⟨hcls, hmethod, hfs⟩ hplace ?_)
    simp

/-- An instruction that leads to the next one. -/
theorem straight (hp : A.program.Mirrors B.program) (h : A.Mirrors n B) {i : Instruction}
    (hi : i.op.isStraight = true) (hplace : Matches A.op? B.op? n i.op.pushes? o q) :
    Step.Mirrors A.program B.program n
      (Machine.execute A.program i offset o (A.machine o stack s))
      (Machine.execute B.program i offset' q (B.machine q stack s)) := by
  obtain ⟨op, a, b⟩ := i
  cases op with
  | constant =>
    simp only [Machine.execute]
    rw [hp.constants]
    exact h.pushSlot hplace _ (.noConstant a)
  | pushTrue => exact .next (.intro rfl rfl h hplace (by rintro b ⟨⟩; rfl))
  | pushFalse => exact .next (.intro rfl rfl h hplace (by rintro b ⟨⟩; rfl))
  | pop => exact pop fun _ rest _ => .next (h.go hplace rest s)
  | dup => exact h.pushSlot hplace stack.head? .stackUnderflow
  | getLocal => exact h.pushSlot hplace s.locals[a]? (.noLocal a)
  | setLocal =>
    simp only [Machine.execute]
    exact pop fun v rest _ => h.setLocal hplace a v
  | getField => exact h.pushSlot hplace (s.heap.fields.bind fun fs => fs[a]?) (.noField a)
  | setField =>
    simp only [Machine.execute]
    exact pop fun v rest _ => h.setField hplace a v
  | getStatic => exact h.pushSlot hplace s.heap.statics[a]? (.noStatic a)
  | setStatic =>
    simp only [Machine.execute]
    exact pop fun v rest _ => h.setStatic hplace a v
  | call => exact h.call hp hplace a b
  | callNative => exact h.callNative hp hplace a
  | jump | jumpIfFalse | jumpIfTrue | loop | ret | retVoid => cases hi
  | _ =>
    simp only [Machine.execute]
    exact h.value hp hplace _

end Activation.Mirrors

/-! ## Runs -/

theorem JumpsTo.jumps {A : Activation} {o target : Nat} (h : JumpsTo A.op? o target) :
    A.Jumps o target := by
  obtain ⟨d, hop, rfl⟩ | ⟨d, hop, htarget⟩ := h
  · exact Activation.jumps_jump hop
  · obtain rfl : target = o + 3 - d := by omega
    exact Activation.jumps_loop hop (by omega)

section

variable {p p' : Program} (hp : p.Mirrors p')

include hp

/-- Machines that mirror each other do the same, and mirror each other again. -/
theorem step_mirrors {n : Nat} {m m' : Machine} (h : Machine.Mirrors p p' (n + 1) m m') :
    Step.Mirrors p p' n (step p m) (step p' m') := by
  obtain ⟨rfl, rfl, h, hplace, hknown⟩ := h
  cases hplace with
  | straight hop hop' hi hnext =>
    rw [Activation.step_eq hop, Activation.step_eq hop']
    exact h.of_succ.straight hp hi hnext
  | returns hop hop' hret =>
    rw [Activation.step_eq hop, Activation.step_eq hop']
    obtain rfl | rfl := hret
    · simp only [execute]
      exact Activation.Mirrors.pop fun v rest _ => h.of_succ.leave (some v)
    · simp only [execute]
      exact h.of_succ.leave none
  | jumps hjump hjump' hnext =>
    rw [hjump.jumps, hjump'.jumps]
    exact .next (h.of_succ.go hnext _ _)
  | @branches op d e wanted hop hf hg hjump hnext =>
    rw [Activation.step_eq hf, Activation.step_eq hg]
    cases op with
    | jumpIfFalse =>
      cases hop
      exact h.of_succ.branch hknown hjump hnext
    | jumpIfTrue =>
      cases hop
      exact h.of_succ.branch hknown hjump hnext
    | _ => cases hop

/-- Machines that mirror each other run alike. -/
theorem run_observed {n : Nat} {m m' : Machine} (h : Machine.Mirrors p p' n m m') :
    (run p n m).map Outcome.observed = (run p' n m').map Outcome.observed := by
  induction n generalizing m m' with
  | zero => rfl
  | succ n ih =>
    have hstep := step_mirrors hp h
    simp only [run]
    generalize step p m = x at hstep ⊢
    generalize step p' m' = y at hstep ⊢
    cases hstep with
    | next h => exact ih h
    | done h => simp [Outcome.observed, h]
    | fault he h => simp [Outcome.observed, Except.mapError, he, h]

/-- A method runs in both programs alike. -/
theorem call_observed (n c i : Nat) (args : List Value) (s : Heap) :
    (call p n c i args (.idle s.fields s.statics s.sink)).map Outcome.observed =
      (call p' n c i args (.idle s.fields s.statics s.sink)).map Outcome.observed := by
  have henter := enter_mirrors hp (n := n) .nil c i args [] s
  unfold call Machine.idle
  generalize enter p c i args _ = x at henter ⊢
  generalize enter p' c i args _ = y at henter ⊢
  cases henter with
  | next h => exact run_observed hp h
  | done h => simp [Outcome.observed, h]
  | fault he h => simp [Outcome.observed, Except.mapError, he, h]

end

open Layout

/-! ## Outlines -/

/-- Methods that are the same because they have one place. -/
def InPlace (_ i j : Nat) : Prop := i = j

theorem ClassImage.findIdx?_outline (c : ClassImage) {P : MethodImage → Bool}
    (hP : ∀ g, P g.outline = P g) : c.methods.findIdx? P = c.outline.methods.findIdx? P := by
  rw [ClassImage.outline, Array.findIdx?_map]
  congr 1
  funext g
  exact (hP g).symm

/-- A search for methods that does not look at code. -/
theorem ClassImage.findIdx?_eq {c c' : ClassImage} (h : c.outline = c'.outline)
    {P : MethodImage → Bool} (hP : ∀ g, P g.outline = P g) :
    Option.Rel Eq (c.methods.findIdx? P) (c'.methods.findIdx? P) := by
  rw [c.findIdx?_outline hP, c'.findIdx?_outline hP, h]
  cases c'.outline.methods.findIdx? P with
  | none => exact .none
  | some i => exact .some rfl

theorem ClassImage.twins_of_outline {c c' : ClassImage} (h : c.outline = c'.outline) :
    c.Twins Eq c' where
  name := by
    have hname := congrArg ClassImage.name h
    exact hname
  fields := by
    have hfields := congrArg ClassImage.fields h
    exact hfields
  constructor := findIdx?_eq h fun _ => rfl
  initializer := findIdx?_eq h fun _ => rfl
  bindable _ _ := findIdx?_eq h fun _ => rfl
  signature i j hij := by
    have hmethods := congrArg (fun c : ClassImage => (c.methods[i]?).map (·.signature)) h
    simp only [ClassImage.outline, Array.getElem?_map, Option.map_map] at hmethods
    rw [← hij]
    exact hmethods

theorem Image.twins_of_outline {m m' : Image} (h : m.outline = m'.outline) :
    m.Twins InPlace m' where
  name := by
    have hname := congrArg Image.name h
    exact hname
  classes i := by
    have hclass := congrArg (fun m : Image => m.classes[i]?) h
    simp only [Image.outline, Array.getElem?_map] at hclass
    generalize m.classes[i]? = c at hclass ⊢
    generalize m'.classes[i]? = c' at hclass ⊢
    cases c with
    | none =>
      rw [Option.map_eq_none_iff.mp hclass.symm]
      exact .none
    | some c =>
      obtain ⟨c', rfl, hc⟩ := Option.map_eq_some_iff.mp hclass.symm
      exact .some (ClassImage.twins_of_outline hc.symm)

/-- Programs that mirror each other do the same. -/
theorem Program.Mirrors.twins {p p' : Program} (h : p.Mirrors p')
    (houtline : p.image.outline = p'.image.outline) : p.Twins Fault.placeless InPlace p' where
  image := Image.twins_of_outline houtline
  calls c i _ hij n args s := hij ▸ call_observed h n c i args s

/-! ## Loading -/

/-- Images of one outline whose methods mirror each other are bound alike. -/
theorem LoadedModule.bind_mirrors {m m' : Image} (houtline : m.outline = m'.outline)
    (hmethods : ∀ c i, Option.Rel MethodImage.Mirrors (m.method? c i) (m'.method? c i))
    (bytes bytes' : List UInt8) (catalog : Catalog) :
    Loads Fault.placeless InPlace (bind m bytes catalog) (bind m' bytes' catalog) := by
  have hreferences : m.references = m'.references := by
    have hreferences := congrArg Image.references houtline
    exact hreferences
  have himports : m.imports = m'.imports := by
    have himports := congrArg Image.imports houtline
    exact himports
  unfold bind
  rw [hreferences, himports]
  cases m'.references.mapM (findLibrary catalog) with
  | error e => exact .error rfl
  | ok libraries =>
    cases hnatives : m'.imports.toList.mapM (bindImport libraries) with
    | error e =>
      simp only [Bind.bind, Except.bind, hnatives]
      exact .error rfl
    | ok natives =>
      have hmirrors : Program.Mirrors ⟨m, natives.toArray⟩ ⟨m', natives.toArray⟩ := by
        refine ⟨?_, himports, ?_, rfl, hmethods⟩
        · have hconstants := congrArg Image.constants houtline
          exact hconstants
        · have hchecked := congrArg Image.checked houtline
          exact hchecked
      simp only [Bind.bind, Except.bind, hnatives]
      exact .ok ⟨hmirrors.twins houtline, (Image.twins_of_outline houtline).firstStatics, rfl⟩

/-- A release has the same constants, imports and classes with the same members, and the same frame
sizes. The module loaded from it cannot be told from the one loaded from the script itself: loading
and every sequence of requests show the same. -/
theorem Compilation.release_unobservable {name : String} {options : Options}
    {libraries : List Library} {script : Script} {r : Bool} {m m' : Image}
    (h : (Compilation.ofScript name options libraries script).image = some m)
    (h' : (Compilation.ofScript name { options with release := r } libraries script).image = some m') :
    m.outline = m'.outline ∧ ∀ bytes bytes', m.encode = .ok bytes → m'.encode = .ok bytes' →
      ∀ catalog fuel requests,
        (LoadedModule.load fuel bytes catalog).map (LoadedModule.observe requests) =
          (LoadedModule.load fuel bytes' catalog).map (LoadedModule.observe requests) := by
  have houtline := outline_release h h'
  refine ⟨houtline, fun bytes bytes' hbytes hbytes' catalog fuel requests => ?_⟩
  have hread := m.decode_of_encode hbytes (Flow.verified_of_laid (symbolsOf_sound ..) (laid_of_compiled h))
  have hread' := m'.decode_of_encode hbytes' (Flow.verified_of_laid (symbolsOf_sound ..) (laid_of_compiled h'))
  have hload := LoadedModule.load_twins (Image.twins_of_outline houtline) hread hread'
    (LoadedModule.bind_mirrors houtline (methods_release h h') bytes bytes' catalog) fuel
  generalize LoadedModule.load fuel bytes catalog = o at hload ⊢
  generalize LoadedModule.load fuel bytes' catalog = o' at hload ⊢
  cases hload with
  | none => rfl
  | some hloads => exact congrArg some (hloads.observe requests)

/-- A release is loaded and answers as the sample does with the statement that nothing leads to. -/
theorem Compilation.release_unobservable_watch :
    (Compilation.ofScript "m" {} [bells] Watch.script).image = some (Watch.image true) ∧
      (Compilation.ofScript "m" { release := false } [bells] Watch.script).image =
        some (Watch.image false) ∧
      (Watch.image true).classes ≠ (Watch.image false).classes ∧
      (Watch.image true).outline = (Watch.image false).outline ∧
      ∃ bytes bytes', (Watch.image true).encode = .ok bytes ∧ (Watch.image false).encode = .ok bytes' ∧
        ∀ catalog fuel requests,
          (LoadedModule.load fuel bytes catalog).map (LoadedModule.observe requests) =
            (LoadedModule.load fuel bytes' catalog).map (LoadedModule.observe requests) := by
  obtain ⟨bytes, hbytes⟩ : ∃ bytes, (Watch.image true).encode = .ok bytes := ⟨_, rfl⟩
  obtain ⟨bytes', hbytes'⟩ : ∃ bytes, (Watch.image false).encode = .ok bytes := ⟨_, rfl⟩
  have hdiffer : (Watch.image true).classes ≠ (Watch.image false).classes := by
    simp [Watch.image, Watch.postImage, Watch.watchCodeOf, Watch.watchCode]
  obtain ⟨houtline, hload⟩ := Compilation.release_unobservable (r := false) (Watch.compiled true)
    (Watch.compiled false)
  exact ⟨Watch.compiled true, Watch.compiled false, hdiffer, houtline, bytes, bytes',
    hbytes, hbytes', hload bytes bytes' hbytes hbytes'⟩

end ClassScript
