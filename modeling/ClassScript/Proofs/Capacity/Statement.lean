import ClassScript.Compile.Module
import ClassScript.Proofs.Capacity.Expression

/-!
Compiling statements as steps of drafts.

A statement never fails as a whole: what fails in it is reported, and the code it has written stays.
`Drafted x` tells that `x` takes any draft through operations of the emitter, whatever can be reached
and whatever is left out of a release, and that locals and imports stay within what an operand can
name.
-/

namespace ClassScript

open Compile
open Emitter (maxOperand)

/-! ## Locals -/

namespace LocalScope

variable {l : LocalScope} {name : String} {sp : Span}

theorem narrow_start : start.Narrow := by
  simp [Narrow, start, find?]

theorem Narrow.open_ (h : l.Narrow) : l.open_.Narrow := h

theorem Narrow.close (h : l.Narrow) : l.close.Narrow := by
  have erased (names : List String) (v : Std.HashMap String LocalVar)
      (hv : ∀ (name : String) (x : LocalVar), v[name]? = some x → x.slot ≤ maxOperand) (name : String)
      (x : LocalVar) (hx : (names.foldl (fun v name => v.erase name) v)[name]? = some x) :
      x.slot ≤ maxOperand := by
    induction names generalizing v with
    | nil => exact hv name x hx
    | cons n names ih =>
      refine ih (v.erase n) (fun m y hy => ?_) hx
      rw [Std.HashMap.getElem?_erase] at hy
      split at hy
      · cases hy
      · exact hv m y hy
  obtain ⟨visible, blocks, size⟩ := l
  cases blocks with
  | nil => exact h
  | cons names blocks => exact erased names visible h

theorem Narrow.add (h : l.Narrow) (hfree : l.conflict? name sp = none) (type : ValueType) :
    (l.add name type).1 ≤ maxOperand ∧ (l.add name type).2.Narrow := by
  have hsize : l.frameSize ≤ maxOperand := by
    unfold conflict? at hfree
    split at hfree
    · cases hfree
    · split at hfree
      · cases hfree
      · next hfull => exact Nat.le_of_lt (Nat.lt_of_not_le hfull)
  obtain ⟨visible, blocks, size⟩ := l
  have hinsert (other : String) (x : LocalVar)
      (hx : (visible.insert name ⟨name, type, size⟩)[other]? = some x) : x.slot ≤ maxOperand := by
    rw [Std.HashMap.getElem?_insert] at hx
    split at hx
    · cases hx
      exact hsize
    · exact h other x hx
  cases blocks with
  | nil => exact ⟨hsize, hinsert⟩
  | cons names blocks => exact ⟨hsize, hinsert⟩

end LocalScope

/-! ## Emitters -/

namespace Draft

variable {d : Draft}

/-- Every label is landed by a step of its own. -/
theorem steps_landAll (labels : List Nat) (d : Draft) :
    ∃ d', d.Steps d' ∧ d'.emitter = labels.foldl Emitter.land d.emitter := by
  induction labels generalizing d with
  | nil => exact ⟨d, .refl, rfl⟩
  | cons label labels ih =>
    have hland : d.Step _ := .land label
    obtain ⟨d', hsteps, hd'⟩ := ih _
    exact ⟨d', .head hland hsteps, hd'⟩

theorem steps_inLoop (f : Loop → Loop) (d : Draft) :
    ∃ d', d.Steps d' ∧ d'.emitter = d.emitter.inLoop f := by
  obtain ⟨⟨code, pool, loops, big⟩, cells, removed⟩ := d
  cases loops with
  | nil => exact ⟨_, .refl, rfl⟩
  | cons l loops => exact ⟨_, .single (.loops (f l :: loops)), rfl⟩

theorem steps_exitLoop (d : Draft) : ∃ d', d.Steps d' ∧ d'.emitter = d.emitter.exitLoop.2 := by
  obtain ⟨⟨code, pool, loops, big⟩, cells, removed⟩ := d
  cases loops with
  | nil => exact ⟨_, .refl, rfl⟩
  | cons l loops =>
    obtain ⟨d', hsteps, hd'⟩ := steps_landAll l.breaks ⟨⟨code, pool, loops, big⟩, cells, removed⟩
    exact ⟨d', .head (.loops loops) hsteps, hd'⟩

theorem steps_landContinues (d : Draft) :
    ∃ d', d.Steps d' ∧ d'.emitter = d.emitter.landContinues := by
  obtain ⟨⟨code, pool, loops, big⟩, cells, removed⟩ := d
  cases loops with
  | nil => exact ⟨_, .refl, rfl⟩
  | cons l loops =>
    obtain ⟨d', hsteps, hd'⟩ := steps_landAll l.continues
      ⟨⟨code, pool, { l with continues := [] } :: loops, big⟩, cells, removed⟩
    exact ⟨d', .head (.loops _) hsteps, hd'⟩

/-- A jump whose label waits in the loop. -/
theorem steps_openJump (f : Nat → Loop → Loop) (d : Draft) : ∃ d', d.Steps d' ∧
    d'.emitter = (d.emitter.emitJump .jump).2.inLoop (f (d.emitter.emitJump .jump).1) := by
  have hjump : d.Step _ := .jump .jump
  obtain ⟨d', hsteps, hd'⟩ := steps_inLoop (f (d.emitter.emitJump .jump).1) _
  exact ⟨d', .head hjump hsteps, hd'⟩

theorem steps_emitBreak (reachable : Bool) (d : Draft) :
    ∃ d', d.Steps d' ∧ d'.emitter = (d.emitter.emitBreak reachable).2 := by
  unfold Emitter.emitBreak
  split
  · exact ⟨d, .refl, rfl⟩
  · exact steps_openJump (fun label l =>
      { l with breaks := l.breaks ++ [label], hasBreak := l.hasBreak || reachable }) d

theorem steps_emitContinue (reachable : Bool) (d : Draft) :
    ∃ d', d.Steps d' ∧ d'.emitter = (d.emitter.emitContinue reachable).2 := by
  unfold Emitter.emitContinue
  split
  · exact ⟨d, .refl, rfl⟩
  · obtain ⟨d', hsteps, hd'⟩ :=
      steps_inLoop (fun l => { l with hasContinue := l.hasContinue || reachable }) d
    dsimp only
    rw [← hd']
    split
    · exact ⟨_, hsteps.tail (.loop _), rfl⟩
    · obtain ⟨d'', hsteps', hd''⟩ :=
        steps_openJump (fun label l => { l with continues := l.continues ++ [label] }) d'
      exact ⟨d'', hsteps.trans hsteps', hd''⟩

end Draft

/-! ## Writing -/

structure BodyState.Holds (s : BodyState) (d : Draft) : Prop where
  emitter : s.code.emitter = d.emitter
  imports : s.code.imports.Narrow
  locals : s.locals.Narrow

/-- From every draft `x` takes steps. -/
def Drafted {α : Type} (x : Writing α) : Prop := ∀ (s : BodyState) (d : Draft), d.Spells → s.Holds d →
  ∃ d', d.Steps d' ∧ (x.run s).2.Holds d'

namespace Drafted

variable {α β : Type} {x y : Writing α} {f : α → Writing β} {site : Site} {sp : Span}

theorem pure (a : α) : Drafted (Pure.pure a) := fun _ d _ hs => ⟨d, .refl, hs⟩

theorem bind (hx : Drafted x) (hf : ∀ a, Drafted (f a)) : Drafted (x >>= f) := by
  intro s d hd hs
  obtain ⟨d', hsteps, hs'⟩ := hx s d hd hs
  obtain ⟨d'', hsteps', hs''⟩ := hf _ _ d' (hd.steps hsteps) hs'
  exact ⟨d'', hsteps.trans hsteps', hs''⟩

theorem map (hx : Drafted x) (g : α → β) : Drafted (g <$> x) := hx

theorem discard (hx : Drafted x) : Drafted (Functor.discard x) := hx

theorem report (e : Diagnostic) : Drafted (Compile.report e) :=
  fun _ d _ hs => ⟨d, .refl, hs.emitter, hs.imports, hs.locals⟩

theorem editLocals {g : LocalScope → LocalScope} (hg : ∀ l : LocalScope, l.Narrow → (g l).Narrow) :
    Drafted (Compile.editLocals g) :=
  fun _ d _ hs => ⟨d, .refl, hs.emitter, hs.imports, hg _ hs.locals⟩

theorem codeOffset : Drafted Compile.codeOffset := fun _ d _ hs => ⟨d, .refl, hs⟩

/-- An edit with an answer, if it is a sequence of steps. -/
theorem withCode {g : Emitter → α × Emitter}
    (hg : ∀ d : Draft, ∃ d', d.Steps d' ∧ d'.emitter = (g d.emitter).2) :
    Drafted (Compile.withCode g) := by
  intro s d _ hs
  obtain ⟨d', hsteps, hd'⟩ := hg d
  refine ⟨d', hsteps, ?_, hs.imports, hs.locals⟩
  rw [hd', ← hs.emitter]
  rfl

theorem editCode {g : Emitter → Emitter}
    (hg : ∀ d : Draft, ∃ d', d.Steps d' ∧ d'.emitter = g d.emitter) : Drafted (Compile.editCode g) := by
  intro s d _ hs
  obtain ⟨d', hsteps, hd'⟩ := hg d
  refine ⟨d', hsteps, ?_, hs.imports, hs.locals⟩
  rw [hd', ← hs.emitter]
  rfl

theorem emit (op : Opcode) : Drafted (Compile.editCode (·.emit op)) :=
  editCode fun _ => ⟨_, .single (.byte op.byte), rfl⟩

theorem emitWith (op : Opcode) {n : Nat} (h : n ≤ maxOperand) :
    Drafted (Compile.editCode (·.emitWith op n)) :=
  editCode fun _ => ⟨_, .tail (.single (.byte op.byte)) (.operand h), rfl⟩

theorem truncate (o : Nat) : Drafted (Compile.editCode (·.truncate o)) :=
  editCode fun _ => ⟨_, .single (.truncate o), rfl⟩

theorem emitLoop (target : Nat) : Drafted (Compile.editCode (·.emitLoop target)) :=
  editCode fun _ => ⟨_, .single (.loop target), rfl⟩

theorem land (label : Nat) : Drafted (Compile.editCode (·.land label)) :=
  editCode fun _ => ⟨_, .single (.land label), rfl⟩

theorem enterLoop (target : Option Nat) : Drafted (Compile.editCode (·.enterLoop target)) :=
  editCode fun _ => ⟨_, .single (.loops _), rfl⟩

theorem landContinues : Drafted (Compile.editCode (·.landContinues)) :=
  editCode Draft.steps_landContinues

theorem exitLoop : Drafted (Compile.withCode (·.exitLoop)) := withCode Draft.steps_exitLoop

theorem openJump (op : Opcode) : Drafted (Compile.openJump op) :=
  withCode fun _ => ⟨_, .single (.jump op), rfl⟩

/-- What an expression writes before it fails stays in the code. -/
theorem attempt {Q : α → Prop} {g : LocalScope → Compiling α}
    (hg : ∀ l : LocalScope, l.Narrow → Recorded (g l) Q) : Drafted (Compile.attempt g) := by
  rintro ⟨⟨emitter, imports⟩, locals, reports⟩ d hd ⟨hemitter, himports, hlocals⟩
  obtain rfl : emitter = d.emitter := hemitter
  obtain ⟨run, hsteps, hnarrow, -⟩ := hg locals hlocals d imports hd himports
  rename_i r d' t'
  refine ⟨d', hsteps, ?_⟩
  simp only [Compile.attempt, modifyGet, MonadStateOf.modifyGet, StateT.modifyGet, StateT.run] at run ⊢
  rw [run]
  cases r <;> exact ⟨rfl, hnarrow, hlocals⟩

theorem declareLocal (name : Ident) (type : ValueType) : Drafted (Compile.declareLocal name type) := by
  rintro ⟨⟨emitter, imports⟩, locals, reports⟩ d hd ⟨hemitter, himports, hlocals⟩
  obtain rfl : emitter = d.emitter := hemitter
  simp only [Compile.declareLocal, modify, modifyGet, MonadStateOf.modifyGet, StateT.modifyGet,
    StateT.run]
  split
  · exact ⟨d, .refl, rfl, himports, hlocals⟩
  · next hfree =>
    obtain ⟨hslot, hnarrow⟩ := hlocals.add hfree type
    exact ⟨_, .tail (.single (.byte Opcode.setLocal.byte)) (.operand hslot), rfl, himports, hnarrow⟩

/-! ## Parts of statements -/

/-- One of two steps in front of what follows. -/
theorem either {c : Prop} [Decidable c] (hx : Drafted x) (hy : Drafted y) (hf : ∀ a, Drafted (f a)) :
    Drafted (if c then x >>= f else y >>= f) := by
  split
  · exact hx.bind hf
  · exact hy.bind hf

/-- The first one of the steps comes behind another one. -/
theorem dropping {c : Prop} [Decidable c] {z : Writing Unit} (hz : Drafted z) (hx : Drafted x)
    (hy : Drafted y) (hf : ∀ a, Drafted (f a)) :
    Drafted (if c then z >>= fun _ => x >>= f else y >>= f) := by
  split
  · exact hz.bind fun _ => hx.bind hf
  · exact hy.bind hf

/-- A jump that may have been opened leads to the end of the code. -/
theorem landIf (label : Option Nat) (hx : Drafted x) : Drafted (match label with
    | some label => do
      Compile.editCode (·.land label)
      x
    | none => x) := by
  cases label with
  | none => exact hx
  | some label => exact (land label).bind fun _ => hx

/-- The way back of a `do` loop, as far as it is needed. -/
theorem goBack (known : Option Bool) (conditionStart start : Nat) (hx : Drafted x) :
    Drafted (match known with
      | some true => do
        Compile.editCode (·.truncate conditionStart)
        Compile.editCode (·.emitLoop start)
        x
      | some false => do
        Compile.editCode (·.truncate conditionStart)
        x
      | none => do
        let exit ← Compile.openJump .jumpIfFalse
        Compile.editCode (·.emitLoop start)
        Compile.editCode (·.land exit)
        x) := by
  rcases known with _ | _ | _
  · exact (openJump _).bind fun _ => (emitLoop _).bind fun _ => (land _).bind fun _ => hx
  · exact (truncate _).bind fun _ => hx
  · exact (truncate _).bind fun _ => (emitLoop _).bind fun _ => hx

section

variable (h : site.Narrow)
include h

theorem condition (e : Expr) : Drafted (Compile.condition site e) := by
  refine codeOffset.bind fun o => (attempt fun _ hl => Recorded.valueOf h hl e .bool).bind fun p => ?_
  split <;> exact pure _

theorem effects (es : List Expr) : Drafted (Compile.effects site es) := by
  induction es with
  | nil => exact pure _
  | cons e es ih => exact (attempt fun _ hl => Recorded.effect h hl e).discard.bind fun _ => ih

theorem localValue (declared : Option ValueType) (v : Declarator) (l : LocalScope) (hl : l.Narrow) :
    Recorded (Compile.localValue site declared v l) fun _ => True := by
  unfold Compile.localValue
  split
  · exact (Recorded.valueOf h hl _ _).discard.andThen fun _ => .pure trivial
  · exact (Recorded.emitValue _).andThen fun _ => .pure trivial
  · refine (Recorded.value h hl _).andThen fun p => ?_
    split
    · exact .fail _
    · exact .pure trivial
  · exact .fail _

theorem declarators (declared : Option ValueType) (vs : List Declarator) :
    Drafted (Compile.declarators site declared vs) := by
  induction vs with
  | nil => exact pure _
  | cons v vs ih =>
    refine (attempt (localValue h declared v)).bind fun type => ?_
    cases type with
    | none => exact ih
    | some type => exact (declareLocal _ _).bind fun _ => ih

theorem varDecl (v : VarDecl) : Drafted (Compile.varDecl site v) := by
  unfold Compile.varDecl
  split
  · exact report _
  · exact declarators h _ _

theorem returnValue (value : Option Expr) : Drafted (Compile.returnValue site value sp) := by
  unfold Compile.returnValue
  cases value with
  | some e =>
    dsimp only
    split
    · exact report _
    · refine (attempt fun _ hl => Recorded.valueOf h hl e site.returns).bind fun p => ?_
      cases p with
      | none => exact pure _
      | some p => exact emit _
  | none =>
    dsimp only
    split
    · exact emit _
    · exact report _

theorem forStart (first : Option ForInit) : Drafted (Compile.forStart site first) := by
  rcases first with _ | v | es
  · exact pure _
  · exact varDecl h v
  · exact effects h es

end

theorem loopJump {g : Emitter → Bool × Emitter}
    (hg : ∀ d : Draft, ∃ d', d.Steps d' ∧ d'.emitter = (g d.emitter).2) :
    Drafted (Compile.loopJump g sp) :=
  (withCode hg).bind fun b => by
    cases b with
    | true => exact pure _
    | false => exact report _

/-! ## Statements -/

/-- What is reported and dropped around a statement. -/
theorem nested {reachable parent : Bool} {s : Stmt} {x : Writing Bool} (hx : Drafted x) :
    Drafted (Compile.nested site reachable parent s x) := by
  have finished : Drafted (do
      let start ← Compile.codeOffset
      let ends ← x
      if !reachable && site.release then Compile.editCode (·.truncate start)
      return ends) := by
    refine codeOffset.bind fun o => hx.bind fun ends => ?_
    split
    · exact (truncate _).bind fun _ => pure _
    · exact pure _
  unfold Compile.nested
  dsimp only
  split
  · split
    · exact (report _).bind fun _ => finished
    · exact finished
  · exact finished

mutual

/-- A statement is written by steps, whether it is reached or not. -/
theorem statement (h : site.Narrow) (reachable : Bool) : (s : Stmt) →
    Drafted (Compile.statement site reachable s)
  | .block stmts _ => by
    simp only [Compile.statement]
    exact (editLocals fun _ hl => hl.open_).bind fun _ => (statements h _ _ _ stmts).bind fun _ =>
      (editLocals fun _ hl => hl.close).bind fun _ => pure _
  | .decl v => by
    simp only [Compile.statement]
    exact (varDecl h v).bind fun _ => pure _
  | .expr e _ => by
    simp only [Compile.statement]
    exact (attempt fun _ hl => Recorded.effect h hl e).discard.bind fun _ => pure _
  | .ifElse cond yes no _ => by
    have hyes := fun r => statement h r yes
    simp only [Compile.statement]
    refine (condition h cond).bind fun _ => (openJump _).bind fun toElse =>
      (nested (hyes _)).bind fun yesEnds => ?_
    cases no with
    | none => exact (land _).bind fun _ => pure _
    | some no =>
      have hno := fun r => statement h r no
      refine either ((openJump _).map _) (pure _) fun toEnd => (land _).bind fun _ => ?_
      exact (nested (hno _)).bind fun _ => landIf toEnd (pure _)
  | .whileLoop cond body _ => by
    have hbody := fun r => statement h r body
    simp only [Compile.statement]
    refine (condition h cond).bind fun _ =>
      dropping (truncate _) (pure _) ((openJump _).map _) fun exit => (enterLoop _).bind fun _ => ?_
    refine (nested (hbody _)).discard.bind fun _ => (emitLoop _).bind fun _ => ?_
    exact landIf exit (exitLoop.bind fun _ => pure _)
  | .doLoop body cond _ => by
    have hbody := fun r => statement h r body
    simp only [Compile.statement]
    refine codeOffset.bind fun _ => (enterLoop _).bind fun _ => (nested (hbody _)).bind fun _ =>
      landContinues.bind fun _ => (condition h cond).bind fun _ => ?_
    exact goBack _ _ _ (exitLoop.bind fun _ => pure _)
  | .forLoop first cond update body _ => by
    have hbody := fun r => statement h r body
    simp only [Compile.statement]
    refine (editLocals fun _ hl => hl.open_).bind fun _ => (forStart h first).bind fun _ =>
      codeOffset.bind fun start => ?_
    have rest (known : Option Bool) : Drafted (do
        let exit ← if known = some true then Pure.pure none else some <$> Compile.openJump .jumpIfFalse
        Compile.editCode (·.enterLoop none)
        let live := reachable && known != some false
        Functor.discard (Compile.nested site live reachable body (Compile.statement site live body))
        Compile.editCode (·.landContinues)
        Compile.effects site update
        Compile.editCode (·.emitLoop start)
        match exit with
        | some label => Compile.editCode (·.land label)
        | none => Pure.pure ()
        let loop ← Compile.withCode (·.exitLoop)
        Compile.editLocals (·.close)
        return reachable && (known != some true || loop.hasBreak)) := by
      refine either (pure _) ((openJump _).map _) fun exit => (enterLoop _).bind fun _ => ?_
      refine (nested (hbody _)).discard.bind fun _ => landContinues.bind fun _ =>
        (effects h update).bind fun _ => (emitLoop _).bind fun _ => ?_
      exact landIf exit (exitLoop.bind fun _ => (editLocals fun _ hl => hl.close).bind fun _ => pure _)
    rcases cond with _ | e
    · exact (pure _).bind fun _ => rest _
    · exact (condition h e).bind fun _ => dropping (truncate _) (pure _) (pure _) rest
  | .ret value _ => by
    simp only [Compile.statement]
    exact (returnValue h value).bind fun _ => pure _
  | .breakLoop _ => by
    simp only [Compile.statement]
    exact (loopJump (Draft.steps_emitBreak _)).bind fun _ => pure _
  | .continueLoop _ => by
    simp only [Compile.statement]
    exact (loopJump (Draft.steps_emitContinue _)).bind fun _ => pure _
  | .empty _ => by
    simp only [Compile.statement]
    exact pure _

theorem statements (h : site.Narrow) (reachable live warned : Bool) : (ss : List Stmt) →
    Drafted (Compile.statements site reachable live warned ss)
  | [] => by
    simp only [Compile.statements]
    exact pure _
  | s :: ss => by
    simp only [Compile.statements]
    exact (nested (statement h _ s)).bind fun _ => statements h _ _ _ ss

end

end Drafted
end ClassScript
