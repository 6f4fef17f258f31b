import ClassScript.Proofs.Layout.Module
import ClassScript.Proofs.Release.Expression

/-!
Compiling a script twice, once for a release.

A release leaves code out that the other one has, but what a statement adds to the tables of the
module, and what it declares, does not depend on the code, on what can be reached or on what was
reported. So both images have the same constants and the same imports.
-/

namespace ClassScript

open Compile

/-! ## Bodies -/

structure BodyState.Shares (s t : BodyState) : Prop where
  code : s.code.Shares t.code
  locals : s.locals = t.locals

/-- Run from states that share, `x` and `y` give answers that `R` relates and leave states that
share. -/
def Abreast {α : Type} (R : α → α → Prop) (x y : Writing α) : Prop :=
  ∀ s t : BodyState, s.Shares t → R (x.run s).1 (y.run t).1 ∧ (x.run s).2.Shares (y.run t).2

/-- Neither tables nor locals are changed. -/
def Quiet {α : Type} (x : Writing α) : Prop := ∀ s : BodyState,
  (x.run s).2.code.emitter.pool = s.code.emitter.pool ∧
    (x.run s).2.code.imports = s.code.imports ∧ (x.run s).2.locals = s.locals

namespace Quiet

variable {α β : Type}

theorem pure (a : α) : Quiet (Pure.pure a) := fun _ => ⟨rfl, rfl, rfl⟩

theorem bind {x : Writing α} {f : α → Writing β} (hx : Quiet x) (hf : ∀ a, Quiet (f a)) :
    Quiet (x >>= f) := by
  intro s
  obtain ⟨hpool, himports, hlocals⟩ := hx s
  obtain ⟨hpool', himports', hlocals'⟩ := hf (x.run s).1 (x.run s).2
  exact ⟨hpool'.trans hpool, himports'.trans himports, hlocals'.trans hlocals⟩

theorem report (d : Diagnostic) : Quiet (Compile.report d) := fun _ => ⟨rfl, rfl, rfl⟩

theorem editCode {f : Emitter → Emitter} (hf : ∀ e, (f e).pool = e.pool) :
    Quiet (Compile.editCode f) := fun _ => ⟨hf _, rfl, rfl⟩

theorem withCode {f : Emitter → α × Emitter} (hf : ∀ e, (f e).2.pool = e.pool) :
    Quiet (Compile.withCode f) := fun _ => ⟨hf _, rfl, rfl⟩

theorem codeOffset : Quiet Compile.codeOffset := fun _ => ⟨rfl, rfl, rfl⟩

theorem openJump (op : Opcode) : Quiet (Compile.openJump op) := withCode fun _ => rfl

theorem map {x : Writing α} (hx : Quiet x) (f : α → β) : Quiet (f <$> x) := hx

theorem landIf (label : Option Nat) {x : Writing α} (hx : Quiet x) :
    Quiet (match label with
      | some label => do
        Compile.editCode (·.land label)
        x
      | none => x) := by
  cases label with
  | none => exact hx
  | some label => exact bind (editCode fun _ => rfl) fun _ => hx

/-- The way back of a `do` loop, as far as it is needed. -/
theorem goBack (known : Option Bool) (conditionStart start : Nat) {x : Writing α} (hx : Quiet x) :
    Quiet (match known with
      | some true => do
        Compile.editCode (·.truncate conditionStart)
        Compile.editCode (·.emitLoop start)
        x
      | some false => do
        Compile.editCode (·.truncate conditionStart)
        x
      | none => do
        let exit ← Compile.openJump .jumpIfFalse
        Compile.editCode (·.emitLoop start)
        Compile.editCode (·.land exit)
        x) := by
  rcases known with _ | _ | _
  · exact bind (openJump _) fun _ => bind (editCode fun _ => rfl) fun _ =>
      bind (editCode fun _ => rfl) fun _ => hx
  · exact bind (editCode fun _ => rfl) fun _ => hx
  · exact bind (editCode fun _ => rfl) fun _ => bind (editCode fun _ => rfl) fun _ => hx

theorem pool_landAll (labels : List Nat) (e : Emitter) :
    (labels.foldl Emitter.land e).pool = e.pool := by
  induction labels generalizing e with
  | nil => rfl
  | cons label labels ih => exact ih _

theorem exitLoop : Quiet (Compile.withCode (·.exitLoop)) := withCode fun e => by
  obtain ⟨code, pool, loops, big⟩ := e
  cases loops with
  | nil => rfl
  | cons l loops => exact pool_landAll _ _

theorem landContinues : Quiet (Compile.editCode (·.landContinues)) := editCode fun e => by
  obtain ⟨code, pool, loops, big⟩ := e
  cases loops with
  | nil => rfl
  | cons l loops => exact pool_landAll _ _

theorem loopJump {f : Emitter → Bool × Emitter} (hf : ∀ e, (f e).2.pool = e.pool) (sp : Span) :
    Quiet (Compile.loopJump f sp) :=
  bind (withCode hf) fun b => by
    cases b with
    | true => exact pure _
    | false => exact report _

theorem breakLoop (reachable : Bool) (sp : Span) :
    Quiet (Compile.loopJump (·.emitBreak reachable) sp) := loopJump (fun e => by
  obtain ⟨code, pool, loops, big⟩ := e
  cases loops <;> rfl) sp

theorem continueLoop (reachable : Bool) (sp : Span) :
    Quiet (Compile.loopJump (·.emitContinue reachable) sp) := loopJump (fun e => by
  obtain ⟨code, pool, loops, big⟩ := e
  rcases loops with _ | ⟨⟨_ | target, _, _, _, _⟩, loops⟩ <;> rfl) sp

end Quiet

namespace Abreast

variable {α β : Type} {R : α → α → Prop} {S : β → β → Prop} {x y : Writing α}
  {f g : α → Writing β}

theorem bind (h : Abreast R x y) (hf : ∀ a b, R a b → Abreast S (f a) (g b)) :
    Abreast S (x >>= f) (y >>= g) := by
  intro s t hs
  obtain ⟨hR, hs⟩ := h s t hs
  exact hf _ _ hR _ _ hs

theorem pure {a b : α} (h : R a b) : Abreast R (Pure.pure a) (Pure.pure b) := fun _ _ hs => ⟨h, hs⟩

/-- What is quiet on one side does not matter. -/
theorem left {y : Writing β} (hx : Quiet x) (hf : ∀ a, Abreast S (f a) y) :
    Abreast S (x >>= f) y := by
  intro s t hs
  obtain ⟨hpool, himports, hlocals⟩ := hx s
  exact hf _ _ _ ⟨⟨hpool.trans hs.code.pool, himports.trans hs.code.imports,
    (congrArg Pool.Distinct hpool).mpr hs.code.constants,
    (congrArg ImportTable.Distinct himports).mpr hs.code.functions⟩, hlocals.trans hs.locals⟩

theorem symm (h : Abreast R x y) : Abreast (fun a b => R b a) y x := by
  intro s t hs
  obtain ⟨hR, hs⟩ := h t s ⟨hs.code.symm, hs.locals.symm⟩
  exact ⟨hR, hs.code.symm, hs.locals.symm⟩

theorem right {x : Writing β} (hy : Quiet y) (hg : ∀ a, Abreast S x (g a)) :
    Abreast S x (y >>= g) := (left hy fun a => (hg a).symm).symm

/-- One of two quiet steps in front of what follows, or one of them behind another one. -/
theorem leftIf {c : Prop} [Decidable c] {x' : Writing α} {y : Writing β} (hx : Quiet x)
    (hx' : Quiet x') (hf : ∀ a, Abreast S (f a) y) :
    Abreast S (if c then x >>= f else x' >>= f) y := by
  split
  · exact left hx hf
  · exact left hx' hf

theorem leftDrop {c : Prop} [Decidable c] {z : Writing Unit} {x' : Writing α} {y : Writing β}
    (hz : Quiet z) (hx : Quiet x) (hx' : Quiet x') (hf : ∀ a, Abreast S (f a) y) :
    Abreast S (if c then z >>= fun _ => x >>= f else x' >>= f) y := by
  split
  · exact left hz fun _ => left hx hf
  · exact left hx' hf

theorem leftLand (label : Option Nat) {x : Writing α} {y : Writing α} (h : Abreast R x y) :
    Abreast R (match label with
      | some label => do
        Compile.editCode (·.land label)
        x
      | none => x) y := by
  cases label with
  | none => exact h
  | some label => exact left (.editCode fun _ => rfl) fun _ => h

theorem quiet (hx : Quiet x) (hy : Quiet y) : Abreast Whatever x y := by
  rw [← bind_pure x, ← bind_pure y]
  exact left hx fun _ => right hy fun _ => pure trivial

theorem discard (h : Abreast R x y) :
    Abreast Whatever (Functor.discard x) (Functor.discard y) := fun s t hs => ⟨trivial, (h s t hs).2⟩

theorem editLocals (f : LocalScope → LocalScope) :
    Abreast Whatever (Compile.editLocals f) (Compile.editLocals f) :=
  fun _ _ hs => ⟨trivial, hs.code, congrArg f hs.locals⟩

/-- Both attempts succeed or both fail. -/
theorem attempt {f g : LocalScope → Compiling α} (h : ∀ locals, Parallel R (f locals) (g locals)) :
    Abreast (Option.Rel R) (Compile.attempt f) (Compile.attempt g) := by
  rintro ⟨code, locals, reports⟩ ⟨code', locals', reports'⟩ ⟨hcode, rfl⟩
  have hends := h locals code code' hcode
  change Option.Rel R (Compile.attempt f ⟨code, locals, reports⟩).1
      (Compile.attempt g ⟨code', locals, reports'⟩).1 ∧
    (Compile.attempt f ⟨code, locals, reports⟩).2.Shares
      (Compile.attempt g ⟨code', locals, reports'⟩).2
  simp only [Compile.attempt, modifyGet, MonadStateOf.modifyGet, StateT.modifyGet]
  generalize (ExceptT.run (f locals)).run code = a at hends ⊢
  generalize (ExceptT.run (g locals)).run code' = b at hends ⊢
  cases hends with
  | ok hR hs => exact ⟨.some hR, hs, rfl⟩
  | error hs => exact ⟨.none, hs, rfl⟩

/-! ## Parts of statements -/

variable {site : Site} {r : Bool} {sp : Span}

theorem valueOf (e : Expr) (type : ValueType) : Abreast (Option.Rel Pushed.Like)
    (Compile.attempt fun locals => Compile.valueOf site locals e type)
    (Compile.attempt fun locals => Compile.valueOf { site with release := r } locals e type) := by
  simp only [valueOf_release]
  exact attempt fun locals => Parallel.valueOf site locals e type

theorem effect (e : Expr) : Abreast (Option.Rel Eq)
    (Compile.attempt fun locals => Compile.effect site locals e)
    (Compile.attempt fun locals => Compile.effect { site with release := r } locals e) := by
  simp only [effect_release]
  exact attempt fun locals => Parallel.effect site locals e

/-- What is known of a condition is the same. -/
theorem condition (e : Expr) : Abreast (fun a b => a.1 = b.1) (Compile.condition site e)
    (Compile.condition { site with release := r } e) := by
  refine left .codeOffset fun o => right .codeOffset fun o' => bind (valueOf e .bool) fun a b hab => ?_
  cases hab with
  | none => exact pure rfl
  | @some p q h =>
    obtain ⟨type, constant, start⟩ := p
    obtain ⟨type', constant', start'⟩ := q
    obtain ⟨rfl, rfl⟩ := h
    cases constant with
    | none => exact pure rfl
    | some v => cases v <;> exact pure rfl

theorem effects (es : List Expr) : Abreast Whatever (Compile.effects site es)
    (Compile.effects { site with release := r } es) := by
  induction es with
  | nil => exact pure trivial
  | cons e es ih => exact bind (discard (effect e)) fun _ _ _ => ih

theorem localValue (declared : Option ValueType) (v : Declarator) (locals : LocalScope) :
    Parallel Eq (Compile.localValue site declared v locals)
      (Compile.localValue { site with release := r } declared v locals) := by
  unfold Compile.localValue
  split
  · rw [valueOf_release (r := r)]
    exact .bind (.discard (Parallel.valueOf site locals _ _)) fun _ _ _ => .pure rfl
  · exact .bind (.emitValue _) fun _ _ _ => .pure rfl
  · rw [value_release (r := r)]
    refine .bind (Parallel.value site locals _) fun p q h => ?_
    rw [h.type]
    split
    · exact .fail _ _ _ _
    · exact .pure rfl
  · exact .fail _ _ _ _

theorem declareLocal (name : Ident) (type : ValueType) :
    Abreast Whatever (Compile.declareLocal name type) (Compile.declareLocal name type) := by
  rintro ⟨⟨emitter, imports⟩, locals, reports⟩ ⟨⟨emitter', imports'⟩, locals', reports'⟩ ⟨hcode, rfl⟩
  refine ⟨trivial, ?_⟩
  simp only [StateT.run, Compile.declareLocal, modify, modifyGet, MonadStateOf.modifyGet,
    StateT.modifyGet]
  split
  · exact ⟨hcode, rfl⟩
  · exact ⟨⟨hcode.pool, hcode.imports, hcode.constants, hcode.functions⟩, rfl⟩

theorem declarators (declared : Option ValueType) (vs : List Declarator) :
    Abreast Whatever (Compile.declarators site declared vs)
      (Compile.declarators { site with release := r } declared vs) := by
  induction vs with
  | nil => exact pure trivial
  | cons v vs ih =>
    refine bind (attempt (localValue declared v)) fun a b hab => ?_
    cases hab with
    | none => exact ih
    | some h =>
      subst h
      exact bind (declareLocal _ _) fun _ _ _ => ih

theorem varDecl (d : VarDecl) :
    Abreast Whatever (Compile.varDecl site d) (Compile.varDecl { site with release := r } d) := by
  have hdeclared : declaredType { site with release := r } d = declaredType site d := rfl
  unfold Compile.varDecl
  rw [hdeclared]
  cases declaredType site d with
  | error e => exact quiet (.report _) (.report _)
  | ok declared => exact declarators _ _

theorem returnValue (value : Option Expr) : Abreast Whatever (Compile.returnValue site value sp)
    (Compile.returnValue { site with release := r } value sp) := by
  unfold Compile.returnValue
  cases value with
  | some e =>
    dsimp only
    split
    · exact quiet (.report _) (.report _)
    · refine bind (valueOf e _) fun a b hab => ?_
      cases hab with
      | none => exact pure trivial
      | some => exact quiet (.editCode fun _ => rfl) (.editCode fun _ => rfl)
  | none =>
    dsimp only
    split
    · exact quiet (.editCode fun _ => rfl) (.editCode fun _ => rfl)
    · exact quiet (.report _) (.report _)

theorem forStart (start : Option ForInit) : Abreast Whatever (Compile.forStart site start)
    (Compile.forStart { site with release := r } start) := by
  rcases start with _ | d | es
  · exact pure trivial
  · exact varDecl d
  · exact effects es

/-! ## Statements -/

/-- What is reported and dropped around a statement is quiet. -/
theorem around {reachable parent : Bool} {s : Stmt} {x y : Writing Bool} (h : Abreast Whatever x y) :
    Abreast Whatever (Compile.nested site reachable parent s x) y := by
  have finished : Abreast Whatever (do
      let start ← codeOffset
      let ends ← x
      if !reachable && site.release then editCode (·.truncate start)
      return ends) y := by
    refine left .codeOffset fun o => ?_
    rw [← bind_pure y]
    refine bind h fun _ _ _ => quiet ?_ (.pure _)
    split
    · exact .bind (.editCode fun _ => rfl) fun _ => .pure _
    · exact .pure _
  unfold Compile.nested
  dsimp only
  split
  · split
    · exact left (.report _) fun _ => finished
    · exact finished
  · exact finished

theorem nested {reachable reachable' parent parent' : Bool} {s s' : Stmt} {x y : Writing Bool}
    (h : Abreast Whatever x y) : Abreast Whatever (Compile.nested site reachable parent s x)
      (Compile.nested { site with release := r } reachable' parent' s' y) :=
  (around (around h).symm).symm

mutual

/-- A statement adds the same to the tables in a release, whether it is reached or not. -/
theorem statement (reachable reachable' : Bool) : (s : Stmt) →
    Abreast Whatever (Compile.statement site reachable s)
      (Compile.statement { site with release := r } reachable' s)
  | .block stmts _ => by
    simp only [Compile.statement]
    exact bind (editLocals _) fun _ _ _ => bind (statements _ _ _ _ _ _ stmts) fun _ _ _ =>
      bind (editLocals _) fun _ _ _ => pure trivial
  | .decl d => by
    simp only [Compile.statement]
    exact bind (varDecl d) fun _ _ _ => pure trivial
  | .expr e _ => by
    simp only [Compile.statement]
    exact bind (discard (effect e)) fun _ _ _ => pure trivial
  | .ifElse cond yes no _ => by
    have hyes := fun a b => statement a b yes
    simp only [Compile.statement]
    refine bind (condition cond) fun _ _ _ => left (.openJump _) fun _ => right (.openJump _) fun _ =>
      bind (nested (hyes _ _)) fun _ _ _ => ?_
    cases no with
    | none =>
      exact quiet (.bind (.editCode fun _ => rfl) fun _ => .pure _)
        (.bind (.editCode fun _ => rfl) fun _ => .pure _)
    | some no =>
      have hno := fun a b => statement a b no
      refine leftIf (.map (.openJump _) _) (.pure _) fun _ => left (.editCode fun _ => rfl) fun _ =>
        symm (leftIf (.map (.openJump _) _) (.pure _) fun _ => left (.editCode fun _ => rfl) fun _ =>
          symm (bind (nested (hno _ _)) fun _ _ _ => ?_))
      exact quiet (.landIf _ (.pure _)) (.landIf _ (.pure _))
  | .whileLoop cond body _ => by
    have hbody := fun a b => statement a b body
    simp only [Compile.statement]
    refine bind (condition cond) fun _ _ _ =>
      leftDrop (.editCode fun _ => rfl) (.pure _) (.map (.openJump _) _) fun _ =>
        left (.editCode fun _ => rfl) fun _ =>
          symm (leftDrop (.editCode fun _ => rfl) (.pure _) (.map (.openJump _) _) fun _ =>
            left (.editCode fun _ => rfl) fun _ =>
              symm (bind (discard (nested (hbody _ _))) fun _ _ _ => ?_))
    exact quiet (.bind (.editCode fun _ => rfl) fun _ => .landIf _ (.bind .exitLoop fun _ => .pure _))
      (.bind (.editCode fun _ => rfl) fun _ => .landIf _ (.bind .exitLoop fun _ => .pure _))
  | .doLoop body cond _ => by
    have hbody := fun a b => statement a b body
    simp only [Compile.statement]
    refine left .codeOffset fun _ => right .codeOffset fun _ => left (.editCode fun _ => rfl) fun _ =>
      right (.editCode fun _ => rfl) fun _ => bind (nested (hbody _ _)) fun _ _ _ =>
        left .landContinues fun _ => right .landContinues fun _ => bind (condition cond) fun _ _ _ => ?_
    exact quiet (.goBack _ _ _ (.bind .exitLoop fun _ => .pure _))
      (.goBack _ _ _ (.bind .exitLoop fun _ => .pure _))
  | .forLoop first cond update body _ => by
    have hbody := fun a b => statement a b body
    simp only [Compile.statement]
    refine bind (editLocals _) fun _ _ _ => bind (forStart first) fun _ _ _ =>
      left .codeOffset fun _ => right .codeOffset fun _ => ?_
    rcases cond with _ | e
    on_goal 1 => refine left (.pure _) fun _ => symm (left (.pure _) fun _ => symm ?_)
    on_goal 2 =>
      refine bind (condition e) fun _ _ _ =>
        leftDrop (.editCode fun _ => rfl) (.pure _) (.pure _) fun _ =>
          symm (leftDrop (.editCode fun _ => rfl) (.pure _) (.pure _) fun _ => symm ?_)
    all_goals
      refine leftIf (.pure _) (.map (.openJump _) _) fun _ => left (.editCode fun _ => rfl) fun _ =>
        symm (leftIf (.pure _) (.map (.openJump _) _) fun _ => left (.editCode fun _ => rfl) fun _ =>
          symm (bind (discard (nested (hbody _ _))) fun _ _ _ => left .landContinues fun _ =>
            right .landContinues fun _ => bind (effects update) fun _ _ _ =>
              left (.editCode fun _ => rfl) fun _ => right (.editCode fun _ => rfl) fun _ => ?_))
      exact leftLand _ (symm (leftLand _ (symm (left .exitLoop fun _ => right .exitLoop fun _ =>
        bind (editLocals _) fun _ _ _ => pure trivial))))
  | .ret value _ => by
    simp only [Compile.statement]
    exact bind (returnValue value) fun _ _ _ => pure trivial
  | .breakLoop _ => by
    simp only [Compile.statement]
    exact quiet (.bind (.breakLoop _ _) fun _ => .pure _) (.bind (.breakLoop _ _) fun _ => .pure _)
  | .continueLoop _ => by
    simp only [Compile.statement]
    exact quiet (.bind (.continueLoop _ _) fun _ => .pure _)
      (.bind (.continueLoop _ _) fun _ => .pure _)
  | .empty _ => by
    simp only [Compile.statement]
    exact pure trivial

theorem statements (reachable live warned reachable' live' warned' : Bool) : (ss : List Stmt) →
    Abreast Whatever (Compile.statements site reachable live warned ss)
      (Compile.statements { site with release := r } reachable' live' warned' ss)
  | [] => by
    simp only [Compile.statements]
    exact pure trivial
  | s :: ss => by
    simp only [Compile.statements]
    exact bind (nested (statement _ _ s)) fun _ _ _ => statements _ _ _ _ _ _ ss

end

/-! ## Methods -/

theorem declareParams (ps : List Param) (ts : List ValueType) :
    Abreast Whatever (Compile.declareParams ps ts) (Compile.declareParams ps ts) := by
  induction ps generalizing ts with
  | nil => exact pure trivial
  | cons p ps ih =>
    cases ts with
    | nil => exact pure trivial
    | cons t ts =>
      refine bind (R := Whatever) ?_ fun _ _ _ => ih ts
      rintro ⟨code, locals, reports⟩ ⟨code', locals', reports'⟩ ⟨hcode, rfl⟩
      refine ⟨trivial, ?_⟩
      simp only [StateT.run, modify, modifyGet, MonadStateOf.modifyGet, StateT.modifyGet]
      split
      · exact ⟨hcode, rfl⟩
      · exact ⟨hcode, rfl⟩

theorem body (sp : Span) (b : Body) : Abreast Whatever (Compile.body site sp b)
    (Compile.body { site with release := r } sp b) := by
  cases b with
  | block stmts blockSpan =>
    refine bind (statement true true (.block stmts blockSpan)) fun _ _ _ => quiet ?_ ?_
    all_goals
      split
      · split
        · exact .editCode fun _ => rfl
        · exact .report _
      · exact .pure _
  | arrow e =>
    simp only [Compile.body]
    split
    · refine bind (effect e) fun a b hab => ?_
      cases hab with
      | none => exact pure trivial
      | some => exact quiet (.editCode fun _ => rfl) (.editCode fun _ => rfl)
    · refine bind (valueOf e _) fun a b hab => ?_
      cases hab with
      | none => exact pure trivial
      | some => exact quiet (.editCode fun _ => rfl) (.editCode fun _ => rfl)

theorem initializers (op : Opcode) (fs : List FieldSymbol) :
    Abreast Whatever (Compile.initializers site op fs)
      (Compile.initializers { site with release := r } op fs) := by
  induction fs with
  | nil => exact pure trivial
  | cons f fs ih =>
    simp only [Compile.initializers]
    split
    · refine bind (valueOf _ _) fun a b hab => ?_
      cases hab with
      | none => exact ih
      | some => exact left (.editCode fun _ => rfl) fun _ => right (.editCode fun _ => rfl) fun _ => ih
    · exact ih

theorem methodCode (f : MethodSymbol) (code code' : Code) :
    Abreast Whatever (Compile.methodCode site f code)
      (Compile.methodCode { site with release := r } f code') := by
  unfold Compile.methodCode
  split
  · exact bind (declareParams _ _) fun _ _ _ => left (.editCode fun _ => rfl) fun _ =>
      right (.editCode fun _ => rfl) fun _ => body _ _
  · exact quiet (.bind (.editCode fun _ => rfl) fun _ => .editCode fun _ => rfl)
      (.bind (.editCode fun _ => rfl) fun _ => .editCode fun _ => rfl)

end Abreast

/-! ## Modules -/

structure ModuleState.Shares (m n : ModuleState) : Prop where
  pool : m.pool = n.pool
  imports : m.imports = n.imports
  constants : m.pool.Distinct
  functions : m.imports.Distinct

namespace ModuleState.Shares

variable {m n : ModuleState} {c : ClassSite} {r : Bool}

theorem start : ModuleState.start.Shares .start :=
  ⟨rfl, rfl, Pool.distinct_empty, ImportTable.distinct_empty⟩

theorem finishMethod {s t : BodyState} (site site' : Site) (sp sp' : Span) (h : s.Shares t) :
    (Compile.finishMethod site sp s).2.Shares (Compile.finishMethod site' sp' t).2 := by
  obtain ⟨hpool, himports, hconstants, hfunctions⟩ := h.code
  unfold Compile.finishMethod
  dsimp only
  split <;> split <;> exact ⟨hpool, himports, hconstants, hfunctions⟩

theorem writeMethod (h : m.Shares n) (site site' : Site) (sp sp' : Span) {x y : Writing Unit}
    (hxy : Abreast Whatever x y) :
    (Compile.writeMethod site sp x m).2.Shares (Compile.writeMethod site' sp' y n).2 := by
  have hbegin : (beginMethod m).Shares (beginMethod n) :=
    ⟨⟨h.pool, h.imports, h.constants, h.functions⟩, rfl⟩
  exact finishMethod _ _ _ _ (hxy _ _ hbegin).2

theorem initializerCode (h : m.Shares n) (isStatic : Bool) :
    (Compile.initializerCode c isStatic m).2.Shares
      (Compile.initializerCode { c with release := r } isStatic n).2 :=
  h.writeMethod _ _ _ _ (.initializers _ _)

theorem method (h : m.Shares n) (i i' s s' : Code) (f : MethodSymbol) :
    (Compile.method c i s f m).2.Shares (Compile.method { c with release := r } i' s' f n).2 :=
  h.writeMethod _ _ _ _ (.methodCode f _ _)

theorem inOrder {α β : Type} {f g : α → ModuleState → β × ModuleState} {as bs : List α}
    (hfg : List.Forall₂ (fun a b => ∀ m n : ModuleState, m.Shares n → (f a m).2.Shares (g b n).2)
      as bs) (h : m.Shares n) : (Compile.inOrder f as m).2.Shares (Compile.inOrder g bs n).2 := by
  induction hfg generalizing m n with
  | nil => exact h
  | cons hab _ ih => exact ih (hab m n h)

theorem classImage (h : m.Shares n) :
    (Compile.classImage c m).2.Shares (Compile.classImage { c with release := r } n).2 := by
  refine inOrder (List.forall₂_same.mpr fun f _ m n h => ?_)
    ((h.initializerCode false).initializerCode true)
  exact h.method _ _ _ _ f

end ModuleState.Shares

/-- No constant and no function has two places. -/
structure Tables.Distinct (T : Tables) : Prop where
  constants : ∀ (i j : Nat) (c : Constant), T.constants[i]? = some c → T.constants[j]? = some c →
    i = j
  imports : ∀ (i j : Nat) (a b : NativeImport), T.imports[i]? = some a → T.imports[j]? = some b →
    a.identity = b.identity → i = j

theorem Compilation.classesOf_shares (options : Options) (libraries : List Library)
    (script : Script) (r : Bool) : (Layout.classesOf options libraries script).2.Shares
      (Layout.classesOf { options with release := r } libraries script).2 := by
  refine ModuleState.Shares.inOrder (List.forall₂_map_left_iff.mpr
    (List.forall₂_map_right_iff.mpr (List.forall₂_same.mpr ?_))) .start
  intro _ _ m n h
  exact h.classImage

/-- A release has the same constants and the same imports. -/
theorem Compilation.tables_release {name : String} {options : Options} {libraries : List Library}
    {script : Script} {r : Bool} {m m' : Image}
    (h : (Compilation.ofScript name options libraries script).image = some m)
    (h' : (Compilation.ofScript name { options with release := r } libraries script).image = some m') :
    m'.constants = m.constants ∧ m'.imports = m.imports ∧
      Tables.Distinct ⟨m.constants, m.imports⟩ := by
  have hs := classesOf_shares options libraries script r
  rw [Layout.image_eq h, Layout.image_eq h', hs.pool, hs.imports]
  refine ⟨rfl, rfl, fun i j c hi hj => ?_, fun i j a b hi hj hab => ?_⟩
  · have distinct := hs.pool ▸ hs.constants
    exact Option.some.inj ((distinct i c hi).symm.trans (distinct j c hj))
  · have distinct := hs.imports ▸ hs.functions
    exact Option.some.inj ((distinct i a hi).symm.trans (hab ▸ distinct j b hj))

end ClassScript
