import ClassScript.Compile.Module
import ClassScript.Proofs.Reorder.Expression

/-!
Statements compile in both orders.

`Retraces ok x y` tells that wherever `x` leaves only reports that `ok` lets pass, so does `y`, from and
to states that trail, with the same answer. For this, the steps of a statement are first written one
behind the other.
-/

namespace ClassScript

open Compile

/-! ## Statements as steps in a row -/

namespace Compile

/-- Warns about a statement, unless nothing stands in it. -/
def warnIf (c : Bool) (s : Stmt) : Writing Unit :=
  if c then
    match firstSpan? s with
    | some span => report (unreachableCode span)
    | none => pure ()
  else pure ()

def dropIf (c : Bool) (o : Nat) : Writing Unit :=
  if c then editCode (·.truncate o) else pure ()

def openIf (c : Bool) (op : Opcode) : Writing (Option Nat) :=
  if c then some <$> openJump op else pure none

def landIf : Option Nat → Writing Unit
  | some label => editCode (·.land label)
  | none => pure ()

def comeBack (conditionStart start : Nat) : Option Bool → Writing Unit
  | some true => do
    editCode (·.truncate conditionStart)
    editCode (·.emitLoop start)
  | some false => editCode (·.truncate conditionStart)
  | none => do
    let exit ← openJump .jumpIfFalse
    editCode (·.emitLoop start)
    editCode (·.land exit)

/-- What is known of the condition of a `for` loop, of which nothing is left where it is known to
hold. -/
def forCondition (site : Site) : Option Expr → Writing (Option Bool)
  | none => pure (some true)
  | some e => do
    let c ← condition site e
    dropIf (c.1 == some true) c.2
    pure c.1

variable {site : Site} {reachable parent : Bool} {s body yes no : Stmt} {k : Writing Bool} {cond : Expr}
  {sp : Span}

theorem nested_eq : nested site reachable parent s k = (do
    warnIf (parent && !reachable) s
    let start ← codeOffset
    let ends ← k
    dropIf (!reachable && site.release) start
    pure ends) := by
  unfold nested warnIf dropIf
  generalize site.release = drops
  cases reachable <;> cases parent <;> cases drops <;> cases firstSpan? s <;> rfl

theorem statement_ifThen : statement site reachable (.ifElse cond yes none sp) = (do
    let c ← condition site cond
    let toElse ← openJump .jumpIfFalse
    let live := reachable && c.1 != some false
    let yesEnds ← nested site live reachable yes (statement site live yes)
    editCode (·.land toElse)
    pure (yesEnds || (reachable && c.1 != some true))) := by
  simp only [statement]

theorem statement_ifElse : statement site reachable (.ifElse cond yes (some no) sp) = (do
    let c ← condition site cond
    let toElse ← openJump .jumpIfFalse
    let live := reachable && c.1 != some false
    let yesEnds ← nested site live reachable yes (statement site live yes)
    let toEnd ← openIf yesEnds .jump
    editCode (·.land toElse)
    let elseLive := reachable && c.1 != some true
    let noEnds ← nested site elseLive reachable no (statement site elseLive no)
    landIf toEnd
    pure (yesEnds || noEnds)) := by
  simp only [statement]
  refine congrArg (condition site cond >>= ·) (funext fun c => ?_)
  refine congrArg (openJump .jumpIfFalse >>= ·) (funext fun toElse => ?_)
  refine congrArg (nested _ _ _ _ _ >>= ·) (funext fun yesEnds => ?_)
  cases yesEnds <;> rfl

theorem statement_whileLoop : statement site reachable (.whileLoop cond body sp) = (do
    let c ← condition site cond
    dropIf (c.1 == some true) c.2
    let exit ← openIf (c.1 != some true) .jumpIfFalse
    editCode (·.enterLoop (some c.2))
    let live := reachable && c.1 != some false
    discard (nested site live reachable body (statement site live body))
    editCode (·.emitLoop c.2)
    landIf exit
    let loop ← withCode (·.exitLoop)
    pure (reachable && (c.1 != some true || loop.hasBreak))) := by
  simp only [statement]
  refine congrArg (condition site cond >>= ·) (funext fun c => ?_)
  obtain ⟨_ | _ | _, start⟩ := c <;> rfl

theorem statement_doLoop : statement site reachable (.doLoop body cond sp) = (do
    let start ← codeOffset
    editCode (·.enterLoop none)
    let ends ← nested site reachable reachable body (statement site reachable body)
    editCode (·.landContinues)
    let c ← condition site cond
    comeBack c.2 start c.1
    let loop ← withCode (·.exitLoop)
    pure (loop.hasBreak || (c.1 != some true && (ends || loop.hasContinue)))) := by
  simp only [statement]
  refine congrArg (codeOffset >>= ·) (funext fun start => ?_)
  refine congrArg (editCode _ >>= ·) (funext fun _ => ?_)
  refine congrArg (nested _ _ _ _ _ >>= ·) (funext fun ends => ?_)
  refine congrArg (editCode _ >>= ·) (funext fun _ => ?_)
  refine congrArg (condition site cond >>= ·) (funext fun c => ?_)
  obtain ⟨_ | _ | _, start⟩ := c <;> rfl

theorem statement_forLoop {first : Option ForInit} {cond : Option Expr} {update : List Expr} :
    statement site reachable (.forLoop first cond update body sp) = (do
      editLocals (·.open_)
      forStart site first
      let start ← codeOffset
      let known ← forCondition site cond
      let exit ← openIf (known != some true) .jumpIfFalse
      editCode (·.enterLoop none)
      let live := reachable && known != some false
      discard (nested site live reachable body (statement site live body))
      editCode (·.landContinues)
      effects site update
      editCode (·.emitLoop start)
      landIf exit
      let loop ← withCode (·.exitLoop)
      editLocals (·.close)
      pure (reachable && (known != some true || loop.hasBreak))) := by
  simp only [statement]
  refine congrArg (editLocals _ >>= ·) (funext fun _ => ?_)
  refine congrArg (forStart site first >>= ·) (funext fun _ => ?_)
  refine congrArg (codeOffset >>= ·) (funext fun start => ?_)
  cases cond with
  | none => rfl
  | some e =>
    simp only [forCondition, bind_assoc, pure_bind]
    refine congrArg (condition site e >>= ·) (funext fun c => ?_)
    obtain ⟨_ | _ | _, conditionStart⟩ := c <;> rfl

end Compile

/-- Whether a name can be declared does not depend on where it stands. -/
theorem LocalScope.free_of_free {l : LocalScope} {name : String} {sp : Span}
    (h : l.conflict? name sp = none) (sp' : Span) : l.conflict? name sp' = none := by
  unfold LocalScope.conflict? at h ⊢
  split at h
  · cases h
  · next hnew =>
    rw [if_neg hnew]
    split at h
    · cases h
    · next hroom => rw [if_neg hroom]

/-! ## Runs of statements -/

/-- Reports that are let pass: no errors, and warnings wherever they point. -/
structure Lenient (ok : Diagnostic → Prop) : Prop where
  errors : ∀ e : SemanticError, ¬ok e.diagnostic
  warnings : ∀ sp sp' : Span, ok (unreachableCode sp) → ok (unreachableCode sp')

structure BodyState.Trails (ok : Diagnostic → Prop) (T : Tables) (t s : BodyState) : Prop where
  code : t.code.Trails T s.code
  locals : t.locals = s.locals
  reports : ∀ d ∈ t.reports, ok d

/-- Where `x` leaves only reports that are let pass, `y` does, from and to states that trail, with
the same answer. -/
structure Retraces {α : Type} (ok : Diagnostic → Prop) (x y : Writing α) : Prop where
  /-- No report is taken back. -/
  kept : ∀ s : BodyState, ∀ d ∈ s.reports, d ∈ (x.run s).2.reports
  settled : ∀ s : BodyState, s.code.Settled → (∀ d ∈ (x.run s).2.reports, ok d) →
    (x.run s).2.code.Settled ∧ s.code.Grew (x.run s).2.code
  trails : ∀ s : BodyState, s.code.Settled → (∀ d ∈ (x.run s).2.reports, ok d) →
    ∀ (T : Tables) (t : BodyState), T.Small → (x.run s).2.code.Within T → t.Trails ok T s →
      (y.run t).1 = (x.run s).1 ∧ (y.run t).2.Trails ok T (x.run s).2

namespace Retraces

variable {α β : Type} {ok : Diagnostic → Prop} {x y : Writing α} {site site' : Site}

theorem pure (a : α) : Retraces ok (Pure.pure a) (Pure.pure a) :=
  ⟨fun _ _ hd => hd, fun s hs _ => ⟨hs, .refl s.code⟩, fun _ _ _ _ _ _ _ ht => ⟨rfl, ht⟩⟩

theorem bind {f g : α → Writing β} (h : Retraces ok x y) (hf : ∀ a, Retraces ok (f a) (g a)) :
    Retraces ok (x >>= f) (y >>= g) := by
  have hfront (s : BodyState) (hok : ∀ d ∈ ((x >>= f).run s).2.reports, ok d) :
      ∀ d ∈ (x.run s).2.reports, ok d := fun d hd => hok d ((hf (x.run s).1).kept _ d hd)
  refine ⟨fun s d hd => (hf (x.run s).1).kept _ d (h.kept s d hd), fun s hs hok => ?_,
    fun s hs hok T t hT hw ht => ?_⟩
  · obtain ⟨hu, hgrew⟩ := h.settled s hs (hfront s hok)
    obtain ⟨hv, hgrew'⟩ := (hf (x.run s).1).settled _ hu hok
    exact ⟨hv, hgrew.trans hgrew'⟩
  · obtain ⟨hu, -⟩ := h.settled s hs (hfront s hok)
    obtain ⟨-, hgrew⟩ := (hf (x.run s).1).settled _ hu hok
    obtain ⟨ha, ht'⟩ := h.trails s hs (hfront s hok) T t hT (hgrew.within hw) ht
    change ((g (y.run t).1).run (y.run t).2).1 = _ ∧ ((g (y.run t).1).run (y.run t).2).2.Trails ok T _
    rw [ha]
    exact (hf (x.run s).1).trails _ hu hok T _ hT hw ht'

theorem map (h : Retraces ok x y) (f : α → β) : Retraces ok (f <$> x) (f <$> y) where
  kept := h.kept
  settled := h.settled
  trails s hs hok T t hT hw ht := by
    obtain ⟨ha, ht'⟩ := h.trails s hs hok T t hT hw ht
    exact ⟨congrArg f ha, ht'⟩

theorem discard (h : Retraces ok x y) : Retraces ok (Functor.discard x) (Functor.discard y) :=
  h.map _

theorem ite {c : Prop} [Decidable c] {x' y' : Writing α} (h : Retraces ok x y)
    (h' : Retraces ok x' y') : Retraces ok (if c then x else x') (if c then y else y') := by
  split <;> assumption

/-- Nothing has to be done again where there is an error. -/
theorem error (hok : Lenient ok) (e : SemanticError) (y : Writing Unit) :
    Retraces ok (Compile.report e.diagnostic) y where
  kept _ _ hd := List.mem_cons_of_mem _ hd
  settled _ _ hreports := absurd (hreports e.diagnostic (List.mem_cons_self ..)) (hok.errors e)
  trails _ _ hreports := absurd (hreports e.diagnostic (List.mem_cons_self ..)) (hok.errors e)

theorem warn (hok : Lenient ok) (sp sp' : Span) :
    Retraces ok (Compile.report (unreachableCode sp)) (Compile.report (unreachableCode sp')) where
  kept _ _ hd := List.mem_cons_of_mem _ hd
  settled s hs _ := ⟨hs, .refl s.code⟩
  trails s hs hreports T t _ _ ht := by
    refine ⟨rfl, ht.code, ht.locals, fun d hd => ?_⟩
    obtain rfl | hd := List.mem_cons.mp hd
    · exact hok.warnings sp sp' (hreports _ (List.mem_cons_self ..))
    · exact ht.reports d hd

/-- Changes of the code that are level on one level. -/
theorem withCode {f : Emitter → α × Emitter} (h : Emitter.Evenly (fun e => (f e).2) fun e => (f e).2)
    (ha : ∀ e e' : Emitter, e.Level e' → (f e').1 = (f e).1) :
    Retraces ok (Compile.withCode f) (Compile.withCode f) where
  kept _ _ hd := hd
  settled s hs _ := by
    have hpool := h.pool s.code.emitter
    refine ⟨⟨?_, fun hbig => ?_, hs.imports⟩, ⟨?_, List.prefix_rfl⟩⟩
    · exact hpool ▸ hs.tables
    · exact hpool ▸ hs.constants (h.oversized _ hbig)
    · exact (congrArg (·.entries.toList) hpool).symm ▸ List.prefix_rfl
  trails s _ _ T t _ _ ht := by
    refine ⟨ha _ _ ht.code.level, ⟨h.level _ _ ht.code.level, ?_, ?_⟩, ht.locals, ht.reports⟩
    · exact (h.pool' t.code.emitter) ▸ ht.code.tables
    · exact (h.pool' t.code.emitter) ▸ ht.code.inside

theorem editCode {f g : Emitter → Emitter} (h : Emitter.Evenly f g) :
    Retraces ok (Compile.editCode f) (Compile.editCode g) where
  kept _ _ hd := hd
  settled s hs _ := by
    have hpool := h.pool s.code.emitter
    refine ⟨⟨?_, fun hbig => ?_, hs.imports⟩, ⟨?_, List.prefix_rfl⟩⟩
    · exact hpool ▸ hs.tables
    · exact hpool ▸ hs.constants (h.oversized _ hbig)
    · exact (congrArg (·.entries.toList) hpool).symm ▸ List.prefix_rfl
  trails s _ _ T t _ _ ht := by
    refine ⟨rfl, ⟨h.level _ _ ht.code.level, ?_, ?_⟩, ht.locals, ht.reports⟩
    · exact (h.pool' t.code.emitter) ▸ ht.code.tables
    · exact (h.pool' t.code.emitter) ▸ ht.code.inside

theorem editLocals (f : LocalScope → LocalScope) :
    Retraces ok (Compile.editLocals f) (Compile.editLocals f) where
  kept _ _ hd := hd
  settled s hs _ := ⟨hs, .refl s.code⟩
  trails _ _ _ _ _ _ _ ht := ⟨rfl, ht.code, congrArg f ht.locals, ht.reports⟩

theorem codeOffset : Retraces ok Compile.codeOffset Compile.codeOffset where
  kept _ _ hd := hd
  settled s hs _ := ⟨hs, .refl s.code⟩
  trails _ _ _ _ _ _ _ ht := ⟨ht.code.level.size.symm, ht⟩

/-- An expression that fails is an error; otherwise the other one does not fail either. -/
theorem attempt (hok : Lenient ok) {f g : LocalScope → Compiling α}
    (h : ∀ l, Follows Eq (f l) (g l)) : Retraces ok (Compile.attempt f) (Compile.attempt g) := by
  have hsucceeds {f : LocalScope → Compiling α} {s : BodyState} {a : α} {u : CodeState}
      (hx : Returns (f s.locals) s.code a u) :
      (Compile.attempt f).run s = (some a, ⟨u, s.locals, s.reports⟩) := by
    change Compile.attempt f ⟨s.code, s.locals, s.reports⟩ = _
    simp only [Compile.attempt, modifyGet, MonadStateOf.modifyGet, StateT.modifyGet]
    rw [show (ExceptT.run (f s.locals)).run s.code = (.ok a, u) from hx]
    rfl
  have hfails {s : BodyState} {e : SemanticError} {u : CodeState}
      (hx : (ExceptT.run (f s.locals)).run s.code = (.error e, u)) :
      (Compile.attempt f).run s = (none, ⟨u, s.locals, e.diagnostic :: s.reports⟩) := by
    change Compile.attempt f ⟨s.code, s.locals, s.reports⟩ = _
    simp only [Compile.attempt, modifyGet, MonadStateOf.modifyGet, StateT.modifyGet]
    rw [hx]
    rfl
  have hreturns {s : BodyState} (hreports : ∀ d ∈ ((Compile.attempt f).run s).2.reports, ok d) :
      ∃ a u, Returns (f s.locals) s.code a u ∧
        (Compile.attempt f).run s = (some a, ⟨u, s.locals, s.reports⟩) := by
    rcases hx : (ExceptT.run (f s.locals)).run s.code with ⟨e | a, u⟩
    · rw [hfails hx] at hreports
      exact absurd (hreports e.diagnostic (List.mem_cons_self ..)) (hok.errors e)
    · exact ⟨a, u, hx, hsucceeds hx⟩
  refine ⟨fun s d hd => ?_, fun s hs hreports => ?_, fun s hs hreports T t hT hw ht => ?_⟩
  · rcases hx : (ExceptT.run (f s.locals)).run s.code with ⟨e | a, u⟩
    · rw [hfails hx]
      exact List.mem_cons_of_mem _ hd
    · rw [hsucceeds hx]
      exact hd
  · obtain ⟨a, u, hx, hs'⟩ := hreturns hreports
    rw [hs']
    obtain ⟨hu, hgrew, -⟩ := h s.locals s.code a u hs hx
    exact ⟨hu, hgrew⟩
  · obtain ⟨a, u, hx, hs'⟩ := hreturns hreports
    rw [hs'] at hw ⊢
    obtain ⟨-, -, -, hy⟩ := h s.locals s.code a u hs hx
    obtain ⟨b, t', hb, rfl, ht'⟩ := hy T t.code hT hw ht.code
    rw [hsucceeds (ht.locals ▸ hb)]
    exact ⟨rfl, ht', ht.locals, ht.reports⟩

/-! ## Parts of statements -/

theorem openJump (op : Opcode) : Retraces ok (Compile.openJump op) (Compile.openJump op) :=
  withCode (.emitJump op) fun _ _ h => by
    simp [Emitter.emitJump, Emitter.emit, Emitter.offset, Emitter.byte, h.size]

theorem declareLocal (hok : Lenient ok) {name name' : Ident} (hname : name.name = name'.name)
    (type : ValueType) :
    Retraces ok (Compile.declareLocal name type) (Compile.declareLocal name' type) := by
  have hfree (name : Ident) {s : BodyState} (h : s.locals.conflict? name.name name.span = none) :
      (Compile.declareLocal name type).run s = ((), ⟨⟨s.code.emitter.emitWith .setLocal
        (s.locals.add name.name type).1, s.code.imports⟩, (s.locals.add name.name type).2, s.reports⟩) := by
    obtain ⟨⟨emitter, imports⟩, locals, reports⟩ := s
    simp only [StateT.run, Compile.declareLocal, modify, modifyGet, MonadStateOf.modifyGet,
      StateT.modifyGet, h]
    rfl
  have htaken (name : Ident) {s : BodyState} {e : SemanticError}
      (h : s.locals.conflict? name.name name.span = some e) :
      (Compile.declareLocal name type).run s = ((), ⟨s.code, s.locals, e.diagnostic :: s.reports⟩) := by
    obtain ⟨⟨emitter, imports⟩, locals, reports⟩ := s
    simp only [StateT.run, Compile.declareLocal, modify, modifyGet, MonadStateOf.modifyGet,
      StateT.modifyGet, h]
    rfl
  have hcode (slot : Nat) : Retraces ok (Compile.editCode (·.emitWith .setLocal slot)) (Compile.editCode _) :=
    editCode (.emitWith .setLocal id)
  have hnew {s : BodyState} (hreports : ∀ d ∈ ((Compile.declareLocal name type).run s).2.reports, ok d) :
      s.locals.conflict? name.name name.span = none := by
    cases hconflict : s.locals.conflict? name.name name.span with
    | some e => exact absurd (hreports _ (by rw [htaken name hconflict]; exact List.mem_cons_self ..)) (hok.errors e)
    | none => rfl
  refine ⟨fun s d hd => ?_, fun s hs hreports => ?_, fun s hs hreports T t hT hw ht => ?_⟩
  · cases hconflict : s.locals.conflict? name.name name.span with
    | some e => rw [htaken name hconflict]; exact List.mem_cons_of_mem _ hd
    | none => rw [hfree name hconflict]; exact hd
  · rw [hfree name (hnew hreports)]
    exact (hcode _).settled ⟨s.code, s.locals, []⟩ hs fun _ hd => by cases hd
  · have hconflict := hnew hreports
    rw [hfree name hconflict] at hw ⊢
    rw [hname] at hconflict
    rw [hfree name' (ht.locals ▸ LocalScope.free_of_free hconflict _), ht.locals, ← hname]
    obtain ⟨-, ht'⟩ := (hcode (s.locals.add name.name type).1).trails ⟨s.code, s.locals, []⟩ hs
      (fun _ hd => by cases hd) T ⟨t.code, s.locals, []⟩ hT hw ⟨ht.code, rfl, fun _ hd => by cases hd⟩
    exact ⟨rfl, ht'.code, rfl, ht.reports⟩

mutual

theorem isSome_firstSpan? : (s : Stmt) → (firstSpan? s.placeless).isSome = (firstSpan? s).isSome
  | .block stmts _ => by
    simp only [Stmt.placeless, firstSpan?]
    exact isSome_firstSpanOf? stmts
  | .ifElse _ _ none _ | .ifElse _ _ (some _) _ | .decl _ | .expr .. | .whileLoop .. | .doLoop ..
  | .forLoop .. | .ret .. | .breakLoop _ | .continueLoop _ | .empty _ => by
    simp only [Stmt.placeless, firstSpan?, Option.isSome_some, Option.isSome_none]

theorem isSome_firstSpanOf? : (ss : List Stmt) →
    (firstSpanOf? (Stmt.placelessAll ss)).isSome = (firstSpanOf? ss).isSome
  | [] => rfl
  | s :: ss => by
    have hs := isSome_firstSpan? s
    have hss := isSome_firstSpanOf? ss
    simp only [Stmt.placelessAll, firstSpanOf?]
    cases hfirst : firstSpan? s.placeless <;> cases hfirst' : firstSpan? s <;>
      simp_all

end

/-- A warning goes somewhere, or nowhere, in both. -/
theorem isSome_firstSpan?_eq {s s' : Stmt} (h : s.placeless = s'.placeless) :
    (firstSpan? s).isSome = (firstSpan? s').isSome := by
  rw [← isSome_firstSpan? s, h, isSome_firstSpan?]

theorem warnIf (hok : Lenient ok) (c : Bool) {s s' : Stmt} (h : s.placeless = s'.placeless) :
    Retraces ok (Compile.warnIf c s) (Compile.warnIf c s') := by
  have hspan := isSome_firstSpan?_eq h
  refine ite ?_ (pure ())
  cases hs : firstSpan? s <;> cases hs' : firstSpan? s' <;> simp [hs, hs'] at hspan
  · exact pure ()
  · exact warn hok _ _

theorem dropIf (c : Bool) (o : Nat) : Retraces ok (Compile.dropIf c o) (Compile.dropIf c o) :=
  ite (editCode (.truncate o)) (pure ())

theorem openIf (c : Bool) (op : Opcode) : Retraces ok (Compile.openIf c op) (Compile.openIf c op) :=
  ite ((openJump op).map some) (pure none)

theorem landIf (label : Option Nat) : Retraces ok (Compile.landIf label) (Compile.landIf label) := by
  cases label with
  | none => exact pure ()
  | some label => exact editCode (.land label)

theorem comeBack (conditionStart start : Nat) (known : Option Bool) :
    Retraces ok (Compile.comeBack conditionStart start known)
      (Compile.comeBack conditionStart start known) := by
  obtain _ | _ | _ := known
  · exact bind (openJump _) fun exit => bind (editCode (.emitLoop start)) fun _ => editCode (.land exit)
  · exact editCode (.truncate conditionStart)
  · exact bind (editCode (.truncate conditionStart)) fun _ => editCode (.emitLoop start)

theorem exitLoop_eq (e e' : Emitter) (h : e.Level e') : e'.exitLoop.1 = e.exitLoop.1 := by
  obtain ⟨code, pool, ls, big⟩ := e
  obtain ⟨code', pool', ls', big'⟩ := e'
  obtain rfl : ls = ls' := h.loops
  cases ls <;> rfl

theorem emitBreak_eq (reachable : Bool) (e e' : Emitter) (h : e.Level e') :
    (e'.emitBreak reachable).1 = (e.emitBreak reachable).1 := by
  unfold Emitter.emitBreak
  rw [h.loops]
  split <;> rfl

theorem emitContinue_eq (reachable : Bool) (e e' : Emitter) (h : e.Level e') :
    (e'.emitContinue reachable).1 = (e.emitContinue reachable).1 := by
  obtain ⟨code, pool, ls, big⟩ := e
  obtain ⟨code', pool', ls', big'⟩ := e'
  obtain rfl : ls = ls' := h.loops
  obtain _ | ⟨⟨_ | _, _, _, _, _⟩, _⟩ := ls <;> rfl

section

variable (hok : Lenient ok) (hsite : site.Akin site')

include hok hsite

theorem condition {e e' : Expr} (he : e.placeless = e'.placeless) :
    Retraces ok (Compile.condition site e) (Compile.condition site' e') := by
  unfold Compile.condition
  refine bind codeOffset fun start => bind (attempt hok fun l => .valueOf hsite l he .bool) fun p => ?_
  split <;> exact pure _

theorem effects {es es' : List Expr} (hes : Expr.placelessAll es = Expr.placelessAll es') :
    Retraces ok (Compile.effects site es) (Compile.effects site' es') := by
  induction es generalizing es' with
  | nil =>
    obtain rfl := Expr.of_nil hes
    exact pure ()
  | cons e es ih =>
    obtain ⟨e', es', rfl, he, hes⟩ := Expr.of_cons hes
    exact bind (discard (attempt hok fun l => Follows.effect hsite l he)) fun _ => ih hes

omit hok in
theorem follows_localValue (declared : Option ValueType) {v v' : Declarator}
    (hv : v.placeless = v'.placeless) (l : LocalScope) :
    Follows Eq (Compile.localValue site declared v l) (Compile.localValue site' declared v' l) := by
  obtain ⟨name, value, sp⟩ := v
  obtain ⟨name', value', sp'⟩ := v'
  have hvalue : value.map Expr.placeless = value'.map Expr.placeless := (Declarator.mk.inj hv).2.1
  unfold Compile.localValue
  obtain ⟨rfl, rfl⟩ | ⟨e, e', rfl, rfl, he⟩ := map_placeless_cases hvalue
  · cases declared with
    | none => exact .fail _ _ _
    | some type => exact .bind (.emitValue _) fun _ _ _ => .pure rfl
  · cases declared with
    | none =>
      refine .bind (.value hsite l he) fun p _ hp => hp ▸ ?_
      split
      · exact .fail _ _ _
      · exact .pure rfl
    | some type => exact .bind (.discard (.valueOf hsite l he type)) fun _ _ _ => .pure rfl

theorem declarators (declared : Option ValueType) {vs vs' : List Declarator}
    (hvs : vs.map Declarator.placeless = vs'.map Declarator.placeless) :
    Retraces ok (Compile.declarators site declared vs) (Compile.declarators site' declared vs') := by
  induction vs generalizing vs' with
  | nil =>
    cases List.map_eq_nil_iff.mp hvs.symm
    exact pure ()
  | cons v vs ih =>
    cases vs' with
    | nil => cases hvs
    | cons v' vs' =>
      obtain ⟨hv, hvs⟩ := List.cons.inj hvs
      have hname : v.name.name = v'.name.name := Ident.name_eq (Declarator.mk.inj hv).1
      refine bind (attempt hok (follows_localValue hsite declared hv)) fun type => ?_
      cases type with
      | none => exact ih hvs
      | some type => exact bind (declareLocal hok hname type) fun _ => ih hvs

omit hok in
/-- A declaration names the same type at the other site. -/
theorem declaredType_eq {d d' : VarDecl} (hd : d.placeless = d'.placeless) {declared : Option ValueType}
    (h : declaredType site d = .ok declared) : declaredType site' d' = .ok declared := by
  obtain ⟨htype, hvars, -⟩ := VarDecl.mk.inj hd
  have hlength : d.vars.length = d'.vars.length := by simpa using congrArg List.length hvars
  have hinferred := TypeExpr.inferred_iff htype
  unfold declaredType at h ⊢
  by_cases hkind : d.type.kind = .inferred
  · rw [if_pos hkind, hlength] at h
    rw [if_pos (hinferred.mp hkind)]
    split at h
    · cases h
    · next hone => rw [if_neg hone]; exact h
  · rw [if_neg hkind] at h
    rw [if_neg (hinferred.not.mp hkind)]
    split at h
    · cases h
    · next type hresolved =>
      rw [hsite.symbols.resolveType hsite.owner htype hresolved]
      dsimp only
      split at h
      · cases h
      · next hvoid => rw [if_neg hvoid]; exact h

theorem varDecl {d d' : VarDecl} (hd : d.placeless = d'.placeless) :
    Retraces ok (Compile.varDecl site d) (Compile.varDecl site' d') := by
  unfold Compile.varDecl
  split
  · exact error hok _ _
  · next declared h =>
    rw [declaredType_eq hsite hd h]
    exact declarators hok hsite declared (VarDecl.mk.inj hd).2.1

theorem returnValue {value value' : Option Expr} (hvalue : value.map Expr.placeless = value'.map Expr.placeless)
    (sp sp' : Span) : Retraces ok (Compile.returnValue site value sp) (Compile.returnValue site' value' sp') := by
  unfold Compile.returnValue
  obtain ⟨rfl, rfl⟩ | ⟨e, e', rfl, rfl, he⟩ := map_placeless_cases hvalue
  · dsimp only
    rw [← hsite.returns]
    split
    · exact editCode (.emit _)
    · exact error hok _ _
  · dsimp only
    rw [← hsite.returns]
    split
    · exact error hok _ _
    · refine bind (attempt hok fun l => .valueOf hsite l he _) fun p => ?_
      cases p with
      | none => exact pure ()
      | some p => exact editCode (.emit _)

omit hsite in
/-- A jump out of a loop, where the loops are the same. -/
theorem loopJump {f : Emitter → Bool × Emitter}
    (h : Emitter.Evenly (fun e => (f e).2) fun e => (f e).2)
    (ha : ∀ e e' : Emitter, e.Level e' → (f e').1 = (f e).1) (sp sp' : Span) :
    Retraces ok (Compile.loopJump f sp) (Compile.loopJump f sp') := by
  unfold Compile.loopJump
  refine bind (withCode h ha) fun found => ?_
  split
  · exact error hok _ _
  · exact pure ()

theorem forStart {first first' : Option ForInit}
    (hfirst : first.map ForInit.placeless = first'.map ForInit.placeless) :
    Retraces ok (Compile.forStart site first) (Compile.forStart site' first') := by
  obtain ⟨rfl, rfl⟩ | ⟨a, a', rfl, rfl, ha⟩ := map_placeless_cases hfirst
  · exact pure ()
  · cases a <;> cases a' <;> first | cases ha | skip
    · exact varDecl hok hsite (ForInit.decl.inj ha)
    · exact effects hok hsite (ForInit.exprs.inj ha)

theorem forCondition {cond cond' : Option Expr}
    (hcond : cond.map Expr.placeless = cond'.map Expr.placeless) :
    Retraces ok (Compile.forCondition site cond) (Compile.forCondition site' cond') := by
  obtain ⟨rfl, rfl⟩ | ⟨e, e', rfl, rfl, he⟩ := map_placeless_cases hcond
  · exact pure _
  · exact bind (condition hok hsite he) fun c => bind (dropIf _ _) fun _ => pure _

theorem nested (reachable parent : Bool) {s s' : Stmt} (h : s.placeless = s'.placeless)
    {k k' : Writing Bool} (hk : Retraces ok k k') :
    Retraces ok (Compile.nested site reachable parent s k)
      (Compile.nested site' reachable parent s' k') := by
  rw [nested_eq, nested_eq, ← hsite.release]
  exact bind (warnIf hok _ h) fun _ => bind codeOffset fun start => bind hk fun ends =>
    bind (dropIf _ _) fun _ => pure _

mutual

/-- The same statement compiles at both sites. -/
theorem statement (reachable : Bool) : (s s' : Stmt) → s.placeless = s'.placeless →
    Retraces ok (Compile.statement site reachable s) (Compile.statement site' reachable s')
  | .block stmts _, s', hs => by
    obtain ⟨stmts', _, rfl, hstmts⟩ := Stmt.of_block hs
    simp only [Compile.statement]
    exact bind (editLocals _) fun _ => bind (statements reachable reachable false stmts stmts' hstmts)
      fun ends => bind (editLocals _) fun _ => pure ends
  | .decl d, s', hs => by
    obtain ⟨d', rfl, hd⟩ := Stmt.of_decl hs
    simp only [Compile.statement]
    exact bind (varDecl hok hsite hd) fun _ => pure reachable
  | .expr e _, s', hs => by
    obtain ⟨e', _, rfl, he⟩ := Stmt.of_expr hs
    simp only [Compile.statement]
    exact bind (discard (attempt hok fun l => .effect hsite l he)) fun _ => pure reachable
  | .ifElse cond yes none _, s', hs => by
    obtain ⟨cond', yes', _, rfl, hcond, hyes⟩ := Stmt.of_ifThen hs
    rw [statement_ifThen, statement_ifThen]
    exact bind (condition hok hsite hcond) fun c => bind (openJump _) fun toElse =>
      bind (nested hok hsite _ _ hyes (statement _ yes yes' hyes)) fun ends =>
        bind (editCode (.land toElse)) fun _ => pure _
  | .ifElse cond yes (some no) _, s', hs => by
    obtain ⟨cond', yes', no', _, rfl, hcond, hyes, hno⟩ := Stmt.of_ifElse hs
    rw [statement_ifElse, statement_ifElse]
    exact bind (condition hok hsite hcond) fun c => bind (openJump _) fun toElse =>
      bind (nested hok hsite _ _ hyes (statement _ yes yes' hyes)) fun ends =>
        bind (openIf _ _) fun toEnd => bind (editCode (.land toElse)) fun _ =>
          bind (nested hok hsite _ _ hno (statement _ no no' hno)) fun noEnds =>
            bind (landIf toEnd) fun _ => pure _
  | .whileLoop cond body _, s', hs => by
    obtain ⟨cond', body', _, rfl, hcond, hbody⟩ := Stmt.of_whileLoop hs
    rw [statement_whileLoop, statement_whileLoop]
    exact bind (condition hok hsite hcond) fun c => bind (dropIf _ _) fun _ =>
      bind (openIf _ _) fun exit => bind (editCode (.enterLoop _)) fun _ =>
        bind (discard (nested hok hsite _ _ hbody (statement _ body body' hbody))) fun _ =>
          bind (editCode (.emitLoop _)) fun _ => bind (landIf exit) fun _ =>
            bind (withCode .exitLoop exitLoop_eq) fun loop => pure _
  | .doLoop body cond _, s', hs => by
    obtain ⟨body', cond', _, rfl, hbody, hcond⟩ := Stmt.of_doLoop hs
    rw [statement_doLoop, statement_doLoop]
    exact bind codeOffset fun start => bind (editCode (.enterLoop _)) fun _ =>
      bind (nested hok hsite _ _ hbody (statement _ body body' hbody)) fun ends =>
        bind (editCode .landContinues) fun _ => bind (condition hok hsite hcond) fun c =>
          bind (comeBack _ _ _) fun _ => bind (withCode .exitLoop exitLoop_eq) fun loop => pure _
  | .forLoop first cond update body _, s', hs => by
    obtain ⟨first', cond', update', body', _, rfl, hfirst, hcond, hupdate, hbody⟩ := Stmt.of_forLoop hs
    rw [statement_forLoop, statement_forLoop]
    exact bind (editLocals _) fun _ => bind (forStart hok hsite hfirst) fun _ =>
      bind codeOffset fun start => bind (forCondition hok hsite hcond) fun known =>
        bind (openIf _ _) fun exit => bind (editCode (.enterLoop _)) fun _ =>
          bind (discard (nested hok hsite _ _ hbody (statement _ body body' hbody))) fun _ =>
            bind (editCode .landContinues) fun _ => bind (effects hok hsite hupdate) fun _ =>
              bind (editCode (.emitLoop _)) fun _ => bind (landIf exit) fun _ =>
                bind (withCode .exitLoop exitLoop_eq) fun loop => bind (editLocals _) fun _ => pure _
  | .ret value _, s', hs => by
    obtain ⟨value', _, rfl, hvalue⟩ := Stmt.of_ret hs
    simp only [Compile.statement]
    exact bind (returnValue hok hsite hvalue _ _) fun _ => pure false
  | .breakLoop _, s', hs => by
    obtain ⟨_, rfl⟩ := Stmt.of_breakLoop hs
    simp only [Compile.statement]
    exact bind (loopJump hok (.emitBreak reachable) (emitBreak_eq reachable) _ _) fun _ => pure false
  | .continueLoop _, s', hs => by
    obtain ⟨_, rfl⟩ := Stmt.of_continueLoop hs
    simp only [Compile.statement]
    exact bind (loopJump hok (.emitContinue reachable) (emitContinue_eq reachable) _ _) fun _ => pure false
  | .empty _, s', hs => by
    obtain ⟨_, rfl⟩ := Stmt.of_empty hs
    simp only [Compile.statement]
    exact pure reachable

theorem statements (reachable live warned : Bool) : (ss ss' : List Stmt) →
    Stmt.placelessAll ss = Stmt.placelessAll ss' →
    Retraces ok (Compile.statements site reachable live warned ss)
      (Compile.statements site' reachable live warned ss')
  | [], ss', hss => by
    obtain rfl := Stmt.of_nil hss
    simp only [Compile.statements]
    exact pure live
  | s :: ss, ss', hss => by
    obtain ⟨s', ss', rfl, hs, hss⟩ := Stmt.of_cons hss
    simp only [Compile.statements, isSome_firstSpan?_eq hs]
    exact bind (nested hok hsite _ _ hs (statement _ s s' hs)) fun ends =>
      statements _ _ _ ss ss' hss

end

end

end Retraces

end ClassScript
