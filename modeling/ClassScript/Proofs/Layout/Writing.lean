import ClassScript.Proofs.Layout.Landing
import ClassScript.Proofs.Layout.Meaning

/-!
Compiling a statement writes the code that its layout spells.

A statement is compiled whatever is wrong with it, so its layout is known only if nothing blocking
was reported. `Yields s t P` tells that from `s` to `t` reports were only added, and that `P` holds
unless one of them is blocking.
-/

namespace ClassScript.Layout

open Code (Instruction)
open Compile
open Fragment

def Runs {α : Type} (x : Writing α) (s : BodyState) (a : α) (t : BodyState) : Prop :=
  x.run s = (a, t)

/-- Reports were added, and `P` holds unless one of them is blocking. -/
def Yields (s t : BodyState) (P : Prop) : Prop :=
  ∃ new, t.reports = new ++ s.reports ∧ ((∀ d ∈ new, d.isBlocking = false) → P)

namespace Yields

variable {s t u : BodyState} {P Q : Prop}

theorem pure (h : t.reports = s.reports) (hp : P) : Yields s t P := ⟨[], by simpa using h, fun _ => hp⟩

theorem imp (h : Yields s t P) (hpq : P → Q) : Yields s t Q := by
  obtain ⟨new, hr, hp⟩ := h
  exact ⟨new, hr, fun hn => hpq (hp hn)⟩

theorem trans (h : Yields s t P) (h' : Yields t u Q) : Yields s u (P ∧ Q) := by
  obtain ⟨new, hr, hp⟩ := h
  obtain ⟨new', hr', hq⟩ := h'
  exact ⟨new' ++ new, by simp [hr', hr], fun hn =>
    ⟨hp fun d hd => hn d (by simp [hd]), hq fun d hd => hn d (by simp [hd])⟩⟩

/-- Steps without reports behind or in front. -/
theorem behind (h : Yields s t P) (hu : u.reports = t.reports) : Yields s u P := by
  obtain ⟨new, hr, hp⟩ := h
  exact ⟨new, hu.trans hr, hp⟩

theorem front (h : Yields t u P) (hs : t.reports = s.reports) : Yields s u P := by
  obtain ⟨new, hr, hp⟩ := h
  exact ⟨new, hs ▸ hr, hp⟩

/-- A blocking report. -/
theorem failed (e : SemanticError) (h : t.reports = e.diagnostic :: s.reports) : Yields s t P :=
  ⟨[e.diagnostic], by simpa using h, fun hn => by
    have := hn e.diagnostic (by simp)
    simp [SemanticError.diagnostic, Diagnostic.isBlocking] at this⟩

end Yields

/-! ## Steps -/

namespace Runs

variable {α β : Type} {s t : BodyState}

theorem bind {x : Writing α} {f : α → Writing β} {b : β} (h : Runs (x >>= f) s b t) :
    ∃ a u, Runs x s a u ∧ Runs (f a) u b t := ⟨_, _, rfl, h⟩

@[simp] theorem pure_iff {a b : α} : Runs (pure a) s b t ↔ a = b ∧ s = t := by
  constructor
  · intro h; cases h; exact ⟨rfl, rfl⟩
  · rintro ⟨rfl, rfl⟩; rfl

theorem discard {x : Writing α} {u : Unit} (h : Runs (discard x) s u t) : ∃ a, Runs x s a t :=
  ⟨(x.run s).1, by cases h; rfl⟩

theorem map {x : Writing α} {f : α → β} {b : β} (h : Runs (f <$> x) s b t) :
    ∃ a, Runs x s a t ∧ b = f a := by
  cases h
  exact ⟨_, rfl, rfl⟩

theorem report_iff {d : Diagnostic} {u : Unit} :
    Runs (report d) s u t ↔ t = ⟨s.code, s.locals, d :: s.reports⟩ := by
  constructor
  · intro h; cases h; rfl
  · rintro rfl; rfl

theorem editCode_iff {f : Emitter → Emitter} {u : Unit} :
    Runs (editCode f) s u t ↔ t = ⟨⟨f s.code.emitter, s.code.imports⟩, s.locals, s.reports⟩ := by
  constructor
  · intro h; cases h; rfl
  · rintro rfl; rfl

theorem editLocals_iff {f : LocalScope → LocalScope} {u : Unit} :
    Runs (editLocals f) s u t ↔ t = ⟨s.code, f s.locals, s.reports⟩ := by
  constructor
  · intro h; cases h; rfl
  · rintro rfl; rfl

theorem codeOffset_iff {n : Nat} :
    Runs codeOffset s n t ↔ n = s.code.emitter.offset ∧ s = t := by
  constructor
  · intro h; cases h; exact ⟨rfl, rfl⟩
  · rintro ⟨rfl, rfl⟩; rfl

theorem withCode_iff {f : Emitter → α × Emitter} {a : α} :
    Runs (withCode f) s a t ↔ a = (f s.code.emitter).1 ∧
      t = ⟨⟨(f s.code.emitter).2, s.code.imports⟩, s.locals, s.reports⟩ := by
  constructor
  · intro h; cases h; exact ⟨rfl, rfl⟩
  · rintro ⟨rfl, rfl⟩; rfl

/-- An expression without errors is compiled as it is. -/
theorem attempt {f : LocalScope → Compiling α} {r : Option α} (h : Runs (attempt f) s r t) :
    t.locals = s.locals ∧
      Yields s t (t.reports = s.reports ∧
        ∃ a, r = some a ∧ Returns (f s.locals) s.code a t.code) := by
  obtain ⟨code, locals, reports⟩ := s
  cases hf : (ExceptT.run (f locals)).run code with
  | mk result code' =>
    have hrun : Compile.attempt f ⟨code, locals, reports⟩ = (r, t) := h
    simp only [Compile.attempt, modifyGet, MonadStateOf.modifyGet, StateT.modifyGet, hf] at hrun
    cases result with
    | ok a =>
      cases hrun
      exact ⟨rfl, .pure rfl ⟨rfl, a, rfl, hf⟩⟩
    | error e =>
      cases hrun
      exact ⟨rfl, .failed e rfl⟩

/-- An expression that is compiled is attempted with success. -/
theorem attempted {f : LocalScope → Compiling α} {code code' : CodeState} {locals : LocalScope}
    {reports : List Diagnostic} {a : α} (h : Returns (f locals) code a code') :
    Runs (Compile.attempt f) ⟨code, locals, reports⟩ (some a) ⟨code', locals, reports⟩ := by
  change Compile.attempt f ⟨code, locals, reports⟩ = _
  simp only [Compile.attempt, modifyGet, MonadStateOf.modifyGet, StateT.modifyGet]
  rw [show (ExceptT.run (f locals)).run code = _ from h]
  rfl

end Runs

variable {site : Site} {s t u : BodyState}

/-! ## Parts of statements -/

theorem effect_written {locals : LocalScope} {e : Expr} {s t : CodeState} {x : Unit}
    (hs : s.Sound site.symbols.libraries) (h : Returns (effect site locals e) s x t) :
    ∃ is, Wrote site.symbols.libraries s t is ∧ ∀ T, t.Within T → Acts T site locals e is := by
  unfold effect at h
  split at h
  · obtain ⟨m, u, hm, h⟩ := Returns.bind h
    obtain ⟨p, v, hp, h⟩ := Returns.bind h
    obtain ⟨is, hw, hmeans, -⟩ := meaning_sound site locals e .discarded _ _ _ _ hs hm
    obtain ⟨⟨js, hj, hmat⟩, -, -⟩ := materialize_written hw.sound hp
    have hk : Wrote site.symbols.libraries v t (popping p) := by
      unfold popping
      split at h
      · next hvoid =>
        obtain rfl := Returns.emit_iff.mp h
        rw [if_neg (by simpa using hvoid)]
        exact Wrote.emit hj.sound _ rfl
      · next hvoid =>
        obtain ⟨-, rfl⟩ := Returns.pure_iff.mp h
        rw [if_pos (by simpa using hvoid)]
        exact Wrote.refl hj.sound
    exact ⟨_, (hw.trans hj).trans hk, fun T hT => .intro
      (hmeans T ((hj.trans hk).grew.within hT)) (hmat T (hk.grew.within hT))⟩
  · simp at h

theorem evaluates_of_valueOf {locals : LocalScope} {e : Expr} {type : ValueType} {s t : CodeState}
    {p : Pushed} (hs : s.Sound site.symbols.libraries)
    (h : Returns (valueOf site locals e type) s p t) :
    ∃ is, Wrote site.symbols.libraries s t is ∧
      ∀ T, t.Within T → Evaluates T site locals e type is p := by
  obtain ⟨is, js, q, hw, hq⟩ := valueOf_written hs h
  exact ⟨js, hw, fun T hT => .intro (hq T hT).1 (hq T hT).2⟩

def knownOf : Option Pushed → Option Bool
  | some ⟨_, some (.bool b), _⟩ => some b
  | _ => none

theorem condition_written {e : Expr} {known : Option Bool} {start : Nat}
    (h : Runs (condition site e) s (known, start) t) :
    start = s.code.emitter.offset ∧ t.locals = s.locals ∧
      Yields s t (t.reports = s.reports ∧ (s.code.Sound site.symbols.libraries →
        ∃ is, Wrote site.symbols.libraries s.code t.code is ∧
          ∀ T, t.code.Within T → Tests T site s.locals e is known)) := by
  obtain ⟨_, _, hoff, h⟩ := Runs.bind h
  obtain ⟨rfl, rfl⟩ := Runs.codeOffset_iff.mp hoff
  obtain ⟨r, u, hattempt, h⟩ := Runs.bind h
  obtain ⟨hlocals, hyields⟩ := Runs.attempt hattempt
  have answered : (knownOf r, s.code.emitter.offset) = (known, start) ∧ u = t := by
    split at h
    · exact Runs.pure_iff.mp h
    · next hno =>
      obtain ⟨ha, rfl⟩ := Runs.pure_iff.mp h
      refine ⟨?_, rfl⟩
      rw [← ha]
      unfold knownOf
      split
      · next type b o => exact (hno type b o rfl).elim
      · rfl
  obtain ⟨hknown, rfl⟩ := answered
  obtain ⟨rfl, rfl⟩ := Prod.mk.inj hknown
  refine ⟨rfl, hlocals, hyields.imp ?_⟩
  rintro ⟨hreports, p, rfl, hp⟩
  refine ⟨hreports, fun hs => ?_⟩
  obtain ⟨is, hw, he⟩ := evaluates_of_valueOf hs hp
  refine ⟨is, hw, fun T hT => ?_⟩
  unfold knownOf
  split
  · next type b o heq =>
    cases heq
    exact .known (he T hT) rfl
  · next hno =>
    refine .unknown (he T hT) fun b hb => ?_
    obtain ⟨type, constant, o⟩ := p
    simp only at hb
    subst hb
    exact hno _ b _ rfl

theorem effects_written {es : List Expr} {x : Unit} (h : Runs (effects site es) s x t) :
    t.locals = s.locals ∧ Yields s t (t.reports = s.reports ∧
      (s.code.Sound site.symbols.libraries →
        ∃ is, Wrote site.symbols.libraries s.code t.code is ∧
          ∀ T, t.code.Within T → ActsAll T site s.locals es is)) := by
  induction es generalizing s with
  | nil =>
    obtain ⟨-, rfl⟩ := Runs.pure_iff.mp h
    exact ⟨rfl, .pure rfl ⟨rfl, fun hs => ⟨[], Wrote.refl hs, fun _ _ => .nil⟩⟩⟩
  | cons e es ih =>
    obtain ⟨_, u, hfirst, hrest⟩ := Runs.bind h
    obtain ⟨r, hattempt⟩ := Runs.discard hfirst
    obtain ⟨hlocals, hfirst⟩ := Runs.attempt hattempt
    obtain ⟨hlocals', hrest⟩ := ih hrest
    refine ⟨hlocals'.trans hlocals, (hfirst.trans hrest).imp ?_⟩
    rintro ⟨⟨hreports, _, -, he⟩, hreports', hes⟩
    refine ⟨hreports'.trans hreports, fun hs => ?_⟩
    obtain ⟨is, hw, hacts⟩ := effect_written hs he
    obtain ⟨js, hj, hall⟩ := hes hw.sound
    rw [hlocals] at hall
    exact ⟨is ++ js, hw.trans hj, fun T hT => .cons (hacts T (hj.grew.within hT)) (hall T hT)⟩

/-! ## Declarations -/

theorem localValue_written {declared : Option ValueType} {v : Declarator} {locals : LocalScope}
    {s t : CodeState} {type : ValueType} (hs : s.Sound site.symbols.libraries)
    (h : Returns (localValue site declared v locals) s type t) :
    ∃ is, Wrote site.symbols.libraries s t is ∧
      ∀ T, t.Within T → Begins T site locals v declared is type := by
  unfold localValue at h
  split at h
  · next e hv =>
    obtain ⟨_, _, hvalue, h⟩ := Returns.bind h
    obtain ⟨rfl, rfl⟩ := Returns.pure_iff.mp h
    obtain ⟨p, hvalue⟩ := Returns.discard_iff.mp hvalue
    obtain ⟨is, hw, he⟩ := evaluates_of_valueOf hs hvalue
    exact ⟨is, hw, fun T hT => .given hv (he T hT)⟩
  · next hv =>
    obtain ⟨_, _, hvalue, h⟩ := Returns.bind h
    obtain ⟨rfl, rfl⟩ := Returns.pure_iff.mp h
    obtain rfl := Returns.emitValue_iff.mp hvalue
    obtain ⟨is, hw, hpush⟩ := Wrote.emitValue hs (ValueType.default _)
    exact ⟨is, hw, fun T hT => .default hv (hpush T hT)⟩
  · next e hv =>
    obtain ⟨p, _, hvalue, h⟩ := Returns.bind h
    split at h
    · simp at h
    · next hvoid =>
      obtain ⟨rfl, rfl⟩ := Returns.pure_iff.mp h
      obtain ⟨is, hw, hp, -⟩ := value_valued hs hvalue
      exact ⟨is, hw, fun T hT => .inferred hv (hp T hT) (by simpa using hvoid)⟩
  · simp at h

theorem declareLocal_written (site : Site) {name : Ident} {type : ValueType} {x : Unit}
    (h : Runs (declareLocal name type) s x t) :
    Yields s t (t.reports = s.reports ∧ s.locals.conflict? name.name name.span = none ∧
      t.locals = (s.locals.add name.name type).2 ∧
      (s.code.Sound site.symbols.libraries → Wrote site.symbols.libraries s.code t.code
        [.unary .setLocal (s.locals.add name.name type).1])) := by
  obtain ⟨⟨emitter, imports⟩, locals, reports⟩ := s
  have hrun := (Prod.mk.inj h).2
  dsimp only at hrun
  split at hrun
  · next e he =>
    subst hrun
    exact .failed e rfl
  · next hfree =>
    subst hrun
    exact .pure rfl ⟨rfl, hfree, rfl, fun hs => Wrote.emitWith hs _ rfl _⟩

theorem declarators_written {declared : Option ValueType} {vs : List Declarator} {x : Unit}
    (h : Runs (declarators site declared vs) s x t) :
    Yields s t (t.reports = s.reports ∧ (s.code.Sound site.symbols.libraries →
      ∃ is, Wrote site.symbols.libraries s.code t.code is ∧
        ∀ T, t.code.Within T → Declares T site declared vs s.locals is t.locals)) := by
  induction vs generalizing s with
  | nil =>
    obtain ⟨-, rfl⟩ := Runs.pure_iff.mp h
    exact .pure rfl ⟨rfl, fun hs => ⟨[], Wrote.refl hs, fun _ _ => .nil⟩⟩
  | cons v vs ih =>
    obtain ⟨r, u, hattempt, h⟩ := Runs.bind h
    obtain ⟨hlocals, hvalue⟩ := Runs.attempt hattempt
    cases r with
    | none =>
      have hrest : Runs (declarators site declared vs) u x t := h
      refine (hvalue.trans (ih hrest)).imp ?_
      rintro ⟨⟨-, _, ha, -⟩, -⟩
      cases ha
    | some type =>
      obtain ⟨_, w, hdeclare, hrest⟩ := Runs.bind h
      refine ((hvalue.trans (declareLocal_written site hdeclare)).trans
        (ih hrest)).imp ?_
      rintro ⟨⟨⟨hreports, _, ha, hvalue⟩, hreports', hfree, hlocals', hstore⟩, hreports'', hrest⟩
      refine ⟨(hreports''.trans hreports').trans hreports, fun hs => ?_⟩
      cases ha
      obtain ⟨is, hw, hbegins⟩ := localValue_written hs hvalue
      have hj := hstore hw.sound
      obtain ⟨ks, hk, hdeclares⟩ := hrest hj.sound
      rw [hlocals] at hfree hlocals' hj
      refine ⟨_, (hw.trans hj).trans hk, fun T hT => ?_⟩
      have hd := hdeclares T hT
      rw [hlocals'] at hd
      simpa using Declares.cons (hbegins T ((hj.trans hk).grew.within hT)) hfree hd

theorem varDecl_written {d : VarDecl} {x : Unit} (h : Runs (varDecl site d) s x t) :
    Yields s t (t.reports = s.reports ∧ (s.code.Sound site.symbols.libraries →
      ∃ is, Wrote site.symbols.libraries s.code t.code is ∧
        ∀ T, t.code.Within T → DeclaresAll T site d s.locals is t.locals)) := by
  unfold varDecl at h
  split at h
  · next e he =>
    obtain rfl := Runs.report_iff.mp h
    exact .failed e rfl
  · next declared hd =>
    refine (declarators_written h).imp fun h => ⟨h.1, fun hs => ?_⟩
    obtain ⟨is, hw, hdeclares⟩ := h.2 hs
    exact ⟨is, hw, fun T hT => .intro hd (hdeclares T hT)⟩

theorem forStart_written {first : Option ForInit} {x : Unit}
    (h : Runs (forStart site first) s x t) :
    Yields s t (t.reports = s.reports ∧ (s.code.Sound site.symbols.libraries →
      ∃ is, Wrote site.symbols.libraries s.code t.code is ∧
        ∀ T, t.code.Within T → Starts T site s.locals first is t.locals)) := by
  unfold forStart at h
  split at h
  · refine (varDecl_written h).imp fun h => ⟨h.1, fun hs => ?_⟩
    obtain ⟨is, hw, hd⟩ := h.2 hs
    exact ⟨is, hw, fun T hT => .decl (hd T hT)⟩
  · obtain ⟨hlocals, heffects⟩ := effects_written h
    refine heffects.imp fun h => ⟨h.1, fun hs => ?_⟩
    obtain ⟨is, hw, he⟩ := h.2 hs
    rw [hlocals]
    exact ⟨is, hw, fun T hT => .exprs (he T hT)⟩
  · obtain ⟨-, rfl⟩ := Runs.pure_iff.mp h
    exact .pure rfl ⟨rfl, fun hs => ⟨[], Wrote.refl hs, fun _ _ => .none⟩⟩

/-! ## What is shown of statements -/

/-- The pieces of a statement were put, with its layout given by `L`. -/
def Shows (site : Site) (L : Tables → Fragment → Exits → Prop) (s t : BodyState) (ends : Bool) :
    Prop :=
  Yields s t (s.code.Sound site.symbols.libraries → ∃ F x, x.ends = ends ∧
    Put site.symbols.libraries s.code t.code F x ∧ ∀ T, t.code.Within T → L T F x)

/-- What the induction gives for a statement inside another one. -/
def Written (site : Site) (stmt : Stmt) : Prop :=
  ∀ reachable s ends t, Runs (statement site reachable stmt) s ends t →
    Shows site (fun T F x => ∃ B, Lays T site reachable stmt s.locals F t.locals x B ∧
      Noted s.reports t.reports B) s t ends

def WrittenAll (site : Site) (stmts : List Stmt) : Prop :=
  ∀ reachable live warned s ends t, Runs (statements site reachable live warned stmts) s ends t →
    Shows site (fun T F x => ∃ B, LaysAll T site live stmts s.locals F t.locals x B ∧
      Noted s.reports t.reports B) s t ends

variable {stmt : Stmt} {reachable : Bool} {ends : Bool} {sp : Span}

/-- A statement of instructions only. -/
theorem Shows.of_wrote {L : Tables → Fragment → Exits → Prop}
    (h : Yields s t (s.code.Sound site.symbols.libraries →
      ∃ is, Wrote site.symbols.libraries s.code t.code is ∧
        ∀ T, t.code.Within T → L T (ops is) (.plain ends))) : Shows site L s t ends :=
  h.imp fun h hs => by
    obtain ⟨is, hw, hL⟩ := h hs
    exact ⟨ops is, .plain ends, rfl, Put.of_wrote ends hw, hL⟩

theorem Written.nested (ih : Written site stmt) {live parent : Bool}
    (h : Runs (nested site live parent stmt (statement site live stmt)) s ends t) :
    Shows site (fun T F x => ∃ B, Nests T site live stmt s.locals F t.locals x B ∧
      Noted s.reports t.reports B) s t ends := by
  have walked {s : BodyState} (h : Runs (do
        let start ← codeOffset
        let ends ← statement site live stmt
        if (!live && site.release) = true then do
          editCode (·.truncate start)
          pure ends
        else pure ends) s ends t) :
      Shows site (fun T F x => ∃ B, Nests T site live stmt s.locals F t.locals x B ∧
        Noted s.reports t.reports B) s t ends := by
    obtain ⟨_, _, hoff, h⟩ := Runs.bind h
    obtain ⟨rfl, rfl⟩ := Runs.codeOffset_iff.mp hoff
    obtain ⟨ends', u, hstatement, h⟩ := Runs.bind h
    have hyields := ih _ _ _ _ hstatement
    split at h
    · next hdrop =>
      obtain ⟨_, _, htruncate, h⟩ := Runs.bind h
      obtain ⟨rfl, rfl⟩ := Runs.pure_iff.mp h
      obtain rfl := Runs.editCode_iff.mp htruncate
      simp only [Bool.and_eq_true, Bool.not_eq_true'] at hdrop
      obtain ⟨rfl, hrelease⟩ := hdrop
      refine (hyields.behind rfl).imp fun h hs => ?_
      obtain ⟨F, x, rfl, hput, hlays⟩ := h hs
      obtain ⟨_, hdead, -⟩ := hlays (tables u.code) (within_tables _)
      obtain rfl := hdead.dead
      refine ⟨[], _, rfl, hput.drop hs, fun T hT => ?_⟩
      obtain ⟨_, hl, hnoted⟩ := hlays T ⟨hT.1, hT.2⟩
      exact ⟨_, .dropped hrelease hl, hnoted.dropped.cons _⟩
    · next hkeep =>
      obtain ⟨rfl, rfl⟩ := Runs.pure_iff.mp h
      refine hyields.imp fun h hs => ?_
      obtain ⟨F, x, hx, hput, hlays⟩ := h hs
      refine ⟨F, x, hx, hput, fun T hT => ?_⟩
      obtain ⟨_, hl, hnoted⟩ := hlays T hT
      refine ⟨_, .kept ?_ hl, hnoted.cons _⟩
      cases live <;> simp_all
  unfold Compile.nested at h
  dsimp only at h
  split at h
  · next hunreached =>
    split at h
    · next sp hsp =>
      obtain ⟨_, _, hreport, h⟩ := Runs.bind h
      obtain rfl := Runs.report_iff.mp hreport
      have warned (d : Diagnostic) : Yields s ⟨s.code, s.locals, d :: s.reports⟩ True :=
        ⟨[d], rfl, fun _ => trivial⟩
      refine ((warned _).trans (walked h)).imp fun h hs => ?_
      obtain ⟨F, x, hx, hput, hnests⟩ := h.2 hs
      refine ⟨F, x, hx, hput, fun T hT => ?_⟩
      obtain ⟨B, hn, hnoted⟩ := hnests T hT
      refine ⟨B, hn, fun d hd => ?_⟩
      obtain hd | hd := hnoted d hd
      · obtain rfl | hd := List.mem_cons.mp hd
        · simp only [Bool.and_eq_true, Bool.not_eq_true'] at hunreached
          obtain ⟨-, rfl⟩ := hunreached
          obtain ⟨e, he, hreachable, hspan⟩ := hn.points hsp
          exact .inr ⟨e, he, hreachable, by rw [hspan]⟩
        · exact .inl hd
      · exact .inr hd
    · exact walked h
  · exact walked h

/-! ## Forms of statements -/

theorem openJump_written (site : Site) {op : Opcode} {label : Nat} (hop : op.operandCount = 1)
    (h : Runs (openJump op) s label t) :
    t.locals = s.locals ∧ t.reports = s.reports ∧ (s.code.Sound site.symbols.libraries →
      label = s.code.emitter.offset + 1 ∧
        Wrote site.symbols.libraries s.code t.code [Wrote.openJump op]) := by
  obtain ⟨rfl, rfl⟩ := Runs.withCode_iff.mp h
  refine ⟨rfl, rfl, fun hs => ?_⟩
  obtain ⟨hw, hlabel⟩ := Wrote.emitJump hs _ hop
  exact ⟨hlabel, hw⟩

theorem Written.block {stmts : List Stmt} (ih : WrittenAll site stmts) :
    Written site (.block stmts sp) := by
  intro reachable s ends t h
  simp only [statement] at h
  obtain ⟨_, _, hopen, h⟩ := Runs.bind h
  obtain rfl := Runs.editLocals_iff.mp hopen
  obtain ⟨ends, u, hstmts, h⟩ := Runs.bind h
  obtain ⟨_, _, hclose, h⟩ := Runs.bind h
  obtain ⟨rfl, rfl⟩ := Runs.pure_iff.mp h
  obtain rfl := Runs.editLocals_iff.mp hclose
  refine (((ih _ _ _ _ _ _ hstmts).behind rfl).front rfl).imp fun h hs => ?_
  obtain ⟨F, x, hx, hput, hlays⟩ := h hs
  refine ⟨F, x, hx, hput, fun T hT => ?_⟩
  obtain ⟨_, hl, hnoted⟩ := hlays T hT
  exact ⟨_, .block hl, hnoted⟩

theorem Written.decl {d : VarDecl} : Written site (.decl d) := by
  intro reachable s ends t h
  simp only [statement] at h
  obtain ⟨_, u, hdecl, h⟩ := Runs.bind h
  obtain ⟨rfl, rfl⟩ := Runs.pure_iff.mp h
  refine .of_wrote ((varDecl_written hdecl).imp fun h hs => ?_)
  obtain ⟨is, hw, hd⟩ := h.2 hs
  exact ⟨is, hw, fun T hT => ⟨_, .decl (hd T hT), .silent h.1⟩⟩

theorem Written.expr {e : Expr} : Written site (.expr e sp) := by
  intro reachable s ends t h
  simp only [statement] at h
  obtain ⟨_, u, heffect, h⟩ := Runs.bind h
  obtain ⟨rfl, rfl⟩ := Runs.pure_iff.mp h
  obtain ⟨r, heffect⟩ := Runs.discard heffect
  obtain ⟨hlocals, hattempt⟩ := Runs.attempt heffect
  refine .of_wrote (hattempt.imp ?_)
  rintro ⟨hreports, _, -, he⟩ hs
  obtain ⟨is, hw, hacts⟩ := effect_written hs he
  rw [hlocals]
  exact ⟨is, hw, fun T hT => ⟨_, .expr (hacts T hT), .silent hreports⟩⟩

theorem Written.ret {value : Option Expr} : Written site (.ret value sp) := by
  intro reachable s ends t h
  simp only [statement] at h
  obtain ⟨_, u, hreturn, h⟩ := Runs.bind h
  obtain ⟨rfl, rfl⟩ := Runs.pure_iff.mp h
  apply Shows.of_wrote
  unfold returnValue at hreturn
  split at hreturn
  · next e =>
    split at hreturn
    · obtain rfl := Runs.report_iff.mp hreturn
      exact .failed _ rfl
    · next htype =>
      obtain ⟨r, v, hattempt, hreturn⟩ := Runs.bind hreturn
      obtain ⟨hlocals, hvalue⟩ := Runs.attempt hattempt
      split at hreturn
      · obtain rfl := Runs.editCode_iff.mp hreturn
        refine (hvalue.behind rfl).imp ?_
        rintro ⟨hreports, p, -, hp⟩ hs
        obtain ⟨is, hw, he⟩ := evaluates_of_valueOf hs hp
        have hj := Wrote.emit hw.sound .ret rfl
        refine ⟨_, hw.trans hj, fun T hT => ?_⟩
        change ∃ B, Lays _ _ _ _ s.locals _ v.locals _ B ∧ _
        rw [hlocals]
        exact ⟨_, .ret (by simpa using htype) (he T (hj.grew.within hT)), .silent hreports⟩
      · obtain ⟨-, rfl⟩ := Runs.pure_iff.mp hreturn
        refine hvalue.imp ?_
        rintro ⟨-, p, hr, -⟩
        cases hr
  · split at hreturn
    · next htype =>
      obtain rfl := Runs.editCode_iff.mp hreturn
      exact .pure rfl fun hs => ⟨_, Wrote.emit hs _ rfl, fun T hT => ⟨_, .retVoid htype, .silent rfl⟩⟩
    · obtain rfl := Runs.report_iff.mp hreturn
      exact .failed _ rfl

theorem Written.breakLoop : Written site (.breakLoop sp) := by
  intro reachable s ends t h
  simp only [statement] at h
  obtain ⟨_, u, hjump, h⟩ := Runs.bind h
  obtain ⟨rfl, rfl⟩ := Runs.pure_iff.mp h
  obtain ⟨found, v, hcode, hjump⟩ := Runs.bind hjump
  obtain ⟨hfound, rfl⟩ := Runs.withCode_iff.mp hcode
  split at hjump
  · obtain rfl := Runs.report_iff.mp hjump
    exact .failed _ rfl
  · next hloop =>
    obtain ⟨-, rfl⟩ := Runs.pure_iff.mp hjump
    refine .pure rfl fun hs => ⟨[.leave], _, rfl, Put.leave hs reachable ?_,
      fun T _ => ⟨_, .breakLoop, .silent rfl⟩⟩
    rw [← hfound]
    simpa using hloop

theorem Written.continueLoop : Written site (.continueLoop sp) := by
  intro reachable s ends t h
  simp only [statement] at h
  obtain ⟨_, u, hjump, h⟩ := Runs.bind h
  obtain ⟨rfl, rfl⟩ := Runs.pure_iff.mp h
  obtain ⟨found, v, hcode, hjump⟩ := Runs.bind hjump
  obtain ⟨hfound, rfl⟩ := Runs.withCode_iff.mp hcode
  split at hjump
  · obtain rfl := Runs.report_iff.mp hjump
    exact .failed _ rfl
  · next hloop =>
    obtain ⟨-, rfl⟩ := Runs.pure_iff.mp hjump
    refine .pure rfl fun hs =>
      ⟨[.again], _, rfl, Put.again hs reachable ?_, fun T _ => ⟨_, .continueLoop, .silent rfl⟩⟩
    rw [← hfound]
    simpa using hloop

theorem Written.empty : Written site (.empty sp) := by
  intro reachable s ends t h
  rw [statement_empty] at h
  obtain ⟨rfl, rfl⟩ := Runs.pure_iff.mp h
  exact .of_wrote (.pure rfl fun hs => ⟨[], Wrote.refl hs, fun T _ => ⟨_, .empty, .silent rfl⟩⟩)

/-! ## Branches -/

theorem Written.ifThen {cond : Expr} {yes : Stmt} (ih : Written site yes) :
    Written site (.ifElse cond yes none sp) := by
  intro reachable s ends t h
  unfold statement at h
  obtain ⟨⟨known, start⟩, s₁, hcond, h⟩ := Runs.bind h
  obtain ⟨rfl, hlocals₁, hcond⟩ := condition_written hcond
  obtain ⟨label, s₂, hjump, h⟩ := Runs.bind h
  obtain ⟨hlocals₂, hreports₂, hjump⟩ := openJump_written site rfl hjump
  obtain ⟨yesEnds, s₃, hyes, h⟩ := Runs.bind h
  obtain ⟨_, _, hland, h⟩ := Runs.bind h
  obtain ⟨rfl, rfl⟩ := Runs.pure_iff.mp h
  obtain rfl := Runs.editCode_iff.mp hland
  refine (((hcond.behind hreports₂).trans (ih.nested hyes)).behind rfl).imp ?_
  rintro ⟨⟨hreports₁, htests⟩, hnests⟩ hs
  obtain ⟨is, hw, htests⟩ := htests hs
  obtain ⟨hlabel, hopen⟩ := hjump hw.sound
  obtain ⟨F, x, rfl, hput, hnests⟩ := hnests hopen.sound
  have hall := Put.ops_left (hw.trans hopen) hput
  have hlanded := Put.land (ops is) F .jumpIfFalse rfl (by simpa using hall) label
    (by rw [hlabel, hw.offset]; simp)
  refine ⟨ops is ++ .op (.unary .jumpIfFalse F.size) :: F,
    x.both (.plain false) (x.ends || (reachable && known != some true)), rfl, ?_, fun T hT => ?_⟩
  · simpa [Exits.both, Exits.plain] using hlanded.ends (x.ends || (reachable && known != some true))
  · obtain ⟨_, hn, hnoted⟩ := hnests T ⟨hT.1, hT.2⟩
    rw [hlocals₂, hlocals₁] at hn
    rw [hreports₂, hreports₁] at hnoted
    exact ⟨_, .ifThen (htests T ((hopen.grew.trans hput.grew).within ⟨hT.1, hT.2⟩)) hn,
      hnoted.behind _⟩

theorem Written.ifElse {cond : Expr} {yes no : Stmt} (ihy : Written site yes)
    (ihn : Written site no) : Written site (.ifElse cond yes (some no) sp) := by
  intro reachable s ends t h
  unfold statement at h
  obtain ⟨⟨known, start⟩, s₁, hcond, h⟩ := Runs.bind h
  obtain ⟨rfl, hlocals₁, hcond⟩ := condition_written hcond
  obtain ⟨label, s₂, hjump, h⟩ := Runs.bind h
  obtain ⟨hlocals₂, hreports₂, hjump⟩ := openJump_written site rfl hjump
  obtain ⟨yesEnds, s₃, hyes, h⟩ := Runs.bind h
  have hfirst := (hcond.behind hreports₂).trans (ihy.nested hyes)
  dsimp only at h
  split at h
  · next hends =>
    obtain ⟨toEnd, s₄, hskip, h⟩ := Runs.bind h
    obtain ⟨label', hover, rfl⟩ := Runs.map hskip
    obtain ⟨hlocals₄, hreports₄, hover⟩ := openJump_written site rfl hover
    obtain ⟨_, s₅, hland, h⟩ := Runs.bind h
    obtain rfl := Runs.editCode_iff.mp hland
    obtain ⟨noEnds, s₆, hno, h⟩ := Runs.bind h
    obtain ⟨_, _, hland', h⟩ := Runs.bind h
    obtain ⟨rfl, rfl⟩ := Runs.pure_iff.mp h
    obtain rfl := Runs.editCode_iff.mp hland'
    refine ((hfirst.behind hreports₄).trans (((ihn.nested hno).behind rfl).front rfl)).imp ?_
    rintro ⟨⟨⟨hreports₁, htests⟩, hyes⟩, hno⟩ hs
    obtain ⟨is, hw, htests⟩ := htests hs
    obtain ⟨hlabel, hopen⟩ := hjump hw.sound
    obtain ⟨F, x, hx, hput, hnests⟩ := hyes hopen.sound
    obtain ⟨hlabel', hopen'⟩ := hover hput.sound
    -- the jump over the second branch ends the first one
    have hfront := (Put.ops_left (hw.trans hopen) hput).ops_right hopen'
    have hlanded := Put.land (ops is) (F ++ ops [Wrote.openJump .jump]) .jumpIfFalse rfl
      (by simpa using hfront) label (by rw [hlabel, hw.offset]; simp)
    obtain ⟨G, y, rfl, hput', hnests'⟩ := hno hlanded.sound
    have hall := hlanded.trans (x.ends || y.ends) hput'
    have hlanded' := Put.land (ops is ++ .op (.unary .jumpIfFalse (F.size + 3)) :: F) G .jump rfl
      (by simpa using hall) label' (by
        rw [hlabel', (Put.ops_left (hw.trans hopen) hput).offset]
        simp [Nat.add_assoc])
    refine ⟨ops is ++ .op (.unary .jumpIfFalse (F.size + 3)) ::
        (F ++ [.op (.unary .jump G.size)]) ++ G, x.both y (x.ends || y.ends),
      by simp [Exits.both, hx], ?_, fun T hT => ?_⟩
    · simpa using hlanded'
    · have hT' : s₆.code.Within T := ⟨hT.1, hT.2⟩
      have h₅ := hput'.grew.within hT'
      have h₃ := (hopen'.grew).within (⟨h₅.1, h₅.2⟩ : s₄.code.Within T)
      obtain ⟨_, hn, hnoted⟩ := hnests T h₃
      obtain ⟨_, hn', hnoted'⟩ := hnests' T hT'
      rw [hlocals₂, hlocals₁] at hn
      rw [hreports₂, hreports₁] at hnoted
      change Nests _ _ _ _ s₄.locals _ _ _ _ at hn'
      rw [hlocals₄] at hn'
      change Noted s₄.reports _ _ at hnoted'
      rw [hreports₄] at hnoted'
      have hyesTests := htests T ((hopen.grew.trans hput.grew).within h₃)
      exact ⟨_, by simpa [skip, hx, hends] using Lays.ifElse hyesTests hn hn',
        (hnoted.trans (hnoted'.behind _)).behind _⟩
  · next hends =>
    obtain ⟨toEnd, _, hskip, h⟩ := Runs.bind h
    obtain ⟨rfl, rfl⟩ := Runs.pure_iff.mp hskip
    obtain ⟨_, s₅, hland, h⟩ := Runs.bind h
    obtain rfl := Runs.editCode_iff.mp hland
    obtain ⟨noEnds, s₆, hno, h⟩ := Runs.bind h
    obtain ⟨rfl, rfl⟩ := Runs.pure_iff.mp h
    refine (hfirst.trans ((ihn.nested hno).front rfl)).imp ?_
    rintro ⟨⟨⟨hreports₁, htests⟩, hyes⟩, hno⟩ hs
    obtain ⟨is, hw, htests⟩ := htests hs
    obtain ⟨hlabel, hopen⟩ := hjump hw.sound
    obtain ⟨F, x, hx, hput, hnests⟩ := hyes hopen.sound
    have hfront := Put.ops_left (hw.trans hopen) hput
    have hlanded := Put.land (ops is) F .jumpIfFalse rfl (by simpa using hfront) label
      (by rw [hlabel, hw.offset]; simp)
    obtain ⟨G, y, rfl, hput', hnests'⟩ := hno hlanded.sound
    refine ⟨_, x.both y (x.ends || y.ends), by simp [Exits.both, hx],
      hlanded.trans (x.ends || y.ends) hput', fun T hT => ?_⟩
    have h₅ := hput'.grew.within hT
    have h₃ : s₃.code.Within T := ⟨h₅.1, h₅.2⟩
    obtain ⟨_, hn, hnoted⟩ := hnests T h₃
    obtain ⟨_, hn', hnoted'⟩ := hnests' T hT
    rw [hlocals₂, hlocals₁] at hn
    rw [hreports₂, hreports₁] at hnoted
    have hyesTests := htests T ((hopen.grew.trans hput.grew).within h₃)
    exact ⟨_, by simpa [skip, hx, hends] using Lays.ifElse hyesTests hn hn',
      (hnoted.trans (hnoted'.behind _)).behind _⟩

/-! ## Loops -/

/-- What stands in front of the body of a loop: nothing, or a condition and the jump out. -/
def Headed (site : Site) (s t : CodeState) (is : Asm) (known : Option Bool)
    (exit : Option Nat) : Prop :=
  if known = some true then exit = none ∧ Wrote site.symbols.libraries s t []
  else exit = some (s.emitter.offset + is.size + 1) ∧
    Wrote site.symbols.libraries s t (is ++ [Wrote.openJump .jumpIfFalse])

theorem Headed.sound {s t : CodeState} {is : Asm} {known : Option Bool} {exit : Option Nat}
    (h : Headed site s t is known exit) : t.Sound site.symbols.libraries := by
  unfold Headed at h
  split at h
  · exact h.2.sound
  · exact h.2.sound

theorem Headed.grew {s t : CodeState} {is : Asm} {known : Option Bool} {exit : Option Nat}
    (h : Headed site s t is known exit) : s.Grew t := by
  unfold Headed at h
  split at h
  · exact h.2.grew
  · exact h.2.grew

/-- The jump out of a loop that stands behind its condition. -/
theorem exit_headed {s₁ s₂ : BodyState} {s : CodeState} {is : Asm} {known : Option Bool}
    {exit : Option Nat} (hs : s.Sound site.symbols.libraries)
    (hw : Wrote site.symbols.libraries s s₁.code is)
    (h : if known = some true then
        exit = none ∧ s₂.code = ⟨s₁.code.emitter.truncate s.emitter.offset, s₁.code.imports⟩
      else ∃ label, exit = some label ∧ Runs (openJump .jumpIfFalse) s₁ label s₂) :
    Headed site s s₂.code is known exit ∧ s₁.code.Grew s₂.code := by
  unfold Headed
  split at h
  · next hknown =>
    rw [if_pos hknown, h.2]
    exact ⟨⟨h.1, Wrote.truncate hs hw⟩, List.prefix_rfl, List.prefix_rfl⟩
  · next hknown =>
    rw [if_neg hknown]
    obtain ⟨label, rfl, hjump⟩ := h
    obtain ⟨-, -, hjump⟩ := openJump_written site rfl hjump
    obtain ⟨rfl, hopen⟩ := hjump hw.sound
    exact ⟨⟨by rw [hw.offset], hw.trans hopen⟩, hopen.grew⟩

/-- Lands the jump out of a loop, if there is one, and goes on with `k`. -/
def landingExit (exit : Option Nat) (k : Writing Bool) : Writing Bool :=
  match exit with
  | some label => do
    editCode (·.land label)
    k
  | none => k

theorem Written.whileLoop {cond : Expr} {body : Stmt} (ih : Written site body) :
    Written site (.whileLoop cond body sp) := by
  intro reachable s ends t h
  unfold statement at h
  obtain ⟨⟨known, start⟩, s₁, hcond, h⟩ := Runs.bind h
  obtain ⟨rfl, hlocals₁, hcond⟩ := condition_written hcond
  dsimp only at h
  have walked (exit : Option Nat) (s₂ : BodyState) (hreports : s₂.reports = s₁.reports)
      (hlocals : s₂.locals = s₁.locals)
      (hexit : if known = some true then
          exit = none ∧ s₂.code = ⟨s₁.code.emitter.truncate s.code.emitter.offset, s₁.code.imports⟩
        else ∃ label, exit = some label ∧ Runs (openJump .jumpIfFalse) s₁ label s₂)
      (h : Runs (do
        editCode (·.enterLoop (some s.code.emitter.offset))
        discard (Compile.nested site (reachable && known != some false) reachable body
          (statement site (reachable && known != some false) body))
        editCode (·.emitLoop s.code.emitter.offset)
        landingExit exit do
          let loop ← withCode (·.exitLoop)
          pure (reachable && (known != some true || loop.hasBreak))) s₂ ends t) :
      Shows site (fun T F x =>
        ∃ B, Lays T site reachable (.whileLoop cond body sp) s.locals F t.locals x B ∧
          Noted s.reports t.reports B) s t ends := by
    obtain ⟨_, _, henter, h⟩ := Runs.bind h
    obtain rfl := Runs.editCode_iff.mp henter
    obtain ⟨_, s₃, hbody, h⟩ := Runs.bind h
    obtain ⟨bodyEnds, hbody⟩ := Runs.discard hbody
    obtain ⟨_, _, hback, h⟩ := Runs.bind h
    obtain rfl := Runs.editCode_iff.mp hback
    have left : ∃ e, e = landExit exit (s₃.code.emitter.emitLoop s.code.emitter.offset) ∧
        ends = (reachable && (known != some true || e.exitLoop.1.hasBreak)) ∧
        t = ⟨⟨e.exitLoop.2, s₃.code.imports⟩, s₃.locals, s₃.reports⟩ := by
      cases exit with
      | some label =>
        obtain ⟨_, _, hland, h⟩ := Runs.bind h
        obtain rfl := Runs.editCode_iff.mp hland
        obtain ⟨_, _, hexit, h⟩ := Runs.bind h
        obtain ⟨rfl, rfl⟩ := Runs.pure_iff.mp h
        obtain ⟨rfl, rfl⟩ := Runs.withCode_iff.mp hexit
        exact ⟨_, rfl, rfl, rfl⟩
      | none =>
        obtain ⟨_, _, hexit, h⟩ := Runs.bind h
        obtain ⟨rfl, rfl⟩ := Runs.pure_iff.mp h
        obtain ⟨rfl, rfl⟩ := Runs.withCode_iff.mp hexit
        exact ⟨_, rfl, rfl, rfl⟩
    obtain ⟨e, he, rfl, rfl⟩ := left
    apply Shows.of_wrote
    refine ((hcond.behind hreports).trans (((ih.nested hbody).behind rfl).front rfl)).imp ?_
    rintro ⟨⟨hreports₁, htests⟩, hbody⟩ hs
    obtain ⟨is, hw, htests⟩ := htests hs
    obtain ⟨hhead, hgrew⟩ := exit_headed hs hw hexit
    obtain ⟨F, x, -, hput, hnests⟩ := hbody (enter_sound hhead.sound)
    obtain ⟨hclosed, hbreak, hgrew'⟩ := loop_closed hs hhead hput (.inl rfl) he
    rw [hbreak]
    refine ⟨_, hclosed, fun T hT => ?_⟩
    have hT' := hgrew'.within hT
    obtain ⟨_, hn, hnoted⟩ := hnests T hT'
    have htable := hput.grew.within hT'
    change Nests _ _ _ _ s₂.locals _ _ _ _ at hn
    rw [hlocals, hlocals₁] at hn
    change Noted s₂.reports _ _ at hnoted
    rw [hreports, hreports₁] at hnoted
    exact ⟨_, .whileLoop (htests T (hgrew.within ⟨htable.1, htable.2⟩)) hn, hnoted.behind _⟩
  split at h
  · next hknown =>
    obtain ⟨_, _, htruncate, h⟩ := Runs.bind h
    obtain rfl := Runs.editCode_iff.mp htruncate
    obtain ⟨_, _, hnone, h⟩ := Runs.bind h
    obtain ⟨rfl, rfl⟩ := Runs.pure_iff.mp hnone
    exact walked none
      ⟨⟨s₁.code.emitter.truncate _, s₁.code.imports⟩, s₁.locals, s₁.reports⟩ rfl rfl
      (by rw [if_pos hknown]; exact ⟨rfl, rfl⟩) h
  · next hknown =>
    obtain ⟨_, s₂, hjump, h⟩ := Runs.bind h
    obtain ⟨label, hopen, rfl⟩ := Runs.map hjump
    obtain ⟨hlocals₂, hreports₂, -⟩ := openJump_written site rfl hopen
    exact walked (some label) s₂ hreports₂ hlocals₂
      (by rw [if_neg hknown]; exact ⟨label, rfl, hopen⟩) h

/-- The way back to the start of a `do` loop whose condition begins at `middle`. -/
def emitReturn (start middle : Nat) (e : Emitter) : Option Bool → Emitter
  | some true => (e.truncate middle).emitLoop start
  | some false => e.truncate middle
  | none => ((e.emitJump .jumpIfFalse).2.emitLoop start).land (e.emitJump .jumpIfFalse).1

/-- The code behind the body of a `do` loop, up to the end of the loop. -/
theorem returning_put {s s₁ s₂ : CodeState} {e : Emitter} {F : Fragment} {x : Exits} {is : Asm}
    {known : Option Bool} (hs : s.Sound site.symbols.libraries)
    (hbody : Put site.symbols.libraries (enter none s) s₁ F x) (hF : F.OneWay)
    (hw : Wrote site.symbols.libraries s₁ s₂ is)
    (he : e = emitReturn s.emitter.offset s₁.emitter.offset s₂.emitter known) :
    Wrote site.symbols.libraries s ⟨e.exitLoop.2, s₂.imports⟩ (closed 0 (F ++ returning is known)) ∧
      e.exitLoop.1.hasBreak = x.breaks ∧ e.exitLoop.1.hasContinue = x.continues ∧
      s₂.Grew ⟨e.exitLoop.2, s₂.imports⟩ := by
  have back {u : CodeState} {G : Fragment} (hput : Put site.symbols.libraries (enter none s) u G x) :
      Put site.symbols.libraries (enter none s) ⟨u.emitter.emitLoop s.emitter.offset, u.imports⟩
        (G ++ [.op (.unary .loop (0 + size G + 3))]) x := by
    have hback := Wrote.emitWith hput.sound .loop rfl (u.emitter.offset + 3 - s.emitter.offset)
    rw [← emitLoop_eq] at hback
    have hdistance : u.emitter.offset + 3 - s.emitter.offset = 0 + size G + 3 := by
      rw [hput.offset, enter_offset]
      omega
    rw [hdistance] at hback
    exact hput.ops_right hback
  obtain _ | _ | _ := known
  case some.true =>
    subst he
    have hput := back (hbody.ops_right (Wrote.truncate hbody.sound hw))
    obtain ⟨hclosed, hbreak, hcontinue, hpool⟩ := hput.close hs (.inr (by simpa using hF))
    rw [closed_again] at hclosed
    refine ⟨by simpa [returning, emitReturn] using hclosed, hbreak, hcontinue, ?_, List.prefix_rfl⟩
    exact (congrArg (fun p : Pool => _ <+: p.entries.toList) hpool).mpr List.prefix_rfl
  case some.false =>
    subst he
    have hput := hbody.ops_right (Wrote.truncate hbody.sound hw)
    obtain ⟨hclosed, hbreak, hcontinue, hpool⟩ := hput.close hs (.inr (by simpa using hF))
    refine ⟨by simpa [returning, emitReturn] using hclosed, hbreak, hcontinue, ?_, List.prefix_rfl⟩
    exact (congrArg (fun p : Pool => _ <+: p.entries.toList) hpool).mpr List.prefix_rfl
  case none =>
    subst he
    obtain ⟨hopen, hlabel⟩ := Wrote.emitJump hw.sound .jumpIfFalse rfl
    have hput := back ((hbody.ops_right hw).ops_right hopen)
    have hlanded := Put.land (F ++ ops is)
      [.op (.unary .loop (0 + size (F ++ ops (is ++ [.unary .jumpIfFalse 3])) + 3))] .jumpIfFalse rfl
      (by simpa using hput) (s₂.emitter.emitJump .jumpIfFalse).1
      (by rw [hlabel, (hbody.ops_right hw).offset])
    obtain ⟨hclosed, hbreak, hcontinue, hpool⟩ := hlanded.close hs (.inr (by simpa using hF))
    refine ⟨?_, hbreak, hcontinue, ?_, List.prefix_rfl⟩
    · have := closed_again 0 (F ++ ops (is ++ [.unary .jumpIfFalse 3]))
      simp only [ops_append, ops_cons, ops_nil, List.append_assoc, List.singleton_append] at this
      simp only [returning, ← this]
      simpa [emitReturn] using hclosed
    · exact (congrArg (fun p : Pool => _ <+: p.entries.toList) hpool).mpr List.prefix_rfl

theorem Written.doLoop {cond : Expr} {body : Stmt} (ih : Written site body) :
    Written site (.doLoop body cond sp) := by
  intro reachable s ends t h
  unfold statement at h
  obtain ⟨_, _, hoff, h⟩ := Runs.bind h
  obtain ⟨rfl, rfl⟩ := Runs.codeOffset_iff.mp hoff
  obtain ⟨_, _, henter, h⟩ := Runs.bind h
  obtain rfl := Runs.editCode_iff.mp henter
  obtain ⟨bodyEnds, s₁, hbody, h⟩ := Runs.bind h
  obtain ⟨_, _, hland, h⟩ := Runs.bind h
  obtain rfl := Runs.editCode_iff.mp hland
  obtain ⟨⟨known, start⟩, s₂, hcond, h⟩ := Runs.bind h
  obtain ⟨rfl, hlocals₂, hcond⟩ := condition_written hcond
  have left : ∃ e, e = emitReturn s.code.emitter.offset s₁.code.emitter.landContinues.offset
        s₂.code.emitter known ∧
      ends = (e.exitLoop.1.hasBreak ||
        (known != some true && (bodyEnds || e.exitLoop.1.hasContinue))) ∧
      t = ⟨⟨e.exitLoop.2, s₂.code.imports⟩, s₂.locals, s₂.reports⟩ := by
    obtain _ | _ | _ := known
    case some.true =>
      obtain ⟨_, _, h₁, h⟩ := Runs.bind h
      obtain rfl := Runs.editCode_iff.mp h₁
      obtain ⟨_, _, h₂, h⟩ := Runs.bind h
      obtain rfl := Runs.editCode_iff.mp h₂
      obtain ⟨_, _, hexit, h⟩ := Runs.bind h
      obtain ⟨rfl, rfl⟩ := Runs.pure_iff.mp h
      obtain ⟨rfl, rfl⟩ := Runs.withCode_iff.mp hexit
      exact ⟨_, rfl, rfl, rfl⟩
    case some.false =>
      obtain ⟨_, _, h₁, h⟩ := Runs.bind h
      obtain rfl := Runs.editCode_iff.mp h₁
      obtain ⟨_, _, hexit, h⟩ := Runs.bind h
      obtain ⟨rfl, rfl⟩ := Runs.pure_iff.mp h
      obtain ⟨rfl, rfl⟩ := Runs.withCode_iff.mp hexit
      exact ⟨_, rfl, rfl, rfl⟩
    case none =>
      obtain ⟨label, _, h₁, h⟩ := Runs.bind h
      obtain ⟨rfl, rfl⟩ := Runs.withCode_iff.mp h₁
      obtain ⟨_, _, h₂, h⟩ := Runs.bind h
      obtain rfl := Runs.editCode_iff.mp h₂
      obtain ⟨_, _, h₃, h⟩ := Runs.bind h
      obtain rfl := Runs.editCode_iff.mp h₃
      obtain ⟨_, _, hexit, h⟩ := Runs.bind h
      obtain ⟨rfl, rfl⟩ := Runs.pure_iff.mp h
      obtain ⟨rfl, rfl⟩ := Runs.withCode_iff.mp hexit
      exact ⟨_, rfl, rfl, rfl⟩
  obtain ⟨e, he, rfl, rfl⟩ := left
  apply Shows.of_wrote
  refine ((((ih.nested hbody).front rfl).behind rfl).trans (hcond.behind rfl)).imp ?_
  rintro ⟨hbody, hreports₂, htests⟩ hs
  obtain ⟨F, x, rfl, hput, hnests⟩ := hbody (enter_sound hs)
  have hlanded := hput.landContinues
  obtain ⟨is, hw, htests⟩ := htests hlanded.sound
  obtain ⟨hclosed, hbreak, hcontinue, hgrew⟩ := returning_put hs hlanded oneWay_forward hw he
  rw [hbreak, hcontinue]
  refine ⟨_, hclosed, fun T hT => ?_⟩
  have hT₂ := hgrew.within hT
  have hT₁ := hw.grew.within hT₂
  have ht := htests T hT₂
  obtain ⟨_, hn, hnoted⟩ := hnests T ⟨by simpa [pool_landContinues] using hT₁.1, hT₁.2⟩
  change ∃ B, Lays _ _ _ _ _ _ s₂.locals _ B ∧ Noted s.reports s₂.reports B
  rw [hlocals₂, hreports₂]
  exact ⟨_, .doLoop hn ht, hnoted⟩

theorem Written.forLoop {first : Option ForInit} {cond : Option Expr} {update : List Expr}
    {body : Stmt} (ih : Written site body) :
    Written site (.forLoop first cond update body sp) := by
  intro reachable s ends t h
  unfold statement at h
  obtain ⟨_, _, hopen, h⟩ := Runs.bind h
  obtain rfl := Runs.editLocals_iff.mp hopen
  obtain ⟨_, s₁, hfirst, h⟩ := Runs.bind h
  obtain ⟨_, _, hoff, h⟩ := Runs.bind h
  obtain ⟨rfl, rfl⟩ := Runs.codeOffset_iff.mp hoff
  dsimp only at h
  -- from the end of the condition on
  have walked (known : Option Bool) (exit : Option Nat) (s₃ : BodyState)
      (hcond : s₃.locals = s₁.locals ∧ Yields s₁ s₃ (s₃.reports = s₁.reports ∧
        (s₁.code.Sound site.symbols.libraries →
          ∃ is, Headed site s₁.code s₃.code is known exit ∧
            ∀ T, s₃.code.Within T → Heads T site s₁.locals cond is known)))
      (h : Runs (do
        editCode (·.enterLoop none)
        discard (Compile.nested site (reachable && known != some false) reachable body
          (statement site (reachable && known != some false) body))
        editCode (·.landContinues)
        effects site update
        editCode (·.emitLoop s₁.code.emitter.offset)
        landingExit exit do
          let loop ← withCode (·.exitLoop)
          editLocals (·.close)
          pure (reachable && (known != some true || loop.hasBreak))) s₃ ends t) :
      Shows site (fun T F x =>
        ∃ B, Lays T site reachable (.forLoop first cond update body sp) s.locals F t.locals x B ∧
          Noted s.reports t.reports B) s t ends := by
    obtain ⟨hlocals₃, hcond⟩ := hcond
    obtain ⟨_, _, henter, h⟩ := Runs.bind h
    obtain rfl := Runs.editCode_iff.mp henter
    obtain ⟨_, s₄, hbody, h⟩ := Runs.bind h
    obtain ⟨bodyEnds, hbody⟩ := Runs.discard hbody
    obtain ⟨_, _, hland, h⟩ := Runs.bind h
    obtain rfl := Runs.editCode_iff.mp hland
    obtain ⟨_, s₅, heffects, h⟩ := Runs.bind h
    obtain ⟨hlocals₅, heffects⟩ := effects_written heffects
    obtain ⟨_, _, hback, h⟩ := Runs.bind h
    obtain rfl := Runs.editCode_iff.mp hback
    have left : ∃ e, e = landExit exit (s₅.code.emitter.emitLoop s₁.code.emitter.offset) ∧
        ends = (reachable && (known != some true || e.exitLoop.1.hasBreak)) ∧
        t = ⟨⟨e.exitLoop.2, s₅.code.imports⟩, s₅.locals.close, s₅.reports⟩ := by
      cases exit with
      | some label =>
        obtain ⟨_, _, hland, h⟩ := Runs.bind h
        obtain rfl := Runs.editCode_iff.mp hland
        obtain ⟨_, _, hexit, h⟩ := Runs.bind h
        obtain ⟨_, _, hclose, h⟩ := Runs.bind h
        obtain ⟨rfl, rfl⟩ := Runs.pure_iff.mp h
        obtain rfl := Runs.editLocals_iff.mp hclose
        obtain ⟨rfl, rfl⟩ := Runs.withCode_iff.mp hexit
        exact ⟨_, rfl, rfl, rfl⟩
      | none =>
        obtain ⟨_, _, hexit, h⟩ := Runs.bind h
        obtain ⟨_, _, hclose, h⟩ := Runs.bind h
        obtain ⟨rfl, rfl⟩ := Runs.pure_iff.mp h
        obtain rfl := Runs.editLocals_iff.mp hclose
        obtain ⟨rfl, rfl⟩ := Runs.withCode_iff.mp hexit
        exact ⟨_, rfl, rfl, rfl⟩
    obtain ⟨e, he, rfl, rfl⟩ := left
    apply Shows.of_wrote
    refine ((((forStart_written hfirst).front rfl).trans hcond).trans
      ((((ih.nested hbody).front rfl).behind rfl).trans (heffects.behind rfl))).imp ?_
    rintro ⟨⟨⟨hreports₁, hstarts⟩, hreports₃, hheads⟩, hbody, hreports₅, hacts⟩ hs
    obtain ⟨is, hw, hstarts⟩ := hstarts hs
    obtain ⟨js, hhead, hheads⟩ := hheads hw.sound
    obtain ⟨F, x, -, hput, hnests⟩ := hbody (enter_sound hhead.sound)
    have hlanded := hput.landContinues
    obtain ⟨ks, hk, hacts⟩ := hacts hlanded.sound
    obtain ⟨hclosed, hbreak, hgrew⟩ := loop_closed hw.sound hhead (hlanded.ops_right hk)
      (.inr (by simpa using oneWay_forward)) he
    rw [hbreak]
    refine ⟨_, hw.trans hclosed, fun T hT => ?_⟩
    have hT₅ := hgrew.within hT
    have hT₄ := hk.grew.within hT₅
    have hT₄ : s₄.code.Within T := ⟨by simpa [pool_landContinues] using hT₄.1, hT₄.2⟩
    have hT₃ := hput.grew.within hT₄
    have hT₃ : s₃.code.Within T := ⟨hT₃.1, hT₃.2⟩
    obtain ⟨_, hn, hnoted⟩ := hnests T hT₄
    have ha := hacts T hT₅
    change Nests _ _ _ _ s₃.locals _ _ _ _ at hn
    change ActsAll _ _ s₄.locals _ _ at ha
    change ∃ B, Lays _ _ _ _ _ _ s₅.locals.close _ B ∧ Noted s.reports s₅.reports B
    rw [hlocals₃] at hn
    change Noted s₃.reports _ _ at hnoted
    rw [hreports₃, hreports₁] at hnoted
    rw [hlocals₅, hreports₅]
    have hbegin := hstarts T (hhead.grew.within hT₃)
    exact ⟨_, by simpa [Nat.add_assoc] using Lays.forLoop hbegin (hheads T hT₃) hn ha,
      hnoted.behind _⟩
  cases cond with
  | none =>
    obtain ⟨_, _, hknown, h⟩ := Runs.bind h
    obtain ⟨rfl, rfl⟩ := Runs.pure_iff.mp hknown
    rw [if_pos rfl] at h
    obtain ⟨_, _, hexit, h⟩ := Runs.bind h
    obtain ⟨rfl, rfl⟩ := Runs.pure_iff.mp hexit
    refine walked (some true) none _ ⟨rfl, .pure rfl ⟨rfl, fun hs => ⟨[], ?_, ?_⟩⟩⟩ h
    · exact ⟨rfl, Wrote.refl hs⟩
    · exact fun T _ => .always
  | some e =>
    obtain ⟨⟨known, start⟩, s₂, hcond, h⟩ := Runs.bind h
    obtain ⟨rfl, hlocals₂, hcond⟩ := condition_written hcond
    dsimp only at h
    have headed {exit : Option Nat} {s₃ : BodyState} (hreports : s₃.reports = s₂.reports)
        (hexit : if known = some true then exit = none ∧
            s₃.code = ⟨s₂.code.emitter.truncate s₁.code.emitter.offset, s₂.code.imports⟩
          else ∃ label, exit = some label ∧ Runs (openJump .jumpIfFalse) s₂ label s₃) :
        Yields s₁ s₃ (s₃.reports = s₁.reports ∧ (s₁.code.Sound site.symbols.libraries →
          ∃ is, Headed site s₁.code s₃.code is known exit ∧
            ∀ T, s₃.code.Within T → Heads T site s₁.locals (some e) is known)) := by
      refine (hcond.behind hreports).imp fun h => ⟨hreports.trans h.1, fun hs => ?_⟩
      obtain ⟨is, hw, htests⟩ := h.2 hs
      obtain ⟨hhead, hgrew⟩ := exit_headed hs hw hexit
      exact ⟨is, hhead, fun T hT => .tested (htests T (hgrew.within hT))⟩
    split at h
    · next hknown =>
      obtain ⟨_, _, htruncate, h⟩ := Runs.bind h
      obtain rfl := Runs.editCode_iff.mp htruncate
      obtain ⟨_, _, hanswer, h⟩ := Runs.bind h
      obtain ⟨rfl, rfl⟩ := Runs.pure_iff.mp hanswer
      rw [if_pos hknown] at h
      obtain ⟨_, _, hnone, h⟩ := Runs.bind h
      obtain ⟨rfl, rfl⟩ := Runs.pure_iff.mp hnone
      exact walked known none
        ⟨⟨s₂.code.emitter.truncate _, s₂.code.imports⟩, s₂.locals, s₂.reports⟩
        ⟨hlocals₂, headed rfl (by rw [if_pos hknown]; exact ⟨rfl, rfl⟩)⟩ h
    · next hknown =>
      obtain ⟨_, _, hanswer, h⟩ := Runs.bind h
      obtain ⟨rfl, rfl⟩ := Runs.pure_iff.mp hanswer
      rw [if_neg hknown] at h
      obtain ⟨_, s₃, hjump, h⟩ := Runs.bind h
      obtain ⟨label, hopen, rfl⟩ := Runs.map hjump
      obtain ⟨hlocals₃, hreports₃, -⟩ := openJump_written site rfl hopen
      exact walked known (some label) s₃ ⟨hlocals₃.trans hlocals₂,
        headed hreports₃ (by rw [if_neg hknown]; exact ⟨label, rfl, hopen⟩)⟩ h

/-! ## The walk -/

theorem WrittenAll.nil : WrittenAll site [] := by
  intro reachable live warned s ends t h
  simp only [statements] at h
  obtain ⟨rfl, rfl⟩ := Runs.pure_iff.mp h
  exact .of_wrote (.pure rfl fun hs => ⟨[], Wrote.refl hs, fun T _ => ⟨_, .nil, .silent rfl⟩⟩)

theorem WrittenAll.cons {stmts : List Stmt} (ih : Written site stmt)
    (ihs : WrittenAll site stmts) : WrittenAll site (stmt :: stmts) := by
  intro reachable live warned s ends t h
  simp only [statements] at h
  obtain ⟨mid, s₁, hfirst, h⟩ := Runs.bind h
  refine ((ih.nested hfirst).trans (ihs _ _ _ _ _ _ h)).imp ?_
  rintro ⟨hfirst, hrest⟩ hs
  obtain ⟨F, x, rfl, hput, hnests⟩ := hfirst hs
  obtain ⟨G, y, rfl, hput', hlays⟩ := hrest hput.sound
  refine ⟨F ++ G, x.both y y.ends, rfl, hput.trans y.ends hput', fun T hT => ?_⟩
  obtain ⟨_, hn, hnoted⟩ := hnests T (hput'.grew.within hT)
  obtain ⟨_, hl, hnoted'⟩ := hlays T hT
  exact ⟨_, .cons hn hl, hnoted.trans (hnoted'.behind _)⟩

mutual

/-- Compiling a statement writes the code that its layout spells. -/
theorem statement_written (site : Site) : (stmt : Stmt) → Written site stmt
  | .block stmts _ => .block (statements_written site stmts)
  | .decl _ => .decl
  | .expr .. => .expr
  | .ifElse _ yes none _ => .ifThen (statement_written site yes)
  | .ifElse _ yes (some no) _ => .ifElse (statement_written site yes) (statement_written site no)
  | .whileLoop _ body _ => .whileLoop (statement_written site body)
  | .doLoop body _ _ => .doLoop (statement_written site body)
  | .forLoop _ _ _ body _ => .forLoop (statement_written site body)
  | .ret .. => .ret
  | .breakLoop _ => .breakLoop
  | .continueLoop _ => .continueLoop
  | .empty _ => .empty

theorem statements_written (site : Site) : (stmts : List Stmt) → WrittenAll site stmts
  | [] => .nil
  | stmt :: stmts => .cons (statement_written site stmt) (statements_written site stmts)

end

end ClassScript.Layout
