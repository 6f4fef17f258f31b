import ClassScript.Compile.Module
import ClassScript.Proofs.Layout.Writing
import ClassScript.Proofs.Registration
import Mathlib.Data.List.Forall2

/-!
The code of methods and modules.

`LaysMethod T c f is locals B` tells that `is` is the code of the method `f`, whose locals are
`locals` at its end, and that `B` are the statements in it. `LaidImage` tells it of all methods of
an image, as it holds of every image that is compiled. What is reported of such an image are its
registration's warnings and those of statements that cannot be reached.
-/

namespace ClassScript.Layout

open Code (Instruction)
open Compile
open Fragment

section

variable (T : Tables)

/-! ## Methods -/

/-- Parameters with their types, and the locals in front of them and behind them. -/
inductive Enters : List Param → List ValueType → LocalScope → LocalScope → Prop
  | none {ps : List Param} {ts : List ValueType} {locals : LocalScope} (h : ps = [] ∨ ts = []) :
      Enters ps ts locals locals
  | cons {p : Param} {ps : List Param} {t : ValueType} {ts : List ValueType}
      {locals locals' : LocalScope} (hfree : locals.conflict? p.name.name p.name.span = none)
      (h : Enters ps ts (locals.add p.name.name t).2 locals') : Enters (p :: ps) (t :: ts) locals locals'

inductive Initializes (site : Site) (store : Opcode) : List FieldSymbol → Asm → Prop
  | nil : Initializes site store [] []
  | unset {f : FieldSymbol} {fs : List FieldSymbol} {is : Asm} (hv : f.value = none)
      (h : Initializes site store fs is) : Initializes site store (f :: fs) is
  | set {f : FieldSymbol} {fs : List FieldSymbol} {e : Expr} {is js : Asm} {p : Pushed}
      (hv : f.value = some e) (h : Evaluates T site .start e f.type is p)
      (hs : Initializes site store fs js) :
      Initializes site store (f :: fs) (is ++ .unary store f.slot :: js)

def Prologue (c : ClassSite) : MethodKind → Asm → Prop
  | .method, is => is = []
  | .constructor, is =>
    Initializes T (initializerSite c false) .setField
      (c.owner.fields.toList.filter (·.isStatic == false)) is
  | .typeInitializer, is =>
    Initializes T (initializerSite c true) .setStatic
      (c.owner.fields.toList.filter (·.isStatic == true)) is

inductive LaysBody (site : Site) (locals : LocalScope) :
    Body → Asm → LocalScope → List Extent → Prop
  | falls {stmts : List Stmt} {sp : Span} {is : Asm} {locals' : LocalScope} {x : Exits}
      {B : List Extent} (h : Lays T site true (.block stmts sp) locals (ops is) locals' x B)
      (hends : x.ends = true) (hr : site.returns.isVoid = true) :
      LaysBody site locals (.block stmts sp) (is ++ [.plain .retVoid]) locals'
        (⟨.block stmts sp, true, x.ends, 0, ops is⟩ :: B)
  | returns {stmts : List Stmt} {sp : Span} {is : Asm} {locals' : LocalScope} {x : Exits}
      {B : List Extent} (h : Lays T site true (.block stmts sp) locals (ops is) locals' x B)
      (hends : x.ends = false) :
      LaysBody site locals (.block stmts sp) is locals'
        (⟨.block stmts sp, true, x.ends, 0, ops is⟩ :: B)
  | effect {e : Expr} {is : Asm} (hr : site.returns.isVoid = true)
      (h : Acts T site locals e is) :
      LaysBody site locals (.arrow e) (is ++ [.plain .retVoid]) locals []
  | value {e : Expr} {is : Asm} {p : Pushed} (hr : site.returns.isVoid = false)
      (h : Evaluates T site locals e site.returns is p) :
      LaysBody site locals (.arrow e) (is ++ [.plain .ret]) locals []

/-- The code of a method, its locals at the end, and the statements in it. -/
inductive LaysMethod (c : ClassSite) (f : MethodSymbol) : Asm → LocalScope → List Extent → Prop
  | declared {params : List Param} {b : Body} {sp : Span} {locals locals' : LocalScope}
      {is js : Asm} {B : List Extent} (hf : f.source = .declared params b sp)
      (hparams : Enters params f.params .start locals) (his : Prologue T c f.kind is)
      (hb : LaysBody T (methodSite c f) locals b js locals' B) :
      LaysMethod c f (is ++ js) locals' (behind is.size B)
  | implied {is : Asm} (hf : f.source = .implied) (his : Prologue T c f.kind is) :
      LaysMethod c f (is ++ [.plain .retVoid]) .start []

def Spells (code : Code) (is : Asm) : Prop := code.toList = is.bytes ∧ is.Fits

structure Compiled (c : ClassSite) (f : MethodSymbol) (g : MethodImage) : Prop where
  laid : ∃ is locals B, LaysMethod T c f is locals B ∧ Spells g.code is ∧
    g.locals = UInt16.ofNat locals.frameSize
  name : g.name = f.name
  kind : g.kind = f.kind
  visibility : g.visibility = f.visibility
  isStatic : g.isStatic = f.isStatic
  params : g.params = f.params
  returns : g.returns = f.returns

structure CompiledClass (c : ClassSite) (k : ClassImage) : Prop where
  name : k.name = c.owner.name.text
  fields : k.fields = c.owner.fields.map fieldImage
  methods : List.Forall₂ (Compiled T c) c.owner.methods.toList k.methods.toList

end

def sites (s : Symbols) (release : Bool) : List ClassSite :=
  s.classes.toList.zipIdx.map fun (c, i) => ⟨s, release, i, c⟩

structure LaidImage (s : Symbols) (release : Bool) (m : Image) : Prop where
  classes : List.Forall₂ (CompiledClass ⟨m.constants, m.imports⟩) (sites s release) m.classes.toList
  callable : ∀ imp ∈ m.imports.toList, ∃ f r, Callable s.libraries f r ∧ imp = ImportTable.importOf f r

/-! ## Bodies -/

variable {site : Site} {s t : BodyState}

theorem declareParams_written {ps : List Param} {ts : List ValueType} {x : Unit}
    (h : Runs (declareParams ps ts) s x t) :
    t.code = s.code ∧
      Yields s t (t.reports = s.reports ∧ Enters ps ts s.locals t.locals) := by
  induction ps generalizing s ts with
  | nil =>
    obtain ⟨-, rfl⟩ := Runs.pure_iff.mp h
    exact ⟨rfl, .pure rfl ⟨rfl, .none (.inl rfl)⟩⟩
  | cons p ps ih =>
    cases ts with
    | nil =>
      obtain ⟨-, rfl⟩ := Runs.pure_iff.mp h
      exact ⟨rfl, .pure rfl ⟨rfl, .none (.inr rfl)⟩⟩
    | cons type ts =>
      obtain ⟨_, u, hdeclare, hrest⟩ := Runs.bind h
      obtain ⟨hcode, hrest⟩ := ih hrest
      obtain ⟨code, locals, reports⟩ := s
      have hrun := (Prod.mk.inj hdeclare).2
      dsimp only at hrun
      split at hrun
      · next e he =>
        subst hrun
        refine ⟨hcode, ?_⟩
        obtain ⟨new, hr, -⟩ := hrest
        exact ⟨new ++ [e.diagnostic], by simpa using hr, fun hn => by
          have := hn e.diagnostic (by simp)
          simp [SemanticError.diagnostic, Diagnostic.isBlocking] at this⟩
      · next hfree =>
        subst hrun
        exact ⟨hcode, (hrest.front rfl).imp fun h => ⟨h.1, .cons hfree h.2⟩⟩

theorem body_written {sp : Span} {b : Body} {x : Unit} (h : Runs (body site sp b) s x t)
    (hloops : s.code.emitter.loops = []) :
    Yields s t (s.code.Sound site.symbols.libraries →
      ∃ is, Wrote site.symbols.libraries s.code t.code is ∧ ∀ T, t.code.Within T →
        ∃ B, LaysBody T site s.locals b is t.locals B ∧ Noted s.reports t.reports B) := by
  unfold body at h
  split at h
  · next stmts blockSpan =>
    obtain ⟨ends, u, hblock, h⟩ := Runs.bind h
    have hshown := (statement_written site (.block stmts blockSpan)) _ _ _ _ hblock
    split at h
    · next hends =>
      split at h
      · next hr =>
        obtain rfl := Runs.editCode_iff.mp h
        refine (hshown.behind rfl).imp fun h hs => ?_
        obtain ⟨F, y, hy, hput, hlays⟩ := h hs
        obtain ⟨is, rfl, hw⟩ := hput.wrote hloops
        have hj := Wrote.emit hw.sound .retVoid rfl
        refine ⟨_, hw.trans hj, fun T hT => ?_⟩
        obtain ⟨B, hl, hnoted⟩ := hlays T (hj.grew.within hT)
        exact ⟨_, .falls hl (hy.trans hends) hr, hnoted.cons _⟩
      · obtain rfl := Runs.report_iff.mp h
        exact (hshown.trans (Yields.failed _ rfl)).imp fun h => h.2
    · next hends =>
      obtain ⟨-, rfl⟩ := Runs.pure_iff.mp h
      refine hshown.imp fun h hs => ?_
      obtain ⟨F, y, hy, hput, hlays⟩ := h hs
      obtain ⟨is, rfl, hw⟩ := hput.wrote hloops
      refine ⟨_, hw, fun T hT => ?_⟩
      obtain ⟨B, hl, hnoted⟩ := hlays T hT
      exact ⟨_, .returns hl (by simpa [hy] using hends), hnoted.cons _⟩
  · next e =>
    split at h
    · next hr =>
      obtain ⟨r, u, hattempt, h⟩ := Runs.bind h
      obtain ⟨hlocals, hvalue⟩ := Runs.attempt hattempt
      split at h
      · obtain rfl := Runs.editCode_iff.mp h
        refine (hvalue.behind rfl).imp ?_
        rintro ⟨hreports, _, -, he⟩ hs
        obtain ⟨is, hw, hacts⟩ := effect_written hs he
        have hj := Wrote.emit hw.sound .retVoid rfl
        refine ⟨_, hw.trans hj, fun T hT => ?_⟩
        change ∃ B, LaysBody T site s.locals _ _ u.locals B ∧ _
        rw [hlocals]
        exact ⟨_, .effect hr (hacts T (hj.grew.within hT)), .silent hreports⟩
      · obtain ⟨-, rfl⟩ := Runs.pure_iff.mp h
        refine hvalue.imp ?_
        rintro ⟨-, _, hr, -⟩
        cases hr
    · next hr =>
      obtain ⟨r, u, hattempt, h⟩ := Runs.bind h
      obtain ⟨hlocals, hvalue⟩ := Runs.attempt hattempt
      split at h
      · obtain rfl := Runs.editCode_iff.mp h
        refine (hvalue.behind rfl).imp ?_
        rintro ⟨hreports, p, -, he⟩ hs
        obtain ⟨is, hw, hevaluates⟩ := evaluates_of_valueOf hs he
        have hj := Wrote.emit hw.sound .ret rfl
        refine ⟨_, hw.trans hj, fun T hT => ?_⟩
        change ∃ B, LaysBody T site s.locals _ _ u.locals B ∧ _
        rw [hlocals]
        exact ⟨_, .value (by simpa using hr) (hevaluates T (hj.grew.within hT)),
          .silent hreports⟩
      · obtain ⟨-, rfl⟩ := Runs.pure_iff.mp h
        refine hvalue.imp ?_
        rintro ⟨-, _, hr, -⟩
        cases hr

theorem initializers_written {store : Opcode} (hop : store.operandCount = 1)
    {fs : List FieldSymbol} {x : Unit} (hlocals : s.locals = .start)
    (h : Runs (initializers site store fs) s x t) :
    Yields s t (t.reports = s.reports ∧ (s.code.Sound site.symbols.libraries →
      ∃ is, Wrote site.symbols.libraries s.code t.code is ∧
        ∀ T, t.code.Within T → Initializes T site store fs is)) := by
  induction fs generalizing s with
  | nil =>
    obtain ⟨-, rfl⟩ := Runs.pure_iff.mp h
    exact .pure rfl ⟨rfl, fun hs => ⟨[], Wrote.refl hs, fun _ _ => .nil⟩⟩
  | cons f fs ih =>
    unfold initializers at h
    dsimp only at h
    cases hv : f.value with
    | none =>
      simp only [hv] at h
      refine (ih hlocals h).imp ?_
      rintro ⟨hreports, h⟩
      refine ⟨hreports, fun hs => ?_⟩
      obtain ⟨is, hw, hrest⟩ := h hs
      exact ⟨is, hw, fun T hT => .unset hv (hrest T hT)⟩
    | some e =>
      simp only [hv] at h
      obtain ⟨r, u, hattempt, h⟩ := Runs.bind h
      obtain ⟨hlocals', hvalue⟩ := Runs.attempt hattempt
      cases r with
      | none =>
        refine (hvalue.trans (ih (hlocals'.trans hlocals) h)).imp ?_
        rintro ⟨⟨-, _, ha, -⟩, -⟩
        cases ha
      | some p =>
        obtain ⟨_, v, hedit, h⟩ := Runs.bind h
        obtain rfl := Runs.editCode_iff.mp hedit
        have hrest := ih (s := ⟨⟨u.code.emitter.emitWith store f.slot, u.code.imports⟩, u.locals,
          u.reports⟩) (hlocals'.trans hlocals) h
        refine (hvalue.trans (hrest.front rfl)).imp ?_
        rintro ⟨⟨hreports, q, -, he⟩, hreports', hrest⟩
        refine ⟨hreports'.trans hreports, fun hs => ?_⟩
        obtain ⟨is, hw, hevaluates⟩ := evaluates_of_valueOf hs he
        have hj := Wrote.emitWith hw.sound _ hop f.slot
        obtain ⟨ks, hk, hrest⟩ := hrest hj.sound
        rw [hlocals] at hevaluates
        refine ⟨_, (hw.trans hj).trans hk, fun T hT => ?_⟩
        simpa using Initializes.set hv (hevaluates T ((hj.trans hk).grew.within hT)) (hrest T hT)

/-! ## Methods of a module -/

/-- The state in which the next method is begun. -/
def codeOf (m : ModuleState) : CodeState := (beginMethod m).code

/-- Compiling something gives an answer that `P` holds of, together with the states in front of it
and behind it, unless a blocking diagnostic is reported. `A` is what it relies on. The tables of the
module only grow. -/
def Builds {β : Type} (libraries : List Library) (A : Prop) (x : ModuleState → β × ModuleState)
    (P : ModuleState → ModuleState → β → Prop) : Prop :=
  ∀ m b m', x m = (b, m') → ∃ new, m'.reports = new ++ m.reports ∧
    ((∀ d ∈ new, d.isBlocking = false) → A → (codeOf m).Sound libraries →
      (codeOf m').Sound libraries ∧ (codeOf m).Grew (codeOf m') ∧ P m m' b)

variable {libraries : List Library} {A : Prop}

/-- `P` holds of the tables of the whole module, and `Q` of every report that was added. -/
def Finally {β : Type} (P : Tables → β → Prop) (Q : Tables → β → Diagnostic → Prop)
    (m m' : ModuleState) (b : β) : Prop :=
  ∀ T, (codeOf m').Within T → P T b ∧ ∀ d ∈ m'.reports, d ∈ m.reports ∨ Q T b d

/-- `Q` holds of an element of one list and its fellow in the other one. -/
def Matched {α β : Type} (Q : α → β → Prop) (as : List α) (bs : List β) : Prop :=
  ∃ (i : Nat) (a : α) (b : β), as[i]? = some a ∧ bs[i]? = some b ∧ Q a b

theorem Matched.imp {α β : Type} {Q R : α → β → Prop} {as : List α} {bs : List β}
    (h : Matched Q as bs) (hQR : ∀ a b, Q a b → R a b) : Matched R as bs := by
  obtain ⟨i, a, b, ha, hb, hq⟩ := h
  exact ⟨i, a, b, ha, hb, hQR a b hq⟩

theorem Builds.inOrder (libraries : List Library) {α β : Type}
    {f : α → ModuleState → β × ModuleState} {P : Tables → α → β → Prop}
    {Q : Tables → α → β → Diagnostic → Prop} (as : List α)
    (hf : ∀ a ∈ as, Builds libraries A (f a) (Finally (fun T => P T a) (fun T => Q T a))) :
    Builds libraries A (Compile.inOrder f as) (Finally (fun T => List.Forall₂ (P T) as)
      (fun T bs d => Matched (fun a b => Q T a b d) as bs)) := by
  induction as with
  | nil =>
    intro m bs m' h
    cases h
    exact ⟨[], rfl, fun _ _ hs => ⟨hs, .refl _, fun _ _ => ⟨.nil, fun _ => .inl⟩⟩⟩
  | cons a as ih =>
    intro m bs m' h
    obtain ⟨new, hr, hb⟩ := hf a List.mem_cons_self m _ _ rfl
    obtain ⟨new', hr', hbs⟩ := ih (fun b hb => hf b (List.mem_cons_of_mem a hb)) (f a m).2 _ _ rfl
    cases h
    refine ⟨new' ++ new, by rw [hr', hr, List.append_assoc], fun hn hA hs => ?_⟩
    obtain ⟨hs, hgrew, hP⟩ := hb (fun d hd => hn d (by simp [hd])) hA hs
    obtain ⟨hs, hgrew', hPs⟩ := hbs (fun d hd => hn d (by simp [hd])) hA hs
    refine ⟨hs, hgrew.trans hgrew', fun T hT => ?_⟩
    obtain ⟨hfirst, hfirst'⟩ := hP T (hgrew'.within hT)
    obtain ⟨hrest, hrest'⟩ := hPs T hT
    refine ⟨.cons hfirst hrest, fun d hd => ?_⟩
    obtain hd | ⟨i, b, c, hb, hc, hq⟩ := hrest' d hd
    · exact (hfirst' d hd).imp id fun hq => ⟨0, a, _, rfl, rfl, hq⟩
    · exact .inr ⟨i + 1, b, c, hb, hc, hq⟩

theorem codeOf_finishMethod (site : Site) (sp : Span) (s : BodyState) (hs : s.code.Sound libraries) :
    (codeOf (finishMethod site sp s).2).Sound libraries ∧
      s.code.Grew (codeOf (finishMethod site sp s).2) := by
  unfold finishMethod
  split <;> exact ⟨⟨hs.pool, hs.imports, by simp [codeOf, beginMethod, Emitter.start]⟩,
    List.prefix_rfl, List.prefix_rfl⟩

/-- A method is written and finished. -/
theorem writeMethod_builds (libraries : List Library) (A : Prop) (site : Site) (sp : Span)
    (write : Writing Unit)
    (L : Tables → Asm → LocalScope → List Diagnostic → List Diagnostic → Prop)
    (hwrite : ∀ m x t, Runs write (beginMethod m) x t → Yields (beginMethod m) t
      (A → (codeOf m).Sound libraries → ∃ is,
        Wrote libraries (codeOf m) t.code is ∧
          ∀ T, t.code.Within T → L T is t.locals m.reports t.reports)) :
    Builds libraries A (writeMethod site sp write) fun m m' b =>
      ∃ is locals, Spells b.code is ∧ b.frameSize = locals.frameSize ∧
        ∀ T, (codeOf m').Within T → L T is locals m.reports m'.reports := by
  intro m b m' h
  obtain ⟨⟨⟩, t, hrun⟩ : ∃ x t, Runs write (beginMethod m) x t := ⟨_, _, rfl⟩
  obtain ⟨new, hr, hw⟩ := hwrite m _ _ hrun
  replace h : finishMethod site sp t = (b, m') := by
    rw [← h, writeMethod, hrun]
  have hfinished (ht : t.code.Sound libraries) := codeOf_finishMethod site sp t ht
  rw [h] at hfinished
  simp only [finishMethod] at h
  split at h
  · next code hf =>
    cases h
    refine ⟨new, hr, fun hn hA hs => ?_⟩
    obtain ⟨is, hw, hL⟩ := hw hn hA hs
    obtain ⟨hs', hgrew⟩ := hfinished hw.sound
    refine ⟨hs', hw.grew.trans hgrew, is, _, ?_, rfl, fun T hT => hL T (hgrew.within hT)⟩
    simp only [Emitter.finish?] at hf
    split at hf
    · cases hf
    · next hbig =>
      cases hf
      refine ⟨?_, (hw.fits (by simpa using hbig)).2⟩
      simpa [codeOf, beginMethod, Emitter.start] using hw.code
  · cases h
    refine ⟨_ :: new, congrArg (_ :: ·) hr, fun hn => ?_⟩
    have := hn _ List.mem_cons_self
    simp [SemanticError.diagnostic, Diagnostic.isBlocking] at this

/-- The code of initializers. -/
theorem initializerCode_builds (c : ClassSite) (isStatic : Bool) :
    Builds c.symbols.libraries True (initializerCode c isStatic) fun m m' code =>
      ∃ is, Spells code is ∧ ∀ T, (codeOf m').Within T →
        Initializes T (initializerSite c isStatic)
          (if isStatic then .setStatic else .setField)
          (c.owner.fields.toList.filter (·.isStatic == isStatic)) is ∧ m'.reports = m.reports := by
  intro m code m' h
  have hop : Opcode.operandCount (if isStatic then .setStatic else .setField) = 1 := by
    cases isStatic <;> rfl
  obtain ⟨new, hr, hb⟩ := writeMethod_builds c.symbols.libraries True
    (initializerSite c isStatic) c.owner.decl.name.span
    (initializers (initializerSite c isStatic) (if isStatic then .setStatic else .setField)
      (c.owner.fields.toList.filter (·.isStatic == isStatic)))
    (fun T is _ before after => Initializes T (initializerSite c isStatic)
      (if isStatic then .setStatic else .setField)
      (c.owner.fields.toList.filter (·.isStatic == isStatic)) is ∧ after = before)
    (fun m x t h => (initializers_written hop rfl h).imp fun h _ hs => by
      obtain ⟨is, hw, his⟩ := h.2 hs
      exact ⟨is, hw, fun T hT => ⟨his T hT, h.1⟩⟩) m _ _ rfl
  cases h
  refine ⟨new, hr, fun hn hA hs => ?_⟩
  obtain ⟨hs, hgrew, is, -, hspells, -, hL⟩ := hb hn hA hs
  exact ⟨hs, hgrew, is, hspells, hL⟩

theorem methodCode_written {c : ClassSite} {f : MethodSymbol} {prologue : Code} {is : Asm}
    {m : ModuleState} {x : Unit} {t : BodyState}
    (h : Runs (methodCode (methodSite c f) f prologue) (beginMethod m) x t) :
    Yields (beginMethod m) t (Spells prologue is → (codeOf m).Sound c.symbols.libraries →
      ∃ js, Wrote c.symbols.libraries (codeOf m) t.code js ∧ ∀ T, t.code.Within T →
        Prologue T c f.kind is →
          ∃ B, LaysMethod T c f js t.locals B ∧ Noted m.reports t.reports B) := by
  unfold methodCode at h
  split at h
  · next params b sp hf =>
    obtain ⟨_, u, hparams, h⟩ := Runs.bind h
    obtain ⟨hcode, hparams⟩ := declareParams_written hparams
    obtain ⟨_, v, hedit, h⟩ := Runs.bind h
    obtain rfl := Runs.editCode_iff.mp hedit
    have hbody := body_written h (by simp [hcode, beginMethod, Emitter.start, Emitter.bytes])
    refine (hparams.trans (hbody.front rfl)).imp ?_
    rintro ⟨⟨hreports, henters⟩, hbody⟩ hspells hs
    have hu : u.code.Sound c.symbols.libraries := by rw [hcode]; exact hs
    have hw := Wrote.bytes hu hspells.1 fun _ => hspells.2
    obtain ⟨js, hj, hlays⟩ := hbody hw.sound
    have hall := hw.trans hj
    rw [hcode] at hall
    refine ⟨_, hall, fun T hT hprologue => ?_⟩
    obtain ⟨B, hB, hnoted⟩ := hlays T hT
    refine ⟨_, .declared hf henters hprologue hB, ?_⟩
    change Noted u.reports _ _ at hnoted
    rw [hreports] at hnoted
    exact hnoted.behind _
  · next hf =>
    obtain ⟨_, v, hedit, h⟩ := Runs.bind h
    obtain rfl := Runs.editCode_iff.mp hedit
    obtain rfl := Runs.editCode_iff.mp h
    refine .pure rfl fun hspells hs => ?_
    have hw := Wrote.bytes hs hspells.1 fun _ => hspells.2
    have hj := Wrote.emit hw.sound .retVoid rfl
    exact ⟨_, hw.trans hj, fun T hT hprologue => ⟨_, .implied hf hprologue, .silent rfl⟩⟩

/-- The code in front of a method of this kind, if that of its class is given. -/
def prologueOf {α : Type} (instances statics none : α) : MethodKind → α
  | .constructor => instances
  | .typeInitializer => statics
  | .method => none

def Statements (T : Tables) (c : ClassSite) (f : MethodSymbol) (g : MethodImage)
    (B : List Extent) : Prop :=
  ∃ is locals, LaysMethod T c f is locals B ∧ Spells g.code is ∧
    g.locals = UInt16.ofNat locals.frameSize

def Warned (T : Tables) (c : ClassSite) (f : MethodSymbol) (g : MethodImage) (d : Diagnostic) :
    Prop := ∃ B, Statements T c f g B ∧ ∃ e ∈ B, e.Warns d

/-- A method is compiled behind its prologue. -/
theorem method_builds (c : ClassSite) (instanceCode staticCode : Code) (is js : Asm)
    (f : MethodSymbol) :
    Builds c.symbols.libraries (Spells instanceCode is ∧ Spells staticCode js)
      (Compile.method c instanceCode staticCode f) (Finally
        (fun T g => Prologue T c .constructor is → Prologue T c .typeInitializer js →
          Compiled T c f g)
        (fun T g d => Prologue T c .constructor is → Prologue T c .typeInitializer js →
          Warned T c f g d)) := by
  intro m g m' h
  have hmethod : Compile.method c instanceCode staticCode f m =
      (let w := writeMethod (methodSite c f) (methodSpan f)
        (methodCode (methodSite c f) f (prologueOf instanceCode staticCode #[] f.kind)) m
       (⟨f.name, f.kind, f.visibility, f.isStatic, f.params, f.returns,
        UInt16.ofNat w.1.frameSize, w.1.code⟩, w.2)) := by
    unfold Compile.method
    generalize f.kind = kind
    cases kind <;> rfl
  obtain ⟨new, hr, hb⟩ := writeMethod_builds c.symbols.libraries
    (Spells (prologueOf instanceCode staticCode #[] f.kind) (prologueOf is js [] f.kind))
    (methodSite c f) (methodSpan f)
    (methodCode (methodSite c f) f (prologueOf instanceCode staticCode #[] f.kind))
    (fun T ks locals before after => Prologue T c f.kind (prologueOf is js [] f.kind) →
      ∃ B, LaysMethod T c f ks locals B ∧ Noted before after B)
    (fun m x t h => methodCode_written h) m _ _ rfl
  have spells (hA : Spells instanceCode is ∧ Spells staticCode js) :
      Spells (prologueOf instanceCode staticCode #[] f.kind) (prologueOf is js [] f.kind) := by
    cases f.kind with
    | method => exact ⟨rfl, Asm.fits_nil⟩
    | constructor => exact hA.1
    | typeInitializer => exact hA.2
  have prologue {T : Tables} (hi : Prologue T c .constructor is)
      (hj : Prologue T c .typeInitializer js) :
      Prologue T c f.kind (prologueOf is js [] f.kind) := by
    cases f.kind with
    | method => exact rfl
    | constructor => exact hi
    | typeInitializer => exact hj
  rw [hmethod] at h
  cases h
  refine ⟨new, hr, fun hn hA hs => ?_⟩
  obtain ⟨hs, hgrew, ks, locals, hspells, hsize, hL⟩ := hb hn (spells hA) hs
  have hsize := congrArg UInt16.ofNat hsize
  refine ⟨hs, hgrew, fun T hT => ⟨fun hi hj => ⟨?_, rfl, rfl, rfl, rfl, rfl, rfl⟩,
    fun d hd => ?_⟩⟩
  · obtain ⟨B, hB, -⟩ := hL T hT (prologue hi hj)
    exact ⟨ks, locals, B, hB, hspells, hsize⟩
  · refine or_iff_not_imp_left.mpr fun hnew hi hj => ?_
    obtain ⟨B, hB, hnoted⟩ := hL T hT (prologue hi hj)
    exact ⟨B, ⟨ks, locals, hB, hspells, hsize⟩, (hnoted d hd).resolve_left hnew⟩

/-! ## Modules -/

def WarnedClass (T : Tables) (c : ClassSite) (k : ClassImage) (d : Diagnostic) : Prop :=
  Matched (fun f g => Warned T c f g d) c.owner.methods.toList k.methods.toList

theorem classImage_builds (c : ClassSite) :
    Builds c.symbols.libraries True (classImage c)
      (Finally (fun T => CompiledClass T c) (fun T => WarnedClass T c)) := by
  intro m k m' h
  obtain ⟨instanceCode, m₁, h₁⟩ : ∃ code m₁, initializerCode c false m = (code, m₁) := ⟨_, _, rfl⟩
  obtain ⟨staticCode, m₂, h₂⟩ : ∃ code m₂, initializerCode c true m₁ = (code, m₂) := ⟨_, _, rfl⟩
  obtain ⟨images, m₃, h₃⟩ : ∃ images m₃, Compile.inOrder
    (Compile.method c instanceCode staticCode) c.owner.methods.toList m₂ = (images, m₃) := ⟨_, _, rfl⟩
  simp only [classImage, h₁, h₂, h₃] at h
  cases h
  obtain ⟨new₁, hr₁, hb₁⟩ := initializerCode_builds c false _ _ _ h₁
  obtain ⟨new₂, hr₂, hb₂⟩ := initializerCode_builds c true _ _ _ h₂
  have methods (is js : Asm) := Builds.inOrder c.symbols.libraries c.owner.methods.toList
    (fun f _ => method_builds c instanceCode staticCode is js f) _ _ _ h₃
  obtain ⟨new₃, hr₃, -⟩ := methods [] []
  refine ⟨new₃ ++ (new₂ ++ new₁), by simp [hr₃, hr₂, hr₁], fun hn _ hs => ?_⟩
  obtain ⟨hs, hgrew₁, is, hi, hinstance⟩ := hb₁ (fun d hd => hn d (by simp [hd])) trivial hs
  obtain ⟨hs, hgrew₂, js, hj, hstatic⟩ := hb₂ (fun d hd => hn d (by simp [hd])) trivial hs
  obtain ⟨new, hr, hb⟩ := methods is js
  obtain rfl := List.append_cancel_right (hr.symm.trans hr₃)
  obtain ⟨hs, hgrew₃, hmethods⟩ := hb (fun d hd => hn d (by simp [hd])) ⟨hi, hj⟩ hs
  refine ⟨hs, (hgrew₁.trans hgrew₂).trans hgrew₃, fun T hT => ?_⟩
  have hT₂ := hgrew₃.within hT
  obtain ⟨hinstance, hsame₁⟩ := hinstance T (hgrew₂.within hT₂)
  obtain ⟨hstatic, hsame₂⟩ := hstatic T hT₂
  obtain ⟨hmethods, hwarned⟩ := hmethods T hT
  refine ⟨⟨rfl, rfl, hmethods.imp fun f g hg => hg hinstance hstatic⟩, fun d hd => ?_⟩
  refine (hwarned d hd).imp (fun hd => ?_) fun hd => hd.imp fun f g hg => hg hinstance hstatic
  rwa [hsame₂, hsame₁] at hd

theorem codeOf_start_sound (libraries : List Library) : (codeOf .start).Sound libraries :=
  ⟨Pool.sound_empty, ImportTable.sound_empty libraries, by
    simp [codeOf, beginMethod, Emitter.start, ModuleState.start]⟩

/-- A promoted diagnostic that does not block is as it was. -/
theorem promote_eq {d : Diagnostic} (h : d.promote.isBlocking = false) : d.promote = d := by
  by_cases hw : d.severity = .warning
  · simp [Diagnostic.promote, hw, Diagnostic.isBlocking] at h
  · exact if_neg hw

/-- Without a blocking diagnostic there was none before warnings were promoted, and nothing was
promoted. -/
theorem not_blocking {found : List Diagnostic} {promoted : Bool}
    (h : Diagnostic.anyBlocking (if promoted then found.map Diagnostic.promote else found) = false) :
    (∀ d ∈ found, d.isBlocking = false) ∧
      (if promoted then found.map Diagnostic.promote else found) = found := by
  simp only [Diagnostic.anyBlocking, List.any_eq_false, Bool.not_eq_true] at h
  by_cases hp : promoted
  · rw [if_pos hp] at h ⊢
    have same (d) (hd : d ∈ found) := promote_eq (h _ (List.mem_map_of_mem hd))
    exact ⟨fun d hd => same d hd ▸ h _ (List.mem_map_of_mem hd),
      (List.map_congr_left same).trans (List.map_id _)⟩
  · rw [if_neg hp] at h ⊢
    exact ⟨h, rfl⟩

def symbolsOf (options : Options) (libraries : List Library) (script : Script) : Symbols :=
  (Registration.ofScript libraries options.usings script).symbols

theorem symbolsOf_sound (options : Options) (libraries : List Library) (script : Script) :
    (symbolsOf options libraries script).Sound libraries :=
  Registration.ofScript_sound libraries options.usings script

/-- The classes of a script that is compiled, and the state of the module behind them. -/
def classesOf (options : Options) (libraries : List Library) (script : Script) :
    List ClassImage × ModuleState :=
  Compile.inOrder classImage (sites (symbolsOf options libraries script) options.release) .start

theorem image_eq {name : String} {options : Options} {libraries : List Library} {script : Script}
    {m : Image} (h : (Compilation.ofScript name options libraries script).image = some m) :
    m = ⟨name, options.checked, options.release, libraries.map (·.name),
      (classesOf options libraries script).2.pool.entries,
      (classesOf options libraries script).2.imports.imports,
      (classesOf options libraries script).1.toArray⟩ := by
  simp only [Compilation.ofScript] at h
  generalize (if options.warningsAsErrors = true then _ else _) = found at h
  split at h
  · cases h
  · cases h
    rfl

/-- Every image that is compiled is laid, and every report that is not one of the registration warns
of a statement in it. -/
theorem compiled_laid {name : String} {options : Options} {libraries : List Library}
    {script : Script} {m : Image}
    (h : (Compilation.ofScript name options libraries script).image = some m) :
    LaidImage (symbolsOf options libraries script) options.release m ∧
      ∀ d ∈ (Compilation.ofScript name options libraries script).diagnostics,
        (d.isBlocking = false ∧
          d ∈ (Registration.ofScript libraries options.usings script).diagnostics) ∨
        Matched (fun c k => WarnedClass ⟨m.constants, m.imports⟩ c k d)
          (sites (symbolsOf options libraries script) options.release) m.classes.toList := by
  have hlibraries := (symbolsOf_sound options libraries script).libraries
  obtain ⟨images, m', hm⟩ : ∃ images m', Compile.inOrder classImage
    (sites (symbolsOf options libraries script) options.release) .start = (images, m') := ⟨_, _, rfl⟩
  have hsites : ∀ c ∈ sites (symbolsOf options libraries script) options.release,
      c.symbols.libraries = libraries := by
    intro c hc
    obtain ⟨⟨k, i⟩, -, rfl⟩ := List.mem_map.mp hc
    exact hlibraries
  obtain ⟨new, hr, hb⟩ := Builds.inOrder libraries _
    (fun c hc => hsites c hc ▸ classImage_builds c) _ _ _ hm
  simp only [sites, symbolsOf] at hm
  simp only [Compilation.ofScript, hm] at h ⊢
  generalize hfound : (if options.warningsAsErrors = true then _ else _) = found at h ⊢
  split at h
  · cases h
  · next hblocking =>
    cases h
    subst hfound
    obtain ⟨hn, hsame⟩ := not_blocking (Bool.not_eq_true _ ▸ hblocking)
    have hnew : m'.reports = new := by simpa [ModuleState.start] using hr
    obtain ⟨hs, -, hclasses⟩ := hb
      (fun d hd => hn d (by simp [hnew, hd])) trivial (codeOf_start_sound libraries)
    obtain ⟨hclasses, hwarned⟩ :=
      hclasses ⟨m'.pool.entries, m'.imports.imports⟩ ⟨List.prefix_rfl, List.prefix_rfl⟩
    refine ⟨⟨hclasses, ?_⟩, fun d hd => ?_⟩
    · rw [hlibraries]
      exact hs.imports.callable
    · rw [if_neg hblocking] at hd
      dsimp only at hd
      rw [hsame] at hd
      have hfree := hn d hd
      obtain hd | hd := List.mem_append.mp hd
      · exact .inl ⟨hfree, hd⟩
      · exact .inr ((hwarned d (List.mem_reverse.mp hd)).resolve_left (by simp [ModuleState.start]))

theorem laid_of_compiled {name : String} {options : Options} {libraries : List Library}
    {script : Script} {m : Image}
    (h : (Compilation.ofScript name options libraries script).image = some m) :
    LaidImage (symbolsOf options libraries script) options.release m := (compiled_laid h).1

end ClassScript.Layout
