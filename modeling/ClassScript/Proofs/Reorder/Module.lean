import ClassScript.Proofs.Flow.Method
import ClassScript.Proofs.Reorder.Statement

/-!
Modules compile in both orders.

The methods of a class are compiled one after the other, each with the tables that those before it have
left. `Redoes ok Q f g` tells of what a method needs of them: only that the tables of the second run
stay within those of the whole first module. So it does not matter which methods come first.
-/

namespace ClassScript

open Compile Layout

/-! ## Bodies -/

namespace Retraces

variable {ok : Diagnostic → Prop} {site site' : Site} (hok : Lenient ok)

include hok

theorem declareParams {ps ps' : List Param} (hps : ps.map Param.placeless = ps'.map Param.placeless)
    (ts : List ValueType) : Retraces ok (Compile.declareParams ps ts) (Compile.declareParams ps' ts) := by
  induction ps generalizing ps' ts with
  | nil =>
    cases List.map_eq_nil_iff.mp hps.symm
    exact pure ()
  | cons p ps ih =>
    cases ps' with
    | nil => cases hps
    | cons p' ps' =>
      obtain ⟨hp, hps⟩ := List.cons.inj hps
      have hname : p.name.name = p'.name.name := Ident.name_eq (Param.mk.inj hp).2.1
      cases ts with
      | nil => exact pure ()
      | cons t ts =>
        refine bind ⟨?_, ?_, ?_⟩ fun _ => ih hps ts
        · rintro ⟨code, locals, reports⟩ d hd
          simp only [StateT.run, modify, modifyGet, MonadStateOf.modifyGet, StateT.modifyGet]
          split
          · exact List.mem_cons_of_mem _ hd
          · exact hd
        · rintro ⟨code, locals, reports⟩ hs hreports
          simp only [StateT.run, modify, modifyGet, MonadStateOf.modifyGet, StateT.modifyGet] at hreports ⊢
          split
          · exact ⟨hs, .refl code⟩
          · exact ⟨hs, .refl code⟩
        · rintro ⟨code, locals, reports⟩ hs hreports T ⟨code', locals', reports'⟩ hT hw ⟨hcode, hlocals, hreports'⟩
          obtain rfl : locals' = locals := hlocals
          simp only [StateT.run, modify, modifyGet, MonadStateOf.modifyGet, StateT.modifyGet] at hreports hw ⊢
          split at hreports
          · next e _ => exact absurd (hreports _ (List.mem_cons_self ..)) (hok.errors e)
          · next hfree =>
            rw [hname] at hfree
            rw [LocalScope.free_of_free hfree, hname]
            exact ⟨trivial, hcode, rfl, hreports'⟩

variable (hsite : site.Akin site')

include hsite

theorem body {b b' : Body} (hb : b.placeless = b'.placeless) (sp sp' : Span) :
    Retraces ok (Compile.body site sp b) (Compile.body site' sp' b') := by
  cases b with
  | block stmts blockSpan =>
    cases b' with
    | arrow => cases hb
    | block stmts' blockSpan' =>
      have hstmts : (Stmt.block stmts blockSpan).placeless = (Stmt.block stmts' blockSpan').placeless := by
        simp only [Stmt.placeless, Body.block.inj hb]
      unfold Compile.body
      rw [← hsite.returns]
      refine bind (statement hok hsite true _ _ hstmts) fun ends => ?_
      split
      · split
        · exact editCode (.emit _)
        · exact error hok _ _
      · exact pure ()
  | arrow e =>
    cases b' with
    | block => cases hb
    | arrow e' =>
      have he : e.placeless = e'.placeless := Body.arrow.inj hb
      unfold Compile.body
      dsimp only
      rw [← hsite.returns]
      split
      · refine bind (attempt hok fun l => Follows.effect hsite l he) fun p => ?_
        cases p with
        | none => exact pure ()
        | some => exact editCode (.emit _)
      · refine bind (attempt hok fun l => Follows.valueOf hsite l he _) fun p => ?_
        cases p with
        | none => exact pure ()
        | some => exact editCode (.emit _)

theorem initializers (store : Opcode) {fs fs' : List FieldSymbol}
    (hfs : fs.map FieldSymbol.placeless = fs'.map FieldSymbol.placeless) :
    Retraces ok (Compile.initializers site store fs) (Compile.initializers site' store fs') := by
  induction fs generalizing fs' with
  | nil =>
    cases List.map_eq_nil_iff.mp hfs.symm
    exact pure ()
  | cons f fs ih =>
    cases fs' with
    | nil => cases hfs
    | cons f' fs' =>
      obtain ⟨hf, hfs⟩ := List.cons.inj hfs
      obtain ⟨htype, -, -, -, hslot⟩ := FieldSymbol.eq_of_placeless hf
      have hvalue : f.value.map Expr.placeless = f'.value.map Expr.placeless := (FieldSymbol.mk.inj hf).2.2.2.2.2.2.1
      unfold Compile.initializers
      dsimp only
      obtain ⟨hv, hv'⟩ | ⟨e, e', hv, hv', he⟩ := map_placeless_cases hvalue
      · rw [hv, hv']
        exact ih hfs
      · rw [hv, hv', ← htype, ← hslot]
        refine bind (attempt hok fun l => Follows.valueOf hsite l he _) fun p => ?_
        cases p with
        | none => exact ih hfs
        | some => exact bind (editCode (.emitWith store id)) fun _ => ih hfs

theorem methodCode {f f' : MethodSymbol} (hf : f.placeless = f'.placeless) {prologue prologue' : Code}
    (hprologue : prologue.size = prologue'.size) :
    Retraces ok (Compile.methodCode site f prologue) (Compile.methodCode site' f' prologue') := by
  have hparams : f.params = f'.params := (MethodSymbol.eq_of_placeless hf).2.2.1
  have hsource : f.source.placeless = f'.source.placeless := (MethodSymbol.mk.inj hf).2.2.2.2.2.2.1
  unfold Compile.methodCode
  cases h : f.source with
  | implied =>
    cases h' : f'.source with
    | declared => simp [h, h', MethodSource.placeless] at hsource
    | implied => exact bind (editCode (.bytes hprologue)) fun _ => editCode (.emit _)
  | declared params b sp =>
    cases h' : f'.source with
    | implied => simp [h, h', MethodSource.placeless] at hsource
    | declared params' b' sp' =>
      rw [h, h'] at hsource
      obtain ⟨hps, hb, -⟩ := MethodSource.declared.inj hsource
      dsimp only
      rw [← hparams]
      exact bind (declareParams hok hps _) fun _ => bind (editCode (.bytes hprologue)) fun _ =>
        body hok hsite hb _ _

end Retraces

/-! ## Methods one after the other -/

/-- Tables within those of a module, and reports that are let pass. -/
structure ModuleState.Trails (ok : Diagnostic → Prop) (T : Tables) (m : ModuleState) : Prop where
  tables : OneEach m.pool m.imports
  inside : Inside T m.pool m.imports
  reports : ∀ d ∈ m.reports, ok d

/-- Where `f` leaves only reports that are let pass, `g` does wherever the tables are within those of
the whole first module, with an answer that `Q` relates. -/
structure Redoes {β : Type} (ok : Diagnostic → Prop) (Q : β → β → Prop)
    (f g : ModuleState → β × ModuleState) : Prop where
  kept : ∀ m, ∀ d ∈ m.reports, d ∈ (f m).2.reports
  settled : ∀ m, (codeOf m).Settled → (∀ d ∈ (f m).2.reports, ok d) →
    (codeOf (f m).2).Settled ∧ (codeOf m).Grew (codeOf (f m).2)
  trails : ∀ m, (codeOf m).Settled → (∀ d ∈ (f m).2.reports, ok d) → ∀ (T : Tables) (n : ModuleState),
    T.Small → (codeOf (f m).2).Within T → n.Trails ok T → Q (f m).1 (g n).1 ∧ (g n).2.Trails ok T

namespace Redoes

variable {α β γ : Type} {ok : Diagnostic → Prop} {Q : β → β → Prop} {R : γ → γ → Prop}
  {f g : ModuleState → β × ModuleState}

/-- One step behind another one, in both runs. -/
theorem andThen {k l : β → ModuleState → γ × ModuleState} (h : Redoes ok Q f g)
    (hk : ∀ b c, Q b c → Redoes ok R (k b) (l c)) (hself : ∀ b, ∃ c, Q b c) :
    Redoes ok R (fun m => k (f m).1 (f m).2) fun m => l (g m).1 (g m).2 := by
  have hkept (b : β) (m : ModuleState) : ∀ d ∈ m.reports, d ∈ (k b m).2.reports := by
    obtain ⟨c, hc⟩ := hself b
    exact (hk b c hc).kept m
  have hfront (m : ModuleState) (hok : ∀ d ∈ (k (f m).1 (f m).2).2.reports, ok d) :
      ∀ d ∈ (f m).2.reports, ok d := fun d hd => hok d (hkept _ _ d hd)
  have hsettled (b : β) (m : ModuleState) (hm : (codeOf m).Settled)
      (hok : ∀ d ∈ (k b m).2.reports, ok d) :
      (codeOf (k b m).2).Settled ∧ (codeOf m).Grew (codeOf (k b m).2) := by
    obtain ⟨c, hc⟩ := hself b
    exact (hk b c hc).settled m hm hok
  refine ⟨fun m d hd => hkept _ _ d (h.kept m d hd), fun m hm hok => ?_, fun m hm hok T n hT hw hn => ?_⟩
  · obtain ⟨hu, hgrew⟩ := h.settled m hm (hfront m hok)
    obtain ⟨hv, hgrew'⟩ := hsettled _ _ hu hok
    exact ⟨hv, hgrew.trans hgrew'⟩
  · obtain ⟨hu, -⟩ := h.settled m hm (hfront m hok)
    obtain ⟨-, hgrew⟩ := hsettled _ _ hu hok
    obtain ⟨hQ, hn'⟩ := h.trails m hm (hfront m hok) T n hT (hgrew.within hw) hn
    exact (hk _ _ hQ).trails _ hu hok T _ hT hw hn'

/-- What is made of the answers does not matter where nothing is told of them. -/
theorem forget {f' g' : ModuleState → γ × ModuleState} (h : Redoes ok Q f g)
    (hf : ∀ m, (f' m).2 = (f m).2) (hg : ∀ m, (g' m).2 = (g m).2) :
    Redoes ok (Whatever) f' g' where
  kept m := by
    rw [hf]
    exact h.kept m
  settled m := by
    rw [hf]
    exact h.settled m
  trails m := by
    rw [hf]
    intro hm hok T n hT hw hn
    rw [hg]
    exact ⟨trivial, (h.trails m hm hok T n hT hw hn).2⟩

section

variable {α' : Type} {f : α → ModuleState → β × ModuleState} {g : α' → ModuleState → β × ModuleState}
  {as : List α} {bs : List α'} {m : ModuleState}

theorem inOrder_kept (h : ∀ a ∈ as, ∃ b ∈ bs, Redoes ok Q (f a) (g b)) :
    ∀ d ∈ m.reports, d ∈ (inOrder f as m).2.reports := by
  induction as generalizing m with
  | nil => exact fun d hd => hd
  | cons a as ih =>
    obtain ⟨b, -, hab⟩ := h a List.mem_cons_self
    exact fun d hd => ih (fun c hc => h c (List.mem_cons_of_mem a hc)) d (hab.kept m d hd)

/-- Where a run in some order leaves only reports that are let pass, each of its steps does, from a
settled state. -/
theorem inOrder_settled (h : ∀ a ∈ as, ∃ b ∈ bs, Redoes ok Q (f a) (g b)) (hm : (codeOf m).Settled)
    (hok : ∀ d ∈ (inOrder f as m).2.reports, ok d) :
    (codeOf (inOrder f as m).2).Settled ∧ (codeOf m).Grew (codeOf (inOrder f as m).2) ∧
      ∀ a ∈ as, ∃ n, (codeOf n).Settled ∧ (∀ d ∈ (f a n).2.reports, ok d) ∧
        (codeOf (f a n).2).Grew (codeOf (inOrder f as m).2) := by
  induction as generalizing m with
  | nil => exact ⟨hm, .refl _, fun a ha => absurd ha List.not_mem_nil⟩
  | cons a as ih =>
    obtain ⟨b, -, hab⟩ := h a List.mem_cons_self
    have hrest : ∀ c ∈ as, ∃ b ∈ bs, Redoes ok Q (f c) (g b) := fun c hc => h c (List.mem_cons_of_mem a hc)
    have hfirst : ∀ d ∈ (f a m).2.reports, ok d := fun d hd => hok d (inOrder_kept hrest d hd)
    obtain ⟨hu, hgrew⟩ := hab.settled m hm hfirst
    obtain ⟨hv, hgrew', hsteps⟩ := ih hrest hu hok
    refine ⟨hv, hgrew.trans hgrew', fun c hc => ?_⟩
    obtain rfl | hc := List.mem_cons.mp hc
    · exact ⟨m, hm, hfirst, hgrew'⟩
    · exact hsteps c hc

/-- The steps can be done in another order. -/
theorem inOrder (h : ∀ a ∈ as, ∃ b ∈ bs, Redoes ok Q (f a) (g b))
    (h' : ∀ b ∈ bs, ∃ a ∈ as, Redoes ok Q (f a) (g b)) :
    Redoes ok (Whatever) (Compile.inOrder f as) (Compile.inOrder g bs) := by
  refine ⟨fun m => inOrder_kept h, fun m hm hok => ?_, fun m hm hok T n hT hw hn => ⟨trivial, ?_⟩⟩
  · obtain ⟨hv, hgrew, -⟩ := inOrder_settled h hm hok
    exact ⟨hv, hgrew⟩
  · obtain ⟨-, -, hsteps⟩ := inOrder_settled h hm hok
    clear h
    induction bs generalizing n with
    | nil => exact hn
    | cons b bs ih =>
      obtain ⟨a, ha, hab⟩ := h' b List.mem_cons_self
      obtain ⟨u, hu, huok, hgrew⟩ := hsteps a ha
      obtain ⟨-, hn'⟩ := hab.trails u hu huok T n hT (hgrew.within hw) hn
      exact ih (fun c hc => h' c (List.mem_cons_of_mem b hc)) _ hn'

end

/-! ## Methods and classes -/

variable {site site' : Site}

/-- Code that is written at one place can be written at the other one. It fits in both, and is of one
size. -/
theorem writeMethod (hok : Lenient ok) {x y : Writing Unit} (h : Retraces ok x y) (sp sp' : Span) :
    Redoes ok (fun b c => b.code.size = c.code.size) (Compile.writeMethod site sp x)
      (Compile.writeMethod site' sp' y) := by
  have hbegun (m : ModuleState) : (beginMethod m).reports = m.reports := rfl
  have hfits {m : ModuleState} (hreports : ∀ d ∈ (Compile.writeMethod site sp x m).2.reports, ok d) :
      (x.run (beginMethod m)).2.code.emitter.oversized = false ∧
        Compile.writeMethod site sp x m = (⟨(x.run (beginMethod m)).2.code.emitter.code,
          (x.run (beginMethod m)).2.locals.frameSize⟩, ⟨(x.run (beginMethod m)).2.code.emitter.pool,
          (x.run (beginMethod m)).2.code.imports, (x.run (beginMethod m)).2.reports⟩) := by
    unfold Compile.writeMethod finishMethod Emitter.finish? at hreports ⊢
    cases hbig : (x.run (beginMethod m)).2.code.emitter.oversized with
    | true =>
      rw [hbig] at hreports
      exact absurd (hreports _ (List.mem_cons_self ..)) (hok.errors _)
    | false => exact ⟨rfl, rfl⟩
  refine ⟨fun m d hd => ?_, fun m hm hreports => ?_, fun m hm hreports T n hT hw hn => ?_⟩
  · have hd := h.kept (beginMethod m) d hd
    unfold Compile.writeMethod finishMethod
    split
    · exact hd
    · exact List.mem_cons_of_mem _ hd
  · obtain ⟨hsmall, heq⟩ := hfits hreports
    rw [heq] at hreports ⊢
    obtain ⟨hs, hgrew⟩ := h.settled (beginMethod m) hm hreports
    exact ⟨⟨hs.tables, fun _ => hs.constants hsmall, hs.imports⟩, hgrew.constants, hgrew.imports⟩
  · obtain ⟨hsmall, heq⟩ := hfits hreports
    rw [heq] at hreports hw ⊢
    obtain ⟨-, hcode, -, hkept⟩ := h.trails (beginMethod m) hm hreports T (beginMethod n) hT
      ⟨hw.constants, hw.imports⟩ ⟨⟨⟨rfl, rfl, id⟩, hn.tables, hn.inside⟩, rfl, hn.reports⟩
    have hsmall' := hcode.level.oversized hsmall
    unfold Compile.writeMethod finishMethod Emitter.finish?
    rw [hsmall']
    exact ⟨hcode.level.size, hcode.tables, hcode.inside, hkept⟩

end Redoes

/-- The same class, with its methods in any order, among classes of which none has so many methods that
calls cannot name them. -/
structure Compile.ClassSite.Akin (c c' : ClassSite) : Prop where
  symbols : c.symbols.Akin c'.symbols
  release : c.release = c'.release
  cls : c.cls = c'.cls
  owner : c.owner.Akin c'.owner
  few : ∀ i, (c'.symbols.classes.getD i default).methods.size ≤ Emitter.maxOperand + 1

namespace Compile.ClassSite.Akin

variable {c c' : ClassSite} (h : c.Akin c')

include h

theorem initializerSite (isStatic : Bool) :
    (Compile.initializerSite c isStatic).Akin (Compile.initializerSite c' isStatic) :=
  ⟨h.symbols, h.release, h.cls, h.owner, rfl, rfl, rfl, h.few⟩

theorem methodSite {f f' : MethodSymbol} (hf : f.placeless = f'.placeless) :
    (Compile.methodSite c f).Akin (Compile.methodSite c' f') := by
  obtain ⟨-, hstatic, -, hreturns⟩ := MethodSymbol.eq_of_placeless hf
  exact ⟨h.symbols, h.release, h.cls, h.owner, (MethodSymbol.mk.inj hf).2.1, hstatic, hreturns, h.few⟩

/-- The fields of one kind. -/
theorem fields (isStatic : Bool) :
    (c.owner.fields.toList.filter (·.isStatic == isStatic)).map FieldSymbol.placeless =
      (c'.owner.fields.toList.filter (·.isStatic == isStatic)).map FieldSymbol.placeless := by
  have hfilter (fs : List FieldSymbol) : (fs.filter (·.isStatic == isStatic)).map FieldSymbol.placeless =
      (fs.map FieldSymbol.placeless).filter (·.isStatic == isStatic) := by
    rw [List.filter_map]
    rfl
  rw [hfilter, hfilter, h.owner.fields]

end Compile.ClassSite.Akin

namespace Redoes

variable {ok : Diagnostic → Prop} {c c' : ClassSite} (hok : Lenient ok) (h : c.Akin c')

include hok h

theorem initializerCode (isStatic : Bool) :
    Redoes ok (fun p q => p.size = q.size) (Compile.initializerCode c isStatic)
      (Compile.initializerCode c' isStatic) := by
  have hcode := h.initializerSite isStatic
  have hwritten : Redoes ok (fun b b' => b.code.size = b'.code.size)
      (Compile.writeMethod (Compile.initializerSite c isStatic) c.owner.decl.name.span _)
      (Compile.writeMethod (Compile.initializerSite c' isStatic) c'.owner.decl.name.span _) :=
    writeMethod hok (.initializers hok hcode (if isStatic then .setStatic else .setField)
      (h.fields isStatic)) _ _
  exact ⟨hwritten.kept, hwritten.settled, hwritten.trails⟩

theorem method {p p' q q' : Code} (hp : p.size = p'.size) (hq : q.size = q'.size)
    {f f' : MethodSymbol} (hf : f.placeless = f'.placeless) :
    Redoes ok (Whatever) (Compile.method c p q f) (Compile.method c' p' q' f') := by
  have hkind : f.kind = f'.kind := (MethodSymbol.mk.inj hf).2.1
  refine (writeMethod hok (.methodCode hok (h.methodSite hf) hf ?_) _ _).forget (fun _ => rfl)
    fun _ => rfl
  rw [hkind]
  split
  · exact hp
  · exact hq
  · rfl

theorem methods {p p' q q' : Code} (hp : p.size = p'.size) (hq : q.size = q'.size) :
    Redoes ok (Whatever) (Compile.inOrder (Compile.method c p q) c.owner.methods.toList)
      (Compile.inOrder (Compile.method c' p' q') c'.owner.methods.toList) := by
  refine inOrder (Q := Whatever) (fun f hf => ?_) fun f' hf' => ?_
  · obtain ⟨f', hf', heq⟩ := List.mem_map.mp (h.owner.methods.mem_iff.mp (List.mem_map_of_mem hf))
    exact ⟨f', hf', method hok h hp hq heq.symm⟩
  · obtain ⟨f, hf, heq⟩ := List.mem_map.mp (h.owner.methods.mem_iff.mpr (List.mem_map_of_mem hf'))
    exact ⟨f, hf, method hok h hp hq heq⟩

theorem classImage : Redoes ok (Whatever) (Compile.classImage c) (Compile.classImage c') := by
  have hself (p : Code) : ∃ q : Code, p.size = q.size := ⟨p, rfl⟩
  have hall := andThen (initializerCode hok h false) (fun p p' hp =>
    andThen (initializerCode hok h true) (fun q q' hq => methods hok h hp hq) hself) hself
  exact hall.forget (fun _ => rfl) fun _ => rfl

end Redoes

/-! ## Modules -/

theorem ModuleState.Trails.start {ok : Diagnostic → Prop} {T : Tables} :
    ModuleState.start.Trails ok T where
  tables := .empty
  inside := ⟨fun c hc => by simp [ModuleState.start, Pool.empty] at hc,
    fun imp himp => by simp [ModuleState.start, ImportTable.empty] at himp⟩
  reports _ hd := absurd hd List.not_mem_nil

/-- Reports that do not block, even if warnings are made errors. -/
def Harmless (promoted : Bool) (d : Diagnostic) : Prop :=
  (if promoted then d.promote else d).isBlocking = false

theorem Harmless.free {promoted : Bool} {d : Diagnostic} (h : Harmless promoted d) :
    d.isBlocking = false := by
  cases promoted with
  | false => exact h
  | true =>
    have hblocking : d.promote.isBlocking = false := h
    rwa [promote_eq hblocking] at hblocking

theorem lenient_harmless (promoted : Bool) : Lenient (Harmless promoted) where
  errors e h := by
    cases promoted <;> cases h
  warnings _ _ h := by
    cases promoted <;> exact h

theorem anyBlocking_eq_false {promoted : Bool} {found : List Diagnostic} :
    Diagnostic.anyBlocking (if promoted then found.map Diagnostic.promote else found) = false ↔
      ∀ d ∈ found, Harmless promoted d := by
  cases promoted <;> simp [Diagnostic.anyBlocking, Harmless]

namespace Symbols.Akin

variable {s s' : Symbols} {i : Nat} (h : s.Akin s')

include h

/-- A class of the first symbols is one of the second ones. -/
theorem right {c : ClassSymbol} (hc : s.classes[i]? = some c) :
    ∃ c', s'.classes[i]? = some c' ∧ c.Akin c' := by
  have hclass := h.classes i
  rw [hc] at hclass
  generalize s'.classes[i]? = o at hclass
  cases hclass with
  | some hcc => exact ⟨_, rfl, hcc⟩

theorem left {c' : ClassSymbol} (hc' : s'.classes[i]? = some c') :
    ∃ c, s.classes[i]? = some c ∧ c.Akin c' := by
  have hclass := h.classes i
  rw [hc'] at hclass
  generalize s.classes[i]? = o at hclass
  cases hclass with
  | some hcc => exact ⟨_, rfl, hcc⟩

end Symbols.Akin

namespace Compilation

variable {name : String} {options : Options} {libraries : List Library} {script script' : Script}

/-- All that is found while a script is compiled. -/
theorem ofScript_eq : Compilation.ofScript name options libraries script =
    let found := (Registration.ofScript libraries options.usings script).diagnostics ++
      (classesOf options libraries script).2.reports.reverse
    let found := if options.warningsAsErrors then found.map Diagnostic.promote else found
    if Diagnostic.anyBlocking found then ⟨none, found⟩
    else ⟨some ⟨name, options.checked, options.release, libraries.map (·.name),
      (classesOf options libraries script).2.pool.entries,
      (classesOf options libraries script).2.imports.imports,
      (classesOf options libraries script).1.toArray⟩, found⟩ := rfl

theorem image_iff : (∃ m, (Compilation.ofScript name options libraries script).image = some m) ↔
    (∀ d ∈ (Registration.ofScript libraries options.usings script).diagnostics,
      Harmless options.warningsAsErrors d) ∧
    ∀ d ∈ (classesOf options libraries script).2.reports, Harmless options.warningsAsErrors d := by
  have hall : (∀ d ∈ (Registration.ofScript libraries options.usings script).diagnostics ++
      (classesOf options libraries script).2.reports.reverse, Harmless options.warningsAsErrors d) ↔
      (∀ d ∈ (Registration.ofScript libraries options.usings script).diagnostics,
        Harmless options.warningsAsErrors d) ∧
      ∀ d ∈ (classesOf options libraries script).2.reports, Harmless options.warningsAsErrors d := by
    simp only [List.mem_append, List.mem_reverse, or_imp, forall_and]
  rw [← hall, ← anyBlocking_eq_false, ofScript_eq]
  dsimp only
  generalize (if options.warningsAsErrors = true then _ else _) = found
  cases hblocking : Diagnostic.anyBlocking found with
  | true => simp
  | false => simp

section

variable {m : Image} (h : script.Rearranged script')
  (hm : (Compilation.ofScript name options libraries script).image = some m)

include h hm

/-- The symbols of a script that compiles, and of one with its methods in another order. -/
theorem symbols_akin :
    (symbolsOf options libraries script).Akin (symbolsOf options libraries script') :=
  (Registration.ofScript_rearranged h fun d hd => ((image_iff.mp ⟨m, hm⟩).1 d hd).free).2

theorem few_rearranged (hfew : ∀ k ∈ m.classes.toList, k.methods.size ≤ Emitter.maxOperand + 1) (i : Nat) :
    ((symbolsOf options libraries script').classes.getD i default).methods.size ≤
      Emitter.maxOperand + 1 := by
  rw [Array.getD_eq_getD_getElem?]
  cases hc' : (symbolsOf options libraries script').classes[i]? with
  | none => exact Nat.zero_le _
  | some c' =>
    obtain ⟨c, hc, hakin⟩ := (symbols_akin h hm).left hc'
    obtain ⟨k, hk, hcompiled⟩ := Flow.forall₂_getElem? (laid_of_compiled hm).classes
      (Flow.getElem?_sites hc)
    have hmethods := hakin.methods.length_eq
    have hsame := hcompiled.methods.length_eq
    have := hfew k (List.mem_of_getElem? hk)
    simp only [List.length_map, Array.length_toList] at hmethods hsame
    simp only [Option.getD_some]
    omega

/-- A script with its methods in another order compiles as well, with tables that hold nothing else. -/
theorem image_rearranged (hfew : ∀ k ∈ m.classes.toList, k.methods.size ≤ Emitter.maxOperand + 1) :
    ∃ m', (Compilation.ofScript name options libraries script').image = some m' ∧
      (∀ c ∈ m'.constants.toList, c ∈ m.constants.toList) ∧
      ∀ imp ∈ m'.imports.toList, ∃ imp' ∈ m.imports.toList, imp'.identity = imp.identity := by
  obtain ⟨hregistered, hreports⟩ := image_iff.mp ⟨m, hm⟩
  have hsame := (Registration.ofScript_rearranged h fun d hd => (hregistered d hd).free).1
  have hakin := symbols_akin h hm
  have hredoes : Redoes (Harmless options.warningsAsErrors) Whatever
      (Compile.inOrder Compile.classImage (sites (symbolsOf options libraries script) options.release))
      (Compile.inOrder Compile.classImage (sites (symbolsOf options libraries script') options.release)) := by
    have hsite (i : Nat) {c c' : ClassSymbol} (howner : c.Akin c') :
        Redoes (Harmless options.warningsAsErrors) Whatever
          (Compile.classImage ⟨symbolsOf options libraries script, options.release, i, c⟩)
          (Compile.classImage ⟨symbolsOf options libraries script', options.release, i, c'⟩) :=
      .classImage (lenient_harmless _) ⟨hakin, rfl, rfl, howner, few_rearranged h hm hfew⟩
    refine .inOrder (Q := Whatever) (fun c hc => ?_) fun c' hc' => ?_
    · obtain ⟨i, hi⟩ := List.getElem?_of_mem hc
      obtain ⟨hc, hsites⟩ := Flow.of_getElem?_sites hi
      obtain ⟨c', hc', howner⟩ := hakin.right hc
      exact ⟨_, List.mem_of_getElem? (Flow.getElem?_sites hc'), hsites ▸ hsite i howner⟩
    · obtain ⟨i, hi⟩ := List.getElem?_of_mem hc'
      obtain ⟨hc', hsites⟩ := Flow.of_getElem?_sites hi
      obtain ⟨c, hc, howner⟩ := hakin.left hc'
      exact ⟨_, List.mem_of_getElem? (Flow.getElem?_sites hc), hsites ▸ hsite i howner⟩
  have hstart : (codeOf .start).Settled := ⟨.empty, fun _ => Nat.zero_le _, Nat.zero_le _⟩
  obtain ⟨hsettled, -⟩ := hredoes.settled .start hstart hreports
  obtain ⟨-, htrails⟩ := hredoes.trails .start hstart hreports
    ⟨(classesOf options libraries script).2.pool.entries, (classesOf options libraries script).2.imports.imports⟩
    .start ⟨hsettled.constants rfl, hsettled.imports⟩ ⟨List.prefix_rfl, List.prefix_rfl⟩ .start
  obtain ⟨m', hm'⟩ := show ∃ m', (Compilation.ofScript name options libraries script').image = some m' from
    image_iff.mpr ⟨hsame ▸ hregistered, htrails.reports⟩
  refine ⟨m', hm', ?_⟩
  rw [image_eq hm, image_eq hm']
  exact ⟨htrails.inside.constants, htrails.inside.functions⟩

end

end Compilation
end ClassScript
