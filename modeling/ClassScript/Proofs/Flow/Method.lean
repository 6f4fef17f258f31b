import ClassScript.Proofs.Flow.Statement
import ClassScript.Proofs.Layout.Module

/-!
The code of every method that is compiled can be executed.

`Annotated Γ f is B known` tells that the bytes of the method `f` spell `is`, and that `known` assigns
states to its places: nothing is on the stack and only parameters are stored at the start, and the
end of the code is not reached.
-/

namespace ClassScript.Flow

open Code (Instruction)
open Compile Layout
open Layout.Fragment

/-! ## Tables of the module -/

theorem forall₂_getElem? {α β : Type} {R : α → β → Prop} {as : List α} {bs : List β}
    (h : List.Forall₂ R as bs) {i : Nat} {a : α} (ha : as[i]? = some a) :
    ∃ b, bs[i]? = some b ∧ R a b := by
  induction h generalizing i with
  | nil => simp at ha
  | cons hr _ ih =>
    cases i with
    | zero =>
      cases ha
      exact ⟨_, rfl, hr⟩
    | succ i => exact ih ha

theorem forall₂_flatMap {α β γ : Type} {R : α → β → Prop} {f : α → List γ} {g : β → List γ}
    {as : List α} {bs : List β} (h : List.Forall₂ R as bs) (hfg : ∀ a b, R a b → f a = g b) :
    as.flatMap f = bs.flatMap g := by
  induction h with
  | nil => rfl
  | cons hr _ ih => rw [List.flatMap_cons, List.flatMap_cons, ih, hfg _ _ hr]

theorem getElem?_slot {fs : List FieldSymbol} (h : Numbered 0 fs) {f : FieldSymbol} (hf : f ∈ fs) :
    fs[f.slot]? = some f := by
  obtain ⟨k, hk⟩ := List.getElem?_of_mem hf
  rw [h k f hk, Nat.zero_add, hk]

variable {s : Symbols} {release : Bool} {m : Image} {libraries : List Library}

theorem getElem?_sites {c : Nat} {k : ClassSymbol} (h : s.classes[c]? = some k) :
    (sites s release)[c]? = some ⟨s, release, c, k⟩ := by
  rw [sites, List.getElem?_map, List.getElem?_zipIdx, Array.getElem?_toList, h]
  simp

theorem of_getElem?_sites {c : Nat} {k : ClassSite} (h : (sites s release)[c]? = some k) :
    s.classes[c]? = some k.owner ∧ k = ⟨s, release, c, k.owner⟩ := by
  rw [sites, List.getElem?_map, List.getElem?_zipIdx, Array.getElem?_toList] at h
  obtain ⟨p, hp, rfl⟩ := Option.map_eq_some_iff.mp h
  obtain ⟨k, hk, rfl⟩ := Option.map_eq_some_iff.mp hp
  simp [hk]

theorem owners_of_sites (s : Symbols) (release : Bool) :
    (sites s release).map (·.owner) = s.classes.toList := by
  simp only [sites, List.map_map]
  exact List.zipIdx_map_fst 0 s.classes.toList

theorem staticTypes_of_laid (h : LaidImage s release m) :
    m.staticTypes = s.staticFields.map (·.type) := by
  have hfields (c : ClassSite) (k : ClassImage) (hk : CompiledClass ⟨m.constants, m.imports⟩ c k) :
      (c.owner.staticFields).map (·.type) = (k.fields.toList.filter (·.isStatic)).map (·.type) := by
    rw [hk.fields, Array.toList_map, List.filter_map, List.map_map]
    rfl
  rw [Symbols.staticFields, ← owners_of_sites s release, List.flatMap_map, List.map_flatMap]
  exact (forall₂_flatMap h.classes hfields).symm

theorem fieldTypes_of_laid (h : LaidImage s release m) {c : Nat} {k : ClassSymbol}
    (hk : s.classes[c]? = some k) : m.fieldTypes c = k.instanceFields.map (·.type) := by
  obtain ⟨ki, hki, hcompiled⟩ := forall₂_getElem? h.classes (getElem?_sites hk)
  rw [Array.getElem?_toList] at hki
  rw [Image.fieldTypes, hki]
  simp only [Option.map_some, Option.getD_some, ClassImage.instanceFields, ClassSymbol.instanceFields,
    hcompiled.fields, Array.toList_map, List.filter_map, List.map_map]
  rfl

/-- Every method of a class was compiled to the method at its place. -/
theorem method_of_laid (h : LaidImage s release m) {c i : Nat} {k : ClassSymbol} {f : MethodSymbol}
    (hk : s.classes[c]? = some k) (hf : k.methods[i]? = some f) :
    ∃ g, m.method? c i = some g ∧ Compiled ⟨m.constants, m.imports⟩ ⟨s, release, c, k⟩ f g := by
  obtain ⟨ki, hki, hcompiled⟩ := forall₂_getElem? h.classes (getElem?_sites hk)
  obtain ⟨g, hg, hfg⟩ := forall₂_getElem? hcompiled.methods (Array.getElem?_toList ▸ hf)
  rw [Array.getElem?_toList] at hki hg
  exact ⟨g, by rw [Image.method?, hki]; exact hg, hfg⟩

/-- Every method of an image was compiled from the symbol at its place. -/
theorem symbol_of_laid (h : LaidImage s release m) {c i : Nat} {g : MethodImage}
    (hg : m.method? c i = some g) :
    ∃ k f, s.classes[c]? = some k ∧ k.methods[i]? = some f ∧
      Compiled ⟨m.constants, m.imports⟩ ⟨s, release, c, k⟩ f g := by
  obtain ⟨ki, hki, hg⟩ := Option.bind_eq_some_iff.mp hg
  obtain ⟨k, hk, hcompiled⟩ := forall₂_getElem? h.classes.flip (Array.getElem?_toList ▸ hki)
  obtain ⟨hk, hsite⟩ := of_getElem?_sites hk
  obtain ⟨f, hf, hfg⟩ := forall₂_getElem? hcompiled.methods.flip (Array.getElem?_toList ▸ hg)
  exact ⟨k.owner, f, hk, Array.getElem?_toList ▸ hf, hsite ▸ hfg⟩

def StatementsAt (s : Symbols) (release : Bool) (m : Image) (c i : Nat) (B : List Extent) : Prop :=
  ∃ k f g, s.classes[c]? = some k ∧ k.methods[i]? = some f ∧ m.method? c i = some g ∧
    Statements ⟨m.constants, m.imports⟩ ⟨s, release, c, k⟩ f g B

/-- Every method of an image has statements. -/
theorem exists_statements (h : LaidImage s release m) {c i : Nat} {g : MethodImage}
    (hg : m.method? c i = some g) : ∃ B, StatementsAt s release m c i B := by
  obtain ⟨k, f, hk, hf, hcompiled⟩ := symbol_of_laid h hg
  obtain ⟨is, l, B, hlaid⟩ := hcompiled.laid
  exact ⟨B, k, f, g, hk, hf, hg, is, l, hlaid⟩

/-- A warning is about a statement of a method. -/
theorem statements_of_warned {d : Diagnostic} (h : Matched
    (fun c k => WarnedClass ⟨m.constants, m.imports⟩ c k d) (sites s release) m.classes.toList) :
    ∃ c i B, StatementsAt s release m c i B ∧ ∃ e ∈ B, e.Warns d := by
  obtain ⟨c, k, ki, hk, hki, i, f, g, hf, hg, B, hB, hwarns⟩ := h
  obtain ⟨hk, hsite⟩ := of_getElem?_sites hk
  rw [Array.getElem?_toList] at hki hf hg
  refine ⟨c, i, B, ⟨k.owner, f, g, hk, hf, ?_, hsite ▸ hB⟩, hwarns⟩
  rw [Image.method?, hki]
  exact hg

/-- What a method is compiled with serves it. -/
theorem serves_of_laid (hs : s.Sound libraries) (h : LaidImage s release m) {Γ : Context}
    {site : Site} (himage : Γ.image = m) (hsymbols : site.symbols = s) (hcls : site.cls = Γ.cls)
    (howner : s.classes[site.cls]? = some site.owner)
    (hstatic : site.isStatic = false → Γ.isStatic = false)
    (hsane : Γ.sane → DistinctFunctions libraries ∧ ValueKeywords libraries) :
    Serves Γ ⟨m.constants, m.imports⟩ site := by
  subst himage hsymbols
  have classOf {c : Nat} {f : FieldSymbol} (hf : f ∈ (classAt site c).fields) :
      site.symbols.classes[c]? = some (classAt site c) := by
    cases hc : site.symbols.classes[c]? with
    | some k => simp [classAt, Array.getD_eq_getD_getElem?, hc]
    | none =>
      rw [classAt, Array.getD_eq_getD_getElem?, hc] at hf
      simp only [Option.getD_none] at hf
      exact (Array.not_mem_empty f hf).elim
  have sound {c : Nat} {f : FieldSymbol} (hf : f ∈ (classAt site c).fields) :
      (classAt site c).Sound :=
    hs.classes _ (Array.mem_toList_iff.mpr (Array.mem_of_getElem? (classOf hf)))
  refine ⟨rfl, rfl, hcls, ?_, hstatic, fun c i f hf => ?_, fun c f hf hfs => ?_, fun f hf hfs => ?_,
    fun c f hf => (sound hf).types f (Array.mem_toList_iff.mpr hf), fun imp himp => ?_, ?_, ?_⟩
  · simp [classAt, Array.getD_eq_getD_getElem?, howner]
  · cases hc : site.symbols.classes[c]? with
    | some k =>
      have hk : classAt site c = k := by simp [classAt, Array.getD_eq_getD_getElem?, hc]
      rw [hk, Array.getElem?_toList] at hf
      obtain ⟨g, hg, hcompiled⟩ := method_of_laid h hc hf
      exact ⟨g, hg, hcompiled.params, hcompiled.returns, hcompiled.isStatic⟩
    | none =>
      have hk : classAt site c = default := by simp [classAt, Array.getD_eq_getD_getElem?, hc]
      rw [hk] at hf
      cases hf
  · have hmem : f ∈ site.symbols.staticFields :=
      List.mem_flatMap.mpr ⟨_, Array.mem_toList_iff.mpr (Array.mem_of_getElem? (classOf hf)),
        List.mem_filter.mpr ⟨Array.mem_toList_iff.mpr hf, hfs⟩⟩
    rw [staticTypes_of_laid h, List.getElem?_map, getElem?_slot hs.statics hmem]
    rfl
  · have hmem : f ∈ (classAt site site.cls).instanceFields :=
      List.mem_filter.mpr ⟨Array.mem_toList_iff.mpr hf, by simp [hfs]⟩
    rw [← hcls, fieldTypes_of_laid h (classOf hf), List.getElem?_map,
      getElem?_slot (sound hf).instances hmem]
    rfl
  · exact h.callable imp (Array.mem_toList_iff.mpr himp)
  · rw [hs.libraries]
    exact fun hsane' => (hsane hsane').1
  · rw [hs.libraries]
    exact fun hsane' => (hsane hsane').2

/-! ## Parameters and initializers -/

variable {Γ : Context} {T : Tables} {κ : Around}

theorem Enters.scoped {ps : List Param} {ts : List ValueType} {l l' : LocalScope}
    (h : Enters ps ts l l') (hlength : ps.length = ts.length) (htypes : ∀ t ∈ ts, t ≠ .void) :
    ∃ names, Scoped l l' ts (List.range' l.frameSize ts.length) names := by
  induction h with
  | @none ps ts l hnil =>
    have hps : ts = [] := by
      obtain rfl | rfl := hnil
      · exact List.length_eq_zero_iff.mp hlength.symm
      · rfl
    subst hps
    exact ⟨[], .refl l⟩
  | @cons p ps t ts l l' hfree h ih =>
    obtain ⟨names, hs⟩ := ih (Nat.succ.inj hlength) fun t ht => htypes t (List.mem_cons_of_mem _ ht)
    have hsize := (slot_add l p.name.name t).2
    exact ⟨_, ((Scoped.add hfree (htypes t List.mem_cons_self)).trans hs).mono fun n hn => by
      rw [hsize] at hn
      exact hn⟩

theorem covers_start (s : State) : Covers Γ .start s := by
  intro _ name v hv
  simp [LocalScope.start, LocalScope.find?] at hv

theorem slots_start : Slots Γ .start := by
  intro name v hv
  simp [LocalScope.start, LocalScope.find?] at hv

/-- Initializers store what they push. -/
theorem Initializes.moves {c : ClassSite} {isStatic : Bool} {store : Opcode} {fs : List FieldSymbol}
    {is : Asm} (hΓ : Serves Γ T (initializerSite c isStatic))
    (hstore : ∀ f ∈ fs, ∀ ts, Moves Γ .start [.unary store f.slot] (f.type :: ts) ts)
    (h : Initializes T (initializerSite c isStatic) store fs is) : Moves Γ .start is [] [] := by
  induction h with
  | nil => exact .nil []
  | unset _ _ ih => exact ih fun f hf => hstore f (List.mem_cons_of_mem _ hf)
  | set _ he _ ih =>
    exact ((evaluates_moves hΓ slots_start he).append (hstore _ List.mem_cons_self [])).append
      (ih fun f hf => hstore f (List.mem_cons_of_mem _ hf)) |> fun h => by simpa using h

/-- The code in front of a body stores the values of fields. -/
theorem Prologue.moves {c : ClassSite} {f : MethodSymbol} {is : Asm} (hf : f.Sound)
    (howner : c.owner = classAt (initializerSite c true) c.cls)
    (hΓ : ∀ isStatic, Serves Γ T (initializerSite c isStatic)) (hstatic : Γ.isStatic = f.isStatic)
    (h : Prologue T c f.kind is) : Moves Γ .start is [] [] := by
  generalize hkind : f.kind = kind at h
  cases kind with
  | method =>
    obtain rfl := h
    exact .nil []
  | constructor =>
    refine Initializes.moves (hΓ false) (fun g hg ts => ?_) h
    obtain ⟨hmem, hg⟩ := List.mem_filter.mp hg
    have hfield := (hΓ true).fields g (howner ▸ Array.mem_toList_iff.mp hmem) (by simpa using hg)
    exact .op fun _ _ _ hs =>
      ⟨_, .setField hfield (hstatic.trans (hf.constructor hkind)) hs, .refl _⟩
  | typeInitializer =>
    refine Initializes.moves (hΓ true) (fun g hg ts => ?_) h
    obtain ⟨hmem, hg⟩ := List.mem_filter.mp hg
    have hfield := (hΓ true).statics c.cls g (howner ▸ Array.mem_toList_iff.mp hmem) (by simpa using hg)
    exact .op fun _ _ _ hs => ⟨_, .setStatic hfield hs, .refl _⟩

/-! ## Methods -/

/-- The bytes of a method spell instructions, and states can be assigned to their places. -/
structure Annotated (Γ : Context) (f : MethodImage) (is : Asm) (B : List Extent)
    (known : Nat → Option State) : Prop where
  spells : Spells f.code is
  params : f.params <+: Γ.locals
  size : Γ.locals.length = f.locals.toNat
  values : ∀ t ∈ Γ.locals, t ≠ .void
  flows : ∃ κ S, Annotates Γ κ (marks Γ B) (.clear true (· < f.params.length)) (ops is)
    (.clear false S) known

/-- A place of code stands between two instructions. -/
theorem Boundary.split {is : Asm} {p : Nat} (h : Boundary (ops is) p) :
    ∃ front back, is = front ++ back ∧ p = front.size := by
  induction is generalizing p with
  | nil => exact ⟨[], [], rfl, h⟩
  | cons i is ih =>
    obtain rfl | ⟨q, rfl, hq⟩ := h
    · exact ⟨[], i :: is, rfl, rfl⟩
    · obtain ⟨front, back, rfl, rfl⟩ := ih hq
      exact ⟨i :: front, back, rfl, rfl⟩

namespace Annotated

variable {f : MethodImage} {is : Asm} {B : List Extent} {known : Nat → Option State}

/-- Every instruction can be executed where it stands, and leads to where its outcome is
expected. -/
theorem allows (h : Annotated Γ f is B known) {front back : Asm} {i : Instruction}
    (his : is = front ++ i :: back) : ∃ s w, known front.size = some s ∧ Executes Γ s i w ∧
      (∀ t, w.next = some t → Leads Γ known t (front.size + i.width)) ∧
      ∀ t, w.jump = some t → ∃ p, Verify.target? i (front.size + i.width) = some (some p) ∧
        Leads Γ known t p := by
  obtain ⟨κ, S, hflows⟩ := h.flows
  have hall := hflows.pieces
  rw [his, ops_append, allowsAll_append, Nat.zero_add, size_ops] at hall
  exact hall.2.1

/-- Whatever is known is known between two instructions. -/
theorem split (h : Annotated Γ f is B known) {p : Nat} {s : State} (hp : known p = some s) :
    ∃ front back, is = front ++ back ∧ p = front.size := by
  obtain ⟨κ, S, hflows⟩ := h.flows
  exact (hflows.places p s hp).split

/-- The end of the code is not reached. -/
theorem stop (h : Annotated Γ f is B known) {s : State} (hs : known is.size = some s) :
    s.live = false := by
  obtain ⟨κ, S, hflows⟩ := h.flows
  have hstop := hflows.stop
  rw [size_ops, hs] at hstop
  cases hstop
  rfl

end Annotated

def contextOf (m : Image) (cls : Nat) (f : MethodImage) (locals : List ValueType) (loose : List Nat)
    (sane : Prop) : Context := ⟨m, cls, f.isStatic, f.returns, locals, (· ∈ loose), sane⟩

section

variable {c : ClassSite} {f : MethodSymbol} {l l' : LocalScope} {B : List Extent} {is : Asm}

/-- What is left of a body that declares locals and can be executed. -/
def BodyFlows (T : Tables) (site : Site) (loose : List Nat) (l l' : LocalScope) (is : Asm)
    (B : List Extent) : Prop :=
  ∃ new names, Scoped l l' new [] names ∧
    ∀ (Γ : Context) (S : Nat → Prop), Enclosed Γ T site true l new S →
      (∀ n ∈ loose, Γ.loose n) → ∃ κ S', Flows Γ κ (marks Γ B) (.clear true S) (ops is) (.clear false S')

theorem LaysBody.flows {site : Site} {b : Body} (h : LaysBody T site l b is l' B) :
    BodyFlows T site (match b with
      | .block stmts _ => Stmt.looseAll l.frameSize stmts
      | .arrow _ => []) l l' is B := by
  have void {t : ValueType} (h : t.isVoid = true) : t = .void := by
    revert h
    cases t <;> first | exact fun _ => rfl | exact nofun
  have value {t : ValueType} (h : t.isVoid = false) : t ≠ .void := by
    rintro rfl
    cases h
  cases h with
  | @falls stmts sp is _ x B h hends hr =>
    obtain ⟨new, names, hs, -, hp⟩ := h.performed
    refine ⟨new, names, hs, fun Γ S he hloose => ?_⟩
    obtain ⟨S', -, -, hF⟩ := hp Γ ⟨.clear x.breaks S, .clear x.continues S⟩ S he hloose (.refl _)
      (.refl _)
    have hret : Flows Γ ⟨.clear x.breaks S, .clear x.continues S⟩ [] (.clear x.ends S')
        [.op (.plain .retVoid)] (.clear false S') :=
      .op (.retVoid (he.returns.trans (void hr)) fun _ => rfl) nofun rfl
    have hwhole := ((hF.marked (s := .block stmts sp) (fun h => by cases h)).append hret).some_marks
      (marks Γ (⟨.block stmts sp, true, x.ends, 0, ops is⟩ :: B)) fun e he =>
        List.mem_append_left _ he
    exact ⟨_, S', by simpa using hwhole⟩
  | @returns stmts sp _ _ x B h hends =>
    obtain ⟨new, names, hs, -, hp⟩ := h.performed
    refine ⟨new, names, hs, fun Γ S he hloose => ?_⟩
    obtain ⟨S', -, -, hF⟩ := hp Γ ⟨.clear x.breaks S, .clear x.continues S⟩ S he hloose (.refl _)
      (.refl _)
    have hwhole := hF.marked (s := .block stmts sp) fun h => by cases h
    exact ⟨_, S', hwhole.back (below_clear (fun h => by rw [hends] at h; cases h) fun _ _ => id)⟩
  | effect hr h =>
    refine ⟨[], [], .refl l, fun Γ S he _ => ⟨⟨.clear true S, .clear true S⟩, S, ?_⟩⟩
    rw [ops_append]
    exact (acts_flows he.serves he.slots h _ _ [] he.covers fun _ => rfl).trans
      (.op (.retVoid (he.returns.trans (void hr)) fun _ => rfl) nofun rfl)
  | value hr h =>
    refine ⟨[], [], .refl l, fun Γ S he _ => ⟨⟨.clear true S, .clear true S⟩, S, ?_⟩⟩
    rw [ops_append]
    exact (evaluates_moves he.serves he.slots h _ _ [] he.covers fun _ => rfl).trans
      (.op (.ret (he.returns ▸ value hr) fun _ => by rw [he.returns]; rfl) nofun rfl)

/-- Locals whose parameters stand in front. -/
theorem enclosed_of_params {g : MethodImage} {new : List ValueType} {names : List String}
    (hs : Scoped .start l f.params (List.range' 0 f.params.length) names)
    (hsite : Serves Γ T (methodSite c f)) (hreturns : Γ.returns = f.returns)
    (hparams : g.params = f.params) (hlocals : Γ.locals = f.params ++ new) :
    Enclosed Γ T (methodSite c f) true l new (· < g.params.length) := by
  have hsize : l.frameSize = f.params.length := hs.size.trans (Nat.zero_add _)
  refine ⟨hsite, hreturns, fun k t ht => ?_, slots_start.scoped hs fun k t ht => ?_, ?_⟩
  · rw [hlocals, hsize, List.getElem?_append_right (Nat.le_add_right ..), Nat.add_sub_cancel_left, ht]
  · change Γ.locals[0 + k]? = some t
    rw [hlocals, Nat.zero_add,
      List.getElem?_append_left (List.getElem?_eq_some_iff.mp ht).1, ht]
  · refine Covers.scoped (covers_start _) hs fun _ n hn => .inl ?_
    rw [hparams]
    simpa using List.mem_range'_1.mp hn

theorem toNat_frameSize {n : Nat} (h : n ≤ LocalScope.maxSlots) : (UInt16.ofNat n).toNat = n := by
  rw [UInt16.toNat_ofNat']
  exact Nat.mod_eq_of_lt (by simp only [LocalScope.maxSlots] at h; omega)

/-- The code of a method can be executed in a frame of its locals. -/
theorem LaysMethod.annotated {m : Image} {g : MethodImage} (hf : f.Sound)
    (howner : c.owner = classAt (initializerSite c true) c.cls)
    (hserves : ∀ {Γ : Context} {site : Site}, Γ.image = m → site.symbols = c.symbols →
      site.cls = c.cls → site.owner = c.owner → Γ.cls = c.cls →
      (site.isStatic = false → Γ.isStatic = false) →
      (Γ.sane → DistinctFunctions c.symbols.libraries ∧ ValueKeywords c.symbols.libraries) →
      Serves Γ ⟨m.constants, m.imports⟩ site)
    (h : LaysMethod ⟨m.constants, m.imports⟩ c f is l B) (hspells : Spells g.code is)
    (hlocals : g.locals = UInt16.ofNat l.frameSize)
    (hcompiled : Compiled ⟨m.constants, m.imports⟩ c f g) :
    ∃ locals, ∀ sane : Prop,
      (sane → DistinctFunctions c.symbols.libraries ∧ ValueKeywords c.symbols.libraries) →
      ∃ known, Annotated (contextOf m c.cls g locals f.loose sane) g is B known := by
  have hprologue (locals : List ValueType) {is : Asm} {sane : Prop} (his : Prologue _ c f.kind is)
      (hsane : sane → DistinctFunctions c.symbols.libraries ∧ ValueKeywords c.symbols.libraries) :
      Moves (contextOf m c.cls g locals f.loose sane) .start is [] [] :=
    Prologue.moves (Γ := contextOf m c.cls g locals f.loose sane) hf howner
      (fun isStatic => hserves rfl rfl rfl rfl rfl nofun hsane) hcompiled.isStatic his
  cases h with
  | @declared params b sp l₀ _ is js B hsource henters his hb =>
    obtain ⟨names, hparams⟩ := Enters.scoped henters (hf.declared _ _ _ hsource) hf.params
    obtain ⟨new, names', hs, hbody⟩ := LaysBody.flows hb
    have hsize : l₀.frameSize = f.params.length := hparams.size.trans (Nat.zero_add _)
    have hbound := hs.bound (hparams.bound (Nat.zero_le _))
    refine ⟨f.params ++ new, fun sane hsane => ?_⟩
    have hsite : Serves (contextOf m c.cls g (f.params ++ new) f.loose sane)
        ⟨m.constants, m.imports⟩ (methodSite c f) :=
      hserves rfl rfl rfl rfl rfl (fun hstatic => hcompiled.isStatic.trans hstatic) hsane
    obtain ⟨κ, S, hF⟩ := hbody _ _ (enclosed_of_params hparams hsite hcompiled.returns
      hcompiled.params rfl) fun n hn => by
        change n ∈ f.loose
        rw [MethodSymbol.loose, hsource]
        cases b with
        | block stmts sp =>
          change n ∈ Stmt.looseAll params.length stmts
          rw [hf.declared _ _ _ hsource, ← hsize]
          exact hn
        | arrow e => exact hn
    have hfirst := hprologue (f.params ++ new) his hsane κ
      (.clear true (· < g.params.length)) [] (covers_start _) fun _ => rfl
    have hwhole := (hfirst.append hF).some_marks (marks _ (behind is.size B)) fun e he => by
      rw [← moved_marks, ← Fragment.size_ops] at he
      exact List.mem_append_right _ (List.mem_cons_of_mem _ he)
    obtain ⟨known, hknown⟩ := hwhole
    refine ⟨known, hspells, ?_, ?_, fun t ht => ?_, κ, S, by rwa [ops_append]⟩
    · exact hcompiled.params ▸ List.prefix_append f.params new
    · rw [hlocals, toNat_frameSize hbound, hs.size, hsize]
      exact List.length_append
    · exact (List.mem_append.mp ht).elim (hparams.types t) (hs.types t)
  | @implied is hsource his =>
    obtain ⟨hvoid, hnone⟩ := hf.implied hsource
    refine ⟨[], fun sane hsane => ?_⟩
    have hfirst := hprologue [] his hsane ⟨.clear true fun _ => True, .clear true
      fun _ => True⟩ (.clear true (· < g.params.length)) [] (covers_start _) fun _ => rfl
    have hret : Flows (contextOf m c.cls g [] f.loose sane) ⟨.clear true fun _ => True, .clear true
        fun _ => True⟩ [] (.clear true (· < g.params.length)) [.op (.plain .retVoid)]
        (.clear false (· < g.params.length)) :=
      .op (.retVoid (hcompiled.returns.trans hvoid) fun _ => rfl) nofun rfl
    obtain ⟨known, hknown⟩ := hfirst.trans hret
    refine ⟨known, hspells, ?_, ?_, nofun, _, _, by rwa [ops_append]⟩
    · rw [hcompiled.params, hnone]
      exact List.nil_prefix
    · rw [hlocals]
      rfl

end

/-- A method of an image that is compiled is annotated, whichever statements are found in it. -/
theorem annotated_of_lays (hs : s.Sound libraries) {c i : Nat} {k : ClassSymbol} {f : MethodSymbol}
    {g : MethodImage} {is : Asm} {l : LocalScope} {B : List Extent} (h : LaidImage s release m)
    (hk : s.classes[c]? = some k) (hf : k.methods[i]? = some f)
    (hcompiled : Compiled ⟨m.constants, m.imports⟩ ⟨s, release, c, k⟩ f g)
    (hlays : LaysMethod ⟨m.constants, m.imports⟩ ⟨s, release, c, k⟩ f is l B)
    (hspells : Spells g.code is) (hlocals : g.locals = UInt16.ofNat l.frameSize) :
    ∃ locals, ∀ sane : Prop, (sane → DistinctFunctions libraries ∧ ValueKeywords libraries) →
      ∃ known, Annotated (contextOf m c g locals f.loose sane) g is B known := by
  have hsound : f.Sound := (hs.classes k (Array.mem_toList_iff.mpr (Array.mem_of_getElem? hk))).methods
    f (Array.mem_toList_iff.mpr (Array.mem_of_getElem? hf))
  have hannotated := LaysMethod.annotated (c := ⟨s, release, c, k⟩) (m := m) hsound ?_ ?_ hlays hspells
    hlocals hcompiled
  · rwa [← hs.libraries]
  · simp [classAt, initializerSite, Array.getD_eq_getD_getElem?, hk]
  · intro Γ site himage hsymbols hcls howner hΓ hstatic hsane
    refine serves_of_laid hs h himage hsymbols (hcls.trans hΓ.symm) ?_ hstatic (hs.libraries ▸ hsane)
    rw [hcls, howner, hk]

/-- Every method of an image that is compiled is annotated. -/
theorem annotated_of_laid (hs : s.Sound libraries) (h : LaidImage s release m) {c i : Nat}
    {g : MethodImage} (hg : m.method? c i = some g) :
    ∃ k f is l B, s.classes[c]? = some k ∧ k.methods[i]? = some f ∧
      Compiled ⟨m.constants, m.imports⟩ ⟨s, release, c, k⟩ f g ∧
      LaysMethod ⟨m.constants, m.imports⟩ ⟨s, release, c, k⟩ f is l B ∧
      ∃ locals, ∀ sane : Prop, (sane → DistinctFunctions libraries ∧ ValueKeywords libraries) →
        ∃ known, Annotated (contextOf m c g locals f.loose sane) g is B known := by
  obtain ⟨k, f, hk, hf, hcompiled⟩ := symbol_of_laid h hg
  obtain ⟨is, l, B, hlays, hspells, hlocals⟩ := hcompiled.laid
  exact ⟨k, f, is, l, B, hk, hf, hcompiled, hlays,
    annotated_of_lays hs h hk hf hcompiled hlays hspells hlocals⟩

end ClassScript.Flow
