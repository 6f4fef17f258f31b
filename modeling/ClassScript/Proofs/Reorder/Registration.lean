import ClassScript.Proofs.Declarations
import ClassScript.Proofs.Reorder.Tree
import Mathlib.Data.List.Forall2

/-!
Registering the methods of a class in another order.

Symbols are akin if they are the same but for places in the source and for the order of methods.
Where the script is registered without a report, so is one whose methods stand in another order, and
the symbols are akin: a declaration is refused for a name or a signature that was declared before,
which are clashes that neither order avoids.
-/

namespace ClassScript

/-! ## Symbols without places -/

def FieldSymbol.placeless (f : FieldSymbol) : FieldSymbol :=
  { f with value := f.value.map Expr.placeless, span := {} }

def MethodSource.placeless : MethodSource → MethodSource
  | .declared params body _ => .declared (params.map Param.placeless) body.placeless {}
  | .implied => .implied

def MethodSymbol.placeless (f : MethodSymbol) : MethodSymbol :=
  { f with source := f.source.placeless, span := {} }

/-- The same class, with its methods in any order. -/
structure ClassSymbol.Akin (c c' : ClassSymbol) : Prop where
  name : c.name = c'.name
  visibility : c.visibility = c'.visibility
  isStatic : c.isStatic = c'.isStatic
  usings : c.usings = c'.usings
  decl : c.decl.Rearranged c'.decl
  fields : c.fields.toList.map FieldSymbol.placeless = c'.fields.toList.map FieldSymbol.placeless
  methods : (c.methods.toList.map MethodSymbol.placeless).Perm
    (c'.methods.toList.map MethodSymbol.placeless)

/-- The same symbols, with the methods of every class in any order. -/
structure Symbols.Akin (s s' : Symbols) : Prop where
  libraries : s.libraries = s'.libraries
  namespaces : s.namespaces = s'.namespaces
  globalUsings : s.globalUsings = s'.globalUsings
  places : s.places = s'.places
  staticCount : s.staticCount = s'.staticCount
  classes : ∀ i : Nat, Option.Rel ClassSymbol.Akin s.classes[i]? s'.classes[i]?

theorem ClassSymbol.Akin.refl (c : ClassSymbol) : c.Akin c where
  name := rfl
  visibility := rfl
  isStatic := rfl
  usings := rfl
  decl := ⟨rfl, rfl, .refl _⟩
  fields := rfl
  methods := .refl _

theorem Symbols.Akin.refl (s : Symbols) : s.Akin s where
  libraries := rfl
  namespaces := rfl
  globalUsings := rfl
  places := rfl
  staticCount := rfl
  classes i := by
    cases s.classes[i]? with
    | none => exact .none
    | some c => exact .some (.refl c)

theorem Symbols.Akin.size {s s' : Symbols} (h : s.Akin s') : s.classes.size = s'.classes.size := by
  refine Nat.le_antisymm (Nat.le_of_not_lt fun hlt => ?_) (Nat.le_of_not_lt fun hlt => ?_)
  · have hclass := h.classes s'.classes.size
    simp [hlt] at hclass
  · have hclass := h.classes s.classes.size
    simp [hlt] at hclass

theorem Symbols.Akin.getD {s s' : Symbols} (h : s.Akin s') (i : Nat) :
    (s.classes.getD i default).Akin (s'.classes.getD i default) := by
  have hclass := h.classes i
  rw [Array.getD_eq_getD_getElem?, Array.getD_eq_getD_getElem?]
  generalize s.classes[i]? = c at hclass ⊢
  generalize s'.classes[i]? = c' at hclass ⊢
  cases hclass with
  | none => exact .refl _
  | some hc => exact hc

/-! ## Names -/

section

variable {s s' : Symbols} {c c' : ClassSymbol} (h : s.Akin s') (hc : c.Akin c')

include h

theorem Symbols.Akin.findClass? : s.findClass? = s'.findClass? := by
  funext name
  unfold Symbols.findClass?
  rw [h.places, h.libraries]

theorem Symbols.Akin.isNamespace : s.isNamespace = s'.isNamespace := by
  funext name
  unfold Symbols.isNamespace
  rw [h.namespaces]

theorem Symbols.Akin.keywordClass? : s.keywordClass? = s'.keywordClass? := by
  funext t
  unfold Symbols.keywordClass?
  rw [h.libraries]

include hc

theorem Symbols.Akin.lookupClass? : s.lookupClass? c = s'.lookupClass? c' := by
  funext name
  unfold Symbols.lookupClass? Symbols.candidates
  rw [hc.name, hc.usings, h.globalUsings, h.findClass?]

theorem Symbols.Akin.lookupNamespace? : s.lookupNamespace? c = s'.lookupNamespace? c' := by
  funext name
  unfold Symbols.lookupNamespace? Symbols.candidates
  rw [hc.name, h.isNamespace]

/-- A type that is resolved is the same wherever it stands. -/
theorem Symbols.Akin.resolveType {t t' : TypeExpr} (ht : t.placeless = t'.placeless) {v : ValueType}
    (hv : s.resolveType c t = .ok v) : s'.resolveType c' t' = .ok v := by
  obtain ⟨kind, sp⟩ := t
  obtain ⟨kind', sp'⟩ := t'
  have hkind : kind.placeless = kind'.placeless := TypeExpr.kind_eq ht
  unfold Symbols.resolveType at hv ⊢
  cases kind with
  | keyword type =>
    cases kind' with
    | keyword => cases hkind; exact hv
    | _ => cases hkind
  | inferred => cases hv
  | named path =>
    cases kind' with
    | named path' =>
      dsimp only at hv ⊢
      rw [← dottedText_eq (TypeKind.named.inj hkind), ← h.lookupClass? hc]
      split at hv
      · cases hv
      · exact hv
      · cases hv
    | _ => cases hkind

end

namespace Registration

variable {s s' : Symbols} {c c' : ClassSymbol} {m m' : Members} {d d' e : Member}
  {f f' g : MethodSymbol}

/-! ## Methods -/

theorem paramTypes_akin (h : s.Akin s') (hc : c.Akin c') {ps ps' : List Param}
    (hps : ps.map Param.placeless = ps'.map Param.placeless) {ts : List ValueType}
    (hts : paramTypes s c ps = .ok ts) : paramTypes s' c' ps' = .ok ts := by
  induction ps generalizing ps' ts with
  | nil =>
    cases List.map_eq_nil_iff.mp hps.symm
    exact hts
  | cons p ps ih =>
    cases ps' with
    | nil => cases hps
    | cons p' ps' =>
      obtain ⟨hp, hps⟩ := List.cons.inj hps
      have htype : p.type.placeless = p'.type.placeless := (Param.mk.inj hp).1
      simp only [paramTypes] at hts ⊢
      split at hts
      · next t ts' ht hts' =>
        cases hts
        have ht' : paramType s' c' p' = .ok t := by
          simp only [paramType] at ht ⊢
          split at ht
          · next v hv =>
            rw [h.resolveType hc htype hv]
            dsimp only
            split at ht
            · cases ht
            · next hvoid => rw [if_neg hvoid]; exact ht
          · cases ht
        rw [ht', ih hps hts']
      all_goals cases hts

/-- What a declaration adds, if it is a method or a constructor without a mistake of its own. -/
inductive Declares (s : Symbols) (c : ClassSymbol) : Member → MethodSymbol → Prop
  | method {mods : Modifiers} {returns : TypeExpr} {name : Ident} {params : List Param} {body : Body}
      {sp : Span} {ts : List ValueType} {t : ValueType} (hts : paramTypes s c params = .ok ts)
      (ht : s.resolveType c returns = .ok t) (hstatic : (c.isStatic && !mods.isStatic) = false)
      (hname : name.name ≠ c.name.simple) :
      Declares s c (.method mods returns name params body sp)
        ⟨name.name, .method, mods.visibility.getD .priv, mods.isStatic, ts, t,
          .declared params body sp, name.span⟩
  | constructor {mods : Modifiers} {name : Ident} {params : List Param} {body : Body} {sp : Span}
      {ts : List ValueType} (hts : paramTypes s c params = .ok ts) (hmods : mods.isStatic = false)
      (hstatic : c.isStatic = false) :
      Declares s c (.constructor mods name params body sp)
        ⟨constructorName, .constructor, mods.visibility.getD .priv, false, ts, .void,
          .declared params body sp, name.span⟩

theorem member_of_declares (hd : Declares s c d f) (h : m.Takes f) :
    member s c m d = m.addMethod f := by
  cases hd with
  | @method mods _ name _ _ _ ts _ hts ht hstatic hname =>
    have hfault : methodFault? c m mods.isStatic name.name ts = none := by
      have hfree := h.name rfl
      have hsignature := h.signature
      dsimp only at hfree hsignature
      simp only [methodFault?, hstatic, beq_eq_false_iff_ne.mpr hname, hfree, hsignature,
        Bool.false_eq_true, if_false]
    simp only [member, method, hts, ht, hfault]
  | @constructor mods _ _ _ _ ts hts hmods hstatic =>
    have hfault : constructorFault? c m mods.isStatic ts = none := by
      have hsignature := h.signature
      dsimp only at hsignature
      simp only [constructorFault?, hmods, hstatic, hsignature, Bool.false_eq_true, if_false]
    simp only [member, constructor, hts, hfault]

theorem paramTypes_error {ps : List Param} {es : List SemanticError}
    (h : paramTypes s c ps = .error es) : es ≠ [] := by
  induction ps generalizing es with
  | nil => cases h
  | cons p ps ih =>
    simp only [paramTypes] at h
    split at h
    · cases h
    · next hes => cases h; exact ih hes
    · cases h; simp
    · cases h; simp

theorem not_clean_report (m : Members) (fault : SemanticFault) (sp : Span) :
    (m.report fault sp).reports ≠ [] := by simp [Members.report]

theorem not_clean_reportAll (m : Members) {es : List SemanticError} (h : es ≠ []) :
    (m.reportAll es).reports ≠ [] := by simp [Members.reportAll, h]

/-- Where nothing is reported, a method or a constructor is added. -/
theorem declares_of_clean (hd : d.isField = false) (h : (member s c m d).reports = []) :
    m.reports = [] ∧ ∃ f, Declares s c d f ∧ m.Takes f := by
  cases d with
  | field => cases hd
  | method mods returns name params body sp =>
    simp only [member, method] at h
    split at h
    · exact absurd h (not_clean_report _ _ _)
    · next hes _ => exact absurd h (not_clean_reportAll m (paramTypes_error hes))
    · exact absurd h (not_clean_report _ _ _)
    · next ts t hts ht =>
      split at h
      · exact absurd h (not_clean_report _ _ _)
      · next hfault =>
        obtain ⟨hstatic, hsimple, hname, hsignature⟩ := methodFault?_eq_none hfault
        exact ⟨h, _, .method hts ht hstatic hsimple, fun _ => hname, hsignature⟩
  | constructor mods name params body sp =>
    simp only [member, constructor] at h
    split at h
    · next hes => exact absurd h (not_clean_reportAll m (paramTypes_error hes))
    · next ts hts =>
      split at h
      · exact absurd h (not_clean_report _ _ _)
      · next hfault =>
        obtain ⟨hmods, hstatic, hsignature⟩ := constructorFault?_eq_none hfault
        exact ⟨h, _, .constructor hts hmods hstatic, nofun, hsignature⟩

theorem Declares.akin (h : s.Akin s') (hc : c.Akin c') (hd : d.placeless = d'.placeless)
    (hf : Declares s c d f) : ∃ f', Declares s' c' d' f' ∧ f.placeless = f'.placeless := by
  cases hf with
  | @method mods returns name params body sp ts t hts ht hstatic hname =>
    cases d' with
    | method mods' returns' name' params' body' sp' =>
      obtain ⟨hmods, hreturns, hnames, hparams, hbody, -⟩ := Member.method.inj hd
      obtain ⟨hvisibility, hisStatic, -⟩ := Modifiers.mk.inj hmods
      have hname' := Ident.name_eq hnames
      refine ⟨_, .method (paramTypes_akin h hc hparams hts) (h.resolveType hc hreturns ht) ?_ ?_, ?_⟩
      · rw [← hc.isStatic, ← hisStatic]; exact hstatic
      · rw [← hc.name, ← hname']; exact hname
      · simp only [MethodSymbol.placeless, MethodSource.placeless, hparams, hbody, hvisibility,
          hisStatic, hname']
    | _ => cases hd
  | @constructor mods name params body sp ts hts hmods hstatic =>
    cases d' with
    | constructor mods' name' params' body' sp' =>
      obtain ⟨hmods', -, hparams, hbody, -⟩ := Member.constructor.inj hd
      obtain ⟨hvisibility, hisStatic, -⟩ := Modifiers.mk.inj hmods'
      refine ⟨_, .constructor (paramTypes_akin h hc hparams hts) ?_ ?_, ?_⟩
      · rw [← hisStatic]; exact hmods
      · rw [← hc.isStatic]; exact hstatic
      · simp only [MethodSymbol.placeless, MethodSource.placeless, hparams, hbody, hvisibility]
    | _ => cases hd

/-! ## Members that are akin -/

structure Members.Akin (m m' : Members) : Prop where
  fields : m.fields.toList.map FieldSymbol.placeless = m'.fields.toList.map FieldSymbol.placeless
  methods : (m.methods.toList.map MethodSymbol.placeless).Perm
    (m'.methods.toList.map MethodSymbol.placeless)
  fieldNames : ∀ n, m.fieldNames.contains n = m'.fieldNames.contains n
  methodNames : ∀ n, m.methodNames.contains n = m'.methodNames.contains n
  instanceCount : m.instanceCount = m'.instanceCount
  staticCount : m.staticCount = m'.staticCount

namespace Members.Akin

theorem refl (m : Members) : m.Akin m := ⟨rfl, .refl _, fun _ => rfl, fun _ => rfl, rfl, rfl⟩

theorem trans {m m' m'' : Members} (h : m.Akin m') (h' : m'.Akin m'') : m.Akin m'' :=
  ⟨h.fields.trans h'.fields, h.methods.trans h'.methods,
    fun n => (h.fieldNames n).trans (h'.fieldNames n),
    fun n => (h.methodNames n).trans (h'.methodNames n), h.instanceCount.trans h'.instanceCount,
    h.staticCount.trans h'.staticCount⟩

/-- What does not depend on places holds of a method of the one if it does of one of the other. -/
theorem any_methods (h : m.Akin m') {P : MethodSymbol → Bool} (hP : ∀ f, P f.placeless = P f) :
    m.methods.any P = m'.methods.any P := by
  have hany (m : Members) : m.methods.any P = (m.methods.toList.map MethodSymbol.placeless).any P := by
    rw [List.any_map, ← Array.any_toList]
    congr 1
    funext f
    exact (hP f).symm
  rw [hany m, hany m', h.methods.any_eq]

theorem hasSignature (h : m.Akin m') (kind : MethodKind) (name : String) (ts : List ValueType) :
    m.hasSignature kind name ts = m'.hasSignature kind name ts :=
  h.any_methods fun _ => rfl

theorem addMethod (h : m.Akin m') (hf : f.placeless = f'.placeless) :
    (m.addMethod f).Akin (m'.addMethod f') := by
  have hname : f.name = f'.name := (MethodSymbol.mk.inj hf).1
  have hkind : f.isInvocable = f'.isInvocable := congrArg (· == .method) (MethodSymbol.mk.inj hf).2.1
  refine ⟨h.fields, ?_, h.fieldNames, fun n => ?_, h.instanceCount, h.staticCount⟩
  · simp only [Members.addMethod, Array.toList_push, List.map_append, List.map_cons, List.map_nil, hf]
    exact h.methods.append_right _
  · simp only [Members.addMethod, hname, hkind]
    split
    · rw [Std.HashSet.contains_insert, Std.HashSet.contains_insert, h.methodNames]
    · exact h.methodNames n

theorem addField (h : m.Akin m') {a b : FieldSymbol} (hab : a.placeless = b.placeless) :
    (m.addField a).Akin (m'.addField b) := by
  obtain ⟨hname, -, -, hstatic, -⟩ := FieldSymbol.mk.inj hab
  simp only [Members.addField, hname, hstatic]
  split
  all_goals
    refine ⟨?_, h.methods, fun n => ?_, h.methodNames, ?_, ?_⟩
    · simp only [Array.toList_push, List.map_append, List.map_cons, List.map_nil, h.fields, hab]
    · rw [Std.HashSet.contains_insert, Std.HashSet.contains_insert, h.fieldNames]
    · simp only [h.instanceCount]
    · simp only [h.staticCount]

theorem takes (h : m.Akin m') (hf : f.placeless = f'.placeless) (ht : m.Takes f) : m'.Takes f' := by
  obtain ⟨hname, hkind, -, -, hparams, -⟩ := MethodSymbol.mk.inj hf
  constructor
  · intro hk
    rw [← h.fieldNames, ← hname]
    exact ht.name (by rw [MethodSymbol.isInvocable, hkind]; exact hk)
  · rw [← h.hasSignature, ← hname, ← hkind, ← hparams]
    exact ht.signature

end Members.Akin

/-! ## Fields -/

def fieldSymbol (mods : Modifiers) (type : ValueType) (m : Members) (v : Declarator) : FieldSymbol where
  name := v.name.name
  type := type
  visibility := mods.visibility.getD .priv
  isStatic := mods.isStatic
  isReadonly := mods.isReadonly
  slot := if mods.isStatic then m.staticCount else m.instanceCount
  value := v.value
  span := v.name.span

variable {mods mods' : Modifiers} {type : ValueType} {v v' : Declarator} {vs vs' : List Declarator}

theorem addField_reports (m : Members) (f : FieldSymbol) : (m.addField f).reports = m.reports := by
  unfold Members.addField
  dsimp only
  split <;> rfl

theorem declarator_eq (h : fieldFault? c m mods.isStatic v = none) :
    declarator c mods type m v = m.addField (fieldSymbol mods type m v) := by
  simp only [declarator, h, fieldSymbol]

theorem declarator_clean (h : (declarator c mods type m v).reports = []) :
    m.reports = [] ∧ fieldFault? c m mods.isStatic v = none := by
  unfold declarator at h
  split at h
  · exact absurd h (not_clean_report _ _ _)
  · next hfault =>
    rw [addField_reports] at h
    exact ⟨h, hfault⟩

theorem declarator_akin (hc : c.Akin c') (hm : m.Akin m') (hv : v.placeless = v'.placeless)
    (hmods : mods.placeless = mods'.placeless) (hm' : m'.reports = [])
    (h : (declarator c mods type m v).reports = []) :
    (declarator c' mods' type m' v').reports = [] ∧
      (declarator c mods type m v).Akin (declarator c' mods' type m' v') := by
  obtain ⟨hvisibility, hstatic, hreadonly, -⟩ := Modifiers.mk.inj hmods
  obtain ⟨hnames, hvalue, -⟩ := Declarator.mk.inj hv
  have hname := Ident.name_eq hnames
  have hfault := (declarator_clean h).2
  have hfault' : fieldFault? c' m' mods'.isStatic v' = none := by
    rw [fieldFault?_eq_none, ← hname, ← hc.name, ← hm.fieldNames, ← hm.methodNames,
      ← hm.staticCount, ← hm.instanceCount, ← hstatic]
    exact fieldFault?_eq_none.mp hfault
  rw [declarator_eq hfault, declarator_eq hfault']
  refine ⟨(addField_reports _ _).trans hm', hm.addField ?_⟩
  simp only [FieldSymbol.placeless, fieldSymbol, hname, hvalue, hvisibility, hstatic, hreadonly,
    hm.staticCount, hm.instanceCount]

theorem declarators_clean (h : (vs.foldl (declarator c mods type) m).reports = []) :
    m.reports = [] := by
  induction vs generalizing m with
  | nil => exact h
  | cons v vs ih => exact (declarator_clean (ih h)).1

theorem declarators_akin (hc : c.Akin c') (hm : m.Akin m')
    (hvs : vs.map Declarator.placeless = vs'.map Declarator.placeless)
    (hmods : mods.placeless = mods'.placeless) (hm' : m'.reports = [])
    (h : (vs.foldl (declarator c mods type) m).reports = []) :
    (vs'.foldl (declarator c' mods' type) m').reports = [] ∧
      (vs.foldl (declarator c mods type) m).Akin (vs'.foldl (declarator c' mods' type) m') := by
  induction vs generalizing m m' vs' with
  | nil =>
    cases List.map_eq_nil_iff.mp hvs.symm
    exact ⟨hm', hm⟩
  | cons v vs ih =>
    cases vs' with
    | nil => cases hvs
    | cons v' vs' =>
      obtain ⟨hv, hvs⟩ := List.cons.inj hvs
      obtain ⟨hclean, hakin⟩ := declarator_akin hc hm hv hmods hm' (declarators_clean h)
      have hrest : (vs.foldl (declarator c mods type) (declarator c mods type m v)).reports = [] := h
      have hall := ih hakin hvs hclean hrest
      exact hall

/-- Where nothing is reported, the fields have a type and are declared one after the other. -/
theorem field_clean {t : TypeExpr} {sp : Span}
    (h : (member s c m (.field mods t vs sp)).reports = []) :
    ∃ type, s.resolveType c t = .ok type ∧ type.isVoid = false ∧
      (c.isStatic && !mods.isStatic) = false ∧
      member s c m (.field mods t vs sp) = vs.foldl (declarator c mods type) m := by
  simp only [member, field] at h ⊢
  split at h
  · exact absurd h (not_clean_report _ _ _)
  · next type htype =>
    split at h
    · exact absurd h (not_clean_report _ _ _)
    · next hvoid =>
      split at h
      · exact absurd h (not_clean_report _ _ _)
      · next hstatic =>
        refine ⟨type, htype, Bool.eq_false_iff.mpr hvoid, Bool.eq_false_iff.mpr hstatic, ?_⟩
        rw [if_neg hvoid, if_neg hstatic]

theorem field_eq {t : TypeExpr} {sp : Span} (htype : s.resolveType c t = .ok type)
    (hvoid : type.isVoid = false) (hstatic : (c.isStatic && !mods.isStatic) = false) (m : Members) :
    member s c m (.field mods t vs sp) = vs.foldl (declarator c mods type) m := by
  simp only [member, field, htype, hvoid, hstatic, Bool.false_eq_true, if_false]

/-! ## One member -/

theorem member_clean (h : (member s c m d).reports = []) : m.reports = [] := by
  cases d with
  | field =>
    obtain ⟨_, _, _, _, heq⟩ := field_clean h
    exact declarators_clean (heq ▸ h)
  | method => exact (declares_of_clean rfl h).1
  | constructor => exact (declares_of_clean rfl h).1

theorem members_clean {ds : List Member} (h : (ds.foldl (member s c) m).reports = []) :
    m.reports = [] := by
  induction ds generalizing m with
  | nil => exact h
  | cons d ds ih => exact member_clean (ih h)

/-- A member that is declared without a report is declared so again. -/
theorem member_akin (hs : s.Akin s') (hc : c.Akin c') (hm : m.Akin m')
    (hd : d.placeless = d'.placeless) (hm' : m'.reports = []) (h : (member s c m d).reports = []) :
    (member s' c' m' d').reports = [] ∧ (member s c m d).Akin (member s' c' m' d') := by
  have added (hd' : d.isField = false) :
      (member s' c' m' d').reports = [] ∧ (member s c m d).Akin (member s' c' m' d') := by
    obtain ⟨-, f, hf, ht⟩ := declares_of_clean hd' h
    obtain ⟨f', hf', hff⟩ := hf.akin hs hc hd
    rw [member_of_declares hf ht, member_of_declares hf' (hm.takes hff ht)]
    exact ⟨hm', hm.addMethod hff⟩
  cases d with
  | method => exact added rfl
  | constructor => exact added rfl
  | field mods t vs sp =>
    cases d' with
    | field mods' t' vs' sp' =>
      obtain ⟨hmods, ht, hvs, -⟩ := Member.field.inj hd
      obtain ⟨type, htype, hvoid, hstatic, heq⟩ := field_clean h
      have hstatic' : (c'.isStatic && !mods'.isStatic) = false := by
        rw [← hc.isStatic, ← (Modifiers.mk.inj hmods).2.1]; exact hstatic
      rw [heq, field_eq (hs.resolveType hc ht htype) hvoid hstatic']
      exact declarators_akin hc hm hvs hmods hm' (heq ▸ h)
    | _ => cases hd

/-! ## Two members -/

theorem hasSignature_addMethod (m : Members) (f : MethodSymbol) (kind : MethodKind) (name : String)
    (ts : List ValueType) : (m.addMethod f).hasSignature kind name ts =
      (m.hasSignature kind name ts || (f.kind == kind && f.name == name && f.params == ts)) := by
  simp [Members.hasSignature, Members.addMethod]

/-- Of two methods, either may be declared first. -/
theorem takes_swap (hf : m.Takes f) (hg : (m.addMethod f).Takes g) :
    m.Takes g ∧ (m.addMethod g).Takes f := by
  have hsignature := hg.signature
  rw [hasSignature_addMethod, Bool.or_eq_false_iff] at hsignature
  refine ⟨⟨hg.name, hsignature.1⟩, hf.name, ?_⟩
  rw [hasSignature_addMethod, hf.signature, Bool.false_or, ← hsignature.2, Bool.beq_comm,
    Bool.beq_comm (a := g.name), Bool.beq_comm (a := g.params)]

theorem addMethod_swap (m : Members) (f g : MethodSymbol) :
    ((m.addMethod f).addMethod g).Akin ((m.addMethod g).addMethod f) := by
  refine ⟨rfl, ?_, fun _ => rfl, fun n => ?_, rfl, rfl⟩
  · simp only [Members.addMethod, Array.toList_push, List.append_assoc, List.map_append]
    exact (List.Perm.swap _ _ []).append_left _
  · simp only [Members.addMethod]
    split <;> split <;>
      simp only [Std.HashSet.contains_insert, Bool.or_left_comm]

theorem addMethod_addField (m : Members) (f : MethodSymbol) (a : FieldSymbol) :
    (m.addMethod f).addField a = (m.addField a).addMethod f := by
  unfold Members.addField Members.addMethod
  dsimp only
  split <;> rfl

theorem methodNames_addMethod (m : Members) (f : MethodSymbol) (n : String) :
    (m.addMethod f).methodNames.contains n = false ↔
      (f.isInvocable = true → f.name ≠ n) ∧ m.methodNames.contains n = false := by
  simp only [Members.addMethod]
  split
  · next hf => simp [hf]
  · next hf => simp [hf]

theorem takes_addField_iff (m : Members) (a : FieldSymbol) :
    (m.addField a).Takes f ↔ m.Takes f ∧ (f.isInvocable = true → f.name ≠ a.name) := by
  have hnames (n : String) : (m.addField a).fieldNames.contains n =
      (a.name == n || m.fieldNames.contains n) := by
    unfold Members.addField
    dsimp only
    split <;> simp only [Std.HashSet.contains_insert]
  have hmethods : (m.addField a).methods = m.methods := by
    unfold Members.addField
    dsimp only
    split <;> rfl
  have hsignature (n : String) (kind : MethodKind) (ts : List ValueType) :
      (m.addField a).hasSignature kind n ts = m.hasSignature kind n ts := by
    rw [Members.hasSignature, hmethods, Members.hasSignature]
  constructor
  · rintro ⟨hname, hsign⟩
    simp only [hnames, Bool.or_eq_false_iff, beq_eq_false_iff_ne] at hname
    exact ⟨⟨fun hf => (hname hf).2, hsignature _ _ _ ▸ hsign⟩, fun hf => (hname hf).1.symm⟩
  · rintro ⟨⟨hname, hsign⟩, hne⟩
    refine ⟨fun hf => ?_, (hsignature _ _ _).trans hsign⟩
    rw [hnames, hname hf, Bool.or_false, beq_eq_false_iff_ne]
    exact (hne hf).symm

/-- A method may be declared in front of a field if and only if it may be behind it. -/
theorem takes_declarator_iff :
    m.Takes f ∧ fieldFault? c (m.addMethod f) mods.isStatic v = none ↔
      fieldFault? c m mods.isStatic v = none ∧ (m.addField (fieldSymbol mods type m v)).Takes f := by
  rw [takes_addField_iff, fieldFault?_eq_none, fieldFault?_eq_none, methodNames_addMethod]
  have hfields : (m.addMethod f).fieldNames = m.fieldNames := rfl
  have hstatics : (m.addMethod f).staticCount = m.staticCount := rfl
  have hinstances : (m.addMethod f).instanceCount = m.instanceCount := rfl
  have hname : (fieldSymbol mods type m v).name = v.name.name := rfl
  rw [hfields, hstatics, hinstances, hname]
  tauto

theorem declarator_addMethod (h : fieldFault? c m mods.isStatic v = none)
    (hf : fieldFault? c (m.addMethod f) mods.isStatic v = none) :
    declarator c mods type (m.addMethod f) v = (declarator c mods type m v).addMethod f := by
  rw [declarator_eq h, declarator_eq hf]
  exact addMethod_addField ..

/-- A method behind fields may be declared in front of them. -/
theorem declarators_forward (h : (vs.foldl (declarator c mods type) m).reports = [])
    (ht : (vs.foldl (declarator c mods type) m).Takes f) :
    m.Takes f ∧ vs.foldl (declarator c mods type) (m.addMethod f) =
      (vs.foldl (declarator c mods type) m).addMethod f := by
  induction vs generalizing m with
  | nil => exact ⟨ht, rfl⟩
  | cons v vs ih =>
    have hfault := (declarator_clean (declarators_clean h)).2
    obtain ⟨ht, heq⟩ := ih (m := declarator c mods type m v) h ht
    rw [declarator_eq hfault] at ht
    obtain ⟨ht, hfault'⟩ := takes_declarator_iff.mpr ⟨hfault, ht⟩
    exact ⟨ht, by rw [List.foldl_cons, declarator_addMethod hfault hfault', heq, List.foldl_cons]⟩

/-- A method in front of fields may be declared behind them. -/
theorem declarators_backward (ht : m.Takes f)
    (h : (vs.foldl (declarator c mods type) (m.addMethod f)).reports = []) :
    (vs.foldl (declarator c mods type) m).Takes f ∧
      vs.foldl (declarator c mods type) (m.addMethod f) =
        (vs.foldl (declarator c mods type) m).addMethod f := by
  induction vs generalizing m with
  | nil => exact ⟨ht, rfl⟩
  | cons v vs ih =>
    have hfault := (declarator_clean (declarators_clean h)).2
    obtain ⟨hfault', ht⟩ : fieldFault? c m mods.isStatic v = none ∧
        (m.addField (fieldSymbol mods type m v)).Takes f := takes_declarator_iff.mp ⟨ht, hfault⟩
    rw [← declarator_eq hfault'] at ht
    rw [List.foldl_cons, declarator_addMethod hfault' hfault] at h
    obtain ⟨ht, heq⟩ := ih ht h
    exact ⟨ht, by rw [List.foldl_cons, declarator_addMethod hfault' hfault, heq, List.foldl_cons]⟩

/-- Members of which one is a method may be declared in the other order. -/
theorem member_swap (hde : d.isMethod = true ∨ e.isMethod = true)
    (h : (member s c (member s c m d) e).reports = []) :
    (member s c (member s c m e) d).reports = [] ∧
      (member s c (member s c m d) e).Akin (member s c (member s c m e) d) := by
  have hm : m.reports = [] := member_clean (member_clean h)
  have of_method {d : Member} (hd : d.isMethod = true) : d.isField = false := by
    cases d <;> first | rfl | cases hd
  cases hd : d.isField with
  | false =>
    obtain ⟨-, f, hf, ht⟩ := declares_of_clean hd (member_clean h)
    rw [member_of_declares hf ht] at h ⊢
    cases he : e.isField with
    | false =>
      obtain ⟨-, g, hg, ht'⟩ := declares_of_clean he h
      obtain ⟨htg, htf⟩ := takes_swap ht ht'
      rw [member_of_declares hg ht', member_of_declares hg htg, member_of_declares hf htf]
      exact ⟨hm, addMethod_swap m f g⟩
    | true =>
      cases e with
      | field mods t vs sp =>
        obtain ⟨type, htype, hvoid, hstatic, heq⟩ := field_clean h
        rw [heq] at h
        obtain ⟨htf, hswap⟩ := declarators_backward ht h
        rw [heq, field_eq htype hvoid hstatic, member_of_declares hf htf, hswap]
        exact ⟨hswap ▸ h, .refl _⟩
      | _ => cases he
  | true =>
    obtain he := of_method (hde.resolve_left (by rintro hd'; cases hd.symm.trans (of_method hd')))
    cases d with
    | field mods t vs sp =>
      obtain ⟨-, f, hf, ht⟩ := declares_of_clean he h
      obtain ⟨type, htype, hvoid, hstatic, heq⟩ := field_clean (member_clean h)
      have hclean := heq ▸ member_clean h
      rw [heq] at ht
      obtain ⟨htf, hswap⟩ := declarators_forward hclean ht
      rw [heq, member_of_declares hf ht, member_of_declares hf htf, field_eq htype hvoid hstatic, hswap]
      exact ⟨hclean, .refl _⟩
    | _ => cases hd

/-! ## All members -/

theorem members_refl {ds : List Member} (hs : s.Akin s') (hc : c.Akin c') (hm : m.Akin m')
    (hm' : m'.reports = []) (h : (ds.foldl (member s c) m).reports = []) :
    (ds.foldl (member s' c') m').reports = [] ∧
      (ds.foldl (member s c) m).Akin (ds.foldl (member s' c') m') := by
  induction ds generalizing m m' with
  | nil => exact ⟨hm', hm⟩
  | cons d ds ih =>
    obtain ⟨hclean, hakin⟩ := member_akin hs hc hm (show d.placeless = d.placeless from rfl) hm'
      (members_clean h)
    exact ih hakin hclean h

/-- Members that are declared without a report are declared so in another order. -/
theorem members_rearranged {ds ds' : List Member} (hds : Member.Rearranged ds ds') (hs : s.Akin s')
    (hc : c.Akin c') (hm : m.Akin m') (hm' : m'.reports = [])
    (h : (ds.foldl (member s c) m).reports = []) :
    (ds'.foldl (member s' c') m').reports = [] ∧
      (ds.foldl (member s c) m).Akin (ds'.foldl (member s' c') m') := by
  induction hds generalizing s c m s' c' m' with
  | nil => exact ⟨hm', hm⟩
  | cons hd _ ih =>
    obtain ⟨hclean, hakin⟩ := member_akin hs hc hm hd hm' (members_clean h)
    exact ih hs hc hakin hclean h
  | @swap d e ds hde =>
    have hboth : ([d, e].foldl (member s c) m).reports = [] := members_clean h
    obtain ⟨hclean, hakin⟩ := members_refl hs hc hm hm' hboth
    obtain ⟨hswap, hswapped⟩ := member_swap hde hclean
    exact members_refl (m := member s c (member s c m d) e) hs hc (hakin.trans hswapped) hswap h
  | @trans ds es fs _ _ ih ih' =>
    obtain ⟨hclean, hakin⟩ := ih hs hc hm hm' h
    obtain ⟨hclean', hakin'⟩ := ih' (.refl s') (.refl c') (.refl m') hm' hclean
    exact ⟨hclean', hakin.trans hakin'⟩

/-! ## What is implied -/

theorem withImplied_reports (c : ClassSymbol) (m : Members) :
    (withImplied c m).reports = m.reports := by
  unfold withImplied
  dsimp only
  split <;> split <;> rfl

theorem withImplied_akin (hc : c.Akin c') (h : m.Akin m') :
    (withImplied c m).Akin (withImplied c' m') := by
  have hconstructors : m.methods.any (·.kind == .constructor) = m'.methods.any (·.kind == .constructor) :=
    h.any_methods fun _ => rfl
  have hfields (m : Members) : (m.fields.any fun f => f.isStatic && f.value.isSome) =
      (m.fields.toList.map FieldSymbol.placeless).any fun f => f.isStatic && f.value.isSome := by
    rw [List.any_map, ← Array.any_toList]
    congr 1
    funext f
    simp [FieldSymbol.placeless]
  have constructed : (if c.isStatic || m.methods.any (·.kind == .constructor) then m
      else m.addMethod (impliedMethod constructorName .constructor .pub false
        c.decl.name.span)).Akin (if c'.isStatic || m'.methods.any (·.kind == .constructor) then m'
      else m'.addMethod (impliedMethod constructorName .constructor .pub false
        c'.decl.name.span)) := by
    rw [← hc.isStatic, ← hconstructors]
    split
    · exact h
    · exact h.addMethod rfl
  unfold withImplied
  dsimp only
  generalize (if c.isStatic || m.methods.any (·.kind == .constructor) then m
    else m.addMethod _) = n at constructed ⊢
  generalize (if c'.isStatic || m'.methods.any (·.kind == .constructor) then m'
    else m'.addMethod _) = n' at constructed ⊢
  rw [hfields n, hfields n', ← constructed.fields]
  split
  · exact constructed.addMethod rfl
  · exact constructed

/-! ## Classes -/

theorem addMembers_reports (s : Symbols) (reports : List SemanticError) (i : Nat) :
    (addMembers s reports i).2 = (members s (s.classes.getD i default)).reports ++ reports := rfl

theorem addMembers_clean {reports : List SemanticError} {i : Nat}
    (h : (addMembers s reports i).2 = []) :
    (members s (s.classes.getD i default)).reports = [] ∧ reports = [] := by
  rw [addMembers_reports, List.append_eq_nil_iff] at h
  exact h

theorem addMembers_akin (hs : s.Akin s') {reports reports' : List SemanticError} (i : Nat)
    (hreports : reports' = []) (h : (addMembers s reports i).2 = []) :
    (addMembers s' reports' i).2 = [] ∧
      (addMembers s reports i).1.Akin (addMembers s' reports' i).1 := by
  have hc := hs.getD i
  have hclean := (addMembers_clean h).1
  rw [members, withImplied_reports] at hclean
  have hstart : (Members.start s.staticCount).Akin (.start s'.staticCount) := by
    rw [hs.staticCount]
    exact .refl _
  obtain ⟨hclean', hdeclared⟩ := members_rearranged hc.decl.members hs hc hstart rfl hclean
  have hmembers : (members s (s.classes.getD i default)).Akin (members s' (s'.classes.getD i default)) :=
    withImplied_akin hc hdeclared
  refine ⟨?_, hs.libraries, hs.namespaces, hs.globalUsings, hs.places, hmembers.staticCount, fun j => ?_⟩
  · rw [addMembers_reports, hreports, List.append_nil, members, withImplied_reports]
    exact hclean'
  · have hclass := hs.classes j
    simp only [addMembers, Array.getElem?_setIfInBounds]
    by_cases hij : i = j
    · subst hij
      have hlt (s : Symbols) : i < s.classes.size ↔ s.classes[i]?.isSome := by simp
      rw [if_pos rfl, if_pos rfl]
      simp only [hlt]
      generalize s.classes[i]? = o at hclass ⊢
      generalize s'.classes[i]? = o' at hclass ⊢
      cases hclass with
      | none => exact .none
      | some => exact .some ⟨hc.name, hc.visibility, hc.isStatic, hc.usings, hc.decl,
          hmembers.fields, hmembers.methods⟩
    · rw [if_neg hij, if_neg hij]
      exact hclass

variable {reports reports' : List SemanticError} {is : List Nat}

theorem addAllMembers_clean (h : (addAllMembers s reports is).2 = []) : reports = [] := by
  induction is generalizing s reports with
  | nil => exact h
  | cons i is ih =>
    rw [addAllMembers_cons] at h
    exact (addMembers_clean (ih h)).2

theorem addAllMembers_akin (hs : s.Akin s') (hreports : reports' = [])
    (h : (addAllMembers s reports is).2 = []) : (addAllMembers s' reports' is).2 = [] ∧
      (addAllMembers s reports is).1.Akin (addAllMembers s' reports' is).1 := by
  induction is generalizing s s' reports reports' with
  | nil => exact ⟨hreports, hs⟩
  | cons i is ih =>
    rw [addAllMembers_cons] at h ⊢
    obtain ⟨hclean, hakin⟩ := addMembers_akin hs i hreports (addAllMembers_clean h)
    rw [addAllMembers_cons]
    exact ih hakin hclean h

end Registration

/-- The same class at the same place of a script, with its methods in another order. -/
structure PlacedClass.Rearranged (p p' : PlacedClass) : Prop where
  space : p.space.map Ident.placeless = p'.space.map Ident.placeless
  usings : p.usings.map UsingDirective.placeless = p'.usings.map UsingDirective.placeless
  decl : p.decl.Rearranged p'.decl

mutual

theorem Item.Rearranged.classes {i i' : Item} {space space' : List Ident}
    {usings usings' : List UsingDirective}
    (hspace : space.map Ident.placeless = space'.map Ident.placeless)
    (husings : usings.map UsingDirective.placeless = usings'.map UsingDirective.placeless) :
    i.Rearranged i' → List.Forall₂ PlacedClass.Rearranged (i.classes space usings)
      (i'.classes space' usings')
  | .type h => .cons ⟨hspace, husings, h⟩ .nil
  | .scope hpath hown hitems => by
    simp only [Item.classes]
    exact hitems.classes (by rw [List.map_append, List.map_append, hspace, hpath])
      (by rw [List.map_append, List.map_append, husings, hown])

theorem Item.RearrangedAll.classes {is is' : List Item} {space space' : List Ident}
    {usings usings' : List UsingDirective}
    (hspace : space.map Ident.placeless = space'.map Ident.placeless)
    (husings : usings.map UsingDirective.placeless = usings'.map UsingDirective.placeless) :
    Item.RearrangedAll is is' → List.Forall₂ PlacedClass.Rearranged
      (Item.classesOf space usings is) (Item.classesOf space' usings' is')
  | .nil => .nil
  | .cons h hs => by
    simp only [Item.classesOf]
    exact List.rel_append (h.classes hspace husings) (hs.classes hspace husings)

end

mutual

theorem Item.Rearranged.spaces {i i' : Item} {outer : List String} :
    i.Rearranged i' → Registration.spaces outer i = Registration.spaces outer i'
  | .type h => rfl
  | .scope hpath hown hitems => by
    simp only [Registration.spaces, map_name_eq hpath, hitems.spaces]

theorem Item.RearrangedAll.spaces {is is' : List Item} {outer : List String} :
    Item.RearrangedAll is is' → Registration.spacesOf outer is = Registration.spacesOf outer is'
  | .nil => rfl
  | .cons h hs => by simp only [Registration.spacesOf, h.spaces, hs.spaces]

end

mutual

theorem Item.Rearranged.usings {i i' : Item} : i.Rearranged i' →
    (Registration.usings i).map UsingDirective.placeless =
      (Registration.usings i').map UsingDirective.placeless
  | .type h => rfl
  | .scope hpath hown hitems => by
    simp only [Registration.usings, List.map_append, hown, hitems.usings]

theorem Item.RearrangedAll.usings {is is' : List Item} : Item.RearrangedAll is is' →
    (Registration.usingsOf is).map UsingDirective.placeless =
      (Registration.usingsOf is').map UsingDirective.placeless
  | .nil => rfl
  | .cons h hs => by simp only [Registration.usingsOf, List.map_append, h.usings, hs.usings]

end

namespace Registration

variable {s s' : Symbols} {c c' : ClassSymbol} {p p' : PlacedClass} {ps ps' : List PlacedClass}
  {reports reports' : List SemanticError}

/-! ## Scripts -/

theorem classSymbol_akin (h : p.Rearranged p') : (classSymbol p).Akin (classSymbol p') := by
  obtain ⟨hvisibility, hstatic, -⟩ := Modifiers.mk.inj h.decl.modifiers
  have husings : p.usings.map (fun u => dottedText u.path) = p'.usings.map fun u => dottedText u.path := by
    have hplaceless := congrArg (List.map fun u => dottedText u.path) h.usings
    have hforget (u : UsingDirective) : dottedText u.placeless.path = dottedText u.path :=
      dottedText_eq (by simp [UsingDirective.placeless, Ident.placeless])
    simpa only [List.map_map, Function.comp_def, hforget] using hplaceless
  refine ⟨?_, ?_, hstatic, husings, h.decl, rfl, .refl _⟩
  · simp only [classSymbol, Ident.name_eq h.decl.name, map_name_eq h.space]
  · simp only [classSymbol, hvisibility]

theorem addClass_akin (hs : s.Akin s') (hc : c.Akin c') : (addClass s c).Akin (addClass s' c') := by
  refine ⟨hs.libraries, hs.namespaces, hs.globalUsings, ?_, hs.staticCount, fun i => ?_⟩
  · simp only [addClass, hs.places, hc.name, hs.size]
  · simp only [addClass, Array.getElem?_push, ← hs.size]
    split
    · exact .some hc
    · exact hs.classes i

def addAllClasses (s : Symbols) (reports : List SemanticError) (placed : List PlacedClass) :
    Symbols × List SemanticError :=
  placed.foldl (fun (s, reports) p =>
    let c := classSymbol p
    match classError? s c with
    | some e => (s, e :: reports)
    | none => (addClass s c, reports)) (s, reports)

theorem addAllClasses_clean (h : (addAllClasses s reports ps).2 = []) : reports = [] := by
  induction ps generalizing s reports with
  | nil => exact h
  | cons p ps ih =>
    rw [addAllClasses, List.foldl_cons] at h
    dsimp only at h
    split at h
    · cases ih h
    · exact ih h

theorem addAllClasses_cons (h : (addAllClasses s reports (p :: ps)).2 = []) :
    classError? s (classSymbol p) = none ∧
      addAllClasses s reports (p :: ps) = addAllClasses (addClass s (classSymbol p)) reports ps := by
  rw [addAllClasses, List.foldl_cons] at h ⊢
  dsimp only at h ⊢
  split at h
  · cases addAllClasses_clean h
  · next hnone => exact ⟨hnone, rfl⟩

theorem addAllClasses_akin (hps : List.Forall₂ PlacedClass.Rearranged ps ps') (hs : s.Akin s')
    (hreports : reports' = []) (h : (addAllClasses s reports ps).2 = []) :
    (addAllClasses s' reports' ps').2 = [] ∧
      (addAllClasses s reports ps).1.Akin (addAllClasses s' reports' ps').1 := by
  induction hps generalizing s s' reports reports' with
  | nil => exact ⟨hreports, hs⟩
  | @cons p p' ps ps' hp _ ih =>
    obtain ⟨hnone, heq⟩ := addAllClasses_cons h
    have hnone' : classError? s' (classSymbol p') = none := by
      have hc := classSymbol_akin hp
      unfold classError? at hnone ⊢
      rw [← hs.places, ← hc.name]
      split at hnone
      · cases hnone
      · next hfree => rw [if_neg hfree]
    have heq' : addAllClasses s' reports' (p' :: ps') =
        addAllClasses (addClass s' (classSymbol p')) reports' ps' := by
      rw [addAllClasses, List.foldl_cons]
      dsimp only
      rw [hnone']
      rfl
    rw [heq] at h
    rw [heq, heq']
    exact ih (addClass_akin hs (classSymbol_akin hp)) hreports h

def spaced (libraries : List Library) (globalUsings : List String) (items : List Item) : Symbols :=
  let s := Symbols.start libraries
  let s := { s with namespaces := s.namespaces.insertMany (spacesOf [] items) }
  { s with globalUsings := (globalUsings.partition s.isNamespace).1.eraseDups }

theorem spaced_eq {libraries : List Library} {globalUsings : List String} {items items' : List Item}
    (h : Item.RearrangedAll items items') :
    spaced libraries globalUsings items = spaced libraries globalUsings items' := by
  unfold spaced
  rw [h.spaces]

/-- The symbols of a script with all its members, and the reports on them. -/
def declared (libraries : List Library) (globalUsings : List String) (script : Script) :
    Symbols × List SemanticError :=
  let classes := addAllClasses (spaced libraries globalUsings script.items) [] script.classes
  addAllMembers classes.1 classes.2 (List.range classes.1.classes.size)

variable {libraries : List Library} {globalUsings : List String} {script script' : Script}

theorem ofScript_diagnostics : (ofScript libraries globalUsings script).diagnostics =
    (globalUsings.partition (spaced libraries globalUsings script.items).isNamespace).2.map
        unknownGlobalUsing ++
      (((script.usings ++ usingsOf script.items).filterMap
        (usingError? (spaced libraries globalUsings script.items))) ++
        (declared libraries globalUsings script).2.reverse).map (·.diagnostic) := rfl

theorem declared_akin (h : script.Rearranged script')
    (hclean : (declared libraries globalUsings script).2 = []) :
    (declared libraries globalUsings script').2 = [] ∧
      (declared libraries globalUsings script).1.Akin (declared libraries globalUsings script').1 := by
  obtain ⟨hclean', hakin⟩ := addAllClasses_akin (h.items.classes rfl h.usings)
    (.refl (spaced libraries globalUsings script.items)) rfl (addAllMembers_clean hclean)
  unfold declared at hclean ⊢
  dsimp only at hclean ⊢
  rw [← spaced_eq h.items]
  rw [show script'.classes = Item.classesOf [] script'.usings script'.items from rfl, ← hakin.size]
  exact addAllMembers_akin hakin hclean' hclean

/-- Usings that name namespaces name them wherever they stand. -/
theorem usingErrors_eq_nil {s : Symbols} {us us' : List UsingDirective}
    (hus : us.map UsingDirective.placeless = us'.map UsingDirective.placeless)
    (h : us.filterMap (usingError? s) = []) : us'.filterMap (usingError? s) = [] := by
  have hforget (u : UsingDirective) : usingError? s u = none ↔ usingError? s u.placeless = none := by
    have hname : dottedText u.placeless.path = dottedText u.path :=
      dottedText_eq (by simp [UsingDirective.placeless, Ident.placeless])
    simp only [usingError?, hname]
    split <;> simp
  rw [List.filterMap_eq_nil_iff] at h ⊢
  intro u hu
  obtain ⟨v, hv, heq⟩ := List.mem_map.mp (hus ▸ List.mem_map_of_mem hu)
  rw [hforget, ← heq, ← hforget]
  exact h v hv

/-- Where nothing is reported that is an error, the same is reported in another order of the
methods, and the symbols are akin. -/
theorem ofScript_rearranged (h : script.Rearranged script')
    (hclean : ∀ d ∈ (ofScript libraries globalUsings script).diagnostics, d.isBlocking = false) :
    (ofScript libraries globalUsings script').diagnostics =
        (ofScript libraries globalUsings script).diagnostics ∧
      (ofScript libraries globalUsings script).symbols.Akin
        (ofScript libraries globalUsings script').symbols := by
  have hnil : (script.usings ++ usingsOf script.items).filterMap
      (usingError? (spaced libraries globalUsings script.items)) ++
        (declared libraries globalUsings script).2.reverse = [] := by
    refine List.eq_nil_iff_forall_not_mem.mpr fun e he => ?_
    have hblocking := hclean e.diagnostic (by
      rw [ofScript_diagnostics]
      exact List.mem_append_right _ (List.mem_map_of_mem he))
    cases hblocking
  rw [List.append_eq_nil_iff, List.reverse_eq_nil_iff] at hnil
  obtain ⟨hnil', hakin⟩ := declared_akin h hnil.2
  have hplaceless : (script.usings ++ usingsOf script.items).map UsingDirective.placeless =
      (script'.usings ++ usingsOf script'.items).map UsingDirective.placeless := by
    rw [List.map_append, List.map_append, h.usings, h.items.usings]
  have husings := usingErrors_eq_nil hplaceless hnil.1
  refine ⟨?_, hakin⟩
  rw [ofScript_diagnostics, ofScript_diagnostics, ← spaced_eq h.items, husings, hnil', hnil.1, hnil.2]

end Registration
end ClassScript
