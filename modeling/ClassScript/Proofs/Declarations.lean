import ClassScript.Proofs.Registration
import Mathlib.Data.List.Nodup
import Mathlib.Logic.Relation

/-!
What registration guarantees of names and signatures, on every script.

A declaration does one of three things: it is reported, or it adds fields whose names are free, or it
adds a method whose signature is free. What these steps keep holds of the members of every class,
however many declarations were left out. What a class has without declaring it is added last.
-/

namespace ClassScript

/-- Two methods differ in their signatures. The name counts for methods that have one of their own, and
a class has one initializer only. -/
def MethodSymbol.Apart (f g : MethodSymbol) : Prop :=
  ¬ (f.kind = g.kind ∧ (f.kind = .method → f.name = g.name) ∧
    (f.kind ≠ .typeInitializer → f.params = g.params))

namespace Registration

variable {s : Symbols} {c : ClassSymbol} {m n : Members} {f : MethodSymbol} {a : FieldSymbol}

/-! ## What a declaration does -/

/-- No member has the name of the method or its signature. -/
structure Members.Takes (m : Members) (f : MethodSymbol) : Prop where
  name : f.isInvocable = true → m.fieldNames.contains f.name = false
  signature : m.hasSignature f.kind f.name f.params = false

/-- A method that a class may declare, or have for want of a constructor. -/
structure Fits (c : ClassSymbol) (f : MethodSymbol) : Prop where
  kind : f.kind ≠ .typeInitializer
  constructor : f.kind = .constructor → f.name = constructorName
  static : c.isStatic = true → f.isStatic = true ∧ f.kind ≠ .constructor

inductive Step (c : ClassSymbol) (m : Members) : Members → Prop
  | report (es : List SemanticError) : Step c m (m.reportAll es)
  | field {a : FieldSymbol} (hfields : m.fieldNames.contains a.name = false)
      (hmethods : m.methodNames.contains a.name = false)
      (hstatic : c.isStatic = true → a.isStatic = true) : Step c m (m.addField a)
  | method {f : MethodSymbol} (htakes : m.Takes f) (hfits : Fits c f) : Step c m (m.addMethod f)

abbrev Steps (c : ClassSymbol) : Members → Members → Prop := Relation.ReflTransGen (Step c)

theorem Step.fault (fault : SemanticFault) (sp : Span) : Step c m (m.report fault sp) :=
  .report [⟨fault, sp⟩]

theorem fieldFault?_eq_none {isStatic : Bool} {v : Declarator} : fieldFault? c m isStatic v = none ↔
    v.name.name ≠ c.name.simple ∧ m.fieldNames.contains v.name.name = false ∧
      m.methodNames.contains v.name.name = false ∧
      (if isStatic then m.staticCount else m.instanceCount) < maxSlots := by
  unfold fieldFault?
  by_cases hname : v.name.name = c.name.simple
  · simp [hname]
  · by_cases hnames : v.name.name ∈ m.fieldNames ∨ v.name.name ∈ m.methodNames
    · rcases hnames with hnames | hnames <;> simp [hname, hnames]
    · obtain ⟨hfields, hmethods⟩ := not_or.mp hnames
      cases isStatic <;> simp [hname, hfields, hmethods]

theorem declarator_step {mods : Modifiers} {type : ValueType}
    (hstatic : c.isStatic = true → mods.isStatic = true) (v : Declarator) :
    Step c m (declarator c mods type m v) := by
  unfold declarator
  split
  · exact .fault _ _
  · next hfree =>
    obtain ⟨-, hfields, hmethods, -⟩ := fieldFault?_eq_none.mp hfree
    exact .field hfields hmethods hstatic

theorem field_steps {mods : Modifiers} {type : TypeExpr} {vars : List Declarator} {sp : Span} :
    Steps c m (field s c m mods type vars sp) := by
  unfold field
  split
  · exact .single (.fault _ _)
  · split
    · exact .single (.fault _ _)
    · split
      · exact .single (.fault _ _)
      · next hstatic =>
        have hstatic : c.isStatic = true → mods.isStatic = true := by simpa using hstatic
        induction vars generalizing m with
        | nil => exact .refl
        | cons v vars ih => exact .head (declarator_step hstatic v) ih

theorem methodFault?_eq_none {isStatic : Bool} {name : String} {params : List ValueType}
    (h : methodFault? c m isStatic name params = none) :
    (c.isStatic && !isStatic) = false ∧ name ≠ c.name.simple ∧
      m.fieldNames.contains name = false ∧ m.hasSignature .method name params = false := by
  simp only [methodFault?] at h
  split at h <;> [cases h; skip]
  split at h <;> [cases h; skip]
  split at h <;> [cases h; skip]
  split at h <;> [cases h; skip]
  refine ⟨?_, ?_, ?_, ?_⟩ <;> simp_all

theorem method_steps {mods : Modifiers} {returns : TypeExpr} {name : Ident} {params : List Param}
    {body : Body} {sp : Span} : Steps c m (method s c m mods returns name params body sp) := by
  unfold method
  split
  · exact .tail (.single (.report _)) (.fault _ _)
  · exact .single (.report _)
  · exact .single (.fault _ _)
  · split
    · exact .single (.fault _ _)
    · next hfree =>
      obtain ⟨hstatic, -, hname, hsignature⟩ := methodFault?_eq_none hfree
      refine .single (.method ⟨fun _ => hname, hsignature⟩ ⟨nofun, nofun, fun hc => ⟨?_, nofun⟩⟩)
      simpa [hc] using hstatic

theorem constructorFault?_eq_none {isStatic : Bool} {params : List ValueType}
    (h : constructorFault? c m isStatic params = none) :
    isStatic = false ∧ c.isStatic = false ∧
      m.hasSignature .constructor constructorName params = false := by
  simp only [constructorFault?] at h
  split at h <;> [cases h; skip]
  split at h <;> [cases h; skip]
  split at h <;> [cases h; skip]
  refine ⟨?_, ?_, ?_⟩ <;> simp_all

theorem constructor_steps {mods : Modifiers} {name : Ident} {params : List Param} {body : Body}
    {sp : Span} : Steps c m (constructor s c m mods name params body sp) := by
  unfold constructor
  split
  · exact .single (.report _)
  · split
    · exact .single (.fault _ _)
    · next hfree =>
      obtain ⟨-, hstatic, hsignature⟩ := constructorFault?_eq_none hfree
      exact .single (.method ⟨nofun, hsignature⟩ ⟨nofun, fun _ => rfl, by simp [hstatic]⟩)

theorem member_steps (d : Member) : Steps c m (member s c m d) := by
  cases d with
  | field => exact field_steps
  | method => exact method_steps
  | constructor => exact constructor_steps

theorem declarations_steps (ds : List Member) : Steps c m (ds.foldl (member s c) m) := by
  induction ds generalizing m with
  | nil => exact .refl
  | cons d ds ih => exact (member_steps d).trans ih

/-! ## What declarations keep -/

/-- Members of which each has a name and a signature of its own. -/
structure Members.Orderly (c : ClassSymbol) (m : Members) : Prop where
  fieldNames : ∀ name, m.fieldNames.contains name = true ↔ ∃ a ∈ m.fields.toList, a.name = name
  methodNames : ∀ name, m.methodNames.contains name = true ↔
    ∃ f ∈ m.methods.toList, f.isInvocable = true ∧ f.name = name
  fields : (m.fields.toList.map (·.name)).Nodup
  names : ∀ a ∈ m.fields.toList, ∀ f ∈ m.methods.toList, f.isInvocable = true → f.name ≠ a.name
  signatures : m.methods.toList.Pairwise MethodSymbol.Apart
  fits : ∀ f ∈ m.methods.toList, Fits c f
  staticFields : c.isStatic = true → ∀ a ∈ m.fields.toList, a.isStatic = true

namespace Members.Orderly

theorem start (first : Nat) : (Members.start first).Orderly c where
  fieldNames name := by simp [Members.start]
  methodNames name := by simp [Members.start]
  fields := by simp [Members.start]
  names := by simp [Members.start]
  signatures := .nil
  fits := by simp [Members.start]
  staticFields := by simp [Members.start]

theorem reportAll (h : m.Orderly c) (es : List SemanticError) : (m.reportAll es).Orderly c :=
  ⟨h.1, h.2, h.3, h.4, h.5, h.6, h.7⟩

theorem addField_eq (m : Members) (a : FieldSymbol) :
    (m.addField a).fields = m.fields.push a ∧ (m.addField a).methods = m.methods ∧
      (m.addField a).fieldNames = m.fieldNames.insert a.name ∧
      (m.addField a).methodNames = m.methodNames := by
  unfold Members.addField
  dsimp only
  split <;> exact ⟨rfl, rfl, rfl, rfl⟩

theorem addField (h : m.Orderly c) (hfields : m.fieldNames.contains a.name = false)
    (hmethods : m.methodNames.contains a.name = false)
    (hstatic : c.isStatic = true → a.isStatic = true) : (m.addField a).Orderly c := by
  obtain ⟨hf, hm, hfn, hmn⟩ := addField_eq m a
  have hnew : ∀ b ∈ m.fields.toList, b.name ≠ a.name := by
    intro b hb hname
    rw [(h.fieldNames a.name).mpr ⟨b, hb, hname⟩] at hfields
    cases hfields
  have hnone : ∀ f ∈ m.methods.toList, f.isInvocable = true → f.name ≠ a.name := by
    intro f hf hk hname
    rw [(h.methodNames a.name).mpr ⟨f, hf, hk, hname⟩] at hmethods
    cases hmethods
  constructor <;> simp only [hf, hm, hfn, hmn, Array.toList_push, List.forall_mem_append,
    List.forall_mem_singleton, List.map_append, List.map_cons, List.map_nil]
  · intro name
    rw [Std.HashSet.contains_insert, Bool.or_eq_true, h.fieldNames, beq_iff_eq]
    simp only [List.mem_append, List.mem_singleton]
    grind
  · exact h.methodNames
  · refine List.nodup_append.mpr ⟨h.fields, List.nodup_singleton _, ?_⟩
    simpa using hnew
  · exact ⟨h.names, hnone⟩
  · exact h.signatures
  · exact h.fits
  · exact fun hc => ⟨h.staticFields hc, hstatic hc⟩

theorem addMethod (h : m.Orderly c) (htakes : m.Takes f) (hfits : Fits c f) :
    (m.addMethod f).Orderly c := by
  have hsignature := htakes.signature
  simp only [Members.hasSignature, Array.any_eq_false', Bool.and_eq_true, beq_iff_eq] at hsignature
  have happart : ∀ g ∈ m.methods.toList, g.Apart f := by
    rintro g hg ⟨hk, hn, hp⟩
    have hname : g.name = f.name := by
      cases hkg : g.kind with
      | method => exact hn hkg
      | constructor => rw [(h.fits g hg).constructor hkg, hfits.constructor (hk.symm.trans hkg)]
      | typeInitializer => exact absurd hkg (h.fits g hg).kind
    exact hsignature g (Array.mem_toList_iff.mp hg) ⟨⟨hk, hname⟩, hp (h.fits g hg).kind⟩
  have hnone : f.isInvocable = true → ∀ a ∈ m.fields.toList, f.name ≠ a.name := by
    intro hk a ha hname
    have hfree := htakes.name hk
    rw [(h.fieldNames f.name).mpr ⟨a, ha, hname.symm⟩] at hfree
    cases hfree
  constructor <;> simp only [Members.addMethod, Array.toList_push, List.forall_mem_append,
    List.forall_mem_singleton]
  · exact h.fieldNames
  · intro name
    have hold := h.methodNames name
    split <;> simp only [Std.HashSet.contains_insert, Bool.or_eq_true, beq_iff_eq, hold,
      List.mem_append, List.mem_singleton]
    all_goals grind
  · exact h.fields
  · exact fun a ha => ⟨h.names a ha, fun hk => hnone hk a ha⟩
  · exact List.pairwise_append.mpr ⟨h.signatures, List.pairwise_singleton .., by simpa using happart⟩
  · exact ⟨h.fits, hfits⟩
  · exact h.staticFields

theorem step (h : m.Orderly c) (hstep : Step c m n) : n.Orderly c := by
  cases hstep with
  | report es => exact h.reportAll es
  | field hfields hmethods hstatic => exact h.addField hfields hmethods hstatic
  | method htakes hfits => exact h.addMethod htakes hfits

theorem steps (h : m.Orderly c) (hsteps : Steps c m n) : n.Orderly c := by
  induction hsteps with
  | refl => exact h
  | tail _ hstep ih => exact ih.step hstep

end Members.Orderly

/-! ## What is implied -/

def declaredMembers (s : Symbols) (c : ClassSymbol) : Members :=
  c.decl.members.foldl (member s c) (.start s.staticCount)

/-- Members with a constructor, unless the class is static. -/
def constructed (c : ClassSymbol) (m : Members) : Members :=
  if c.isStatic || m.methods.any (·.kind == .constructor) then m
  else m.addMethod (impliedMethod constructorName .constructor .pub false c.decl.name.span)

def initializer (c : ClassSymbol) : MethodSymbol :=
  impliedMethod initializerName .typeInitializer .priv true c.decl.name.span

theorem withImplied_eq (c : ClassSymbol) (m : Members) : withImplied c m =
    if (constructed c m).fields.any fun a => a.isStatic && a.value.isSome then
      (constructed c m).addMethod (initializer c)
    else constructed c m := rfl

theorem Members.Orderly.constructed (h : m.Orderly c) : (constructed c m).Orderly c := by
  unfold Registration.constructed
  split
  · exact h
  · next hnone =>
    simp only [Bool.or_eq_true, not_or, Bool.not_eq_true, Array.any_eq_false', beq_iff_eq] at hnone
    refine h.addMethod ⟨nofun, ?_⟩ ⟨nofun, fun _ => rfl, by simp [hnone.1]⟩
    simp only [Members.hasSignature, Array.any_eq_false', Bool.and_eq_true, beq_iff_eq]
    exact fun f hf hsignature => hnone.2 f hf hsignature.1.1

theorem exists_constructor (hstatic : c.isStatic = false) (m : Members) :
    ∃ f ∈ (constructed c m).methods.toList, f.kind = .constructor := by
  unfold constructed
  split
  · next hsome =>
    simp only [hstatic, Bool.false_or, ← Array.any_toList, List.any_eq_true, beq_iff_eq] at hsome
    exact hsome
  · exact ⟨impliedMethod constructorName .constructor .pub false c.decl.name.span,
      by simp [Members.addMethod], rfl⟩

/-- The initializer of a class, where a static field has a value. -/
def initializers (c : ClassSymbol) (m : Members) : List MethodSymbol :=
  if ∃ a ∈ m.fields.toList, a.isStatic = true ∧ a.value.isSome = true then [initializer c] else []

theorem eq_of_mem_initializers (h : f ∈ initializers c m) : f = initializer c := by
  unfold initializers at h
  split at h
  · exact List.mem_singleton.mp h
  · cases h

theorem members_fields (s : Symbols) (c : ClassSymbol) :
    (members s c).fields = (constructed c (declaredMembers s c)).fields := by
  rw [members, withImplied_eq]
  split <;> rfl

theorem members_methods (s : Symbols) (c : ClassSymbol) :
    (members s c).methods.toList = (constructed c (declaredMembers s c)).methods.toList ++
      initializers c (members s c) := by
  rw [initializers, members_fields, members, withImplied_eq]
  simp only [← Array.any_toList, List.any_eq_true, Bool.and_eq_true]
  rw [declaredMembers]
  split
  · simp [Members.addMethod]
  · simp

theorem mem_members_methods (h : f ∈ (members s c).methods.toList) :
    f ∈ (constructed c (declaredMembers s c)).methods.toList ∨ f = initializer c := by
  rw [members_methods, List.mem_append] at h
  exact h.imp_right eq_of_mem_initializers

theorem members_orderly (s : Symbols) (c : ClassSymbol) :
    (constructed c (declaredMembers s c)).Orderly c :=
  ((Members.Orderly.start _).steps (declarations_steps _)).constructed

theorem members_apart (s : Symbols) (c : ClassSymbol) :
    (members s c).methods.toList.Pairwise MethodSymbol.Apart := by
  rw [members_methods]
  refine List.pairwise_append.mpr ⟨(members_orderly s c).signatures, ?_, fun f hf g hg happart => ?_⟩
  · unfold initializers
    split
    · exact List.pairwise_singleton ..
    · exact .nil
  · rw [eq_of_mem_initializers hg] at happart
    exact ((members_orderly s c).fits f hf).kind happart.1

end Registration

/-! ## Classes -/

structure ClassSymbol.Registered (c : ClassSymbol) : Prop where
  slots : c.instanceFields.map (·.slot) = List.range c.instanceFields.length
  fieldNames : (c.fields.toList.map (·.name)).Nodup
  names : ∀ a ∈ c.fields.toList, ∀ f ∈ c.methods.toList, f.kind = .method → f.name ≠ a.name
  methods : ((c.methods.toList.filter (·.kind == .method)).map fun f => (f.name, f.params)).Nodup
  constructors : ((c.methods.toList.filter (·.kind == .constructor)).map (·.params)).Nodup
  fieldTypes : ∀ a ∈ c.fields.toList, a.type ≠ .void
  paramTypes : ∀ f ∈ c.methods.toList, ∀ t ∈ f.params, t ≠ .void
  /-- One initializer, where a static field has a value. -/
  initializers : (c.methods.toList.filter (·.kind == .typeInitializer)).length =
    if ∃ a ∈ c.fields.toList, a.isStatic = true ∧ a.value.isSome = true then 1 else 0
  constructed : c.isStatic = false → ∃ f ∈ c.methods.toList, f.kind = .constructor
  /-- A static class has no constructor and nothing that belongs to an instance. -/
  static : c.isStatic = true → (∀ a ∈ c.fields.toList, a.isStatic = true) ∧
    ∀ f ∈ c.methods.toList, f.isStatic = true ∧ f.kind ≠ .constructor

structure Symbols.Registered (s : Symbols) : Prop where
  names : (s.classes.toList.map (·.name.text)).Nodup
  statics : s.staticFields.map (·.slot) = List.range s.staticCount
  classes : ∀ c ∈ s.classes.toList, c.Registered

theorem Numbered.map_slot {fs : List FieldSymbol} (h : Numbered 0 fs) :
    fs.map (·.slot) = List.range fs.length := by
  refine List.ext_getElem (by simp) fun k hk hk' => ?_
  have hslot := h k _ (List.getElem?_eq_getElem (by simpa using hk))
  simp [hslot]

namespace Registration

variable {s : Symbols} {c : ClassSymbol} {m : Members}

theorem nodup_signatures {fs : List MethodSymbol} (h : fs.Pairwise MethodSymbol.Apart) :
    ((fs.filter (·.kind == .method)).map fun f => (f.name, f.params)).Nodup ∧
      ((fs.filter (·.kind == .constructor)).map (·.params)).Nodup := by
  constructor
  all_goals
    rw [List.Nodup, List.pairwise_map]
    refine (List.Pairwise.filter _ h).imp_of_mem fun {f g} hf hg happart heq => ?_
    have hkf := (List.mem_filter.mp hf).2
    have hkg := (List.mem_filter.mp hg).2
    simp only [beq_iff_eq] at hkf hkg
    simp_all [MethodSymbol.Apart]

theorem class_registered (s : Symbols) (c : ClassSymbol) : ClassSymbol.Registered
    { c with fields := (members s c).fields, methods := (members s c).methods } := by
  have hsound := members_sound s c
  have horderly := members_orderly s c
  constructor
  case slots => exact hsound.instances.map_slot
  case fieldNames =>
    rw [members_fields]
    exact horderly.fields
  case names =>
    intro a ha f hf hk
    rw [members_fields] at ha
    obtain hf | rfl := mem_members_methods hf
    · exact horderly.names a ha f hf (by simp [MethodSymbol.isInvocable, hk])
    · cases hk
  case methods => exact (nodup_signatures (members_apart s c)).1
  case constructors => exact (nodup_signatures (members_apart s c)).2
  case fieldTypes => exact hsound.types
  case paramTypes => exact fun f hf => (hsound.methods f hf).params
  case initializers =>
    have hnone : (constructed c (declaredMembers s c)).methods.toList.filter
        (·.kind == .typeInitializer) = [] := by
      rw [List.filter_eq_nil_iff]
      intro f hf
      simpa using (horderly.fits f hf).kind
    rw [members_methods, List.filter_append, hnone, List.nil_append, initializers]
    split <;> rfl
  case constructed =>
    intro hstatic
    obtain ⟨f, hf, hk⟩ := exists_constructor hstatic (declaredMembers s c)
    exact ⟨f, by rw [members_methods]; exact List.mem_append_left _ hf, hk⟩
  case static =>
    intro hstatic
    refine ⟨by rw [members_fields]; exact horderly.staticFields hstatic, fun f hf => ?_⟩
    obtain hf | rfl := mem_members_methods hf
    · exact (horderly.fits f hf).static hstatic
    · exact ⟨rfl, nofun⟩

/-! ## Scripts -/

def addAllMembers (s : Symbols) (reports : List SemanticError) (is : List Nat) :
    Symbols × List SemanticError :=
  is.foldl (fun (s, reports) i => addMembers s reports i) (s, reports)

theorem addAllMembers_cons (s : Symbols) (reports : List SemanticError) (i : Nat) (is : List Nat) :
    addAllMembers s reports (i :: is) =
      addAllMembers (addMembers s reports i).1 (addMembers s reports i).2 is := rfl

theorem addMembers_classes (s : Symbols) (reports : List SemanticError) (i : Nat) :
    (addMembers s reports i).1.classes = s.classes.setIfInBounds i { s.classes.getD i default with
      fields := (members s (s.classes.getD i default)).fields
      methods := (members s (s.classes.getD i default)).methods } := rfl

def classNames (s : Symbols) : List String := s.classes.toList.map (·.name.text)

theorem addMembers_names (s : Symbols) (reports : List SemanticError) (i : Nat) :
    classNames (addMembers s reports i).1 = classNames s := by
  rw [classNames, addMembers_classes, Array.toList_setIfInBounds, List.map_set, ← classNames]
  refine List.ext_getElem? fun j => ?_
  rw [List.getElem?_set]
  split
  · next hij =>
    subst hij
    split
    · next hlt =>
      have hlt : i < s.classes.size := by simpa [classNames] using hlt
      simp [classNames, hlt]
    · next hge =>
      exact (List.getElem?_eq_none (Nat.le_of_not_lt hge)).symm
  · rfl

theorem addAllMembers_names (s : Symbols) (reports : List SemanticError) (is : List Nat) :
    classNames (addAllMembers s reports is).1 = classNames s := by
  induction is generalizing s reports with
  | nil => rfl
  | cons i is ih => rw [addAllMembers_cons, ih, addMembers_names]

/-- Every class whose turn has come has its members. -/
theorem addAllMembers_made {P : ClassSymbol → Prop}
    (hP : ∀ (s : Symbols) (c : ClassSymbol),
      P { c with fields := (members s c).fields, methods := (members s c).methods })
    {reports : List SemanticError} {is : List Nat}
    (h : ∀ (j : Nat) c, s.classes[j]? = some c → j ∉ is → P c) (j : Nat) {c : ClassSymbol}
    (hc : (addAllMembers s reports is).1.classes[j]? = some c) : P c := by
  induction is generalizing s reports with
  | nil => exact h j c hc List.not_mem_nil
  | cons i is ih =>
    rw [addAllMembers_cons] at hc
    refine ih (fun k d hd hk => ?_) hc
    rw [addMembers_classes, Array.getElem?_setIfInBounds] at hd
    split at hd
    · split at hd
      · cases hd
        exact hP s _
      · cases hd
    · next hik => exact h k d hd (by simp [hk, Ne.symm hik])

/-- The places of the classes are known by their names, which are distinct. -/
structure Filed (s : Symbols) : Prop where
  names : (classNames s).Nodup
  places : ∀ name, s.places.contains name = true ↔ name ∈ classNames s

theorem addClass_filed (h : Filed s) (hfree : classError? s c = none) : Filed (addClass s c) := by
  have hnew : c.name.text ∉ classNames s := by
    intro hmem
    simp only [classError?] at hfree
    rw [if_pos ((h.places _).mpr hmem)] at hfree
    cases hfree
  have hnames : classNames (addClass s c) = classNames s ++ [c.name.text] := by
    simp [classNames, addClass]
  constructor
  · rw [hnames]
    refine List.nodup_append.mpr ⟨h.names, List.nodup_singleton _, ?_⟩
    intro name hname other hother heq
    rw [List.mem_singleton.mp hother] at heq
    exact hnew (heq ▸ hname)
  · intro name
    have hplaces := h.places name
    rw [hnames, List.mem_append, List.mem_singleton]
    simp only [addClass, Std.HashMap.contains_insert, Bool.or_eq_true, beq_iff_eq, hplaces]
    exact or_comm.trans (or_congr_right eq_comm)

theorem addClasses_filed (h : Filed s) (placed : List PlacedClass) :
    Filed (addClasses s placed).1 := by
  unfold addClasses
  generalize ([] : List SemanticError) = reports
  induction placed generalizing s reports with
  | nil => exact h
  | cons p placed ih =>
    rw [List.foldl_cons]
    cases he : classError? s (classSymbol p) with
    | some e => simpa [he] using ih h _
    | none => simpa [he] using ih (addClass_filed h he) _

theorem ofScript_filed (libraries : List Library) (usings : List String) (script : Script) :
    (classNames (ofScript libraries usings script).symbols).Nodup := by
  unfold ofScript
  dsimp only
  refine (addAllMembers_names _ _ _).symm ▸ (addClasses_filed ⟨?_, fun name => ?_⟩ script.classes).names
  · simp [classNames, Symbols.start]
  · simp [classNames, Symbols.start]

theorem ofScript_made {P : ClassSymbol → Prop}
    (hP : ∀ (s : Symbols) (c : ClassSymbol),
      P { c with fields := (members s c).fields, methods := (members s c).methods })
    (libraries : List Library) (usings : List String) (script : Script) :
    ∀ c ∈ (ofScript libraries usings script).symbols.classes.toList, P c := by
  intro c hc
  obtain ⟨j, hj⟩ := List.getElem?_of_mem hc
  rw [Array.getElem?_toList] at hj
  refine addAllMembers_made hP (fun k d hd hk => ?_) j hj
  obtain ⟨hlt, -⟩ := Array.getElem?_eq_some_iff.mp hd
  exact absurd (List.mem_range.mpr hlt) hk

/-- What registration guarantees on every script, whatever was reported and left out. -/
theorem ofScript_registered (libraries : List Library) (usings : List String) (script : Script) :
    (ofScript libraries usings script).symbols.Registered where
  names := ofScript_filed libraries usings script
  statics := by
    rw [ofScript_staticCount]
    exact (ofScript_sound libraries usings script).statics.map_slot
  classes := ofScript_made class_registered libraries usings script

/-- No two methods of a class have one signature. -/
theorem ofScript_apart (libraries : List Library) (usings : List String) (script : Script) :
    ∀ c ∈ (ofScript libraries usings script).symbols.classes.toList,
      c.methods.toList.Pairwise MethodSymbol.Apart :=
  ofScript_made members_apart libraries usings script

end Registration
end ClassScript
