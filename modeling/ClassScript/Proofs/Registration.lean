import ClassScript.Registration

/-!
What registration guarantees of the members of classes.

Slots are numbered without gaps: those of instance fields from zero on in every class, those of
static fields from zero on through all classes. Fields and parameters have types of values.
-/

namespace ClassScript

/-! ## Members -/

/-- Fields whose slots are counted up from `first`. -/
def Numbered (first : Nat) (fs : List FieldSymbol) : Prop :=
  ∀ k f, fs[k]? = some f → f.slot = first + k

theorem Numbered.nil (first : Nat) : Numbered first [] := by
  intro k f h
  simp at h

theorem Numbered.append {first : Nat} {fs gs : List FieldSymbol} (hf : Numbered first fs)
    (hg : Numbered (first + fs.length) gs) : Numbered first (fs ++ gs) := by
  intro k f h
  rw [List.getElem?_append] at h
  split at h
  · exact hf k f h
  · have := hg _ f h
    omega

theorem Numbered.one {first : Nat} {f : FieldSymbol} (h : f.slot = first) : Numbered first [f] := by
  intro k g hg
  obtain ⟨hk, rfl⟩ := List.getElem?_eq_some_iff.mp hg
  simp only [List.length_singleton] at hk
  simp [h, show k = 0 by omega]

theorem Numbered.slot_lt {fs : List FieldSymbol} (h : Numbered 0 fs) {f : FieldSymbol} (hf : f ∈ fs) :
    f.slot < fs.length := by
  obtain ⟨k, hk⟩ := List.getElem?_of_mem hf
  have hlt := (List.getElem?_eq_some_iff.mp hk).1
  have hslot := h k f hk
  omega

structure MethodSymbol.Sound (m : MethodSymbol) : Prop where
  params : ∀ t ∈ m.params, t ≠ .void
  declared : ∀ ps b sp, m.source = .declared ps b sp → ps.length = m.params.length
  implied : m.source = .implied → m.returns = .void ∧ m.params = []
  constructor : m.kind = .constructor → m.isStatic = false
  typeInitializer : m.kind = .typeInitializer →
    m.isStatic = true ∧ m.source = .implied

namespace Registration

/-- The members of a class that are in order. `first` static slots were given out before. -/
structure Members.Sound (first : Nat) (m : Members) : Prop where
  instances : Numbered 0 (m.fields.toList.filter (!·.isStatic))
  instanceCount : m.instanceCount = (m.fields.toList.filter (!·.isStatic)).length
  instanceBound : m.instanceCount ≤ maxSlots
  statics : Numbered first (m.fields.toList.filter (·.isStatic))
  staticCount : m.staticCount = first + (m.fields.toList.filter (·.isStatic)).length
  staticBound : first ≤ maxSlots → m.staticCount ≤ maxSlots
  types : ∀ f ∈ m.fields.toList, f.type ≠ .void
  methods : ∀ f ∈ m.methods.toList, f.Sound

namespace Members.Sound

variable {first : Nat} {m : Members}

theorem start (first : Nat) : (Members.start first).Sound first where
  instances := .nil 0
  instanceCount := rfl
  instanceBound := Nat.zero_le _
  statics := .nil first
  staticCount := rfl
  staticBound h := h
  types := by simp [Members.start]
  methods := by simp [Members.start]

theorem report (h : m.Sound first) (fault : SemanticFault) (sp : Span) :
    (m.report fault sp).Sound first := ⟨h.1, h.2, h.3, h.4, h.5, h.6, h.7, h.8⟩

theorem reportAll (h : m.Sound first) (es : List SemanticError) : (m.reportAll es).Sound first :=
  ⟨h.1, h.2, h.3, h.4, h.5, h.6, h.7, h.8⟩

theorem addMethod (h : m.Sound first) {f : MethodSymbol} (hf : f.Sound) :
    (m.addMethod f).Sound first := by
  obtain ⟨fields, methods, fieldNames, methodNames, instances, statics, reports⟩ := m
  refine ⟨h.1, h.2, h.3, h.4, h.5, h.6, h.7, fun g hg => ?_⟩
  simp only [Members.addMethod, Array.toList_push, List.mem_append, List.mem_singleton] at hg
  obtain hg | rfl := hg
  · exact h.methods g hg
  · exact hf

theorem addField (h : m.Sound first) {f : FieldSymbol} (htype : f.type ≠ .void)
    (hslot : f.slot = if f.isStatic then m.staticCount else m.instanceCount)
    (hbound : f.slot < maxSlots) : (m.addField f).Sound first := by
  obtain ⟨fields, methods, fieldNames, methodNames, instances, statics, reports⟩ := m
  have htypes : ∀ g ∈ (fields.push f).toList, g.type ≠ .void := by
    intro g hg
    simp only [Array.toList_push, List.mem_append, List.mem_singleton] at hg
    obtain hg | rfl := hg
    · exact h.types g hg
    · exact htype
  have hinstances := h.instances
  have hstatics := h.statics
  have hcount := h.instanceCount
  have hstatic := h.staticCount
  simp only at hinstances hstatics hcount hstatic hslot
  unfold Members.addField
  dsimp only
  split
  · next hs =>
    rw [if_pos hs] at hslot
    refine ⟨?_, ?_, h.instanceBound, ?_, ?_, fun _ => ?_, htypes, h.methods⟩
    · simpa [hs] using hinstances
    · simpa [hs] using hcount
    · simpa [hs] using hstatics.append (.one (by rw [hslot, hstatic]))
    · simp [hs, hstatic, Nat.add_assoc]
    · simp only
      omega
  · next hs =>
    rw [if_neg hs] at hslot
    refine ⟨?_, ?_, ?_, ?_, ?_, h.staticBound, htypes, h.methods⟩
    · simpa [hs] using hinstances.append (.one (by rw [hslot, hcount]; simp))
    · simp [hs, hcount]
    · simp only
      omega
    · simpa [hs] using hstatics
    · simpa [hs] using hstatic

end Members.Sound

variable {s : Symbols} {c : ClassSymbol} {first : Nat} {m : Members}

theorem declarator_sound (h : m.Sound first) {mods : Modifiers} {type : ValueType}
    (htype : type ≠ .void) (v : Declarator) : (declarator c mods type m v).Sound first := by
  unfold declarator
  split
  · exact h.report _ _
  · next hfree =>
    refine h.addField htype rfl ?_
    simp only [fieldFault?] at hfree
    split at hfree
    · cases hfree
    · split at hfree
      · cases hfree
      · split at hfree <;> split at hfree <;> simp_all

theorem field_sound (h : m.Sound first) {mods : Modifiers} {type : TypeExpr}
    {vars : List Declarator} {sp : Span} : (field s c m mods type vars sp).Sound first := by
  unfold field
  split
  · exact h.report _ _
  · next t ht =>
    split
    · exact h.report _ _
    · next hvoid =>
      split
      · exact h.report _ _
      · have htype : t ≠ .void := by rintro rfl; exact hvoid rfl
        induction vars generalizing m with
        | nil => exact h
        | cons v vars ih => exact ih (declarator_sound h htype v)

theorem paramTypes_spec {ps : List Param} {ts : List ValueType} (h : paramTypes s c ps = .ok ts) :
    ps.length = ts.length ∧ ∀ t ∈ ts, t ≠ .void := by
  induction ps generalizing ts with
  | nil =>
    cases h
    simp
  | cons p ps ih =>
    simp only [paramTypes] at h
    split at h
    · next t ts' ht hts =>
      cases h
      obtain ⟨hlength, htypes⟩ := ih hts
      refine ⟨by simp [hlength], List.forall_mem_cons.mpr ⟨?_, htypes⟩⟩
      simp only [paramType] at ht
      split at ht
      · next hvoid =>
        split at ht
        · cases ht
        · cases ht
          rintro rfl
          simp [ValueType.isVoid] at *
      · cases ht
    all_goals cases h

theorem method_sound (h : m.Sound first) {mods : Modifiers} {returns : TypeExpr} {name : Ident}
    {params : List Param} {body : Body} {sp : Span} :
    (method s c m mods returns name params body sp).Sound first := by
  unfold method
  split
  · exact (h.reportAll _).report _ _
  · exact h.reportAll _
  · exact h.report _ _
  · next ts t hts ht =>
    split
    · exact h.report _ _
    · obtain ⟨hlength, htypes⟩ := paramTypes_spec hts
      refine h.addMethod ⟨htypes, ?_, ?_, ?_, ?_⟩
      · intro ps b sp' hs
        cases hs
        exact hlength
      all_goals
        intro hs
        cases hs

theorem constructor_sound (h : m.Sound first) {mods : Modifiers} {name : Ident}
    {params : List Param} {body : Body} {sp : Span} :
    (constructor s c m mods name params body sp).Sound first := by
  unfold constructor
  split
  · exact h.reportAll _
  · next ts hts =>
    split
    · exact h.report _ _
    · obtain ⟨hlength, htypes⟩ := paramTypes_spec hts
      refine h.addMethod ⟨htypes, ?_, ?_, fun _ => rfl, ?_⟩
      · intro ps b sp' hs
        cases hs
        exact hlength
      all_goals
        intro hs
        cases hs

theorem member_sound (h : m.Sound first) (d : Member) : (member s c m d).Sound first := by
  cases d with
  | field => exact field_sound h
  | method => exact method_sound h
  | constructor => exact constructor_sound h

theorem impliedMethod_sound {name : String} {kind : MethodKind} {visibility : Visibility}
    {isStatic : Bool} {sp : Span} (hconstructor : kind = .constructor → isStatic = false)
    (hinitializer : kind = .typeInitializer → isStatic = true) :
    (impliedMethod name kind visibility isStatic sp).Sound where
  params := by simp [impliedMethod]
  declared ps b sp' hs := by cases hs
  implied _ := ⟨rfl, rfl⟩
  constructor := hconstructor
  typeInitializer hk := ⟨hinitializer hk, rfl⟩

theorem withImplied_sound (h : m.Sound first) : (withImplied c m).Sound first := by
  have constructed : (if c.isStatic || m.methods.any (·.kind == .constructor) then m
      else m.addMethod (impliedMethod constructorName .constructor .pub false
        c.decl.name.span)).Sound first := by
    split
    · exact h
    · exact h.addMethod (impliedMethod_sound (fun _ => rfl) (fun hk => by cases hk))
  unfold withImplied
  dsimp only
  generalize (if c.isStatic || m.methods.any (·.kind == .constructor) then m
    else m.addMethod (impliedMethod constructorName .constructor .pub false
      c.decl.name.span)) = n at constructed ⊢
  split
  · exact constructed.addMethod (impliedMethod_sound (fun hk => by cases hk) (fun _ => rfl))
  · exact constructed

theorem members_sound (s : Symbols) (c : ClassSymbol) : (members s c).Sound s.staticCount := by
  refine withImplied_sound ?_
  generalize hm : Members.start s.staticCount = m
  have h : m.Sound s.staticCount := hm ▸ .start _
  clear hm
  induction c.decl.members generalizing m with
  | nil => exact h
  | cons d ds ih => exact ih _ (member_sound h d)

/-! ## Classes -/

end Registration

namespace ClassSymbol

def instanceFields (c : ClassSymbol) : List FieldSymbol := c.fields.toList.filter (!·.isStatic)

def staticFields (c : ClassSymbol) : List FieldSymbol := c.fields.toList.filter (·.isStatic)

/-- A class whose members are in order, beside the numbers of its static slots. -/
structure Sound (c : ClassSymbol) : Prop where
  instances : Numbered 0 c.instanceFields
  bound : c.instanceFields.length ≤ Registration.maxSlots
  types : ∀ f ∈ c.fields.toList, f.type ≠ .void
  methods : ∀ f ∈ c.methods.toList, f.Sound

end ClassSymbol

namespace Symbols

def staticFields (s : Symbols) : List FieldSymbol := s.classes.toList.flatMap (·.staticFields)

structure Sound (libraries : List Library) (s : Symbols) : Prop where
  libraries : s.libraries = libraries
  classes : ∀ c ∈ s.classes.toList, c.Sound
  statics : Numbered 0 s.staticFields
  bound : s.staticFields.length ≤ Registration.maxSlots

theorem Sound.slot_lt {libraries : List Library} {s : Symbols} (h : s.Sound libraries)
    {c : ClassSymbol} (hc : c ∈ s.classes.toList) {f : FieldSymbol} (hf : f ∈ c.fields) :
    f.slot < Registration.maxSlots := by
  have hmem := Array.mem_toList_iff.mpr hf
  cases hstatic : f.isStatic with
  | true =>
    have hin : f ∈ s.staticFields := List.mem_flatMap.mpr ⟨c, hc, List.mem_filter.mpr ⟨hmem, hstatic⟩⟩
    exact Nat.lt_of_lt_of_le (h.statics.slot_lt hin) h.bound
  | false =>
    have hin : f ∈ c.instanceFields := List.mem_filter.mpr ⟨hmem, by simp [hstatic]⟩
    exact Nat.lt_of_lt_of_le ((h.classes c hc).instances.slot_lt hin) (h.classes c hc).bound

end Symbols

namespace Registration

/-- Symbols while members are declared: the classes in `done` have theirs, those in `todo` have
none. -/
structure Halfway (libraries : List Library) (done todo : List ClassSymbol) (s : Symbols) :
    Prop where
  libraries : s.libraries = libraries
  classes : s.classes.toList = done ++ todo
  sound : ∀ c ∈ done, c.Sound
  bare : ∀ c ∈ todo, c.fields = #[] ∧ c.methods = #[]
  statics : Numbered 0 (done.flatMap (·.staticFields))
  staticCount : s.staticCount = (done.flatMap (·.staticFields)).length
  bound : s.staticCount ≤ maxSlots

variable {libraries : List Library} {done todo : List ClassSymbol} {reports : List SemanticError}

theorem addMembers_halfway (h : Halfway libraries done (c :: todo) s) (reports : List SemanticError) :
    ∃ c', Halfway libraries (done ++ [c']) todo (addMembers s reports done.length).1 := by
  have hc : s.classes.getD done.length default = c := by
    rw [Array.getD_eq_getD_getElem?, ← Array.getElem?_toList, h.classes]
    simp
  have hm := members_sound s c
  refine ⟨{ c with fields := (members s c).fields, methods := (members s c).methods }, ?_⟩
  have hs : (addMembers s reports done.length).1 = { s with
      classes := s.classes.setIfInBounds done.length
        { c with fields := (members s c).fields, methods := (members s c).methods }
      staticCount := (members s c).staticCount } := by
    simp [addMembers, hc]
  rw [hs]
  constructor
  case libraries => exact h.libraries
  case classes => simp [h.classes]
  case sound =>
    intro d hd
    simp only [List.mem_append, List.mem_singleton] at hd
    obtain hd | rfl := hd
    · exact h.sound d hd
    · exact ⟨hm.instances, hm.instanceCount ▸ hm.instanceBound, hm.types, hm.methods⟩
  case bare => exact fun d hd => h.bare d (by simp [hd])
  case statics =>
    rw [List.flatMap_append, List.flatMap_singleton]
    refine h.statics.append ?_
    rw [Nat.zero_add, ← h.staticCount]
    exact hm.statics
  case staticCount =>
    rw [List.flatMap_append, List.flatMap_singleton, List.length_append, ← h.staticCount]
    exact hm.staticCount
  case bound => exact hm.staticBound h.bound

theorem addAllMembers_halfway (h : Halfway libraries done todo s) (reports : List SemanticError) :
    ∃ done', Halfway libraries done' [] ((List.range' done.length todo.length).foldl
      (fun (s, reports) i => addMembers s reports i) (s, reports)).1 := by
  induction todo generalizing done s reports with
  | nil => exact ⟨done, h⟩
  | cons c todo ih =>
    obtain ⟨c', hc⟩ := addMembers_halfway h reports
    have := ih hc (addMembers s reports done.length).2
    simpa [List.range'_succ] using this

structure Bare (libraries : List Library) (s : Symbols) : Prop where
  libraries : s.libraries = libraries
  classes : ∀ c ∈ s.classes.toList, c.fields = #[] ∧ c.methods = #[]
  staticCount : s.staticCount = 0

theorem addClass_bare (h : Bare libraries s) (p : PlacedClass) :
    Bare libraries (addClass s (classSymbol p)) := by
  obtain ⟨libraries, namespaces, globalUsings, classes, places, statics⟩ := s
  refine ⟨h.libraries, fun c hc => ?_, h.staticCount⟩
  simp only [addClass, Array.toList_push, List.mem_append, List.mem_singleton] at hc
  obtain hc | rfl := hc
  · exact h.classes c hc
  · exact ⟨rfl, rfl⟩

theorem addClasses_bare (h : Bare libraries s) (placed : List PlacedClass) :
    Bare libraries (addClasses s placed).1 := by
  unfold addClasses
  generalize ([] : List SemanticError) = reports
  induction placed generalizing s reports with
  | nil => exact h
  | cons p placed ih =>
    simp only [List.foldl_cons]
    cases classError? s (classSymbol p) with
    | some e => exact ih h _
    | none => exact ih (addClass_bare h p) _

/-- All classes of a script have their members in the end. -/
theorem ofScript_halfway (libraries : List Library) (usings : List String) (script : Script) :
    ∃ done, Halfway libraries done [] (ofScript libraries usings script).symbols := by
  have finished {s : Symbols} {reports : List SemanticError} (h : Bare libraries s) :
      ∃ done, Halfway libraries done [] ((List.range s.classes.size).foldl
        (fun (s, reports) i => addMembers s reports i) (s, reports)).1 := by
    have halfway : Halfway libraries [] s.classes.toList s :=
      ⟨h.libraries, rfl, by simp, h.classes, .nil 0, h.staticCount, by simp [h.staticCount]⟩
    obtain ⟨done, hdone⟩ := addAllMembers_halfway halfway reports
    simp only [List.length_nil, Array.length_toList, ← List.range_eq_range'] at hdone
    exact ⟨done, hdone⟩
  unfold ofScript
  dsimp only
  refine finished (addClasses_bare ⟨?_, ?_, ?_⟩ _)
  · rfl
  · simp [Symbols.start]
  · rfl

/-- The symbols of every script are in order. -/
theorem ofScript_sound (libraries : List Library) (usings : List String) (script : Script) :
    (ofScript libraries usings script).symbols.Sound libraries := by
  obtain ⟨done, hdone⟩ := ofScript_halfway libraries usings script
  have hclasses := hdone.classes
  rw [List.append_nil] at hclasses
  refine ⟨hdone.libraries, hclasses ▸ hdone.sound, ?_, ?_⟩
  · rw [Symbols.staticFields, hclasses]
    exact hdone.statics
  · rw [Symbols.staticFields, hclasses, ← hdone.staticCount]
    exact hdone.bound

/-- The static slots that were given out are those of the static fields. -/
theorem ofScript_staticCount (libraries : List Library) (usings : List String) (script : Script) :
    (ofScript libraries usings script).symbols.staticCount =
      (ofScript libraries usings script).symbols.staticFields.length := by
  obtain ⟨done, hdone⟩ := ofScript_halfway libraries usings script
  have hclasses := hdone.classes
  rw [List.append_nil] at hclasses
  rw [Symbols.staticFields, hclasses]
  exact hdone.staticCount

end Registration
end ClassScript
