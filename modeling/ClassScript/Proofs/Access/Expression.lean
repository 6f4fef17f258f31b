import ClassScript.Proofs.Flow.Expression

/-!
What the code of an expression reaches for.

`site.Grants i` tells that an instruction may stand in the code of a method: calls lead to methods
that its class may call, on the receiver only if there is one, and fields are those of the class of
the receiver, or static fields that its class may name. A readonly field is stored to only where its
class makes it. The code of every expression is granted to the method that the expression stands in.
-/

namespace ClassScript

open Code (Instruction)
open Compile

def Opcode.isReaching : Opcode → Bool
  | .call | .getField | .setField | .getStatic | .setStatic => true
  | _ => false

namespace Site

structure HasField (site : Site) (slot : Nat) (f : FieldSymbol) : Prop where
  receiver : site.isStatic = false
  mem : f ∈ (classAt site site.cls).fields
  instance_ : f.isStatic = false
  slot : f.slot = slot

structure SeesStatic (site : Site) (slot cls : Nat) (f : FieldSymbol) : Prop where
  mem : f ∈ (classAt site cls).fields
  static : f.isStatic = true
  slot : f.slot = slot
  access : cls = site.cls ∨ f.visibility.isOwnClassOnly = false

/-- A method that may be called, on the receiver of the caller if it needs one. -/
structure SeesMethod (site : Site) (cls method : Nat) (f : MethodSymbol) : Prop where
  found : (classAt site cls).methods[method]? = some f
  kind : f.kind = .method
  access : cls = site.cls ∨ f.visibility.isOwnClassOnly = false
  receiver : f.isStatic = true ∨ cls = site.cls ∧ site.isStatic = false

structure Grants (site : Site) (i : Instruction) : Prop where
  call : i.op = .call → ∃ f, site.SeesMethod i.first i.second f
  getField : i.op = .getField → ∃ f, site.HasField i.first f
  setField : i.op = .setField →
    ∃ f, site.HasField i.first f ∧ (f.isReadonly = true → site.kind = .constructor)
  getStatic : i.op = .getStatic → ∃ c f, site.SeesStatic i.first c f
  setStatic : i.op = .setStatic → ∃ c f, site.SeesStatic i.first c f ∧
    (f.isReadonly = true → c = site.cls ∧ site.kind = .typeInitializer)

def GrantsAll (site : Site) (is : Asm) : Prop := ∀ i ∈ is, site.Grants i

variable {site : Site} {is js : Asm} {i : Instruction}

theorem grants_of_not_reaching (h : i.op.isReaching = false) : site.Grants i := by
  constructor
  all_goals
    intro hop
    rw [hop] at h
    cases h

/-- Instructions without operands reach for nothing. -/
theorem grants_of_operandCount (h : i.op.operandCount = 0) : site.Grants i := by
  refine grants_of_not_reaching ?_
  obtain ⟨op, a, b⟩ := i
  cases op <;> first | rfl | cases h

@[simp] theorem grantsAll_nil : site.GrantsAll [] := by simp [GrantsAll]

@[simp] theorem grantsAll_cons : site.GrantsAll (i :: is) ↔ site.Grants i ∧ site.GrantsAll is := by
  simp [GrantsAll]

@[simp] theorem grantsAll_append :
    site.GrantsAll (is ++ js) ↔ site.GrantsAll is ∧ site.GrantsAll js := by
  simp [GrantsAll, or_imp, forall_and]

end Site

/-- An instruction that reaches for nothing, by itself. -/
theorem Site.grantsAll_single {site : Site} {i : Instruction} (h : i.op.isReaching = false) :
    site.GrantsAll [i] := by
  simpa using Site.grants_of_not_reaching h

namespace Layout

open Flow

variable {T : Tables} {site : Site} {locals : LocalScope} {is js : Asm} {m : Meaning} {p p' : Pushed}

/-! ## Names -/

/-- Members of other classes are public or internal. -/
def Accessible (site : Site) : Meaning → Prop
  | .field cls f => cls = site.cls ∨ f.visibility.isOwnClassOnly = false
  | _ => True

theorem accessible_name {name : Ident} (h : nameMeaning site locals name = pure m) :
    Accessible site m := by
  replace h := returns_of_eq h
  unfold nameMeaning at h
  split at h
  · obtain ⟨rfl, -⟩ := Returns.pure_iff.mp h
    trivial
  · split at h
    · split at h
      · simp at h
      · obtain ⟨rfl, -⟩ := Returns.pure_iff.mp h
        exact .inl rfl
    · split at h
      · obtain ⟨rfl, -⟩ := Returns.pure_iff.mp h
        trivial
      · unfold outerMeaning at h
        repeat' split at h
        all_goals
          try simp at h
        all_goals
          obtain ⟨rfl, -⟩ := h
          trivial

theorem accessible_this {sp : Span} (h : thisMeaning site sp = pure m) : Accessible site m := by
  replace h := returns_of_eq h
  unfold thisMeaning at h
  split at h
  · simp at h
  · obtain ⟨rfl, -⟩ := Returns.pure_iff.mp h
    trivial

theorem accessible_member {object : Meaning} {name : Ident} {sp : Span} (hobject : isName object = true)
    (h : memberMeaning site object sp name = pure m) : Accessible site m := by
  replace h := returns_of_eq h
  cases object with
  | space n =>
    simp only [memberMeaning, spaceMember] at h
    repeat' split at h
    all_goals
      try simp at h
    all_goals
      obtain ⟨rfl, -⟩ := h
      trivial
  | type c =>
    cases c with
    | script i =>
      simp only [memberMeaning, scriptMember] at h
      split at h
      · next f hf =>
        obtain ⟨_, _, haccess, h⟩ := Returns.bind h
        split at h
        · obtain ⟨rfl, -⟩ := Returns.pure_iff.mp h
          exact (checkAccess_returns haccess).1
        · simp at h
      · split at h
        · obtain ⟨rfl, -⟩ := Returns.pure_iff.mp h
          trivial
        · simp at h
    | native c =>
      simp only [memberMeaning, libraryMember] at h
      repeat' split at h
      all_goals
        try simp at h
      all_goals
        obtain ⟨rfl, -⟩ := h
        trivial
  | this =>
    simp only [memberMeaning, thisMember] at h
    split at h
    · split at h
      · simp at h
      · obtain ⟨rfl, -⟩ := Returns.pure_iff.mp h
        exact .inl rfl
    · split at h
      · obtain ⟨rfl, -⟩ := Returns.pure_iff.mp h
        trivial
      · simp at h
  | _ => cases hobject

/-! ## Parts of code -/

theorem grants_pushes {v : Value} (h : Pushes T v is) : site.GrantsAll is := by
  cases h with
  | void => exact Site.grantsAll_nil
  | yes | no | constant => exact Site.grantsAll_single rfl

theorem grants_converted {op : Option Opcode} (h : ∀ o, op = some o → o.operandCount = 0) :
    site.GrantsAll (converted op) := by
  cases op with
  | none => exact Site.grantsAll_nil
  | some op => simpa [converted] using Site.grants_of_operandCount (i := .plain op) (h op rfl)

theorem grants_widening {a b : ValueType} :
    site.GrantsAll (converted (Conversion.widening? a b)) :=
  grants_converted fun _ => widening_operandCount

theorem grants_kept (wanted : Bool) : site.GrantsAll (kept wanted) := by
  unfold kept
  split
  · exact Site.grantsAll_single rfl
  · exact Site.grantsAll_nil

theorem grants_coerces {type : ValueType} (h : site.GrantsAll is) (hc : Coerces T p is type js p') :
    site.GrantsAll js := by
  cases hc with
  | identity => exact h
  | widen hi _ =>
    rw [Site.grantsAll_append, Site.grantsAll_cons]
    exact ⟨h, Site.grants_of_operandCount (implicit_operandCount hi), Site.grantsAll_nil⟩
  | known _ _ _ hjs => exact grants_pushes hjs

theorem grants_passing {items : List (Asm × Pushed)} (h : ∀ x ∈ items, site.GrantsAll x.1)
    (ts : List ValueType) : site.GrantsAll (passing items ts) := by
  induction items generalizing ts with
  | nil => exact Site.grantsAll_nil
  | cons x items ih =>
    have hfirst := h x List.mem_cons_self
    have hrest (ts) := ih (fun y hy => h y (List.mem_cons_of_mem _ hy)) ts
    cases ts with
    | nil => exact Site.grantsAll_append.mpr ⟨hfirst, hrest []⟩
    | cons t ts =>
      simp only [passing, Site.grantsAll_append]
      exact ⟨⟨hfirst, grants_widening⟩, hrest ts⟩

/-! ## Names and places -/

/-- Code that is granted, of an expression whose meaning may be used. -/
structure Granted (site : Site) (locals : LocalScope) (is : Asm) (m : Meaning) : Prop where
  proper : Proper site locals m
  access : Accessible site m
  code : site.GrantsAll is

namespace Granted

/-- The code of a value. -/
theorem value (h : site.GrantsAll is) : Granted site locals is (.value p) := ⟨trivial, trivial, h⟩

/-- A field that a meaning stands for may be read. -/
theorem load {cls : Nat} {f : FieldSymbol} (h : Granted site locals is (.field cls f)) :
    site.Grants (.unary (loadOp f) f.slot) := by
  obtain ⟨hmem, hreceiver⟩ := h.proper
  have haccess : cls = site.cls ∨ f.visibility.isOwnClassOnly = false := h.access
  unfold loadOp
  cases hf : f.isStatic with
  | true => exact ⟨nofun, nofun, nofun, fun _ => ⟨cls, f, hmem, hf, rfl, haccess⟩, nofun⟩
  | false =>
    obtain hstatic | ⟨rfl, hsite⟩ := hreceiver
    · cases hf.symm.trans hstatic
    · exact ⟨nofun, fun _ => ⟨f, hsite, hmem, hf, rfl⟩, nofun, nofun, nofun⟩

/-- A field that a meaning stands for may be stored to, unless it is readonly here. -/
theorem store {cls : Nat} {f : FieldSymbol} (h : Granted site locals is (.field cls f))
    (hwritable : isWritable site cls f = true) : site.Grants (.unary (storeOp f) f.slot) := by
  obtain ⟨hmem, hreceiver⟩ := h.proper
  have haccess : cls = site.cls ∨ f.visibility.isOwnClassOnly = false := h.access
  have hmakes (hreadonly : f.isReadonly = true) : cls = site.cls ∧
      site.kind = if f.isStatic then .typeInitializer else .constructor := by
    simpa [isWritable, hreadonly] using hwritable
  unfold storeOp
  cases hf : f.isStatic with
  | true =>
    refine ⟨nofun, nofun, nofun, nofun, fun _ => ⟨cls, f, ⟨hmem, hf, rfl, haccess⟩, fun hr => ?_⟩⟩
    simpa [hf] using hmakes hr
  | false =>
    obtain hstatic | ⟨rfl, hsite⟩ := hreceiver
    · cases hf.symm.trans hstatic
    · refine ⟨nofun, nofun, fun _ => ⟨f, ⟨hsite, hmem, hf, rfl⟩, fun hr => ?_⟩, nofun, nofun⟩
      simpa [hf] using (hmakes hr).2

theorem materializes (h : Granted site locals is m) (hp : Materializes T m js p) :
    site.GrantsAll (is ++ js) := by
  refine Site.grantsAll_append.mpr ⟨h.code, ?_⟩
  cases hp with
  | localVar => exact Site.grantsAll_single rfl
  | field => exact Site.grantsAll_cons.mpr ⟨h.load, Site.grantsAll_nil⟩
  | constant hv => exact grants_pushes hv
  | value => exact Site.grantsAll_nil

/-- A place may be read and stored to. -/
theorem place {sp : Span} {place : Place} (h : Granted site locals is m)
    (hplace : placeOf site m sp = pure place) :
    site.Grants (loading place) ∧ site.Grants (storing place) := by
  replace hplace : Returns (placeOf site m sp) blank place blank := hplace ▸ Returns.pure
  unfold placeOf at hplace
  split at hplace
  · obtain ⟨rfl, -⟩ := Returns.pure_iff.mp hplace
    exact ⟨Site.grants_of_not_reaching rfl, Site.grants_of_not_reaching rfl⟩
  · split at hplace
    · next hwritable =>
      obtain ⟨rfl, -⟩ := Returns.pure_iff.mp hplace
      exact ⟨h.load, h.store hwritable⟩
    · simp at hplace
  · simp at hplace

theorem counting {sp : Span} {place : Place} (h : Granted site locals is m)
    (hplace : placeOf site m sp = pure place) (up front : Bool) (use : Use)
    (hjs : site.GrantsAll js) : site.GrantsAll (is ++ Layout.counting place up front use js) := by
  obtain ⟨hload, hstore⟩ := h.place hplace
  have hstep : site.Grants (.plain (stepOp place.type up)) :=
    Site.grants_of_operandCount (stepOp_operandCount _ _)
  simp [Layout.counting, h.code, hload, hstore, hstep, hjs, grants_kept]

theorem calls {target : Callee} {name : String} {items : List (Asm × Pushed)}
    (h : Granted site locals is (.methods target name)) (hitems : ∀ x ∈ items, site.GrantsAll x.1)
    (hcall : Calls T site is name items target js p) : site.GrantsAll js := by
  have passes {i : Instruction} (ts : List ValueType) (hi : site.Grants i) :
      site.GrantsAll (is ++ passing items ts ++ [i]) := by
    simp [h.code, grants_passing hitems, hi]
  cases hcall with
  | @script cls i _ onThis f hf access receiver =>
    refine passes _ ⟨fun _ => ⟨f, ?_⟩, nofun, nofun, nofun, nofun⟩
    obtain ⟨hmem, hinvocable⟩ := List.mem_filter.mp (Chooses.spec hf).1
    have hfound : (classAt site cls).methods.toList[i]? = some f :=
      List.mem_zipIdx_iff_getElem?.mp hmem
    have hthis : onThis = true → cls = site.cls := h.proper
    refine ⟨by rwa [← Array.getElem?_toList], ?_, access,
      receiver.imp id fun hr => ⟨hthis hr.1, hr.2⟩⟩
    exact eq_of_beq (Bool.and_eq_true_iff.mp hinvocable).1
  | function | method => exact passes _ (Site.grants_of_not_reaching rfl)
  | string => exact h.code
  | text => exact Site.grantsAll_append.mpr ⟨h.code, Site.grantsAll_single rfl⟩
  | textKnown _ _ _ _ hjs => exact grants_pushes hjs

end Granted

/-! ## Expressions -/

mutual

/-- The code of an expression is granted, and so is the use of what it means. -/
theorem Means.granted (howner : site.owner = classAt site site.cls) {use : Use} {e : Expr} {is : Asm}
    {m : Meaning} : Means T site locals use e is m → Granted site locals is m
  | .literal h => .value (grants_pushes h)
  | .ident h => ⟨(proper_name howner h).1, accessible_name h, Site.grantsAll_nil⟩
  | .this h => ⟨(proper_this h).1, accessible_this h, Site.grantsAll_nil⟩
  | .member h hm hm' =>
    ⟨(proper_member howner hm (h.granted howner).proper hm').1, accessible_member hm hm',
      (h.granted howner).code⟩
  | .length h _ _ _ =>
    .value (Site.grantsAll_append.mpr ⟨h.granted howner, Site.grantsAll_single rfl⟩)
  | .lengthKnown _ _ _ _ _ hjs => .value (grants_pushes hjs)
  | .text h hp _ => ⟨hp, trivial, h.granted howner⟩
  | .methods h _ _ _ => ⟨trivial, trivial, h.granted howner⟩
  | .bare h => h.granted howner
  | .paren _ h => .value (h.granted howner)
  | .logical _ hl hr _ _ _ => by
    refine .value (Site.grantsAll_append.mpr ⟨hl.granted howner, ?_⟩)
    simp only [Site.grantsAll_cons]
    refine ⟨Site.grants_of_not_reaching rfl, ?_, Site.grants_of_not_reaching rfl, hr.granted howner⟩
    split <;> exact Site.grants_of_not_reaching rfl
  | .logicalKnown _ _ _ _ _ _ _ hks => .value (grants_pushes hks)
  | .binary _ hl hr hplan _ _ _ => by
    obtain ⟨hleft, hright, hop⟩ := plan_operandCount hplan
    refine .value ?_
    simp only [Site.grantsAll_append, Site.grantsAll_cons]
    exact ⟨⟨⟨hl.granted howner, grants_converted hleft⟩, hr.granted howner, grants_converted hright⟩,
      Site.grants_of_operandCount hop, Site.grantsAll_nil⟩
  | .binaryKnown _ _ _ _ _ _ _ _ _ hks => .value (grants_pushes hks)
  | .same h _ => .value (h.granted howner)
  | .unary h hop _ => by
    refine .value (Site.grantsAll_append.mpr ⟨h.granted howner, ?_⟩)
    simpa using Site.grants_of_operandCount (unaryOp_operandCount hop)
  | .unaryKnown _ _ _ _ hjs => .value (grants_pushes hjs)
  | .before _ h hplace _ hjs => .value ((h.granted howner).counting hplace _ _ _ (grants_pushes hjs))
  | .behind h hplace _ hjs => .value ((h.granted howner).counting hplace _ _ _ (grants_pushes hjs))
  | .assign _ h hplace hv hc => by
    obtain ⟨-, hstore⟩ := (h.granted howner).place hplace
    have hvalue := grants_coerces (hv.granted howner) hc
    exact .value (by simp [(h.granted howner).code, hvalue, grants_kept, hstore])
  | .compound _ h hplace hv hplan _ _ => by
    obtain ⟨hload, hstore⟩ := (h.granted howner).place hplace
    obtain ⟨hleft, hright, hop⟩ := plan_operandCount hplan
    have hvalue := hv.granted howner
    have hcompute : site.Grants (.plain _) := Site.grants_of_operandCount hop
    refine .value ?_
    simp [(h.granted howner).code, hload, grants_converted hleft, hvalue, grants_converted hright, hcompute,
      grants_kept, hstore]
  | .conditional h hc hyes hno _ _ => by
    have hcondition := grants_coerces (h.granted howner) hc
    have hfirst := hyes.granted howner
    have hsecond := hno.granted howner
    have hjump (n : Nat) : site.Grants (.unary .jump n) := Site.grants_of_not_reaching rfl
    have hbranch (n : Nat) : site.Grants (.unary .jumpIfFalse n) := Site.grants_of_not_reaching rfl
    exact .value (by simp [hcondition, hfirst, hsecond, grants_widening, hjump, hbranch])
  | .conditionalKnown _ _ _ _ _ _ _ _ _ hls => .value (grants_pushes hls)
  | .call h hargs hcall => .value ((h.granted howner).calls (hargs.granted howner) hcall)

theorem Values.granted (howner : site.owner = classAt site site.cls) {e : Expr} {is : Asm}
    {p : Pushed} : Values T site locals e is p → site.GrantsAll is
  | .intro h hp => (h.granted howner).materializes hp

theorem Passes.granted (howner : site.owner = classAt site site.cls) {es : List Expr}
    {items : List (Asm × Pushed)} : Passes T site locals es items → ∀ x ∈ items, site.GrantsAll x.1
  | .nil => nofun
  | .cons h hs => by
    intro x hx
    obtain rfl | hx := List.mem_cons.mp hx
    · exact h.granted howner
    · exact hs.granted howner x hx

end

end Layout
end ClassScript
