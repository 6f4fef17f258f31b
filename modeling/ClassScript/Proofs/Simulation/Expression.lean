import ClassScript.Proofs.Simulation.Operator

/-!
The code of expressions does what they stand for.

`Gives A n is p a` tells that the code `is`, wherever it stands, does what the action `a` says and
leaves the value that is pushed as `p`. Code for an expression realizes what the expression stands
for, form by form: where a value is known, the action gives it and does nothing else.
-/

namespace ClassScript

namespace Activation

open Code (Instruction)
open Compile Layout Flow
open Source (Surroundings Sense)
open Performs (left left_of_ne)

/-- What code relies on, while a method of it is at work, is what its meaning relies on. -/
structure Supports (A : Activation) (n : Nat) (K : Surroundings) (T : Tables) (site : Site) :
    Prop where
  constants : T.constants = A.program.image.constants
  imports : T.imports = A.program.image.imports
  checked : K.checked = A.program.image.checked
  owner : site.owner = classAt site site.cls
  types : ∀ c, ∀ f ∈ (classAt site c).fields, f.type ≠ .void
  methods : ∀ c i m, (classAt site c).methods.toList[i]? = some m →
    ∃ f, A.program.method? c i = some f ∧ f.params = m.params ∧ f.returns = m.returns
  callable : ∀ imp ∈ T.imports, ∃ f r, Callable site.symbols.libraries f r ∧
    imp = ImportTable.importOf f r
  distinct : DistinctFunctions site.symbols.libraries
  keywords : ValueKeywords site.symbols.libraries
  natives : ∀ (j : Nat) (imp : NativeImport), A.program.image.imports[j]? = some imp →
    A.program.natives[j]? = some (K.native imp)
  script : ∀ c i f args, A.program.method? c i = some f → args.length = f.params.length →
    A.Calls n c i args f.returns (K.script c i args)

/-- Code that pushes a value does what an action says; a known value is all there is to it. -/
structure Gives (A : Activation) (n : Nat) (is : Asm) (p : Pushed) (a : Action Store Value) :
    Prop where
  performs : A.Performs n is [] a (left p.type)
  known : ∀ v, p.constant = some v → a = pure v ∧ v.type = p.type

/-- Code for an expression, which means `m` behind it, does what the expression stands for. A value
that is not wanted is not left. -/
inductive Realizes (A : Activation) (n : Nat) (site : Site) (locals : LocalScope) (use : Use) :
    Asm → Meaning → Sense → Prop
  | name {m : Meaning} (h : Proper site locals m ∧ isPushed m = false) :
      Realizes A n site locals use [] m (.name m)
  | value {is : Asm} {p : Pushed} {type : ValueType} {a : Action Store Value} (h : Gives A n is p a)
      (htype : p.type = type ∨ use = .discarded ∧ p.type = .void) :
      Realizes A n site locals use is (.value p) (.value type a)
  | methods {is : Asm} {c : NativeClass} {p : Pushed} {a : Action Store Value} {name : String}
      (h : Gives A n is p a) :
      Realizes A n site locals use is (.methods (.method c p) name) (.methods c p.type a name)
  | text {is : Asm} {p : Pushed} {a : Action Store Value} {name : String} (h : Gives A n is p a)
      (hp : p.type ≠ .void) :
      Realizes A n site locals use is (.methods (.toText p) name) (.text p.type a)

variable {A : Activation} {n : Nat} {K : Surroundings} {T : Tables} {site : Site}
  {locals : LocalScope} {use : Use} {is js ks : Asm} {m : Meaning} {p q : Pushed}
  {a b : Action Store Value} {s : Sense}

namespace Gives

theorem unknown {type : ValueType} (h : A.Performs n is [] a (left type)) (o : Nat) :
    Gives A n is (.unknown type o) a := ⟨h, nofun⟩

theorem pushes (hS : Supports A n K T site) {v : Value} (h : Pushes T v is) (o : Nat) :
    Gives A n is (.known v o) (pure v) where
  performs := .pushes hS.constants h
  known w hw := by
    cases hw
    exact ⟨rfl, rfl⟩

/-- A value of a type is on top. -/
theorem typed (h : Gives A n is p a) (hvalue : p.type ≠ .void) :
    A.Performs n is [] a fun v => [v] := h.performs.leaves rfl fun v => left_of_ne hvalue v

/-- A value is converted by an instruction. -/
theorem turned (hS : Supports A n K T site) (h : Gives A n is p a) {type : ValueType} {code : Opcode}
    (hcode : code.unaryType? p.type = some type) (hvalue : p.type ≠ .void) (htype : type ≠ .void)
    (o : Nat) :
    Gives A n (is ++ [.plain code]) (.unknown type o) (a >>= Source.apply K (some code)) :=
  .unknown ((Performs.turns hS.checked (h.typed hvalue) (show Turns _ _ (some code) from hcode)).leaves rfl
    fun v => (left_of_ne htype v).symm) o

/-- An instruction is carried out on a known value. -/
theorem folded (hS : Supports A n K T site) (h : Gives A n is p a) {code : Opcode} {v w : Value}
    (hc : p.constant = some v) (hw : code.evalUnary true v = .ok w) (hjs : Pushes T w js) (o : Nat) :
    Gives A n js (.known w o) (a >>= Source.apply K (some code)) := by
  obtain ⟨rfl, -⟩ := h.known v hc
  rw [pure_bind, Source.apply_known hw]
  exact .pushes hS hjs o

theorem folded_type (h : Gives A n is p a) {code : Opcode} {type : ValueType} {v w : Value}
    (hc : p.constant = some v) (hw : code.evalUnary true v = .ok w)
    (hcode : code.unaryType? p.type = some type) : w.type = type := by
  have := Opcode.evalUnary_computes hcode (h.known v hc).2 true
  rwa [hw] at this

/-- A value is converted to another type. -/
theorem turns (hS : Supports A n K T site) (h : Gives A n is p a) {type : ValueType}
    (hcode : Turns p.type type (Conversion.widening? p.type type)) (hvalue : p.type ≠ .void) :
    A.Performs n (is ++ converted (Conversion.widening? p.type type)) []
      (a >>= Source.widen K p.type type) fun v => [v] :=
  (h.typed hvalue).turns hS.checked hcode

theorem coerces (hS : Supports A n K T site) (h : Gives A n is p a) {type : ValueType}
    (hc : Coerces T p is type js q) :
    Gives A n js q (a >>= Source.widen K p.type type) ∧ q.type = type ∧ type ≠ .void ∧
      p.type.convertsTo type = true := by
  cases hc with
  | identity hi =>
    obtain ⟨rfl, -, htype⟩ := implicit_turns hi
    have hkeep : a >>= Source.widen K p.type p.type = a := by
      unfold Source.widen Conversion.widening?
      rw [hi]
      exact bind_pure a
    exact ⟨hkeep.symm ▸ h, rfl, htype, Option.isSome_of_eq_some hi⟩
  | widen hi hp =>
    obtain ⟨hturns, hvalue, htype⟩ := implicit_turns hi
    refine ⟨?_, rfl, htype, Option.isSome_of_eq_some hi⟩
    unfold Source.widen Conversion.widening?
    rw [hi]
    exact h.turned hS hturns hvalue htype _
  | known hi hp hw hjs =>
    obtain ⟨rfl, hv⟩ := h.known _ hp
    have hconverts : p.type.convertsTo type = true := Option.isSome_of_eq_some hi
    refine ⟨?_, type_of_convert? hw, (implicit_turns hi).2.2, hconverts⟩
    rw [pure_bind, ← hv, Source.widen_known (hv ▸ hconverts) hw]
    exact .pushes hS hjs _

/-- An operand that is known behind its conversion. -/
theorem converts (h : Gives A n is p a) {target : ValueType} {code : Option Opcode}
    (hc : Converts target p code q) (hcode : Turns p.type target code) {w : Value}
    (hw : q.constant = some w) :
    ∃ v, a = pure v ∧ Source.apply K code v = pure w ∧ w.type = target := by
  cases hc with
  | none =>
    obtain ⟨rfl, hv⟩ := h.known w hw
    exact ⟨w, rfl, rfl, hv.trans hcode⟩
  | unknown => cases hw
  | @known op v _ _ hv hop =>
    cases hw
    obtain ⟨rfl, htype⟩ := h.known v hv
    have := Opcode.evalUnary_computes hcode htype true
    rw [hop] at this
    exact ⟨v, rfl, Source.apply_known hop, this⟩

variable {l r : Pushed} {plan : BinaryPlan} {op : BinaryOp}

theorem operate (hS : Supports A n K T site) (hl : Gives A n is l a) (hr : Gives A n js r b)
    (hplan : op.plan? l.type r.type = some plan) (o : Nat) :
    Gives A n (is ++ converted plan.left ++ (js ++ converted plan.right) ++ [.plain plan.op])
      (.unknown plan.result o) (Source.operate K plan a b) := by
  have htyped := plan_typed hplan
  have hresult : plan.result ≠ .void := fun hvoid => void_not_computed (hvoid ▸ htyped.op)
  exact .unknown ((Performs.operate hS.checked htyped (hl.typed htyped.leftValue)
    (hr.typed htyped.rightValue)).leaves rfl fun v => (left_of_ne hresult v).symm) o

theorem operateKnown (hS : Supports A n K T site) (hl : Gives A n is l a) (hr : Gives A n js r b)
    (hplan : op.plan? l.type r.type = some plan) {l' r' : Pushed} {v w x : Value}
    (hl' : Converts plan.operand l plan.left l') (hr' : Converts plan.operand r plan.right r')
    (hv : l'.constant = some v) (hw : r'.constant = some w)
    (hx : plan.op.evalBinary true v w = .ok x) (hks : Pushes T x ks) (o : Nat) :
    Gives A n ks (.known x o) (Source.operate K plan a b) ∧ x.type = plan.result := by
  have htyped := plan_typed hplan
  obtain ⟨v', rfl, hv', hvt⟩ := hl.converts (K := K) hl' htyped.left hv
  obtain ⟨w', rfl, hw', hwt⟩ := hr.converts (K := K) hr' htyped.right hw
  have htype := Opcode.evalBinary_computes htyped.op hvt hwt true
  rw [hx] at htype
  rw [Source.operate_known hv' hw' hx]
  exact ⟨.pushes hS hks o, htype⟩

theorem logical (hl : Gives A n is l a) (hr : Gives A n js r b) (hlt : l.type = .bool)
    (hrt : r.type = .bool) (op : BinaryOp) (o : Nat) :
    Gives A n (is ++ .plain .dup ::
        .unary (if op = .logicalAnd then .jumpIfFalse else .jumpIfTrue) (1 + js.size) ::
        .plain .pop :: js) (.unknown .bool o) (Source.logical op a b) :=
  .unknown (.logical op (hl.typed (by simp [hlt])) (hr.typed (by simp [hrt]))) o

theorem logicalKnown (hS : Supports A n K T site) (hl : Gives A n is l a) (hr : Gives A n js r b)
    {x y : Bool} (hx : l.constant = some (.bool x)) (hy : r.constant = some (.bool y))
    (hks : Pushes T (.bool (logicalValue op x y)) ks) (o : Nat) :
    Gives A n ks (.known (.bool (logicalValue op x y)) o) (Source.logical op a b) := by
  obtain ⟨rfl, -⟩ := hl.known _ hx
  obtain ⟨rfl, -⟩ := hr.known _ hy
  rw [Source.logical_known]
  exact .pushes hS hks o

/-- A condition as it stands: nothing else converts to `bool`. -/
theorem condition (hS : Supports A n K T site) (h : Gives A n is p a)
    (hc : Coerces T p is .bool js q) : Gives A n js q a ∧ q.type = .bool ∧ p.type = .bool := by
  obtain ⟨hvalue, htype, -, hconverts⟩ := h.coerces hS hc
  have hbool : p.type = .bool := by
    cases ht : p.type <;> simp_all [ValueType.convertsTo, Conversion.implicit?]
  rw [hbool] at hvalue
  exact ⟨(bind_pure a : a >>= Source.widen K .bool .bool = a) ▸ hvalue, htype, hbool⟩

theorem branch_converts {t u type : ValueType} (h : branchType? t u = some type) :
    t.convertsTo type = true ∧ u.convertsTo type = true := by
  cases t <;> cases u <;> cases h <;> exact ⟨rfl, rfl⟩

variable {c c' yes no : Pushed} {a₁ a₂ : Action Store Value} {type : ValueType}

theorem choose (hS : Supports A n K T site) (hc : Gives A n is c a) (htest : c.type = .bool)
    (hyes : Gives A n js yes a₁) (hno : Gives A n ks no a₂)
    (htype : branchType? yes.type no.type = some type) (o : Nat) :
    Gives A n (is ++ .unary .jumpIfFalse
        ((js ++ converted (Conversion.widening? yes.type type)).size + 3) ::
          (js ++ converted (Conversion.widening? yes.type type)) ++
          .unary .jump (ks ++ converted (Conversion.widening? no.type type)).size ::
          (ks ++ converted (Conversion.widening? no.type type)))
      (.unknown type o)
      (Source.choose a (a₁ >>= Source.widen K yes.type type) (a₂ >>= Source.widen K no.type type)) := by
  obtain ⟨hvalue, ⟨hy, hyt⟩, hn, hnt⟩ := branch_turns htype
  exact .unknown ((Performs.choose (hc.typed (by simp [htest])) (hyes.turns hS hyt hy)
    (hno.turns hS hnt hn)).leaves rfl fun v => (left_of_ne hvalue v).symm) o

theorem chooseKnown (hS : Supports A n K T site) (hc : Gives A n is c a) (htest : c.type = .bool)
    (hyes : Gives A n js yes a₁) (hno : Gives A n ks no a₂)
    (htype : branchType? yes.type no.type = some type) {u v w x : Value}
    (hu : c.constant = some u) (hv : yes.constant = some v) (hw : no.constant = some w)
    (hx : (if u = .bool true then v else w).convert? type = some x) {ls : Asm} (hls : Pushes T x ls)
    (o : Nat) :
    Gives A n ls (.known x o)
      (Source.choose a (a₁ >>= Source.widen K yes.type type) (a₂ >>= Source.widen K no.type type)) := by
  obtain ⟨rfl, hut⟩ := hc.known u hu
  obtain ⟨rfl, hvt⟩ := hyes.known v hv
  obtain ⟨rfl, hwt⟩ := hno.known w hw
  obtain ⟨hy, hn⟩ := branch_converts htype
  have hvalue : Source.choose (pure u) (pure v >>= Source.widen K yes.type type)
      (pure w >>= Source.widen K no.type type) = pure x := by
    rw [htest] at hut
    cases u <;> cases hut
    next answer =>
      rw [← hvt, ← hwt]
      exact Source.choose_known (hvt ▸ hy) (hwt ▸ hn) (by cases answer <;> exact hx)
  rw [hvalue]
  exact .pushes hS hls o

end Gives

/-! ## Names and places -/

@[simp] theorem answer?_pure {α : Type} (x : α) : Source.answer? (pure x) = some x := rfl

/-- Where a place is named does not matter. -/
theorem placeOf_span {place : Place} {sp : Span} (h : placeOf site m sp = pure place) (sp' : Span) :
    placeOf site m sp' = pure place := by
  obtain ⟨slot, type, rfl, rfl⟩ | ⟨cls, f, rfl, rfl⟩ := place_cases h
  · rfl
  · by_cases hw : isWritable site cls f = true
    · simp only [placeOf, if_pos hw]
    · have hfails : Returns (placeOf site (.field cls f) sp) blank (.field f) blank :=
        h ▸ Returns.pure
      simp [placeOf, hw] at hfails

namespace Realizes

/-- A place is named without code. -/
theorem place (h : Realizes A n site locals use is m s) {place : Place} {sp : Span}
    (hplace : placeOf site m sp = pure place) :
    is = [] ∧ (∀ sp', s.place? site sp' = some place) ∧ Proper site locals m := by
  cases h with
  | name hm =>
    exact ⟨rfl, fun sp' => by simp only [Sense.place?, placeOf_span hplace sp', answer?_pure], hm.1⟩
  | value => obtain ⟨_, _, h, -⟩ | ⟨_, _, h, -⟩ := place_cases hplace <;> cases h
  | methods => obtain ⟨_, _, h, -⟩ | ⟨_, _, h, -⟩ := place_cases hplace <;> cases h
  | text => obtain ⟨_, _, h, -⟩ | ⟨_, _, h, -⟩ := place_cases hplace <;> cases h

/-- The value of what an expression means. Where it is not wanted its type may be lost. -/
theorem materializes (hS : Supports A n K T site) (hl : locals.Valued)
    (h : Realizes A n site locals use is m s) (hp : Materializes T m js p) :
    ∃ type a, s.value? = some (type, a) ∧ Gives A n (is ++ js) p a ∧
      (p.type = type ∨ use = .discarded) := by
  cases h with
  | name hm =>
    cases hp with
    | @localVar slot type =>
      obtain ⟨⟨name, v, hv, rfl, rfl⟩, -⟩ := hm
      exact ⟨_, _, rfl, .unknown ((Performs.loading (.localVar v.slot v.type)).leaves rfl fun w =>
        (left_of_ne (hl name v hv) w).symm) _, .inl rfl⟩
    | @field cls f =>
      obtain ⟨⟨hmem, -⟩, -⟩ := hm
      exact ⟨_, _, rfl, .unknown ((Performs.loading (.field f)).leaves rfl fun w =>
        (left_of_ne (hS.types cls f hmem) w).symm) _, .inl rfl⟩
    | constant hv => exact ⟨_, _, rfl, .pushes hS hv _, .inl rfl⟩
    | value => simp [isPushed] at hm
  | value h htype =>
    cases hp
    rw [List.append_nil]
    exact ⟨_, _, rfl, h, htype.imp id (·.1)⟩
  | methods => cases hp
  | text => cases hp

theorem gives (hS : Supports A n K T site) (hl : locals.Valued) (huse : use ≠ .discarded)
    (h : Realizes A n site locals use is m s) (hp : Materializes T m js p) :
    ∃ a, s.value? = some (p.type, a) ∧ Gives A n (is ++ js) p a := by
  obtain ⟨type, a, ha, hgives, rfl | hdiscarded⟩ := h.materializes hS hl hp
  · exact ⟨a, ha, hgives⟩
  · exact absurd hdiscarded huse

end Realizes

/-- The type of a place has values. -/
theorem place_valued (hS : Supports A n K T site) (hl : locals.Valued) {place : Place} {sp : Span}
    (h : Proper site locals m) (hplace : placeOf site m sp = pure place) : place.type ≠ .void := by
  obtain ⟨slot, type, rfl, rfl⟩ | ⟨cls, f, rfl, rfl⟩ := place_cases hplace
  · obtain ⟨name, v, hv, -, rfl⟩ := h
    exact hl name v hv
  · exact hS.types cls f h.1

namespace Gives

variable {place : Place} {sp : Span}

theorem counted (hS : Supports A n K T site) (hl : locals.Valued) (h : Proper site locals m)
    (hplace : placeOf site m sp = pure place) (hn : place.type.isNumeric = true)
    (hjs : Pushes T (one place.type) js) (up front : Bool) (use : Use) (o : Nat) :
    Gives A n ([] ++ counting place up front use js) (.unknown (storedType use place.type) o)
      (Source.count K place up front) :=
  .unknown (.counting hS.checked hS.constants (place_valued hS hl h hplace) hn hjs up front use) o

theorem assigned (hS : Supports A n K T site) (hl : locals.Valued) (h : Proper site locals m)
    (hplace : placeOf site m sp = pure place) (hv : Gives A n is p a) (hp : p.type = place.type)
    (use : Use) (o : Nat) :
    Gives A n ([] ++ is ++ kept (use != .discarded) ++ [storing place])
      (.unknown (storedType use place.type) o) (Source.assign place a) :=
  have hvalue := place_valued hS hl h hplace
  .unknown (.assign hvalue use (hv.typed (hp ▸ hvalue))) o

theorem compounded (hS : Supports A n K T site) (hl : locals.Valued) (h : Proper site locals m)
    (hplace : placeOf site m sp = pure place) (hv : Gives A n is p a) {op : BinaryOp}
    {plan : BinaryPlan} (hplan : op.plan? place.type p.type = some plan) (use : Use) (o : Nat) :
    Gives A n ([] ++ loading place :: converted plan.left ++ (is ++ converted plan.right) ++
        .plain plan.op :: kept (use != .discarded) ++ [storing place])
      (.unknown (storedType use place.type) o)
      (Source.assign place (Source.operate K plan (Source.read place) a)) := by
  have htyped := plan_typed hplan
  have hcompute := Performs.operate hS.checked htyped (.loading (A := A) (n := n) place)
    (hv.typed htyped.rightValue)
  have := Performs.assign (place_valued hS hl h hplace) use hcompute
  exact .unknown (by simpa using this) o

end Gives

/-! ## Calls -/

def Supply (A : Activation) (n : Nat) (items : List (Asm × Pushed))
    (values : List (ValueType × Action Store Value)) : Prop :=
  List.Forall₂ (fun x y => y.1 = x.2.type ∧ Gives A n x.1 x.2 y.2) items values

section

variable {items : List (Asm × Pushed)} {values : List (ValueType × Action Store Value)}

theorem Supply.types (h : Supply A n items values) :
    values.map (·.1) = items.map (·.2.type) := by
  induction h with
  | nil => rfl
  | cons hx _ ih => simp only [List.map_cons, hx.1, ih]

theorem Supply.passing (hS : Supports A n K T site) (h : Supply A n items values)
    {params : List ValueType}
    (htypes : List.Forall₂ (fun a p => a.convertsTo p = true) (items.map (·.2.type)) params) :
    A.Performs n (passing items params) [] (Source.pass K values params) List.reverse ∧
      (Source.pass K values params).Answers fun vs => vs.length = params.length :=
  Performs.passing hS.checked (h.imp fun _ _ hx => ⟨hx.1, hx.1 ▸ hx.2.performs⟩) htypes

/-- Arguments choose the same candidate, by their types. -/
theorem Supply.chosen (h : Supply A n items values) {α : Type} {candidates : List α}
    {params : α → List ValueType} {x : α} (hx : Chooses candidates params items x) :
    Source.chosen candidates params values = some x := by
  obtain ⟨i, hi, hx⟩ := hx.resolves
  rw [Source.chosen, h.types, hi]
  exact hx

/-- A library function is called with what it takes. -/
theorem Performs.library (hS : Supports A n K T site) {f : NativeFunction} {r : Option ValueType}
    {i : Nat} (hi : Imports T site.symbols.libraries f r i) {args : List Value}
    (hargs : args.length = (r.toList ++ f.params).length) :
    A.Performs n [.unary .callNative i] args.reverse
      (Source.callNative K (ImportTable.importOf f r) args).beside (left f.returns) := by
  obtain ⟨hcallable, imp, himp, hid⟩ := hi
  obtain ⟨g, q, hg, rfl⟩ := hS.callable imp (Array.mem_of_getElem? himp)
  rw [hS.distinct.import_eq hg hcallable hid, hS.imports] at himp
  exact .callNative himp (hS.natives i _ himp) hargs

theorem Realizes.call (hS : Supports A n K T site) {target : Callee} {name : String}
    (h : Realizes A n site locals .bare is (.methods target name) s)
    (hitems : Supply A n items values) (hcall : Layout.Calls T site is name items target js p) :
    ∃ a, s.call K site values = some (.value p.type a) ∧ Gives A n js p a := by
  cases hcall with
  | @script cls i o onThis m hm haccess hreceiver =>
    cases h
    obtain ⟨hmem, htypes⟩ := Chooses.spec hm
    obtain ⟨f, hf, hparams, hreturns⟩ := hS.methods cls i m (by
      simp only [ClassSymbol.methodsNamed, List.mem_filter] at hmem
      exact List.mem_zipIdx_iff_getElem?.mp hmem.1)
    obtain ⟨hpass, hlength⟩ := hitems.passing hS htypes
    refine ⟨_, (by rw [Sense.call, hitems.chosen hm]; rfl), .unknown ?_ _⟩
    exact hpass.bindKnowing hlength fun args hargs => hreturns ▸
      .call hf (hparams ▸ hargs) (hS.script cls i f args hf (hparams ▸ hargs))
  | @function c f i o hf hi =>
    cases h
    obtain ⟨hpass, hlength⟩ := hitems.passing hS (Chooses.spec hf).2
    refine ⟨_, (by rw [Sense.call, hitems.chosen hf]; rfl), .unknown ?_ _⟩
    exact hpass.bindKnowing hlength fun args hargs => .library hS hi hargs
  | @method c q f i o hf hi =>
    cases h with
    | name hm => simp [isPushed] at hm
    | @methods _ _ _ a _ ha =>
      obtain ⟨hpass, hlength⟩ := hitems.passing hS (Chooses.spec hf).2
      have hreceiver : q.type ≠ .void := by
        obtain ⟨l, hl, d, hd, -, -, hkeyword⟩ := hi.callable
        exact fun hq => hS.keywords l hl d hd (hq ▸ hkeyword q.type rfl)
      refine ⟨_, (by rw [Sense.call, hitems.chosen hf]; rfl), .unknown ?_ _⟩
      rw [List.append_assoc]
      refine (ha.typed hreceiver).bind fun receiver => ?_
      refine (hpass.above [receiver]).bindKnowing hlength fun args hargs => ?_
      rw [← List.reverse_cons]
      exact .library hS hi (congrArg (· + 1) hargs)
  | string hnil hp =>
    subst hnil
    cases hitems
    cases h with
    | name hm => simp [isPushed] at hm
    | @text _ _ a _ ha _ => exact ⟨a, by simp [Sense.call, hp], ha⟩
  | @text q o hnil hp hc =>
    subst hnil
    cases hitems
    cases h with
    | name hm => simp [isPushed] at hm
    | @text _ _ a _ ha hvalue =>
      exact ⟨_, by simp only [Sense.call, List.isEmpty_nil, if_true, if_neg hp]; rfl,
        ha.turned hS (toStr_typed hvalue) hvalue (by simp) o⟩
  | @textKnown q v w _ o hnil hp hc hw hjs =>
    subst hnil
    cases hitems
    cases h with
    | name hm => simp [isPushed] at hm
    | @text _ _ a _ ha hvalue =>
      have htype : w.type = .string := ha.folded_type hc hw (toStr_typed hvalue)
      exact ⟨_, by simp only [Sense.call, List.isEmpty_nil, if_true, if_neg hp, Pushed.known, htype],
        ha.folded hS hc hw hjs o⟩

end

/-! ## The walk -/

/-- What is made of the value of an expression. -/
theorem value_bind {e : Expr} {type : ValueType} (h : Source.value K site locals e = some (type, a))
    {α : Type} (f : ValueType × Action Store Value → Option α) :
    ((Source.sense K site locals false e).bind fun s => s.value?.bind f) = f (type, a) := by
  rw [← Option.bind_assoc]
  exact (congrArg (Option.bind · f) h).trans rfl

/-- What is made of a place. -/
theorem place_bind {e : Expr} {place : Place} {sp : Span}
    (h : Source.sense K site locals true e = some s) (hs : s.place? site sp = some place) {α : Type}
    (f : Place → Option α) :
    ((Source.sense K site locals true e).bind fun s => (s.place? site sp).bind f) = f place := by
  rw [h, Option.bind_some, hs, Option.bind_some]

/-- A member of a value. -/
theorem sense_member {e : Expr} {type : ValueType} {name : Ident} {sp : Span} {bare : Bool}
    (h : Source.value K site locals e = some (type, a)) :
    Source.sense K site locals bare (.member e name sp) = Sense.ofValue K site type a name := by
  obtain ⟨s, hs, hv⟩ := Option.bind_eq_some_iff.mp h
  simp only [Source.sense, hs, Option.bind_eq_bind, Option.bind_some, Sense.member, hv]

theorem unaryOp_plain {op : UnaryOp} {t : ValueType} {code : Option Opcode}
    (h : unaryOp? op t = some code) : ¬(op = .increment ∨ op = .decrement) := by
  rintro (rfl | rfl) <;> cases h

/-- A member of what is only named. -/
theorem sense_named {e : Expr} {name : Ident} {sp : Span} {bare : Bool}
    (h : Source.sense K site locals false e = some (.name m)) (hm : isName m = true) :
    Source.sense K site locals bare (.member e name sp) =
      (Source.answer? (memberMeaning site m e.span name)).map .name := by
  have hvalue : (Sense.name m).value? = none := by cases m <;> first | rfl | cases hm
  simp only [Source.sense, h, Option.bind_eq_bind, Option.bind_some, Sense.member, hvalue]

theorem Realizes.named (h : Realizes A n site locals use is m s) (hm : isName m = true) :
    is = [] ∧ s = .name m ∧ Proper site locals m := by
  cases h with
  | name h => exact ⟨rfl, rfl, h.1⟩
  | value => cases hm
  | methods => cases hm
  | text => cases hm

theorem Gives.realizes (h : Gives A n is p a) :
    Realizes A n site locals use is (.value p) (.value p.type a) := .value h (.inl rfl)

/-- A value that is stored is left if it is wanted. -/
theorem Gives.stored {type : ValueType} {o : Nat} (h : Gives A n is (.unknown (storedType use type) o) a) :
    Realizes A n site locals use is (.value (.unknown (storedType use type) o)) (.value type a) :=
  .value h (by
    by_cases huse : use = .discarded
    · exact .inr ⟨huse, if_pos huse⟩
    · exact .inl (if_neg huse))

end Activation

namespace Layout

open Compile Flow Activation

variable {A : Activation} {n : Nat} {K : Source.Surroundings} {T : Tables} {site : Site}
  {locals : LocalScope}

mutual

/-- The code of an expression does what the expression stands for, form by form. -/
theorem Means.realizes (hS : Supports A n K T site) (hl : locals.Valued) {use : Use} {e : Expr}
    {is : Asm} {m : Meaning} : Means T site locals use e is m →
      ∃ s, Source.sense K site locals (use == .bare) e = some s ∧ Realizes A n site locals use is m s
  | .literal h => ⟨_, by rw [Source.sense]; rfl, (Gives.pushes hS h _).realizes⟩
  | .ident h => ⟨_, by rw [Source.sense, h, answer?_pure]; rfl, .name (proper_name hS.owner h)⟩
  | .this h => ⟨_, by rw [Source.sense, h, answer?_pure]; rfl, .name (proper_this h)⟩
  | .member h hm hm' => by
    obtain ⟨s, hs, hr⟩ := h.realizes hS hl
    obtain ⟨rfl, rfl, hproper⟩ := hr.named hm
    refine ⟨_, ?_, .name (proper_member hS.owner hm hproper hm')⟩
    exact (sense_named hs hm).trans (by rw [hm', answer?_pure]; rfl)
  | .length (p := p) h hp hname _ => by
    obtain ⟨a, ha, hgives⟩ := h.gives hS hl
    have hcode : Opcode.strLen.unaryType? p.type = some .int := by rw [hp]; rfl
    refine ⟨_, ?_, (hgives.turned hS hcode (by rw [hp]; nofun) nofun _).realizes⟩
    rw [sense_member ha, Source.Sense.ofValue, if_pos ⟨hp, hname⟩]
    rfl
  | .lengthKnown (p := p) h hp hname hc hw hjs => by
    obtain ⟨a, ha, hgives⟩ := h.gives hS hl
    have hcode : Opcode.strLen.unaryType? p.type = some .int := by rw [hp]; rfl
    refine ⟨_, ?_, (hgives.folded hS hc hw hjs _).realizes⟩
    rw [sense_member ha, Source.Sense.ofValue, if_pos ⟨hp, hname⟩, Pushed.known,
      hgives.folded_type hc hw hcode]
  | .text (p := p) h hp hname => by
    obtain ⟨a, ha, hgives⟩ := h.gives hS hl
    refine ⟨_, ?_, .text hgives hp⟩
    rw [sense_member ha, Source.Sense.ofValue, if_neg (by simp [hname]), if_pos ⟨hname, hp⟩]
  | .methods h hlength htext hc => by
    obtain ⟨a, ha, hgives⟩ := h.gives hS hl
    refine ⟨_, ?_, .methods hgives⟩
    rw [sense_member ha, Source.Sense.ofValue, if_neg hlength, if_neg htext, hc]
    rfl
  | .bare h => by
    obtain ⟨s, hs, hr⟩ := h.realizes hS hl
    exact ⟨s, by simpa [Source.sense] using hs, hr⟩
  | .paren huse h => by
    obtain ⟨a, ha, hgives⟩ := h.gives hS hl
    refine ⟨_, ?_, hgives.realizes⟩
    simp [Source.sense, huse, value_bind ha]
  | .logical hop hleft hright hlt hrt _ => by
    obtain ⟨a, ha, hfirst⟩ := hleft.gives hS hl
    obtain ⟨b, hb, hsecond⟩ := hright.gives hS hl
    refine ⟨_, ?_, (hfirst.logical hsecond hlt hrt _ _).realizes⟩
    simp [Source.sense, value_bind ha, value_bind hb, hop, hlt, hrt, Pushed.unknown]
  | .logicalKnown hop hleft hright hlt hrt hx hy hks => by
    obtain ⟨a, ha, hfirst⟩ := hleft.gives hS hl
    obtain ⟨b, hb, hsecond⟩ := hright.gives hS hl
    refine ⟨_, ?_, (hfirst.logicalKnown hS hsecond hx hy hks _).realizes⟩
    simp [Source.sense, value_bind ha, value_bind hb, hop, hlt, hrt, Pushed.known, Value.type]
  | .binary hop hleft hright hplan _ _ _ => by
    obtain ⟨a, ha, hfirst⟩ := hleft.gives hS hl
    obtain ⟨b, hb, hsecond⟩ := hright.gives hS hl
    refine ⟨_, ?_, (hfirst.operate hS hsecond hplan _).realizes⟩
    simp [Source.sense, value_bind ha, value_bind hb, hop, hplan, Pushed.unknown]
  | .binaryKnown hop hleft hright hplan hl' hr' hv hw hx hks => by
    obtain ⟨a, ha, hfirst⟩ := hleft.gives hS hl
    obtain ⟨b, hb, hsecond⟩ := hright.gives hS hl
    obtain ⟨hgives, htype⟩ := hfirst.operateKnown hS hsecond hplan hl' hr' hv hw hx hks _
    refine ⟨_, ?_, hgives.realizes⟩
    simp [Source.sense, value_bind ha, value_bind hb, hop, hplan, Pushed.known, htype]
  | .same h hop => by
    obtain ⟨a, ha, hgives⟩ := h.gives hS hl
    refine ⟨_, ?_, hgives.realizes⟩
    simp only [Source.sense, unaryOp_plain hop, if_false, Option.bind_eq_bind, value_bind ha, hop]
    exact congrArg (fun x => some (Source.Sense.value _ x)) (bind_pure a)
  | .unary h hop _ => by
    obtain ⟨a, ha, hgives⟩ := h.gives hS hl
    have hvalue := unaryOp_value hop
    refine ⟨_, ?_, (hgives.turned hS (unaryOp_typed hop) hvalue hvalue _).realizes⟩
    simp [Source.sense, value_bind ha, unaryOp_plain hop, hop, Pushed.unknown]
  | .unaryKnown h hop hc hw hjs => by
    obtain ⟨a, ha, hgives⟩ := h.gives hS hl
    have htype := hgives.folded_type hc hw (unaryOp_typed hop)
    refine ⟨_, ?_, (hgives.folded hS hc hw hjs _).realizes⟩
    simp [Source.sense, value_bind ha, unaryOp_plain hop, hop, Pushed.known, htype]
  | .before hop h hplace hn hjs => by
    obtain ⟨s, hs, hr⟩ := h.realizes hS hl
    obtain ⟨rfl, hat, hproper⟩ := hr.place hplace
    refine ⟨_, ?_, Gives.stored (.counted hS hl hproper hplace hn hjs _ true _ _)⟩
    simp [Source.sense, hop, place_bind hs (hat _), hn]
  | .behind h hplace hn hjs => by
    obtain ⟨s, hs, hr⟩ := h.realizes hS hl
    obtain ⟨rfl, hat, hproper⟩ := hr.place hplace
    refine ⟨_, ?_, Gives.stored (.counted hS hl hproper hplace hn hjs _ false _ _)⟩
    simp [Source.sense, place_bind hs (hat _), hn]
  | .assign hop h hplace hv hc => by
    obtain ⟨s, hs, hr⟩ := h.realizes hS hl
    obtain ⟨rfl, hat, hproper⟩ := hr.place hplace
    obtain ⟨a, ha, hgives⟩ := hv.gives hS hl
    obtain ⟨hvalue, htype, -, hconverts⟩ := hgives.coerces hS hc
    refine ⟨_, ?_, Gives.stored (hvalue.assigned hS hl hproper hplace htype _ _)⟩
    simp [Source.sense, place_bind hs (hat _), value_bind ha, hop, hconverts]
  | .compound hop h hplace hv hplan hres hp' => by
    obtain ⟨s, hs, hr⟩ := h.realizes hS hl
    obtain ⟨rfl, hat, hproper⟩ := hr.place hplace
    obtain ⟨a, ha, hgives⟩ := hv.gives hS hl
    refine ⟨_, ?_, Gives.stored (hgives.compounded hS hl hproper hplace hplan _ _)⟩
    simp [Source.sense, place_bind hs (hat _), value_bind ha, hop, hplan, hres]
  | .conditional h hc hyes hno htype _ => by
    obtain ⟨a, ha, hgives⟩ := h.gives hS hl
    obtain ⟨a₁, ha₁, hy⟩ := hyes.gives hS hl
    obtain ⟨a₂, ha₂, hn⟩ := hno.gives hS hl
    obtain ⟨htest, hbool, hcond⟩ := hgives.condition hS hc
    refine ⟨_, ?_, (htest.choose hS hbool hy hn htype _).realizes⟩
    simp [Source.sense, value_bind ha, value_bind ha₁, value_bind ha₂, htype, hcond, Pushed.unknown]
  | .conditionalKnown h hc hyes hno htype hu hv hw hx hls => by
    obtain ⟨a, ha, hgives⟩ := h.gives hS hl
    obtain ⟨a₁, ha₁, hy⟩ := hyes.gives hS hl
    obtain ⟨a₂, ha₂, hn⟩ := hno.gives hS hl
    obtain ⟨htest, hbool, hcond⟩ := hgives.condition hS hc
    refine ⟨_, ?_, (htest.chooseKnown hS hbool hy hn htype hu hv hw hx hls _).realizes⟩
    simp [Source.sense, value_bind ha, value_bind ha₁, value_bind ha₂, htype, hcond, Pushed.known,
      type_of_convert? hx]
  | .call h hargs hcall => by
    obtain ⟨s, hs, hr⟩ := h.realizes hS hl
    obtain ⟨values, hvalues, hsupply⟩ := hargs.gives hS hl
    obtain ⟨a, ha, hgives⟩ := hr.call hS hsupply hcall
    refine ⟨_, ?_, hgives.realizes⟩
    have hcallee : Source.sense K site locals true _ = some s := hs
    simp only [Source.sense, hcallee, hvalues, Option.bind_eq_bind, Option.bind_some]
    exact ha

theorem Values.gives (hS : Supports A n K T site) (hl : locals.Valued) {e : Expr} {is : Asm}
    {p : Pushed} : Values T site locals e is p →
      ∃ a, Source.value K site locals e = some (p.type, a) ∧ Gives A n is p a
  | .intro h hp => by
    obtain ⟨s, hs, hr⟩ := h.realizes hS hl
    obtain ⟨a, ha, hgives⟩ := hr.gives hS hl (show Use.value ≠ .discarded by decide) hp
    exact ⟨a, Option.bind_eq_some_iff.mpr ⟨s, hs, ha⟩, hgives⟩

theorem Passes.gives (hS : Supports A n K T site) (hl : locals.Valued) {es : List Expr}
    {items : List (Asm × Pushed)} : Passes T site locals es items →
      ∃ values, Source.senses K site locals es = some values ∧ Supply A n items values
  | .nil => ⟨[], rfl, .nil⟩
  | .cons h hs => by
    obtain ⟨a, ha, hgives⟩ := h.gives hS hl
    obtain ⟨values, hvalues, hsupply⟩ := hs.gives hS hl
    refine ⟨(_, a) :: values, ?_, .cons ⟨rfl, hgives⟩ hsupply⟩
    simp [Source.senses, value_bind ha, hvalues]

end

end Layout
end ClassScript
