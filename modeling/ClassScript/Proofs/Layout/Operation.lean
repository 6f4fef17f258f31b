import ClassScript.Proofs.Layout.Expression

/-!
The steps of the compiler of expressions write what the layout of their form says.

The operands of a step are written already. Each lemma here takes the code of the operands, as it was
written since a state `s`, to the code of the whole, as it is written since the same state.
-/

namespace ClassScript.Layout

open Code (Instruction)
open Compile

variable {libraries : List Library} {s t u : CodeState}

/-- What is pushed was pushed from an offset on. -/
def StartsAt (o : Nat) : Meaning → Prop
  | .value p | .methods (.method _ p) _ | .methods (.toText p) _ => p.start = o
  | _ => True

/-- Library classes are those of the libraries, and a class whose methods are called on a value is
that of the value's type. -/
def Known (libraries : List Library) : Meaning → Prop
  | .type (.native c) | .methods (.function c) _ => ∃ l ∈ libraries, c ∈ l.classes
  | .methods (.method c p) _ => ∃ l ∈ libraries, c ∈ l.classes ∧ c.keyword = some p.type
  | _ => True

/-- The tables of a state are those of a module that ends here. -/
def tables (s : CodeState) : Tables := ⟨s.emitter.pool.entries, s.imports.imports⟩

theorem within_tables (s : CodeState) : s.Within (tables s) := ⟨List.prefix_rfl, List.prefix_rfl⟩

theorem size_eq_zero {is : Asm} (h : is.size = 0) : is = [] := by
  cases is with
  | nil => rfl
  | cons i is => have := i.width_pos; simp at h; omega

/-! ## Growth -/

def Grows {α : Type} (x : Compiling α) : Prop := ∀ s a t, Returns x s a t → s.Grew t

namespace Grows

variable {α β : Type}

theorem bind {x : Compiling α} {f : α → Compiling β} (hx : Grows x) (hf : ∀ a, Grows (f a)) :
    Grows (x >>= f) := by
  intro s b t h
  obtain ⟨a, u, h₁, h₂⟩ := Returns.bind h
  exact (hx s a u h₁).trans (hf a u b t h₂)

theorem pure (a : α) : Grows (Pure.pure a : Compiling α) := by
  intro s b t h
  obtain ⟨-, rfl⟩ := Returns.pure_iff.mp h
  exact .refl s

theorem fail (f : SemanticFault) (sp : Span) : Grows (Compile.fail f sp : Compiling α) := by
  intro s b t h
  simp at h

theorem throw (e : SemanticError) : Grows (throw e : Compiling α) := by
  intro s b t h
  simp at h

theorem offset : Grows Compile.offset := by
  intro s n t h
  obtain ⟨-, rfl⟩ := Returns.offset_iff.mp h
  exact .refl _

theorem fold (r : Except EvalError Value) (sp : Span) : Grows (Compile.fold r sp) := by
  intro s n t h
  obtain ⟨-, rfl⟩ := Returns.fold_iff.mp h
  exact .refl _

/-- Edits that do not look at the pool. -/
theorem edit {f : Emitter → Emitter} (hf : ∀ e, (f e).pool = e.pool) : Grows (Compile.edit f) := by
  intro s n t h
  obtain rfl := Returns.edit_iff.mp h
  exact ⟨by simp [hf], List.prefix_rfl⟩

theorem emit (op : Opcode) : Grows (Compile.emit op) := edit fun _ => rfl

theorem emitWith (op : Opcode) (n : Nat) : Grows (Compile.emitWith op n) := edit fun _ => rfl

theorem land (label : Nat) : Grows (Compile.land label) := edit fun _ => rfl

theorem jump (op : Opcode) : Grows (Compile.jump op) := by
  intro s n t h
  obtain ⟨-, rfl⟩ := Returns.jump_iff.mp h
  exact ⟨List.prefix_rfl, List.prefix_rfl⟩

theorem emitValue (v : Value) : Grows (Compile.emitValue v) := by
  intro s n t h
  obtain rfl := Returns.emitValue_iff.mp h
  have constant (c : Constant) :
      s.Grew ⟨s.emitter.emitConstant c, s.imports⟩ := by
    refine ⟨?_, List.prefix_rfl⟩
    change _ <+: (s.emitter.pool.add c).2.entries.toList
    unfold Pool.add
    split <;> simp
  match v with
  | .void => exact .refl _
  | .bool true => exact ⟨List.prefix_rfl, List.prefix_rfl⟩
  | .bool false => exact ⟨List.prefix_rfl, List.prefix_rfl⟩
  | .int n => exact constant (.int n)
  | .long n => exact constant (.long n)
  | .double d => exact constant (.double d)
  | .string x => exact constant (.string x)

theorem replace (start : Nat) (v : Value) : Grows (Compile.replace start v) :=
  bind (edit fun _ => rfl) fun _ => bind (emitValue v) fun _ => pure _

theorem convertAt (p : Pushed) (op : Option Opcode) (target : ValueType) (stop : Nat) (sp : Span) :
    Grows (Compile.convertAt p op target stop sp) := by
  unfold Compile.convertAt
  split
  · exact pure _
  · have placed (c : Option Value) (op : Opcode) : Grows (do
        let here ← Compile.offset
        if stop = here then Compile.emit op else Compile.edit (·.insert stop op)
        Pure.pure (⟨target, c, p.start⟩ : Pushed)) := by
      refine bind offset fun here => ?_
      split
      · exact bind (emit _) fun _ => pure _
      · exact bind (edit fun _ => rfl) fun _ => pure _
    split
    · exact bind (fold _ _) fun v => bind (pure _) fun _ => placed _ _
    · exact bind (pure _) fun _ => placed _ _

theorem coerce (p : Pushed) (target : ValueType) (sp : Span) :
    Grows (Compile.coerce p target sp) := by
  unfold Compile.coerce
  split
  · exact fail _ _
  · exact pure _
  · split
    · exact bind (emit _) fun _ => pure _
    · split
      · exact replace _ _
      · exact fail _ _

end Grows

/-! ## Operand counts -/

theorem widening_operandCount {a b : ValueType} {op : Opcode}
    (h : Conversion.widening? a b = some op) : op.operandCount = 0 := by
  cases a <;> cases b <;> cases h <;> rfl

theorem numeric_operandCount {op : BinaryOp} {t : ValueType} {code : Opcode}
    (h : op.numeric? t = some code) : code.operandCount = 0 := by
  cases t <;> cases op <;> cases h <;> rfl

/-- The instructions of a plan have no operands. -/
theorem plan_operandCount {op : BinaryOp} {a b : ValueType} {plan : BinaryPlan}
    (h : op.plan? a b = some plan) :
    (∀ o, plan.left = some o → o.operandCount = 0) ∧
      (∀ o, plan.right = some o → o.operandCount = 0) ∧ plan.op.operandCount = 0 := by
  have widening (c : ValueType) (code : Opcode) (r : ValueType) (hcode : code.operandCount = 0)
      (hp : BinaryPlan.widening a b c code r = plan) :
      (∀ o, plan.left = some o → o.operandCount = 0) ∧
        (∀ o, plan.right = some o → o.operandCount = 0) ∧ plan.op.operandCount = 0 := by
    subst hp
    exact ⟨fun o => widening_operandCount, fun o => widening_operandCount, hcode⟩
  have equality (code : Opcode) (hcode : code.operandCount = 0)
      (hp : ((a.equalityType? b).map fun t => BinaryPlan.widening a b t code .bool) = some plan) :
      (∀ o, plan.left = some o → o.operandCount = 0) ∧
        (∀ o, plan.right = some o → o.operandCount = 0) ∧ plan.op.operandCount = 0 := by
    obtain ⟨c, -, hc⟩ := Option.map_eq_some_iff.mp hp
    exact widening c code .bool hcode hc
  unfold BinaryOp.plan? at h
  split at h
  · cases h
  · split at h
    · cases h
    · cases h
    · exact equality .eq rfl h
    · exact equality .ne rfl h
    · split at h
      · cases h
        refine ⟨?_, ?_, rfl⟩ <;>
        · intro o ho
          simp only [BinaryPlan.joining] at ho
          split at ho <;> cases ho
          rfl
      · simp only [Option.bind_eq_bind, Option.bind_eq_some_iff] at h
        obtain ⟨c, -, code, hcode, hp⟩ := h
        exact widening c code _ (numeric_operandCount hcode) (Option.some.inj hp)

theorem unaryOp_operandCount {op : UnaryOp} {t : ValueType} {code : Opcode}
    (h : unaryOp? op t = some (some code)) : code.operandCount = 0 := by
  cases op <;> cases t <;> cases h <;> rfl

theorem stepOp_operandCount (t : ValueType) (up : Bool) : (stepOp t up).operandCount = 0 := by
  cases t <;> cases up <;> rfl

theorem implicit_operandCount {a b : ValueType} {op : Opcode}
    (h : Conversion.implicit? a b = some (.widen op)) : op.operandCount = 0 := by
  cases a <;> cases b <;> simp [Conversion.implicit?] at h <;> subst h <;> rfl

/-! ## Known values -/

theorem push_written (hs : s.Sound libraries) {v : Value} {p : Pushed}
    (h : Returns (push v) s p t) :
    p = .known v s.emitter.offset ∧ ∃ is, Wrote libraries s t is ∧
      ∀ T, t.Within T → Pushes T v is := by
  simp only [push, Returns.bind_iff, Returns.offset_iff, Returns.emitValue_iff,
    Returns.pure_iff] at h
  obtain ⟨_, _, ⟨rfl, rfl⟩, _, _, rfl, rfl, rfl⟩ := h
  obtain ⟨is, hw, hp⟩ := Wrote.emitValue hs v
  exact ⟨rfl, is, hw, hp⟩

/-- A known value takes the place of the code that was written since `s`. -/
theorem replace_written (hs : s.Sound libraries) {is : Asm} (hw : Wrote libraries s t is)
    {start : Nat} (hstart : start = s.emitter.offset) {v : Value} {p : Pushed}
    (h : Returns (replace start v) t p u) :
    p = .known v s.emitter.offset ∧ ∃ js, Wrote libraries s u js ∧
      ∀ T, u.Within T → Pushes T v js := by
  subst hstart
  simp only [replace, Returns.bind_iff, Returns.edit_iff, Returns.emitValue_iff,
    Returns.pure_iff] at h
  obtain ⟨_, _, rfl, _, _, rfl, rfl, rfl⟩ := h
  have ht := Wrote.truncate hs hw
  obtain ⟨js, hj, hp⟩ := Wrote.emitValue ht.sound v
  exact ⟨rfl, js, by simpa using ht.trans hj, hp⟩

/-! ## Conversions -/

/-- An operand is converted where its code ends. -/
theorem convertAt_written (hs : s.Sound libraries) (is js : Asm)
    (hw : Wrote libraries s t (is ++ js)) {p p' : Pushed} {op : Option Opcode} {target : ValueType}
    {stop : Nat} {sp : Span} (hstop : stop = s.emitter.offset + is.size)
    (hop : ∀ o, op = some o → o.operandCount = 0)
    (h : Returns (convertAt p op target stop sp) t p' u) :
    Wrote libraries s u (is ++ converted op ++ js) ∧ Converts target p op p' ∧ p'.start = p.start := by
  cases op with
  | none =>
    simp only [convertAt, Returns.pure_iff] at h
    obtain ⟨rfl, rfl⟩ := h
    exact ⟨by simpa [converted] using hw, .none, rfl⟩
  | some op =>
    have h0 := hop op rfl
    have hoff := hw.offset
    -- the known value is computed without writing anything
    have placed {constant : Option Value} {p' : Pushed}
        (hu : Returns (do
          let here ← offset
          if stop = here then emit op else edit (·.insert stop op)
          pure (⟨target, constant, p.start⟩ : Pushed)) t p' u) :
        Wrote libraries s u (is ++ converted (some op) ++ js) ∧ p' = ⟨target, constant, p.start⟩ := by
      simp only [Returns.bind_iff, Returns.offset_iff] at hu
      obtain ⟨_, _, ⟨rfl, rfl⟩, hu⟩ := hu
      split at hu
      · next heq =>
        have hj : js = [] := by
          apply size_eq_zero
          simp only [Asm.size_append] at hoff
          omega
        subst hj
        simp only [Returns.bind_iff, Returns.emit_iff, Returns.pure_iff] at hu
        obtain ⟨_, _, rfl, rfl, rfl⟩ := hu
        exact ⟨by simpa [converted] using hw.trans (Wrote.emit hw.sound _ h0), rfl⟩
      · simp only [Returns.bind_iff, Returns.edit_iff, Returns.pure_iff] at hu
        obtain ⟨_, _, rfl, rfl, rfl⟩ := hu
        exact ⟨by simpa [converted] using Wrote.insert hs hw hstop h0, rfl⟩
    unfold convertAt at h
    cases hp : p.constant with
    | none =>
      simp only [hp] at h
      obtain ⟨_, _, hk, h⟩ := Returns.bind h
      obtain ⟨rfl, rfl⟩ := Returns.pure_iff.mp hk
      obtain ⟨hwrote, rfl⟩ := placed h
      exact ⟨hwrote, .unknown hp, rfl⟩
    | some v =>
      simp only [hp] at h
      obtain ⟨w, _, hfold, h⟩ := Returns.bind h
      obtain ⟨hv, rfl⟩ := Returns.fold_iff.mp hfold
      obtain ⟨_, _, hk, h⟩ := Returns.bind h
      obtain ⟨rfl, rfl⟩ := Returns.pure_iff.mp hk
      obtain ⟨hwrote, rfl⟩ := placed h
      exact ⟨hwrote, .known hp hv, rfl⟩

/-- The value on top is converted. -/
theorem coerce_written (hs : s.Sound libraries) {is : Asm} (hw : Wrote libraries s t is)
    {p p' : Pushed} (hp : p.start = s.emitter.offset) {target : ValueType} {sp : Span}
    (h : Returns (coerce p target sp) t p' u) :
    p'.start = s.emitter.offset ∧ ∃ js, Wrote libraries s u js ∧
      ∀ T, u.Within T → Coerces T p is target js p' := by
  unfold coerce at h
  split at h
  · simp at h
  · next hi =>
    obtain ⟨rfl, rfl⟩ := Returns.pure_iff.mp h
    exact ⟨hp, is, hw, fun _ _ => .identity hi⟩
  · next op hi =>
    split at h
    · next hc =>
      simp only [Returns.bind_iff, Returns.emit_iff, Returns.pure_iff] at h
      obtain ⟨_, _, rfl, rfl, rfl⟩ := h
      exact ⟨hp, _, hw.trans (Wrote.emit hw.sound _ (implicit_operandCount hi)),
        fun _ _ => .widen hi hc⟩
    · next v hc =>
      split at h
      · next w hv =>
        obtain ⟨rfl, js, hj, hpush⟩ := replace_written hs hw hp h
        exact ⟨rfl, js, hj, fun T hT => .known hi hc hv (hpush T hT)⟩
      · simp at h

/-! ## Answers -/

/-- A value that is pushed already, or on which methods are called. -/
def isPushed : Meaning → Bool
  | .value _ | .methods (.method ..) _ | .methods (.toText _) _ => true
  | _ => false

/-- From `s` to `t` code for an expression was written, which means `m` behind it. -/
def Meant (site : Site) (locals : LocalScope) (use : Use) (e : Expr) (s t : CodeState)
    (m : Meaning) : Prop :=
  ∃ is, Wrote site.symbols.libraries s t is ∧ (∀ T, t.Within T → Means T site locals use e is m) ∧
    StartsAt s.emitter.offset m ∧ Known site.symbols.libraries m ∧ (isPushed m = false → is = [])

/-- From `s` to `t` code was written that pushes the value of an expression. -/
def Valued (site : Site) (locals : LocalScope) (e : Expr) (s t : CodeState) (p : Pushed) : Prop :=
  ∃ is, Wrote site.symbols.libraries s t is ∧ (∀ T, t.Within T → Values T site locals e is p) ∧
    p.start = s.emitter.offset

variable {site : Site} {locals : LocalScope} {use : Use} {e : Expr} {m : Meaning} {p p' : Pushed}
  {sp : Span}

/-- Values that take the place of other code. -/
theorem Meant.value {is : Asm} (hw : Wrote site.symbols.libraries s t is)
    (hm : ∀ T, t.Within T → Means T site locals use e is (.value p))
    (hp : p.start = s.emitter.offset) : Meant site locals use e s t (.value p) :=
  ⟨is, hw, hm, hp, trivial, fun h => by simp [isPushed] at h⟩

/-- Names are found without writing code. -/
theorem Meant.name (hs : s.Sound site.symbols.libraries)
    (hm : ∀ T, Means T site locals use e [] m) (hstart : StartsAt s.emitter.offset m)
    (hknown : Known site.symbols.libraries m) : Meant site locals use e s s m :=
  ⟨[], Wrote.refl hs, fun T _ => hm T, hstart, hknown, fun _ => rfl⟩

theorem materialize_written (ht : t.Sound libraries) (h : Returns (materialize site m sp) t p u) :
    (∃ js, Wrote libraries t u js ∧ ∀ T, u.Within T → Materializes T m js p) ∧
      ((∀ q, m ≠ .value q) → p.start = t.emitter.offset) ∧ (∀ q, m = .value q → p = q) := by
  unfold materialize at h
  simp only [Returns.bind_iff, Returns.offset_iff] at h
  obtain ⟨_, _, ⟨rfl, rfl⟩, h⟩ := h
  cases m with
  | localVar slot type =>
    simp only [Returns.bind_iff, Returns.emitWith_iff, Returns.pure_iff] at h
    obtain ⟨_, _, rfl, rfl, rfl⟩ := h
    exact ⟨⟨_, Wrote.emitWith ht _ rfl slot, fun _ _ => .localVar⟩, fun _ => rfl, by simp⟩
  | field cls f =>
    simp only [Returns.bind_iff, Returns.emitWith_iff, Returns.pure_iff] at h
    obtain ⟨_, _, rfl, rfl, rfl⟩ := h
    have hop : (loadOp f).operandCount = 1 := by unfold loadOp; split <;> rfl
    exact ⟨⟨_, Wrote.emitWith ht _ hop f.slot, fun _ _ => .field⟩, fun _ => rfl, by simp⟩
  | constant v =>
    obtain ⟨rfl, js, hw, hpush⟩ := push_written ht h
    exact ⟨⟨js, hw, fun T hT => .constant (hpush T hT)⟩, fun _ => rfl, by simp⟩
  | value q =>
    obtain ⟨rfl, rfl⟩ := Returns.pure_iff.mp h
    exact ⟨⟨[], Wrote.refl ht, fun _ _ => .value⟩, fun hq => (hq q rfl).elim, by simp⟩
  | methods | type | space | this => simp at h

/-- The value of an expression is pushed behind the code of what it means. -/
theorem Meant.materialize (hm : Meant site locals .value e s t m)
    (h : Returns (Compile.materialize site m sp) t p u) : Valued site locals e s u p := by
  obtain ⟨is, hw, hmeans, hstart, -, hnil⟩ := hm
  obtain ⟨⟨js, hj, hmat⟩, hother, hvalue⟩ := materialize_written hw.sound h
  refine ⟨is ++ js, hw.trans hj, fun T hT => ⟨hmeans T (hj.grew.within hT), hmat T hT⟩, ?_⟩
  by_cases hq : ∃ q, m = .value q
  · obtain ⟨q, rfl⟩ := hq
    rw [hvalue q rfl]
    exact hstart
  · have hpushed : isPushed m = false := by
      cases m with
      | value q => exact (hq ⟨q, rfl⟩).elim
      | methods => simp [Compile.materialize, Returns.bind_iff] at h
      | _ => rfl
    have := hw.offset
    rw [hother fun q hm => hq ⟨q, hm⟩, this, hnil hpushed]
    rfl

/-! ## Names -/

theorem isLookup_pure {α : Type} (a : α) : Returns.IsLookup (pure a : Compiling α) := .inl ⟨a, rfl⟩

theorem isLookup_fail {α : Type} (f : SemanticFault) (sp : Span) :
    Returns.IsLookup (fail f sp : Compiling α) := .inr ⟨_, rfl⟩

theorem isLookup_checkAccess (site : Site) (owner : Nat) (v : Visibility) (name : String) (sp : Span) :
    Returns.IsLookup (checkAccess site owner v name sp) := by
  unfold checkAccess
  split
  · exact isLookup_fail _ _
  · exact isLookup_pure _

theorem checkAccess_returns {owner : Nat} {v : Visibility} {name : String} {x : Unit}
    (h : Returns (checkAccess site owner v name sp) s x t) :
    (owner = site.cls ∨ v.isOwnClassOnly = false) ∧ s = t := by
  unfold checkAccess at h
  split at h
  · simp at h
  · next hc =>
    obtain ⟨-, rfl⟩ := Returns.pure_iff.mp h
    refine ⟨?_, rfl⟩
    by_cases ho : owner = site.cls
    · exact .inl ho
    · exact .inr (by simpa [ho] using hc)

theorem isLookup_this : Returns.IsLookup (thisMeaning site sp) := by
  unfold thisMeaning
  split
  · exact isLookup_fail _ _
  · exact isLookup_pure _

theorem isLookup_outer (name : Ident) : Returns.IsLookup (outerMeaning site name) := by
  unfold outerMeaning
  repeat' split
  all_goals first | exact isLookup_pure _ | exact isLookup_fail _ _

theorem isLookup_name (name : Ident) : Returns.IsLookup (nameMeaning site locals name) := by
  unfold nameMeaning
  repeat' split
  all_goals first | exact isLookup_pure _ | exact isLookup_fail _ _ | exact isLookup_outer _

theorem isLookup_placeOf : Returns.IsLookup (placeOf site m sp) := by
  unfold placeOf
  repeat' split
  all_goals first | exact isLookup_pure _ | exact isLookup_fail _ _

/-- Members of what is no value are looked up. -/
theorem isLookup_member (hm : isName m = true) (name : Ident) :
    Returns.IsLookup (memberMeaning site m sp name) := by
  cases m with
  | space n =>
    simp only [memberMeaning, spaceMember]
    repeat' split
    all_goals first | exact isLookup_pure _ | exact isLookup_fail _ _
  | type c =>
    cases c with
    | script i =>
      simp only [memberMeaning, scriptMember]
      split
      · obtain ⟨a, ha⟩ | ⟨e, he⟩ := isLookup_checkAccess site i _ _ _
        · rw [ha]
          simp only [pure_bind]
          split
          · exact isLookup_pure _
          · exact isLookup_fail _ _
        · rw [he]
          exact .inr ⟨e, rfl⟩
      · split
        · exact isLookup_pure _
        · exact isLookup_fail _ _
    | native c =>
      simp only [memberMeaning, libraryMember]
      repeat' split
      all_goals first | exact isLookup_pure _ | exact isLookup_fail _ _
  | this =>
    simp only [memberMeaning, thisMember]
    repeat' split
    all_goals first | exact isLookup_pure _ | exact isLookup_fail _ _
  | _ => simp [isName] at hm

/-! ## Library classes -/

theorem mem_of_findClass? {s : Symbols} {name : String} {c : NativeClass}
    (h : s.findClass? name = some (.native c)) : ∃ l ∈ s.libraries, c ∈ l.classes := by
  unfold Symbols.findClass? at h
  split at h
  · simp at h
  · obtain ⟨d, hd, hc⟩ := Option.map_eq_some_iff.mp h
    cases hc
    obtain ⟨l, hl, hfind⟩ := List.exists_of_findSome?_eq_some hd
    exact ⟨l, hl, List.mem_of_find?_eq_some hfind⟩

theorem mem_of_keywordClass? {s : Symbols} {type : ValueType} {c : NativeClass}
    (h : s.keywordClass? type = some c) :
    ∃ l ∈ s.libraries, c ∈ l.classes ∧ c.keyword = some type := by
  obtain ⟨l, hl, hfind⟩ := List.exists_of_findSome?_eq_some h
  exact ⟨l, hl, List.mem_of_find?_eq_some hfind, by simpa using List.find?_some hfind⟩

theorem mem_of_lookupClass? {s : Symbols} {owner : ClassSymbol} {name : String} {c : NativeClass}
    (h : s.lookupClass? owner name = some (.native c)) : ∃ l ∈ s.libraries, c ∈ l.classes := by
  unfold Symbols.lookupClass? at h
  split at h
  · next found hfound =>
    cases h
    obtain ⟨n, -, hn⟩ := List.exists_of_findSome?_eq_some hfound
    exact mem_of_findClass? hn
  · split at h
    · simp at h
    · obtain ⟨u, -, hu⟩ := List.exists_of_findSome?_eq_some h
      exact mem_of_findClass? hu

theorem known_name {name : Ident} (h : Returns (nameMeaning site locals name) s m t) :
    Known site.symbols.libraries m ∧ isPushed m = false := by
  unfold nameMeaning at h
  split at h
  · obtain ⟨rfl, -⟩ := Returns.pure_iff.mp h
    exact ⟨trivial, rfl⟩
  · split at h
    · split at h
      · simp at h
      · obtain ⟨rfl, -⟩ := Returns.pure_iff.mp h
        exact ⟨trivial, rfl⟩
    · split at h
      · obtain ⟨rfl, -⟩ := Returns.pure_iff.mp h
        exact ⟨trivial, rfl⟩
      · unfold outerMeaning at h
        split at h
        · next c hc =>
          obtain ⟨rfl, -⟩ := Returns.pure_iff.mp h
          refine ⟨?_, rfl⟩
          cases c with
          | script i => trivial
          | native c => exact mem_of_lookupClass? hc
        · split at h
          · obtain ⟨rfl, -⟩ := Returns.pure_iff.mp h
            exact ⟨trivial, rfl⟩
          · split at h
            · next c hc =>
              obtain ⟨rfl, -⟩ := Returns.pure_iff.mp h
              refine ⟨?_, rfl⟩
              unfold keywordMeaning? at hc
              obtain ⟨type, -, hc⟩ := Option.bind_eq_some_iff.mp hc
              split at hc
              · simp at hc
              · obtain ⟨l, hl, hmem, -⟩ := mem_of_keywordClass? hc
                exact ⟨l, hl, hmem⟩
            · simp at h

theorem known_member {object : Meaning} {name : Ident} (hobject : isName object = true)
    (hknown : Known site.symbols.libraries object)
    (h : Returns (memberMeaning site object sp name) s m t) :
    Known site.symbols.libraries m ∧ isPushed m = false := by
  cases object with
  | space n =>
    simp only [memberMeaning, spaceMember] at h
    split at h
    · next c hc =>
      obtain ⟨rfl, -⟩ := Returns.pure_iff.mp h
      refine ⟨?_, rfl⟩
      cases c with
      | script i => trivial
      | native c => exact mem_of_findClass? hc
    · split at h
      · obtain ⟨rfl, -⟩ := Returns.pure_iff.mp h
        exact ⟨trivial, rfl⟩
      · simp at h
  | type c =>
    cases c with
    | script i =>
      simp only [memberMeaning, scriptMember] at h
      split at h
      · obtain ⟨_, _, -, h⟩ := Returns.bind h
        split at h
        · obtain ⟨rfl, -⟩ := Returns.pure_iff.mp h
          exact ⟨trivial, rfl⟩
        · simp at h
      · split at h
        · obtain ⟨rfl, -⟩ := Returns.pure_iff.mp h
          exact ⟨trivial, rfl⟩
        · simp at h
    | native c =>
      simp only [memberMeaning, libraryMember] at h
      repeat' split at h
      all_goals
        try simp at h
      all_goals
        obtain ⟨rfl, -⟩ := h
        first | exact ⟨trivial, rfl⟩ | exact ⟨hknown, rfl⟩
  | this =>
    simp only [memberMeaning, thisMember] at h
    repeat' split at h
    all_goals
      try simp at h
    all_goals
      obtain ⟨rfl, -⟩ := h
      exact ⟨trivial, rfl⟩
  | _ => simp [isName] at hobject

theorem startsAt_of_not_pushed {o : Nat} (h : isPushed m = false) : StartsAt o m := by
  cases m with
  | value => simp [isPushed] at h
  | methods c => cases c <;> simp_all [isPushed, StartsAt]
  | _ => trivial

end ClassScript.Layout
