import ClassScript.Proofs.Simulation.Instruction

/-!
Operators, conversions and arguments do what actions say.

A known value is computed while the code is written, always with checks. What can be computed so is
computed alike without them, so nothing is lost when the code of the operands is dropped.
-/

namespace ClassScript

open Code (Instruction)
open Compile Flow

/-! ## Known values -/

theorem Arith.onBits_known {a : Arith} {bits : Nat} {x y n : Int}
    (h : a.onBits true bits x y = .ok n) (checked : Bool) : a.onBits checked bits x y = .ok n := by
  cases checked with
  | true => exact h
  | false =>
    unfold Arith.onBits at h ⊢
    split at h
    · cases h
    · next hzero =>
      split at h
      · cases h
      · next hfits =>
        rw [if_neg hzero, if_neg]
        · exact h
        · intro hover
          unfold Arith.overflows at hover hfits
          split at hover <;> simp_all

namespace Opcode

theorem evalBinary_known {op : Opcode} {l r v : Value} (h : op.evalBinary true l r = .ok v)
    (checked : Bool) : op.evalBinary checked l r = .ok v := by
  have known {a : Arith} {bits : Nat} {x y : Int} {f : Int → Value}
      (h : (a.onBits true bits x y).map f = .ok v) :
      (a.onBits checked bits x y).map f = .ok v := by
    cases hn : a.onBits true bits x y with
    | error e => simp [hn, Except.map] at h
    | ok n => rwa [Arith.onBits_known hn, ← hn]
  unfold Opcode.evalBinary at h ⊢
  dsimp only at h ⊢
  split at h
  all_goals first | exact known h | exact h

theorem evalUnary_known {op : Opcode} {u v : Value} (h : op.evalUnary true u = .ok v)
    (checked : Bool) : op.evalUnary checked u = .ok v := by
  cases checked with
  | true => exact h
  | false =>
    unfold Opcode.evalUnary at h ⊢
    split at h
    all_goals first | exact h | skip
    all_goals
      split at h
      · cases h
      · exact h

end Opcode

theorem Value.widen_known {v w : Value} {t : ValueType} {op : Opcode}
    (h : Conversion.implicit? v.type t = some (.widen op)) (hw : v.convert? t = some w)
    (checked : Bool) : op.evalUnary checked v = .ok w := by
  cases v <;> cases t <;> cases h <;> cases hw <;> rfl

theorem Value.keep_known {v w : Value} {t : ValueType}
    (h : Conversion.implicit? v.type t = some .identity) (hw : v.convert? t = some w) : v = w := by
  cases v <;> cases t <;> cases h <;> cases hw <;> rfl

namespace Source

variable {K : Surroundings} {v w x : Value}

@[simp] theorem apply_none : apply K none v = pure v := rfl

theorem apply_known {op : Opcode} (h : op.evalUnary true v = .ok w) :
    apply K (some op) v = pure w := by
  change Action.compute (op.evalUnary K.checked v) = _
  rw [Opcode.evalUnary_known h]
  rfl

theorem widen_known {type : ValueType} (h : v.type.convertsTo type = true)
    (hw : v.convert? type = some w) : widen K v.type type v = pure w := by
  obtain ⟨c, hc⟩ := Option.isSome_iff_exists.mp h
  unfold widen Conversion.widening?
  rw [hc]
  cases c with
  | identity => exact congrArg pure (Value.keep_known hc hw)
  | widen op =>
    change Action.compute (op.evalUnary K.checked v) = _
    rw [Value.widen_known hc hw]
    rfl

theorem operate_known {plan : BinaryPlan} (hv : apply K plan.left v = pure w) {u y z : Value}
    (hu : apply K plan.right u = pure y) (hz : plan.op.evalBinary true w y = .ok z) :
    operate K plan (pure v) (pure u) = pure z := by
  simp only [operate, pure_bind, hv, hu, Opcode.evalBinary_known hz, Action.compute_ok]

theorem logical_known (op : BinaryOp) (x y : Bool) :
    logical op (pure (.bool x)) (pure (.bool y)) = pure (.bool (logicalValue op x y)) := by
  simp only [logical, pure_bind, Action.truth_bool, logicalValue]
  by_cases hop : op = .logicalAnd <;> cases x <;> simp [hop]

theorem choose_known {c : Bool} {type : ValueType} (hv : v.type.convertsTo type = true)
    (hw : w.type.convertsTo type = true) (hx : (if c then v else w).convert? type = some x) :
    choose (pure (.bool c)) (pure v >>= widen K v.type type) (pure w >>= widen K w.type type) =
      pure x := by
  simp only [choose, test, pure_bind, Action.truth_bool]
  cases c with
  | true => exact widen_known hv hx
  | false => exact widen_known hw hx

end Source

namespace Machine

variable {p : Program} {n : Nat} {m : Machine} {σ α : Type} [Lasting σ]
  {post : α → σ → Machine → Prop} {r : Option (Except Fault α × σ)}

/-- What is known of every answer is known where the machine comes to. -/
theorem Does.and {P : α → Prop} (h : Does p n m post r)
    (hP : ∀ x t, r = some (.ok x, t) → P x) : Does p n m (fun x t m' => P x ∧ post x t m') r := by
  cases h with
  | endless h => exact .endless h
  | comes h hpost => exact .comes h ⟨hP _ _ rfl, hpost⟩
  | fails h he hheap => exact .fails h he hheap

end Machine

def Action.Answers {σ α : Type} (P : α → Prop) (a : Action σ α) : Prop :=
  ∀ s x t, a.on s = some (.ok x, t) → P x

theorem Action.Answers.pure {σ α : Type} {P : α → Prop} {x : α} (h : P x) :
    (Pure.pure x : Action σ α).Answers P := by
  intro s y t hy
  cases hy
  exact h

theorem Action.Answers.bind {σ α β : Type} {P : β → Prop} {a : Action σ α} {f : α → Action σ β}
    (h : ∀ x, (f x).Answers P) : (a >>= f).Answers P := by
  intro s y t hy
  rw [Action.on_bind] at hy
  obtain ⟨⟨r, u⟩, -, hr⟩ := Option.bind_eq_some_iff.mp hy
  cases r with
  | ok x => exact h x u y t hr
  | error e => cases hr

namespace Activation.Performs

variable {A : Activation} {n : Nat} {is js ks : Asm} {α β : Type} {before : List Value}
  {after mid : α → List Value} {after' : β → List Value} {K : Source.Surroundings}
  {T : Tables} {v : Value}

/-! ## More ways to put code together -/

/-- Code behind an action whose answers have a property. -/
theorem bindKnowing {a : Action Store α} {f : α → Action Store β} {P : α → Prop}
    (h : A.Performs n is before a mid) (ha : a.Answers P)
    (hf : ∀ x, P x → A.Performs n js (mid x) (f x) after') :
    A.Performs n (is ++ js) before (a >>= f) after' := by
  intro ip stack s hhas
  obtain ⟨hi, hj⟩ := has_append.mp hhas
  refine ((h ip stack s hi).and (ha s)).bind fun x t m hm => ?_
  obtain ⟨hx, rfl⟩ := hm
  rw [Asm.size_append, ← Nat.add_assoc]
  exact hf x hx _ stack t hj

/-- An answer is made into another one without code. -/
theorem returns {a : Action Store α} (h : A.Performs n is before a mid) (g : α → β)
    (after' : β → List Value) (hg : ∀ x, mid x = after' (g x)) :
    A.Performs n is before (a >>= fun x => pure (g x)) after' := by
  have hdone (x : α) : A.Performs n [] (mid x) (pure (g x)) after' := hg x ▸ .nil after' (g x)
  have := h.bind hdone
  rwa [List.append_nil] at this

/-- Code that only pushes a known value. -/
theorem silent {x : α} (h : A.Performs n is before (pure x) after) :
    A.Performs n is before (pure ()) fun _ => after x := by
  intro ip stack s hhas
  have hdoes := h ip stack s hhas
  rw [Action.on_pure] at hdoes
  cases hdoes with
  | comes hto hm => exact .comes hto hm

/-- Code that only moves the stack in front of other code. -/
theorem front {mid : List Value} {a : Action Store α} (h : A.Performs n is before (pure ()) fun _ => mid)
    (ha : A.Performs n js mid a after) : A.Performs n (is ++ js) before a after :=
  (h.bind fun _ => ha).leaves (by simp) fun _ => rfl

/-! ## Conversions -/

theorem converted (hK : K.checked = A.program.image.checked) {t u : ValueType} {code : Option Opcode}
    (h : Turns t u code) (v : Value) :
    A.Performs n (Layout.converted code) [v] (Source.apply K code v) fun w => [w] := by
  cases code with
  | none => exact .nil (fun w => [w]) v
  | some op =>
    have := Performs.unary (A := A) (n := n) (v := v) h
    rwa [← hK] at this

/-- A value and its conversion. -/
theorem turns {a : Action Store Value} (hK : K.checked = A.program.image.checked)
    {t u : ValueType} {code : Option Opcode} (ha : A.Performs n is [] a fun v => [v])
    (h : Turns t u code) :
    A.Performs n (is ++ Layout.converted code) [] (a >>= Source.apply K code) fun w => [w] :=
  ha.bind (.converted hK h)

/-! ## Operators -/

theorem operate {a b : Action Store Value} (hK : K.checked = A.program.image.checked)
    {plan : BinaryPlan} {t u : ValueType} (h : PlanTyped plan t u)
    (ha : A.Performs n is [] a fun v => [v]) (hb : A.Performs n js [] b fun v => [v]) :
    A.Performs n (is ++ Layout.converted plan.left ++ (js ++ Layout.converted plan.right) ++
      [.plain plan.op]) [] (Source.operate K plan a b) fun w => [w] := by
  rw [List.append_assoc]
  refine (ha.turns hK h.left).bind fun l => ?_
  refine ((hb.turns hK h.right).above [l]).bind fun r => ?_
  have := Performs.binary (A := A) (n := n) (w := r) (v := l) h.op
  rwa [← hK] at this

theorem logical {a b : Action Store Value} (op : BinaryOp) (ha : A.Performs n is [] a fun v => [v])
    (hb : A.Performs n js [] b fun v => [v]) :
    A.Performs n (is ++ .plain .dup ::
        .unary (if op = .logicalAnd then .jumpIfFalse else .jumpIfTrue) (1 + js.size) ::
        .plain .pop :: js) [] (Source.logical op a b) fun w => [w] :=
  ha.bind fun l => .shortCircuit hb l

theorem choose {c : Action Store Value} {a b : Action Store α} (hc : A.Performs n is [] c fun v => [v])
    (ha : A.Performs n js [] a after) (hb : A.Performs n ks [] b after) :
    A.Performs n (is ++ .unary .jumpIfFalse (js.size + 3) :: js ++ .unary .jump ks.size :: ks) []
      (Source.choose c a b) after := by
  have := hc.bind (f := fun v => Action.truth .jumpIfFalse v >>= fun b' => if b' then a else b)
    fun v => .choice ha hb v
  simpa [Source.choose, Source.test] using this

/-! ## Places -/

/-- A value is stored, and a copy of it kept if it is wanted. -/
theorem keepStoring {place : Place} (hplace : place.type ≠ .void) (use : Use) (v : Value) :
    A.Performs n (Layout.kept (use != .discarded) ++ [Layout.storing place]) [v]
      (Source.write place v >>= fun _ => pure v) (left (storedType use place.type)) := by
  by_cases huse : use = .discarded
  · subst huse
    exact (Performs.storing place v).returns _ _ fun _ => rfl
  · have hwanted : (use != .discarded) = true := bne_iff_ne.mpr huse
    rw [hwanted, storedType, if_neg huse]
    exact Performs.dup.front (((Performs.storing place v).above [v]).returns _ _ fun _ =>
      (left_of_ne hplace v).symm)

theorem assign {a : Action Store Value} {place : Place} (hplace : place.type ≠ .void) (use : Use)
    (ha : A.Performs n is [] a fun v => [v]) :
    A.Performs n (is ++ Layout.kept (use != .discarded) ++ [Layout.storing place]) []
      (Source.assign place a) (left (storedType use place.type)) := by
  rw [List.append_assoc]
  exact ha.bind fun v => .keepStoring hplace use v

theorem counting (hK : K.checked = A.program.image.checked)
    (hT : T.constants = A.program.image.constants) {place : Place} (hplace : place.type ≠ .void)
    (hn : place.type.isNumeric = true) (hjs : Pushes T (one place.type) js) (up front : Bool)
    (use : Use) :
    A.Performs n (Layout.counting place up front use js) [] (Source.count K place up front)
      (left (storedType use place.type)) := by
  have hstep (old : Value) : A.Performs n (js ++ [.plain (stepOp place.type up)]) [old]
      (.compute ((stepOp place.type up).evalBinary K.checked old (one place.type)))
      fun w => [w] := by
    have hone := (Performs.pushes (n := n) hT hjs).silent.above [old]
    rw [type_one hn, left_of_ne hplace] at hone
    have hop := Performs.binary (A := A) (n := n) (w := one place.type) (v := old)
      (stepOp_typed up hn)
    rw [← hK] at hop
    exact hone.front hop
  cases front with
  | true =>
    have := (Performs.loading (A := A) (n := n) place).bind fun old =>
      (hstep old).bind fun new => .keepStoring hplace use new
    simpa [Layout.counting, Layout.kept, Source.count] using this
  | false =>
    by_cases huse : use = .discarded
    · subst huse
      have := (Performs.loading (A := A) (n := n) place).bind fun old =>
        (hstep old).bind fun new => (Performs.storing place new).returns
          (fun _ => old) (left .void) fun _ => rfl
      simpa [Layout.counting, Layout.kept, Source.count, storedType] using this
    · have hwanted : (use != .discarded) = true := bne_iff_ne.mpr huse
      have := (Performs.loading (A := A) (n := n) place).bind fun old =>
        Performs.dup.front <| ((hstep old).above [old]).bind fun new =>
          ((Performs.storing place new).above [old]).returns
            (fun _ => old) (left place.type) fun _ => (left_of_ne hplace old).symm
      simpa [Layout.counting, Layout.kept, Source.count, storedType, hwanted, huse] using this

/-! ## Arguments -/

/-- Arguments and their conversions, the last one on top. -/
theorem passing (hK : K.checked = A.program.image.checked) {items : List (Asm × Pushed)}
    {values : List (ValueType × Action Store Value)} {params : List ValueType}
    (h : List.Forall₂ (fun x y => y.1 = x.2.type ∧ A.Performs n x.1 [] y.2 (left y.1)) items values)
    (htypes : List.Forall₂ (fun a p => a.convertsTo p = true) (items.map (·.2.type)) params) :
    A.Performs n (Layout.passing items params) [] (Source.pass K values params) List.reverse ∧
      (Source.pass K values params).Answers fun vs => vs.length = params.length := by
  induction h generalizing params with
  | nil =>
    cases htypes
    exact ⟨.nil List.reverse [], .pure rfl⟩
  | @cons x y items values hx _ ih =>
    obtain ⟨is, p⟩ := x
    obtain ⟨type, a⟩ := y
    obtain ⟨rfl, ha⟩ := hx
    cases htypes with
    | @cons _ t _ params hconverts hrest =>
      obtain ⟨hturns, hvalue, -⟩ := widening_turns hconverts
      obtain ⟨hperforms, hlength⟩ := ih hrest
      replace ha := ha.leaves rfl fun v => left_of_ne hvalue v
      constructor
      · refine (ha.turns hK hturns).bind fun v => (hperforms.above [v]).returns _ _ fun vs => ?_
        exact List.reverse_cons.symm
      · exact .bind fun v s vs t hvs => by
          rw [Action.on_bind] at hvs
          obtain ⟨⟨r, u⟩, hr, hvs⟩ := Option.bind_eq_some_iff.mp hvs
          cases r with
          | error e => cases hvs
          | ok ws =>
            cases hvs
            exact congrArg (· + 1) (hlength s ws _ hr)

end Activation.Performs

end ClassScript
