import ClassScript.Proofs.Flow.State
import ClassScript.Proofs.Layout.Operation
import ClassScript.Proofs.Overload
import Mathlib.Data.List.Forall2

/-!
The types that the instructions of expressions are chosen for.

Conversions, plans of operators and overloads are chosen by the types of operands. What is chosen
can be executed on operands of these types.
-/

namespace ClassScript.Flow

open Compile

/-! ## Conversions -/

/-- An optional instruction makes a value of one type a value of another. -/
def Turns (a b : ValueType) : Option Opcode → Prop
  | none => a = b
  | some op => op.unaryType? a = some b

theorem implicit_turns {a b : ValueType} {c : Conversion}
    (h : Conversion.implicit? a b = some c) : Turns a b c.op? ∧ a ≠ .void ∧ b ≠ .void := by
  cases a <;> cases b <;> simp [Conversion.implicit?] at h <;> subst h <;>
    exact ⟨rfl, by decide, by decide⟩

theorem widening_turns {a b : ValueType} (h : a.convertsTo b = true) :
    Turns a b (Conversion.widening? a b) ∧ a ≠ .void ∧ b ≠ .void := by
  obtain ⟨c, hc⟩ := Option.isSome_iff_exists.mp h
  have := implicit_turns hc
  rwa [Conversion.widening?, hc]

theorem type_of_convert? {v w : Value} {t : ValueType} (h : v.convert? t = some w) :
    w.type = t := by
  unfold Value.convert? at h
  split at h
  · cases h; rfl
  · cases h; rfl
  · cases h; rfl
  · split at h
    · next ht => cases h; exact ht
    · cases h

/-! ## Operators -/

theorem numeric_typed {op : BinaryOp} {t : ValueType} {code : Opcode}
    (h : op.numeric? t = some code) :
    code.binaryType? t t = some (if op.isComparison then .bool else t) := by
  cases t <;> cases op <;> cases h <;> rfl

structure PlanTyped (plan : BinaryPlan) (a b : ValueType) : Prop where
  left : Turns a plan.operand plan.left
  right : Turns b plan.operand plan.right
  op : plan.op.binaryType? plan.operand plan.operand = some plan.result
  leftValue : a ≠ .void
  rightValue : b ≠ .void

theorem promotion_converts {a b c : ValueType} (h : a.promotion? b = some c) :
    a.convertsTo c = true ∧ b.convertsTo c = true := by
  cases a <;> cases b <;> cases h <;> exact ⟨rfl, rfl⟩

theorem widening_typed {a b c r : ValueType} {code : Opcode} (ha : a.convertsTo c = true)
    (hb : b.convertsTo c = true) (hcode : code.binaryType? c c = some r) :
    PlanTyped (.widening a b c code r) a b := by
  obtain ⟨hl, hav, -⟩ := widening_turns ha
  obtain ⟨hr, hbv, -⟩ := widening_turns hb
  exact ⟨hl, hr, hcode, hav, hbv⟩

theorem equality_converts {a b c : ValueType} (ha : a ≠ .void)
    (h : a.equalityType? b = some c) : a.convertsTo c = true ∧ b.convertsTo c = true := by
  unfold ValueType.equalityType? at h
  split at h
  · next t ht =>
    cases h
    exact promotion_converts ht
  · split at h
    · next hab =>
      cases h
      subst hab
      cases a <;> first | exact (ha rfl).elim | exact ⟨rfl, rfl⟩
    · cases h

theorem equality_typed {c : ValueType} {code : Opcode} (hcode : code = .eq ∨ code = .ne)
    (hc : c ≠ .void) : code.binaryType? c c = some .bool := by
  obtain rfl | rfl := hcode <;> cases c <;> first | exact (hc rfl).elim | rfl

theorem joining_typed {a b : ValueType} (ha : a ≠ .void) (hb : b ≠ .void) :
    PlanTyped (.joining a b) a b := by
  have turns {t : ValueType} (ht : t ≠ .void) :
      Turns t .string (if t = .string then none else some .toStr) := by
    cases t <;> first | exact (ht rfl).elim | rfl
  exact ⟨turns ha, turns hb, rfl, ha, hb⟩

/-- A plan is chosen for the types of the operands. -/
theorem plan_typed {op : BinaryOp} {a b : ValueType} {plan : BinaryPlan}
    (h : op.plan? a b = some plan) : PlanTyped plan a b := by
  unfold BinaryOp.plan? at h
  split at h
  · cases h
  · next hvoid =>
    have ha : a ≠ .void := by rintro rfl; exact hvoid rfl
    have hb : b ≠ .void := by rintro rfl; exact hvoid (by simp [ValueType.isVoid])
    have equality {code : Opcode} (hcode : code = .eq ∨ code = .ne)
        (hp : ((a.equalityType? b).map fun t => BinaryPlan.widening a b t code .bool) =
          some plan) : PlanTyped plan a b := by
      obtain ⟨c, hc, rfl⟩ := Option.map_eq_some_iff.mp hp
      obtain ⟨hl, hr⟩ := equality_converts ha hc
      exact widening_typed hl hr (equality_typed hcode (widening_turns hl).2.2)
    split at h
    · cases h
    · cases h
    · exact equality (.inl rfl) h
    · exact equality (.inr rfl) h
    · split at h
      · cases h
        exact joining_typed ha hb
      · simp only [Option.bind_eq_bind, Option.bind_eq_some_iff] at h
        obtain ⟨c, hc, code, hcode, hp⟩ := h
        cases hp
        obtain ⟨hl, hr⟩ := promotion_converts hc
        exact widening_typed hl hr (numeric_typed hcode)

theorem void_not_computed {op : Opcode} {a b : ValueType} (h : op.binaryType? a b = some .void) :
    False := by
  cases op <;> simp [Opcode.binaryType?, Opcode.arith?, Opcode.order?] at h

theorem unaryOp_typed {op : UnaryOp} {t : ValueType} {code : Opcode}
    (h : unaryOp? op t = some (some code)) : code.unaryType? t = some t := by
  cases op <;> cases t <;> cases h <;> rfl

theorem stepOp_typed {t : ValueType} (up : Bool) (h : t.isNumeric = true) :
    (stepOp t up).binaryType? t t = some t := by
  cases t <;> cases up <;> first | rfl | cases h

theorem type_one {t : ValueType} (h : t.isNumeric = true) : (one t).type = t := by
  cases t <;> first | rfl | cases h

/-! ## Overloads -/

/-- The candidate that is chosen has a parameter for every argument, and takes it. -/
theorem resolve_spec {candidates : List Overload.Params} {args : List ValueType} {i : Nat}
    (h : Overload.resolve candidates args = .ok i) :
    ∃ p, candidates[i]? = some p ∧ p.length = args.length ∧ Overload.accepts p args = true := by
  obtain ⟨p, hp, hbest⟩ := Overload.best_of_resolve h
  exact ⟨p, hp, hbest.length, hbest.accepts⟩

end ClassScript.Flow
