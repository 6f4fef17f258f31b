import ClassScript.Machine
import ClassScript.Proofs.Flow.State
import Mathlib.Data.List.Forall2

/-!
Values on the stack and in slots.

`Holds strict v t` tells that `v` has the type `t`, if types are kept track of at all. Operands of
the types that an opcode takes give a value of the type it is said to give, and arguments are taken
from the stack, and put into a frame, one for one.
-/

namespace ClassScript

/-! ## Operations -/

/-- A computed value has a type; nothing but the values of its operands makes it fail. -/
def Computes (t : ValueType) : Except EvalError Value → Prop
  | .ok v => v.type = t
  | .error (.typeMismatch _ _) => False
  | .error _ => True

namespace Computes

variable {t : ValueType}

theorem onBits (a : Arith) (checked : Bool) (bits : Nat) (x y : Int) {f : Int → Value}
    (hf : ∀ n, (f n).type = t) : Computes t ((a.onBits checked bits x y).map f) := by
  unfold Arith.onBits
  split
  · exact trivial
  · split
    · exact trivial
    · exact hf _

end Computes

namespace Opcode

theorem evalUnary_computes {op : Opcode} {t t' : ValueType} {v : Value}
    (h : op.unaryType? t = some t') (hv : v.type = t) (checked : Bool) :
    Computes t' (op.evalUnary checked v) := by
  have negated {c : Bool} (w : Value) : Computes w.type (if c then .error .overflow else .ok w) := by
    cases c
    · exact rfl
    · exact trivial
  unfold unaryType? at h
  split at h
  case h_9 =>
    obtain ⟨ht, h⟩ := Option.ite_none_left_eq_some.mp h
    cases h
    have hvalue : v.isVoid = false := by
      subst hv
      cases v <;> first | rfl | exact absurd rfl ht
    simp only [evalUnary, hvalue]
    exact rfl
  case h_8 =>
    cases h
    cases v <;> cases hv
    dsimp only [evalUnary]
    cases fitsSigned 32 _
    · exact trivial
    · exact rfl
  case h_10 => cases h
  all_goals
    cases h
    cases v <;> cases hv
    first
    | exact negated _
    | exact rfl

theorem evalArith_computes {op : Opcode} {t : ValueType} {a : Arith} {x y : Value}
    (ha : op.arith? = some (t, a)) (hx : x.type = t) (hy : y.type = t) (checked : Bool) :
    Computes t (op.evalBinary checked x y) := by
  have ht : t = .int ∨ t = .long ∨ t = .double := by
    cases op <;> simp_all [arith?]
  unfold evalBinary
  obtain rfl | rfl | rfl := ht
  · cases x <;> cases hx
    cases y <;> cases hy
    simp only [ha]
    exact Computes.onBits _ _ _ _ _ fun _ => rfl
  · cases x <;> cases hx
    cases y <;> cases hy
    simp only [ha]
    exact Computes.onBits _ _ _ _ _ fun _ => rfl
  · cases x <;> cases hx
    cases y <;> cases hy
    simp only [ha]
    rfl

theorem evalOrder_computes {op : Opcode} {t : ValueType} {o : Order} {x y : Value}
    (ha : op.arith? = none) (ho : op.order? = some (t, o)) (hx : x.type = t) (hy : y.type = t)
    (checked : Bool) : Computes .bool (op.evalBinary checked x y) := by
  have ht : t = .int ∨ t = .long ∨ t = .double := by
    cases op <;> simp_all [order?]
  unfold evalBinary
  obtain rfl | rfl | rfl := ht
  all_goals
    cases x <;> cases hx
    cases y <;> cases hy
    simp only [ha, ho]
    rfl

theorem evalBinary_computes {op : Opcode} {l r t : ValueType} {x y : Value}
    (h : op.binaryType? l r = some t) (hx : x.type = l) (hy : y.type = r) (checked : Bool) :
    Computes t (op.evalBinary checked x y) := by
  unfold binaryType? at h
  split at h
  · next u a _ ha =>
    obtain ⟨⟨rfl, rfl⟩, h'⟩ := Option.ite_none_right_eq_some.mp h
    cases h'
    exact evalArith_computes ha hx hy checked
  · next u o ha ho =>
    obtain ⟨⟨rfl, rfl⟩, h'⟩ := Option.ite_none_right_eq_some.mp h
    cases h'
    exact evalOrder_computes ha ho hx hy checked
  · next ha ho =>
    have equal {l r : ValueType} {x y : Value} (hlr : l = r ∧ l ≠ .void) (hx : x.type = l)
        (hy : y.type = r) : comparable x y = true := by
      obtain ⟨rfl, hl⟩ := hlr
      subst hx
      simp only [comparable, hy, beq_self_eq_true, Bool.true_and]
      cases x <;> first | rfl | exact absurd rfl hl
    split at h
    · obtain ⟨⟨rfl, rfl⟩, h⟩ := Option.ite_none_right_eq_some.mp h
      cases h
      cases x <;> cases hx
      cases y <;> cases hy
      rfl
    · obtain ⟨hlr, h⟩ := Option.ite_none_right_eq_some.mp h
      cases h
      simp only [evalBinary, ha, ho, if_pos (equal hlr hx hy)]
      rfl
    · obtain ⟨hlr, h⟩ := Option.ite_none_right_eq_some.mp h
      cases h
      simp only [evalBinary, ha, ho, if_pos (equal hlr hx hy)]
      rfl
    · cases h

end Opcode

/-! ## Values and types -/

/-- A value has a type, if types are kept track of. -/
def Holds (strict : Prop) (v : Value) (t : ValueType) : Prop := strict → v.type = t

abbrev HoldsAll (strict : Prop) (vs : List Value) (ts : List ValueType) : Prop :=
  List.Forall₂ (Holds strict) vs ts

namespace HoldsAll

variable {strict : Prop} {vs ws : List Value} {ts us : List ValueType}

theorem types (h : HoldsAll strict vs ts) (hs : strict) : vs.map (·.type) = ts := by
  induction h with
  | nil => rfl
  | cons hv _ ih => rw [List.map_cons, hv hs, ih]

theorem append (h : HoldsAll strict vs ts) (h' : HoldsAll strict ws us) :
    HoldsAll strict (vs ++ ws) (ts ++ us) := List.rel_append h h'

/-- Values of a list of types that is put together are put together likewise. -/
theorem split (h : HoldsAll strict vs (ts ++ us)) :
    ∃ as bs, vs = as ++ bs ∧ HoldsAll strict as ts ∧ HoldsAll strict bs us :=
  ⟨_, _, (List.take_append_drop ts.length vs).symm,
    by simpa using List.forall₂_take_append vs ts us h,
    by simpa using List.forall₂_drop_append vs ts us h⟩

theorem reverse (h : HoldsAll strict vs ts) : HoldsAll strict vs.reverse ts.reverse :=
  List.rel_reverse h

/-- What a method leaves has the type that it returns. -/
theorem returned {v : Value} {t : ValueType} (hv : Holds strict v t) (ht : t ≠ .void) :
    HoldsAll strict [v] (returned t) := by
  have hnot : t.isVoid = false := by cases t <;> first | rfl | exact absurd rfl ht
  rw [ClassScript.returned, hnot]
  exact .cons hv .nil

theorem getD {result : Option Value} {r : ValueType}
    (h : HoldsAll strict result.toList (ClassScript.returned r)) : Holds strict (result.getD .void) r := by
  cases result with
  | none => cases r <;> first | exact fun _ => rfl | cases h
  | some v =>
    cases r <;> cases h <;> assumption

end HoldsAll

/-! ## Arguments -/

namespace Machine

theorem takeArgs_eq_some {n : Nat} {above stack args rest : List Value}
    (h : takeArgs n above stack = some (args, rest)) :
    ∃ taken, stack = taken ++ rest ∧ taken.length = n ∧ args = taken.reverse ++ above := by
  induction n generalizing above stack with
  | zero =>
    cases h
    exact ⟨[], rfl, rfl, rfl⟩
  | succ n ih =>
    cases stack with
    | nil => cases h
    | cons v stack =>
      obtain ⟨taken, rfl, rfl, rfl⟩ := ih h
      exact ⟨v :: taken, rfl, rfl, by simp⟩

theorem takeArgs_append (taken above rest : List Value) :
    takeArgs taken.length above (taken ++ rest) = some (taken.reverse ++ above, rest) := by
  induction taken generalizing above with
  | nil => rfl
  | cons v taken ih =>
    rw [List.length_cons, List.cons_append, takeArgs, ih]
    simp

theorem size_frameLocals {args : List Value} {n : Nat} (h : args.length ≤ n) :
    (frameLocals args n).size = n := by
  simp only [frameLocals, List.size_toArray, List.length_take, List.length_append,
    List.length_replicate]
  omega

theorem getElem?_frameLocals {args : List Value} {n k : Nat} (hk : k < args.length)
    (h : args.length ≤ n) : (frameLocals args n)[k]? = args[k]? := by
  rw [frameLocals, List.getElem?_toArray, List.getElem?_take_of_lt (by omega),
    List.getElem?_append_left hk]

end Machine
end ClassScript
