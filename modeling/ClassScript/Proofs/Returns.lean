import ClassScript.Compile.Statement

/-!
What it means that compiling succeeds.

`Returns x s a t` tells that `x` succeeds from the state `s` with the answer `a` in the state `t`.
Every step of the compiler has one equation for it, so a successful run is taken apart by rewriting.
-/

namespace ClassScript

/-- Compiling succeeds from `s` with an answer, in the state `t`. -/
def Returns {α : Type} (x : Compiling α) (s : CodeState) (a : α) (t : CodeState) : Prop :=
  (ExceptT.run x).run s = (.ok a, t)

namespace Returns

variable {α β : Type} {s t : CodeState}

theorem bind_iff {x : Compiling α} {f : α → Compiling β} {b : β} :
    Returns (x >>= f) s b t ↔ ∃ a u, Returns x s a u ∧ Returns (f a) u b t := by
  unfold Returns
  rw [ExceptT.run_bind]
  constructor
  · intro h
    cases hx : (ExceptT.run x).run s with
    | mk r u =>
      rw [StateT.run_bind, hx] at h
      cases r with
      | ok a => exact ⟨a, u, rfl, h⟩
      | error e => cases h
  · rintro ⟨a, u, hx, hf⟩
    rw [StateT.run_bind, hx]
    exact hf

theorem bind {x : Compiling α} {f : α → Compiling β} {b : β} (h : Returns (x >>= f) s b t) :
    ∃ a u, Returns x s a u ∧ Returns (f a) u b t := bind_iff.mp h

theorem andThen {x : Compiling α} {f : α → Compiling β} {u : CodeState} {a : α} {b : β}
    (hx : Returns x s a u) (hf : Returns (f a) u b t) : Returns (x >>= f) s b t :=
  bind_iff.mpr ⟨a, u, hx, hf⟩

@[simp] theorem pure_iff {a b : α} : Returns (pure a) s b t ↔ a = b ∧ s = t := by
  constructor
  · intro h; cases h; exact ⟨rfl, rfl⟩
  · rintro ⟨rfl, rfl⟩; rfl

theorem pure {a : α} : Returns (Pure.pure a) s a s := rfl

@[simp] theorem throw_iff {e : SemanticError} {b : α} :
    Returns (throw e : Compiling α) s b t ↔ False := by
  constructor
  · intro h; cases h
  · exact False.elim

@[simp] theorem fail_iff {f : SemanticFault} {sp : Span} {b : α} :
    Returns (Compile.fail f sp : Compiling α) s b t ↔ False := throw_iff

@[simp] theorem edit_iff {f : Emitter → Emitter} {u : Unit} :
    Returns (Compile.edit f) s u t ↔ t = ⟨f s.emitter, s.imports⟩ := by
  constructor
  · intro h; cases h; rfl
  · rintro rfl; rfl

@[simp] theorem offset_iff {n : Nat} :
    Returns Compile.offset s n t ↔ n = s.emitter.offset ∧ t = s := by
  constructor
  · intro h; cases h; exact ⟨rfl, rfl⟩
  · rintro ⟨rfl, rfl⟩; rfl

@[simp] theorem emit_iff {op : Opcode} {u : Unit} :
    Returns (Compile.emit op) s u t ↔ t = ⟨s.emitter.emit op, s.imports⟩ := edit_iff

@[simp] theorem emitWith_iff {op : Opcode} {n : Nat} {u : Unit} :
    Returns (Compile.emitWith op n) s u t ↔ t = ⟨s.emitter.emitWith op n, s.imports⟩ := edit_iff

@[simp] theorem emitValue_iff {v : Value} {u : Unit} :
    Returns (Compile.emitValue v) s u t ↔ t = ⟨s.emitter.emitValue v, s.imports⟩ := edit_iff

@[simp] theorem land_iff {label : Nat} {u : Unit} :
    Returns (Compile.land label) s u t ↔ t = ⟨s.emitter.land label, s.imports⟩ := edit_iff

@[simp] theorem jump_iff {op : Opcode} {label : Nat} :
    Returns (Compile.jump op) s label t ↔
      label = (s.emitter.emitJump op).1 ∧ t = ⟨(s.emitter.emitJump op).2, s.imports⟩ := by
  constructor
  · intro h; cases h; exact ⟨rfl, rfl⟩
  · rintro ⟨rfl, rfl⟩; rfl

@[simp] theorem cut_iff {start : Nat} {code : Code} :
    Returns (Compile.cut start) s code t ↔
      code = (s.emitter.cut start).1 ∧ t = ⟨(s.emitter.cut start).2, s.imports⟩ := by
  constructor
  · intro h; cases h; exact ⟨rfl, rfl⟩
  · rintro ⟨rfl, rfl⟩; rfl

@[simp] theorem discard_iff {x : Compiling α} {u : Unit} :
    Returns (discard x) s u t ↔ ∃ a, Returns x s a t := by
  have h : (discard x : Compiling Unit) = x >>= fun _ => Pure.pure () := rfl
  rw [h, bind_iff]
  constructor
  · rintro ⟨a, v, hx, hp⟩
    obtain ⟨-, rfl⟩ := pure_iff.mp hp
    exact ⟨a, hx⟩
  · rintro ⟨a, hx⟩
    exact ⟨a, t, hx, pure_iff.mpr ⟨rfl, rfl⟩⟩

theorem fold_iff {r : Except EvalError Value} {sp : Span} {v : Value} :
    Returns (Compile.fold r sp) s v t ↔ r = .ok v ∧ s = t := by
  unfold Compile.fold
  cases r <;> simp

theorem enter_iff {depth levels : Nat} {sp : Span} {k : Nat → Compiling α} {a : α} :
    Returns (Compile.enter depth levels sp k) s a t ↔
      depth + levels ≤ Compile.maxDepth ∧ Returns (k (depth + levels)) s a t := by
  unfold Compile.enter
  split
  · simp only [fail_iff, false_iff, not_and]; intro h; omega
  · simp only [iff_and_self]; intro; omega

/-- A step that is taken only sometimes, in front of others. -/
theorem when_iff {c : Prop} [Decidable c] {x : Compiling Unit} {f : Unit → Compiling β} {b : β} :
    Returns (if c then x >>= f else f ()) s b t ↔
      ∃ u, Returns (if c then x else Pure.pure ()) s () u ∧ Returns (f ()) u b t := by
  split
  · exact bind_iff.trans ⟨fun ⟨_, u, h⟩ => ⟨u, h⟩, fun ⟨u, h⟩ => ⟨(), u, h⟩⟩
  · constructor
    · intro h
      exact ⟨s, pure, h⟩
    · rintro ⟨u, hu, h⟩
      obtain ⟨-, rfl⟩ := pure_iff.mp hu
      exact h

/-- A look-up writes nothing: it is an answer or a failure. -/
def IsLookup (x : Compiling α) : Prop := (∃ a, x = Pure.pure a) ∨ ∃ e, x = throw e

theorem IsLookup.eq {x : Compiling α} (hx : IsLookup x) {a : α} (h : Returns x s a t) :
    x = Pure.pure a ∧ s = t := by
  obtain ⟨b, rfl⟩ | ⟨e, rfl⟩ := hx
  · obtain ⟨rfl, rfl⟩ := pure_iff.mp h
    exact ⟨rfl, rfl⟩
  · exact (throw_iff.mp h).elim

end Returns
end ClassScript
