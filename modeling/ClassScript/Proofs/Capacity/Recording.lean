import ClassScript.Proofs.Capacity.Draft

/-!
Compiling as steps of drafts.

`Recorded p Q` tells that `p`, run on the code of any draft, takes that draft through operations of the
emitter, whether it succeeds or fails, and that what it returns meets `Q`. Every part of the compiler
that writes code has a rule here; only the branches of a conditional, which are cut out and laid down
again, have to look at the draft itself.
-/

namespace ClassScript

open Compile
open Emitter (maxOperand)

/-- Every place in the table is an operand. -/
structure ImportTable.Narrow (t : ImportTable) : Prop where
  placed : t.Placed
  size : t.imports.size ≤ maxOperand + 1

theorem ImportTable.narrow_empty : ImportTable.empty.Narrow where
  placed := placed_empty
  size := Nat.zero_le _

theorem ImportTable.Narrow.add {t : ImportTable} (h : t.Narrow) (f : NativeFunction)
    (r : Option ValueType) : (t.add f r).2.Narrow := ⟨h.placed.add f r, t.size_add_le f r h.size⟩

theorem ImportTable.Narrow.place_le {t : ImportTable} (h : t.Narrow) {f : NativeFunction}
    {r : Option ValueType} {i : Nat} (hi : (t.add f r).1 = some i) : i ≤ maxOperand := by
  obtain ⟨imp, himp, -⟩ := h.placed.of_add hi
  have hlt := (Array.getElem?_eq_some_iff.mp himp).1
  have hsize := (h.add f r).size
  omega

/-- Run on the code of the draft `d`, `p` takes steps from it, and what it returns meets `Q`. -/
inductive Records {α : Type} (d : Draft) (t : ImportTable) (p : Compiling α) (Q : α → Draft → Prop) :
    Prop
  | mk {r : Except SemanticError α} {d' : Draft} {t' : ImportTable}
    (run : (ExceptT.run p).run ⟨d.emitter, t⟩ = (r, ⟨d'.emitter, t'⟩)) (steps : d.Steps d')
    (narrow : t'.Narrow) (post : ∀ a, r = .ok a → Q a d')

def RecordsFrom {α : Type} (d : Draft) (t : ImportTable) (p : Compiling α) (Q : α → Draft → Prop) :
    Prop := d.Spells → t.Narrow → Records d t p Q

/-- From every draft `p` takes steps, and what it returns meets `Q`. -/
def Recorded {α : Type} (p : Compiling α) (Q : α → Prop) : Prop :=
  ∀ d t, RecordsFrom d t p fun a _ => Q a

def Draft.Has (d : Draft) (code : Code) : Prop :=
  ∃ piece ∈ d.removed, code.toList = piece.map Cell.spelled

theorem Draft.Has.steps {d d' : Draft} {code : Code} (h : d.Has code) (hsteps : d.Steps d') :
    d'.Has code := by
  obtain ⟨piece, hpiece, hcode⟩ := h
  exact ⟨piece, removed_subset hsteps hpiece, hcode⟩

namespace RecordsFrom

variable {α β : Type} {d : Draft} {t : ImportTable} {p : Compiling α} {Q Q' : α → Draft → Prop}
  {R : β → Draft → Prop} {sp : Span}

theorem pure {a : α} (h : Q a d) : RecordsFrom d t (Pure.pure a) Q := by
  intro _ ht
  refine ⟨rfl, .refl, ht, fun b hb => ?_⟩
  cases hb
  exact h

theorem throw (e : SemanticError) : RecordsFrom d t (throw e) Q :=
  fun _ ht => ⟨rfl, .refl, ht, fun _ hb => by cases hb⟩

theorem fail (f : SemanticFault) : RecordsFrom d t (Compile.fail f sp) Q := throw _

theorem bind {f : α → Compiling β} (h : RecordsFrom d t p Q)
    (hf : ∀ a d' t', d.Steps d' → Q a d' → RecordsFrom d' t' (f a) R) :
    RecordsFrom d t (p >>= f) R := by
  intro hd ht
  obtain ⟨run, steps, narrow, post⟩ := h hd ht
  rename_i r d' t'
  cases r with
  | error e =>
    have hrun : (ExceptT.run (p >>= f)).run ⟨d.emitter, t⟩ = (.error e, ⟨d'.emitter, t'⟩) := by
      rw [ExceptT.run_bind, StateT.run_bind, run]
      rfl
    exact ⟨hrun, steps, narrow, fun _ hb => by cases hb⟩
  | ok a =>
    obtain ⟨run', steps', narrow', post'⟩ := hf a d' t' steps (post a rfl) (hd.steps steps) narrow
    refine ⟨?_, steps.trans steps', narrow', post'⟩
    rw [ExceptT.run_bind, StateT.run_bind, run]
    exact run'

theorem imp (h : RecordsFrom d t p Q) (hQ : ∀ a d', d.Steps d' → Q a d' → Q' a d') :
    RecordsFrom d t p Q' := by
  intro hd ht
  obtain ⟨run, steps, narrow, post⟩ := h hd ht
  exact ⟨run, steps, narrow, fun a ha => hQ a _ steps (post a ha)⟩

/-- An edit that is a sequence of steps. -/
theorem edit {f : Emitter → Emitter} {d' : Draft} (h : d.Steps d') (hf : d'.emitter = f d.emitter) :
    RecordsFrom d t (Compile.edit f) fun _ d'' => d'' = d' := by
  intro _ ht
  have hrun : (ExceptT.run (Compile.edit f)).run ⟨d.emitter, t⟩ = (.ok (), ⟨d'.emitter, t⟩) := by
    rw [hf]
    rfl
  exact ⟨hrun, h, ht, fun _ _ => rfl⟩

end RecordsFrom

namespace Recorded

variable {α β : Type} {p q : Compiling α} {Q : α → Prop} {R : β → Prop} {sp : Span}

theorem pure {a : α} (h : Q a) : Recorded (Pure.pure a) Q := fun _ _ => .pure h

theorem throw (e : SemanticError) : Recorded (throw e) Q := fun _ _ => .throw e

theorem fail (f : SemanticFault) : Recorded (Compile.fail f sp) Q := throw _

theorem bind {f : α → Compiling β} (h : Recorded p Q) (hf : ∀ a, Q a → Recorded (f a) R) :
    Recorded (p >>= f) R :=
  fun d t => (h d t).bind fun a d' t' _ ha => hf a ha d' t'

/-- What the first part returns makes no difference. -/
theorem andThen {f : α → Compiling β} (h : Recorded p Q) (hf : ∀ a, Recorded (f a) R) :
    Recorded (p >>= f) R := h.bind fun a _ => hf a

theorem discard (h : Recorded p Q) : Recorded (Functor.discard p) fun _ => True :=
  h.andThen fun _ => pure trivial

/-! ## Writing code -/

/-- An edit that is a sequence of steps from every draft. -/
theorem edit {f : Emitter → Emitter} (h : ∀ d : Draft, ∃ d', d.Steps d' ∧ d'.emitter = f d.emitter) :
    Recorded (Compile.edit f) fun _ => True := by
  intro d t
  obtain ⟨d', hsteps, hf⟩ := h d
  exact (RecordsFrom.edit hsteps hf).imp fun _ _ _ _ => trivial

theorem step {f : Emitter → Emitter} {g : Draft → Draft} (h : ∀ d : Draft, d.Step (g d))
    (hf : ∀ d : Draft, (g d).emitter = f d.emitter) : Recorded (Compile.edit f) fun _ => True :=
  edit fun d => ⟨g d, .single (h d), hf d⟩

theorem emit (op : Opcode) : Recorded (Compile.emit op) fun _ => True :=
  step (fun _ => .byte op.byte) fun _ => rfl

theorem emitWith (op : Opcode) {n : Nat} (h : n ≤ maxOperand) :
    Recorded (Compile.emitWith op n) fun _ => True :=
  edit fun _ => ⟨_, .tail (.single (.byte op.byte)) (.operand h), rfl⟩

theorem emitCall {c m : Nat} (hc : c ≤ maxOperand) (hm : m ≤ maxOperand) :
    Recorded (Compile.edit (·.emitCall c m)) fun _ => True :=
  edit fun _ => ⟨_, .tail (.tail (.single (.byte Opcode.call.byte)) (.operand hc)) (.operand hm), rfl⟩

theorem truncate (o : Nat) : Recorded (Compile.edit (·.truncate o)) fun _ => True :=
  step (fun _ => .truncate o) fun _ => rfl

theorem insert (o : Nat) (op : Opcode) : Recorded (Compile.edit (·.insert o op)) fun _ => True :=
  step (fun _ => .insert o op) fun _ => rfl

theorem land (label : Nat) : Recorded (Compile.land label) fun _ => True :=
  step (fun _ => .land label) fun _ => rfl

theorem emitConstant (c : Constant) : Recorded (Compile.edit (·.emitConstant c)) fun _ => True :=
  step (fun _ => .constant c) fun _ => rfl

theorem emitValue (v : Value) : Recorded (Compile.emitValue v) fun _ => True :=
  match v with
  | .void => edit fun d => ⟨d, .refl, rfl⟩
  | .bool true => emit .pushTrue
  | .bool false => emit .pushFalse
  | .int n => emitConstant (.int n)
  | .long n => emitConstant (.long n)
  | .double d => emitConstant (.double d)
  | .string s => emitConstant (.string s)

theorem offset : Recorded Compile.offset fun _ => True :=
  fun _ _ _ ht => ⟨rfl, .refl, ht, fun _ _ => trivial⟩

theorem jump (op : Opcode) : Recorded (Compile.jump op) fun _ => True := by
  intro d t _ ht
  exact ⟨rfl, .single (.jump op), ht, fun _ _ => trivial⟩

/-- What is cut out was taken out of the draft. -/
theorem cut (o : Nat) (d : Draft) (t : ImportTable) :
    RecordsFrom d t (Compile.cut o) fun code d' => d'.Has code := by
  intro hd ht
  refine ⟨rfl, .single (.cut o), ht, fun code hcode => ?_⟩
  cases hcode
  refine ⟨d.cells.drop o, List.mem_cons_self, ?_⟩
  rw [Wrote.toList_drop, hd, List.map_drop]

theorem importFunction (f : NativeFunction) (r : Option ValueType) :
    Recorded (Compile.importFunction f r sp) (· ≤ maxOperand) := by
  intro d t
  unfold Compile.importFunction
  refine RecordsFrom.bind (Q := fun added _ => ∀ i, added = some i → i ≤ maxOperand) (fun _ ht => ?_)
    fun added d' t' _ hadded => ?_
  · refine ⟨rfl, .refl, ht.add f r, fun added hadded i hi => ?_⟩
    cases hadded
    exact ht.place_le hi
  · split
    · exact .pure (hadded _ rfl)
    · exact .fail _

/-! ## Known values and conversions -/

theorem fold (r : Except EvalError Value) : Recorded (Compile.fold r sp) fun _ => True := by
  cases r with
  | ok v => exact pure trivial
  | error e => exact fail _

theorem push (v : Value) : Recorded (Compile.push v) fun _ => True :=
  offset.andThen fun _ => (emitValue v).andThen fun _ => pure trivial

theorem replace (o : Nat) (v : Value) : Recorded (Compile.replace o v) fun _ => True :=
  (truncate o).andThen fun _ => (emitValue v).andThen fun _ => pure trivial

theorem convertAt (p : Pushed) (op : Option Opcode) (target : ValueType) (o : Nat) :
    Recorded (Compile.convertAt p op target o sp) fun _ => True := by
  unfold Compile.convertAt
  cases op with
  | none => exact pure trivial
  | some op =>
    have written (c : Option Value) : Recorded (do
        let here ← Compile.offset
        if o = here then Compile.emit op else Compile.edit (·.insert o op)
        return (⟨target, c, p.start⟩ : Pushed)) fun _ => True := by
      refine offset.andThen fun here => ?_
      split
      · exact (emit op).andThen fun _ => pure trivial
      · exact (insert o op).andThen fun _ => pure trivial
    cases p.constant with
    | none => exact written none
    | some v => exact (fold _).andThen fun a => written (some a)

theorem coerce (p : Pushed) (target : ValueType) :
    Recorded (Compile.coerce p target sp) fun _ => True := by
  unfold Compile.coerce
  split
  · exact fail _
  · exact pure trivial
  · split
    · exact (emit _).andThen fun _ => pure trivial
    · split
      · exact replace _ _
      · exact fail _

end Recorded
end ClassScript
