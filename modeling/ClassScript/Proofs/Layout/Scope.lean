import ClassScript.LocalScope
import ClassScript.Symbols
import Mathlib.Data.List.Basic

/-!
The slots of local variables.

Every declaration takes the next slot, so the slots of a statement can be counted. A name that is
declared where a branch or a body is expected stays in scope behind the whole statement, though its
declaration may have been skipped: `Stmt.loose` lists the slots of such names.
-/

namespace ClassScript

/-! ## Counting -/

def ForInit.slots : ForInit → Nat
  | .decl d => d.vars.length
  | .exprs _ => 0

namespace Stmt

mutual

/-- The number of names that a statement declares. -/
def slots : Stmt → Nat
  | .block stmts _ => slotsAll stmts
  | .decl d => d.vars.length
  | .ifElse _ yes none _ => slots yes
  | .ifElse _ yes (some no) _ => slots yes + slots no
  | .whileLoop _ body _ | .doLoop body _ _ => slots body
  | .forLoop start _ _ body _ => (start.map ForInit.slots).getD 0 + slots body
  | _ => 0

def slotsAll : List Stmt → Nat
  | [] => 0
  | s :: ss => slots s + slotsAll ss

end

/-- Slots of names that stay in scope behind a statement whose first slot is given. -/
def escaping (first : Nat) : Stmt → List Nat
  | .decl d => List.range' first d.vars.length
  | .ifElse _ yes none _ => escaping first yes
  | .ifElse _ yes (some no) _ => escaping first yes ++ escaping (first + slots yes) no
  | .whileLoop _ body _ | .doLoop body _ _ => escaping first body
  | _ => []

mutual

/-- Slots of names that stay in scope behind a statement which may skip their declarations. -/
def loose (first : Nat) : Stmt → List Nat
  | .block stmts _ => looseAll first stmts
  | .ifElse _ yes none _ => escaping first yes ++ loose first yes
  | .ifElse _ yes (some no) _ =>
    (escaping first yes ++ loose first yes) ++
      (escaping (first + slots yes) no ++ loose (first + slots yes) no)
  | .whileLoop _ body _ => escaping first body ++ loose first body
  | .doLoop body _ _ => loose first body
  | .forLoop start _ _ body _ => loose (first + (start.map ForInit.slots).getD 0) body
  | _ => []

def looseAll (first : Nat) : List Stmt → List Nat
  | [] => []
  | s :: ss => loose first s ++ looseAll (first + slots s) ss

end

end Stmt

def MethodSymbol.loose (f : MethodSymbol) : List Nat :=
  match f.source with
  | .declared params (.block stmts _) _ => Stmt.looseAll params.length stmts
  | _ => []

def Symbols.looseAt (s : Symbols) (cls method : Nat) : List Nat :=
  (((s.classes[cls]?).bind fun c => c.methods[method]?).map (·.loose)).getD []

/-! ## Scopes -/

/-- No local in scope is of type `void`. -/
def LocalScope.Valued (locals : LocalScope) : Prop :=
  ∀ name v, locals.find? name = some v → v.type ≠ .void

theorem LocalScope.Valued.opened {locals : LocalScope} (h : locals.Valued) : locals.open_.Valued := h

namespace Layout

open LocalScope (maxSlots)

/-- From `l` to `l'`, slots for values of the types `new` were given out. The names among them that
can still be seen are `names`; they stand for `slots` at most. -/
structure Scoped (l l' : LocalScope) (new : List ValueType) (slots : List Nat) (names : List String) :
    Prop where
  size : l'.frameSize = l.frameSize + new.length
  bound : l.frameSize ≤ maxSlots → l'.frameSize ≤ maxSlots
  types : ∀ t ∈ new, t ≠ .void
  blocks : ∀ head rest, l.blocks = head :: rest → l'.blocks = (names ++ head) :: rest
  fresh : ∀ n ∈ names, l.find? n = none
  other : ∀ n, n ∉ names → l'.find? n = l.find? n
  declared : ∀ n ∈ names, ∃ v, l'.find? n = some v ∧ v.slot ∈ slots ∧
    ∃ k, v.slot = l.frameSize + k ∧ new[k]? = some v.type

namespace Scoped

variable {l l₁ l₂ : LocalScope} {new new' : List ValueType} {slots slots' : List Nat}
  {names names' : List String}

theorem refl (l : LocalScope) : Scoped l l [] [] [] where
  size := rfl
  bound := id
  types := by simp
  blocks _ _ h := h
  fresh := by simp
  other _ _ := rfl
  declared := by simp

theorem trans (h : Scoped l l₁ new slots names) (h' : Scoped l₁ l₂ new' slots' names') :
    Scoped l l₂ (new ++ new') (slots ++ slots') (names' ++ names) := by
  -- a name that is declared later was not in scope before, so it is not declared before either
  have kept (n : String) (hn : n ∈ names) : l₂.find? n = l₁.find? n := by
    refine h'.other n fun hn' => ?_
    obtain ⟨v, hv, -⟩ := h.declared n hn
    rw [h'.fresh n hn'] at hv
    cases hv
  refine ⟨?_, fun hb => h'.bound (h.bound hb), fun t ht => ?_, fun head rest hb => ?_,
    fun n hn => ?_, fun n hn => ?_, fun n hn => ?_⟩
  · rw [h'.size, h.size, List.length_append, Nat.add_assoc]
  · exact (List.mem_append.mp ht).elim (h.types t) (h'.types t)
  · rw [h'.blocks _ _ (h.blocks head rest hb), List.append_assoc]
  · by_cases hn₁ : n ∈ names
    · exact h.fresh n hn₁
    · rw [← h.other n hn₁]
      exact h'.fresh n ((List.mem_append.mp hn).resolve_right hn₁)
  · simp only [List.mem_append, not_or] at hn
    exact (h'.other n hn.1).trans (h.other n hn.2)
  · obtain hn | hn := List.mem_append.mp hn
    · obtain ⟨v, hv, hslot, k, hk, ht⟩ := h'.declared n hn
      refine ⟨v, hv, List.mem_append_right _ hslot, new.length + k, ?_, ?_⟩
      · rw [hk, h.size, Nat.add_assoc]
      · rwa [List.getElem?_append_right (Nat.le_add_right ..), Nat.add_sub_cancel_left]
    · obtain ⟨v, hv, hslot, k, hk, ht⟩ := h.declared n hn
      refine ⟨v, (kept n hn).trans hv, List.mem_append_left _ hslot, k, hk, ?_⟩
      rw [List.getElem?_append_left (List.getElem?_eq_some_iff.mp ht).1, ht]

/-- More slots may be named. -/
theorem mono (h : Scoped l l₁ new slots names) (hslots : ∀ n ∈ slots, n ∈ slots') :
    Scoped l l₁ new slots' names where
  size := h.size
  bound := h.bound
  types := h.types
  blocks := h.blocks
  fresh := h.fresh
  other := h.other
  declared n hn := by
    obtain ⟨v, hv, hslot, hk⟩ := h.declared n hn
    exact ⟨v, hv, hslots _ hslot, hk⟩

/-- A variable is declared. -/
theorem add {name : String} {type : ValueType} {sp : Span} (hfree : l.conflict? name sp = none)
    (htype : type ≠ .void) : Scoped l (l.add name type).2 [type] [l.frameSize] [name] := by
  obtain ⟨visible, blocks, slot⟩ := l
  simp only [LocalScope.conflict?] at hfree
  split at hfree
  · cases hfree
  · split at hfree
    · cases hfree
    · next hnew hbound =>
      have hadd : ∃ bs, (LocalScope.add ⟨visible, blocks, slot⟩ name type).2 =
          ⟨visible.insert name ⟨name, type, slot⟩, bs, slot + 1⟩ ∧
          ∀ head rest, blocks = head :: rest → bs = (name :: head) :: rest := by
        cases blocks with
        | nil => exact ⟨_, rfl, nofun⟩
        | cons names outer => exact ⟨_, rfl, fun _ _ h => by cases h; rfl⟩
      obtain ⟨bs, hadd, hblocks⟩ := hadd
      rw [hadd]
      have hfind (n : String) : LocalScope.find? ⟨visible.insert name ⟨name, type, slot⟩, bs, slot + 1⟩
          n = if name = n then some ⟨name, type, slot⟩ else visible[n]? := by
        simp [LocalScope.find?, Std.HashMap.getElem?_insert]
      refine ⟨rfl, fun _ => ?_, by simpa using htype, hblocks, ?_, fun n hn => ?_, ?_⟩
      · simp only [maxSlots] at hbound ⊢
        omega
      · simpa [LocalScope.find?] using hnew
      · exact (hfind n).trans (if_neg fun h => hn (List.mem_singleton.mpr h.symm))
      · simp only [List.mem_singleton, forall_eq]
        exact ⟨_, (hfind name).trans (if_pos rfl), rfl, 0, rfl, rfl⟩

/-- The names of a block are forgotten behind it. -/
theorem close (h : Scoped l.open_ l₁ new slots names) : Scoped l l₁.close new [] [] := by
  obtain ⟨visible, blocks, size⟩ := l
  obtain ⟨visible₁, blocks₁, size₁⟩ := l₁
  have hblocks : blocks₁ = (names ++ []) :: blocks := h.blocks [] blocks rfl
  rw [List.append_nil] at hblocks
  subst hblocks
  have herase (names : List String) (n : String) (visible : Std.HashMap String LocalVar) :
      (names.foldl (fun v name => v.erase name) visible)[n]? =
        if n ∈ names then none else visible[n]? := by
    induction names generalizing visible with
    | nil => simp
    | cons name names ih =>
      rw [List.foldl_cons, ih]
      simp only [Std.HashMap.getElem?_erase, beq_iff_eq, List.mem_cons]
      by_cases hn : n ∈ names
      · simp [hn]
      · by_cases h : name = n
        · simp [h]
        · simp [hn, h, Ne.symm h]
  refine ⟨h.size, h.bound, h.types, fun _ _ hb => hb, by simp, fun n _ => ?_, by simp⟩
  change (names.foldl (fun v name => v.erase name) visible₁)[n]? = visible[n]?
  rw [herase]
  split
  · next hn => exact (h.fresh n hn).symm
  · next hn => exact h.other n hn

/-- Declarations keep the locals in scope of types that have values. -/
theorem valued (h : Scoped l l₁ new slots names) (hl : l.Valued) : l₁.Valued := by
  intro name v hv
  by_cases hn : name ∈ names
  · obtain ⟨w, hw, -, k, -, ht⟩ := h.declared name hn
    rw [hv] at hw
    cases hw
    exact h.types _ (List.mem_of_getElem? ht)
  · exact hl name v ((h.other name hn).symm.trans hv)

end Scoped
end Layout
end ClassScript
