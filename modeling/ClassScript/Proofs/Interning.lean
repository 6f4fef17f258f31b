import ClassScript.ImportTable
import ClassScript.Pool
import Mathlib.Data.List.Dedup
import Mathlib.Data.List.Induction
import Mathlib.Data.List.Perm.Subperm

/-!
Places in the tables of a module.

Constants and library functions are kept in the order in which they were first asked for, beside an
index of their places. `Pool.add_cases` and `ImportTable.add_cases` tell all that asking a table can
do, and what every demand keeps follows from them: entries are only ever put behind the others, and
the index stays inverse to them (`OneEach`). `Numbering.after` answers any demands one after the other,
and `Numbering.places_settled` tells what the places that were given out denote in the end.
-/

namespace ClassScript

/-! ## Lists -/

theorem getElem?_of_isPrefix {α : Type} {as bs : Array α} (h : as.toList <+: bs.toList) {i : Nat}
    {a : α} (ha : as[i]? = some a) : bs[i]? = some a := by
  obtain ⟨cs, hcs⟩ := h
  rw [← Array.getElem?_toList] at ha
  rw [← Array.getElem?_toList, ← hcs]
  obtain ⟨lt, -⟩ := List.getElem?_eq_some_iff.mp ha
  rw [List.getElem?_append_left lt, ha]

theorem nodup_of_places {α : Type} {as : List α}
    (h : ∀ (i j : Nat) (a : α), as[i]? = some a → as[j]? = some a → i = j) : as.Nodup := by
  refine List.nodup_iff_getElem?_ne_getElem?.mpr fun i j hij hj heq => ?_
  have := h i j as[j] (heq.trans (List.getElem?_eq_getElem hj)) (List.getElem?_eq_getElem hj)
  omega

theorem length_le_of_subset {α : Type} {as bs : List α} (h : as.Nodup) (hab : as ⊆ bs) :
    as.length ≤ bs.length := (List.subperm_of_subset h hab).length_le

/-! ## Constants -/

/-- All that asking for a constant can do. -/
theorem Pool.add_cases (p : Pool) (c : Constant) :
    (∃ i, p.places[c]? = some i ∧ p.add c = (i, p)) ∨
      p.places[c]? = none ∧ p.add c =
        (p.entries.size, ⟨p.entries.push c, p.places.insert c p.entries.size⟩) := by
  unfold Pool.add
  cases p.places[c]? with
  | some i => exact .inl ⟨i, rfl, rfl⟩
  | none => exact .inr ⟨rfl, rfl⟩

/-- Every constant that has a place is at it. -/
def Pool.Sound (p : Pool) : Prop := ∀ (c : Constant) (i : Nat), p.places[c]? = some i → p.entries[i]? = some c

theorem Pool.sound_empty : Pool.empty.Sound := by
  intro c i h
  simp [Pool.empty] at h

theorem Pool.add_spec {p : Pool} (hp : p.Sound) (c : Constant) :
    (p.add c).2.Sound ∧ (p.add c).2.entries[(p.add c).1]? = some c ∧
      p.entries.toList <+: (p.add c).2.entries.toList := by
  obtain ⟨i, hi, hadd⟩ | ⟨-, hadd⟩ := p.add_cases c
  · rw [hadd]
    exact ⟨hp, hp c i hi, List.prefix_rfl⟩
  · rw [hadd]
    refine ⟨fun d j hd => ?_, by simp, by simp⟩
    simp only [Std.HashMap.getElem?_insert, beq_iff_eq] at hd
    split at hd
    · next hcd =>
      cases hd
      simp [hcd]
    · exact getElem?_of_isPrefix (by simp) (hp d j hd)

/-- Every constant has its place, so none has two. -/
def Pool.Distinct (p : Pool) : Prop :=
  ∀ (i : Nat) (c : Constant), p.entries[i]? = some c → p.places[c]? = some i

theorem Pool.distinct_empty : Pool.empty.Distinct := by
  intro i c h
  simp [Pool.empty] at h

theorem Pool.Distinct.add {p : Pool} (h : p.Distinct) (c : Constant) : (p.add c).2.Distinct := by
  obtain ⟨i, -, hadd⟩ | ⟨hnew, hadd⟩ := p.add_cases c
  · rwa [hadd]
  · rw [hadd]
    intro i d hd
    simp only [Array.getElem?_push] at hd
    simp only [Std.HashMap.getElem?_insert, beq_iff_eq]
    split at hd
    · next hi =>
      obtain rfl := Option.some.inj hd
      rw [if_pos rfl, hi]
    · have hplace := h i d hd
      rw [if_neg, hplace]
      rintro rfl
      cases hnew.symm.trans hplace

theorem Pool.Distinct.nodup {p : Pool} (h : p.Distinct) : p.entries.toList.Nodup := by
  refine nodup_of_places fun i j c hi hj => ?_
  rw [Array.getElem?_toList] at hi hj
  exact Option.some.inj ((h i c hi).symm.trans (h j c hj))

theorem Pool.mem_add {p : Pool} {c d : Constant} (h : d ∈ (p.add c).2.entries.toList) :
    d ∈ p.entries.toList ∨ d = c := by
  obtain ⟨i, -, hadd⟩ | ⟨-, hadd⟩ := p.add_cases c
  · rw [hadd] at h
    exact .inl h
  · rw [hadd] at h
    simpa using h

/-- The place of a constant is the last one, or the pool has not grown. -/
theorem Pool.size_add (p : Pool) (c : Constant) :
    (p.add c).2.entries.size = p.entries.size ∨ (p.add c).2.entries.size = (p.add c).1 + 1 := by
  obtain ⟨i, -, hadd⟩ | ⟨-, hadd⟩ := p.add_cases c
  · exact .inl (by rw [hadd])
  · exact .inr (by simp [hadd])

/-! ## Library functions -/

namespace ImportTable

/-- All that asking for a function can do. -/
theorem add_cases (t : ImportTable) (f : NativeFunction) (r : Option ValueType) :
    (∃ i, t.places[f.identity]? = some i ∧ t.add f r = (some i, t)) ∨
      t.places[f.identity]? = none ∧ maxImports ≤ t.imports.size ∧ t.add f r = (none, t) ∨
      t.places[f.identity]? = none ∧ t.imports.size < maxImports ∧ t.add f r =
        (some t.imports.size,
          ⟨t.imports.push (importOf f r), t.places.insert f.identity t.imports.size⟩) := by
  unfold add
  cases t.places[f.identity]? with
  | some i => exact .inl ⟨i, rfl, rfl⟩
  | none =>
    by_cases hfull : maxImports ≤ t.imports.size
    · exact .inr (.inl ⟨rfl, hfull, if_pos hfull⟩)
    · exact .inr (.inr ⟨rfl, Nat.not_le.mp hfull, if_neg hfull⟩)

/-- Every function has its place, so none has two. -/
def Distinct (t : ImportTable) : Prop :=
  ∀ (i : Nat) (imp : NativeImport), t.imports[i]? = some imp → t.places[imp.identity]? = some i

theorem distinct_empty : ImportTable.empty.Distinct := by
  intro i imp h
  simp [ImportTable.empty] at h

theorem Distinct.add {t : ImportTable} (h : t.Distinct) (f : NativeFunction)
    (r : Option ValueType) : (t.add f r).2.Distinct := by
  obtain ⟨i, -, hadd⟩ | ⟨-, -, hadd⟩ | ⟨hnew, -, hadd⟩ := t.add_cases f r
  · rwa [hadd]
  · rwa [hadd]
  · rw [hadd]
    intro i imp hi
    simp only [Array.getElem?_push] at hi
    simp only [Std.HashMap.getElem?_insert, beq_iff_eq]
    split at hi
    · next hsize =>
      obtain rfl := Option.some.inj hi
      rw [if_pos (show f.identity = (importOf f r).identity from rfl), hsize]
    · have hplace := h i imp hi
      rw [if_neg, hplace]
      intro heq
      rw [heq] at hnew
      cases hnew.symm.trans hplace

theorem Distinct.nodup {t : ImportTable} (h : t.Distinct) :
    (t.imports.toList.map (·.identity)).Nodup := by
  refine nodup_of_places fun i j id hi hj => ?_
  rw [List.getElem?_map, Option.map_eq_some_iff] at hi hj
  obtain ⟨a, hi, rfl⟩ := hi
  obtain ⟨b, hj, hab⟩ := hj
  rw [Array.getElem?_toList] at hi hj
  exact Option.some.inj ((h i a hi).symm.trans (hab ▸ h j b hj))

/-- A function without a place is not among the imports. -/
theorem Distinct.not_mem {t : ImportTable} (h : t.Distinct) {id : Identity}
    (hid : t.places[id]? = none) : id ∉ t.imports.toList.map (·.identity) := by
  intro hmem
  obtain ⟨imp, himp, rfl⟩ := List.mem_map.mp hmem
  obtain ⟨i, hi⟩ := List.getElem?_of_mem himp
  rw [Array.getElem?_toList] at hi
  cases hid.symm.trans (h i imp hi)

def Placed (t : ImportTable) : Prop := ∀ (id : Identity) (i : Nat),
  t.places[id]? = some i → ∃ imp, t.imports[i]? = some imp ∧ imp.identity = id

theorem placed_empty : ImportTable.empty.Placed := by
  intro id i h
  simp [ImportTable.empty] at h

theorem prefix_add (t : ImportTable) (f : NativeFunction) (r : Option ValueType) :
    t.imports.toList <+: (t.add f r).2.imports.toList := by
  obtain ⟨i, -, hadd⟩ | ⟨-, -, hadd⟩ | ⟨-, -, hadd⟩ := t.add_cases f r <;> simp [hadd]

theorem mem_add (t : ImportTable) {f : NativeFunction} {r : Option ValueType} {imp : NativeImport}
    (h : imp ∈ (t.add f r).2.imports.toList) : imp ∈ t.imports.toList ∨ imp = importOf f r := by
  obtain ⟨i, -, hadd⟩ | ⟨-, -, hadd⟩ | ⟨-, -, hadd⟩ := t.add_cases f r
  · rw [hadd] at h
    exact .inl h
  · rw [hadd] at h
    exact .inl h
  · rw [hadd] at h
    simpa using h

theorem Placed.add {t : ImportTable} (h : t.Placed) (f : NativeFunction)
    (r : Option ValueType) : (t.add f r).2.Placed := by
  obtain ⟨i, -, hadd⟩ | ⟨-, -, hadd⟩ | ⟨-, -, hadd⟩ := t.add_cases f r
  · rwa [hadd]
  · rwa [hadd]
  · rw [hadd]
    intro id i hi
    simp only [Std.HashMap.getElem?_insert, beq_iff_eq] at hi
    split at hi
    · next heq =>
      obtain rfl := Option.some.inj hi
      exact ⟨importOf f r, by simp, heq⟩
    · obtain ⟨imp, himp, hid⟩ := h id i hi
      exact ⟨imp, getElem?_of_isPrefix (by simp) himp, hid⟩

theorem size_add_le (t : ImportTable) (f : NativeFunction) (r : Option ValueType)
    (h : t.imports.size ≤ maxImports) : (t.add f r).2.imports.size ≤ maxImports := by
  obtain ⟨i, -, hadd⟩ | ⟨-, -, hadd⟩ | ⟨-, hlt, hadd⟩ := t.add_cases f r
  · rwa [hadd]
  · rwa [hadd]
  · rw [hadd, Array.size_push]
    exact hlt

/-- A function that is added has a place, and is at it. -/
theorem Placed.of_add {t : ImportTable} (h : t.Placed) {f : NativeFunction}
    {r : Option ValueType} {i : Nat} (hi : (t.add f r).1 = some i) :
    ∃ imp, (t.add f r).2.imports[i]? = some imp ∧ imp.identity = f.identity := by
  obtain ⟨j, hj, hadd⟩ | ⟨-, -, hadd⟩ | ⟨-, -, hadd⟩ := t.add_cases f r
  · rw [hadd] at hi ⊢
    obtain rfl := Option.some.inj hi
    exact h _ _ hj
  · simp [hadd] at hi
  · rw [hadd] at hi ⊢
    obtain rfl := Option.some.inj hi
    exact ⟨importOf f r, by simp, rfl⟩

end ImportTable

/-! ## Both tables -/

/-- Tables that have one place for each of their entries. -/
structure OneEach (pool : Pool) (imports : ImportTable) : Prop where
  sound : pool.Sound
  constants : pool.Distinct
  places : imports.Placed
  functions : imports.Distinct

namespace OneEach

variable {pool : Pool} {imports : ImportTable}

theorem empty : OneEach .empty .empty :=
  ⟨Pool.sound_empty, Pool.distinct_empty, ImportTable.placed_empty, ImportTable.distinct_empty⟩

theorem addConstant (h : OneEach pool imports) (c : Constant) : OneEach (pool.add c).2 imports :=
  ⟨(Pool.add_spec h.sound c).1, h.constants.add c, h.places, h.functions⟩

theorem addImport (h : OneEach pool imports) (f : NativeFunction) (r : Option ValueType) :
    OneEach pool (imports.add f r).2 :=
  ⟨h.sound, h.constants, h.places.add f r, h.functions.add f r⟩

end OneEach

/-! ## Requests -/

/-- Of one kind, and bit for bit the same. -/
def Constant.Identical : Constant → Constant → Prop
  | .int m, .int n => m = n
  | .long m, .long n => m = n
  | .double x, .double y => x.bits = y.bits
  | .string s, .string t => s = t
  | _, _ => False

theorem Double.bits_inj {x y : Double} : x.bits = y.bits ↔ x = y := by
  cases x
  cases y
  rw [mk.injEq]

/-- Constants are looked up by all that tells them apart. -/
theorem Constant.identical_iff {c d : Constant} : c.Identical d ↔ c = d := by
  cases c <;> cases d <;> simp [Identical, Double.bits_inj]

structure Numbering where
  pool : Pool
  imports : ImportTable

namespace Numbering

/-- What the code of a module asks its tables for. -/
inductive Demand where
  | constant (c : Constant)
  | function (f : NativeFunction) (receiver : Option ValueType)

namespace Demand

def constants (rs : List Demand) : List Constant :=
  rs.filterMap fun
    | constant c => some c
    | function _ _ => none

/-- The import that the first call of a function with this identity asks for. -/
def firstImport? (id : Identity) (rs : List Demand) : Option NativeImport :=
  rs.findSome? fun
    | constant _ => none
    | function f r => if f.identity = id then some (ImportTable.importOf f r) else none

theorem firstImport?_append (id : Identity) (rs later : List Demand) :
    firstImport? id (rs ++ later) = (firstImport? id rs).or (firstImport? id later) :=
  List.findSome?_append

theorem firstImport?_constant (id : Identity) (c : Constant) : firstImport? id [constant c] = none :=
  rfl

theorem firstImport?_function (id : Identity) (f : NativeFunction) (r : Option ValueType) :
    firstImport? id [function f r] =
      if f.identity = id then some (ImportTable.importOf f r) else none := by
  simp [firstImport?]

end Demand

open Demand (constants firstImport? firstImport?_append firstImport?_constant firstImport?_function)

/-- Answers a demand by a place; there is none for a function without room. -/
def answer (n : Numbering) : Demand → Option Nat × Numbering
  | .constant c => (some (n.pool.add c).1, ⟨(n.pool.add c).2, n.imports⟩)
  | .function f r => ((n.imports.add f r).1, ⟨n.pool, (n.imports.add f r).2⟩)

def after (rs : List Demand) : Numbering :=
  rs.foldl (fun n q => (n.answer q).2) ⟨.empty, .empty⟩

def place (past : List Demand) (q : Demand) : Option Nat := ((after past).answer q).1

/-- From `n` to `m` entries were only put behind the others. -/
structure Extends (n m : Numbering) : Prop where
  constants : n.pool.entries.toList <+: m.pool.entries.toList
  imports : n.imports.imports.toList <+: m.imports.imports.toList

theorem after_concat (past : List Demand) (q : Demand) :
    after (past ++ [q]) = ((after past).answer q).2 := by
  simp only [after, List.foldl_append, List.foldl_cons, List.foldl_nil]

/-! ## What demands keep -/

theorem answer_oneEach {n : Numbering} (h : OneEach n.pool n.imports) (q : Demand) :
    OneEach (n.answer q).2.pool (n.answer q).2.imports := by
  cases q with
  | constant c => exact h.addConstant c
  | function f r => exact h.addImport f r

theorem after_oneEach (rs : List Demand) : OneEach (after rs).pool (after rs).imports := by
  induction rs using List.reverseRecOn with
  | nil => exact .empty
  | append_singleton rs q ih =>
    rw [after_concat]
    exact answer_oneEach ih q

theorem answer_extends {n : Numbering} (h : OneEach n.pool n.imports) (q : Demand) :
    n.Extends (n.answer q).2 := by
  cases q with
  | constant c => exact ⟨(Pool.add_spec h.sound c).2.2, List.prefix_rfl⟩
  | function f r => exact ⟨List.prefix_rfl, n.imports.prefix_add f r⟩

theorem after_extends {past rs : List Demand} (h : past <+: rs) :
    (after past).Extends (after rs) := by
  obtain ⟨later, rfl⟩ := h
  induction later using List.reverseRecOn with
  | nil =>
    rw [List.append_nil]
    exact ⟨List.prefix_rfl, List.prefix_rfl⟩
  | append_singleton later q ih =>
    obtain ⟨hconstants, himports⟩ := answer_extends (after_oneEach (past ++ later)) q
    rw [← List.append_assoc, after_concat]
    exact ⟨ih.constants.trans hconstants, ih.imports.trans himports⟩

theorem size_imports_le (rs : List Demand) :
    (after rs).imports.imports.size ≤ ImportTable.maxImports := by
  induction rs using List.reverseRecOn with
  | nil => exact Nat.zero_le _
  | append_singleton rs q ih =>
    rw [after_concat]
    cases q with
    | constant c => exact ih
    | function f r => exact ImportTable.size_add_le _ f r ih

/-! ## Constants that were asked for -/

theorem mem_constants (rs : List Demand) :
    ∀ c ∈ (after rs).pool.entries.toList, c ∈ constants rs := by
  induction rs using List.reverseRecOn with
  | nil => simp [after, Pool.empty]
  | append_singleton rs q ih =>
    intro c hc
    rw [after_concat] at hc
    simp only [constants, List.filterMap_append, List.mem_append]
    cases q with
    | constant d =>
      obtain hold | rfl := Pool.mem_add hc
      · exact .inl (ih c hold)
      · exact .inr (List.mem_singleton_self c)
    | function f r => exact .inl (ih c hc)

/-- There are no more constants than different ones were asked for. -/
theorem size_pool_le (rs : List Demand) :
    (after rs).pool.entries.size ≤ (constants rs).dedup.length := by
  have h := length_le_of_subset (after_oneEach rs).constants.nodup fun c hc =>
    List.mem_dedup.mpr (mem_constants rs c hc)
  rwa [Array.length_toList] at h

theorem constant_place {past rs : List Demand} {c : Constant}
    (h : past ++ [.constant c] <+: rs) :
    ∃ i, place past (.constant c) = some i ∧ (after rs).pool.entries[i]? = some c := by
  have hplace := (Pool.add_spec (after_oneEach past).sound c).2.1
  have hextends := after_extends h
  rw [after_concat] at hextends
  exact ⟨_, rfl, getElem?_of_isPrefix hextends.constants hplace⟩

/-! ## Functions that were called -/

structure Lists (rs : List Demand) (t : ImportTable) : Prop where
  /-- An import is that of the first call of its function. -/
  first : ∀ imp ∈ t.imports.toList, firstImport? imp.identity rs = some imp
  /-- A function that was called has a place, unless there is no room. -/
  listed : ∀ id, t.places[id]? = none → t.imports.size < ImportTable.maxImports →
    firstImport? id rs = none

variable {rs : List Demand} {t : ImportTable} {f : NativeFunction} {r : Option ValueType}

/-- Later demands do not change which call was the first one. -/
theorem Lists.first_later (h : Lists rs t) (later : List Demand) {imp : NativeImport}
    (himp : imp ∈ t.imports.toList) : firstImport? imp.identity (rs ++ later) = some imp := by
  rw [firstImport?_append, h.first imp himp, Option.some_or]

theorem Lists.constant (h : Lists rs t) (c : Constant) : Lists (rs ++ [.constant c]) t where
  first _ := h.first_later _
  listed id hnone hroom := by
    rw [firstImport?_append, h.listed id hnone hroom, Option.none_or, firstImport?_constant]

theorem Lists.function (h : Lists rs t) (f : NativeFunction) (r : Option ValueType) :
    Lists (rs ++ [.function f r]) (t.add f r).2 := by
  obtain ⟨i, hi, hadd⟩ | ⟨-, hfull, hadd⟩ | ⟨hnew, hroom, hadd⟩ := t.add_cases f r
  · rw [hadd]
    refine ⟨fun _ => h.first_later _, fun id hnone hroom => ?_⟩
    have hid : f.identity ≠ id := by
      rintro rfl
      cases hi.symm.trans hnone
    rw [firstImport?_append, h.listed id hnone hroom, Option.none_or, firstImport?_function, if_neg hid]
  · rw [hadd]
    exact ⟨fun _ => h.first_later _, fun _ _ hroom => absurd hfull (Nat.not_le.mpr hroom)⟩
  · rw [hadd]
    refine ⟨fun imp himp => ?_, fun id hnone _ => ?_⟩
    · rw [Array.toList_push, List.mem_append, List.mem_singleton] at himp
      obtain himp | rfl := himp
      · exact h.first_later _ himp
      · -- there was room at every earlier demand too, so none of them was for this function
        rw [firstImport?_append, firstImport?_function]
        change (firstImport? f.identity rs).or _ = _
        rw [h.listed _ hnew hroom, Option.none_or]
        exact if_pos rfl
    · simp only [Std.HashMap.getElem?_insert, beq_iff_eq] at hnone
      split at hnone
      · cases hnone
      · next hid =>
        rw [firstImport?_append, h.listed id hnone hroom, Option.none_or, firstImport?_function,
          if_neg hid]

theorem after_lists (rs : List Demand) : Lists rs (after rs).imports := by
  induction rs using List.reverseRecOn with
  | nil => exact ⟨by simp [after, ImportTable.empty], fun _ _ _ => rfl⟩
  | append_singleton rs q ih =>
    rw [after_concat]
    cases q with
    | constant c => exact ih.constant c
    | function f r => exact ih.function f r

theorem function_place {past : List Demand} {i : Nat} (h : past ++ [.function f r] <+: rs)
    (hi : place past (.function f r) = some i) :
    ∃ imp, (after rs).imports.imports[i]? = some imp ∧ firstImport? f.identity rs = some imp := by
  obtain ⟨imp, himp, hid⟩ := (after_oneEach past).places.of_add hi
  have hextends := after_extends h
  rw [after_concat] at hextends
  have hlater := getElem?_of_isPrefix hextends.imports himp
  exact ⟨imp, hlater, hid ▸ (after_lists rs).first imp (Array.mem_def.mp (Array.mem_of_getElem? hlater))⟩

/-! ## The result -/

/-- What the places that demands were answered by denote once all of them are answered. -/
structure Settled (rs : List Demand) : Prop where
  constants : (after rs).pool.entries.toList.Pairwise fun c d => ¬ c.Identical d
  imports : (after rs).imports.imports.toList.Pairwise fun a b => a.identity ≠ b.identity
  /-- A constant has a place, a number of 32 bits, and is denoted by it. -/
  constant : ∀ past c, past ++ [.constant c] <+: rs → ∃ (i : UInt32) (d : Constant),
    place past (.constant c) = some i.toNat ∧ (after rs).pool.get? i.toNat = some d ∧ c.Identical d
  /-- Two constants have the same place exactly if they are the same bit for bit. -/
  shared : ∀ past c past' d, past ++ [.constant c] <+: rs → past' ++ [.constant d] <+: rs →
    (place past (.constant c) = place past' (.constant d) ↔ c.Identical d)
  /-- The place of a function, a number of 16 bits, denotes the import of its first call. -/
  function : ∀ past f r i, past ++ [.function f r] <+: rs → place past (.function f r) = some i →
    ∃ (j : UInt16) (imp : NativeImport), i = j.toNat ∧ (after rs).imports.imports[i]? = some imp ∧
      firstImport? f.identity rs = some imp
  /-- Entries keep their places. -/
  kept : ∀ past, past <+: rs → (after past).Extends (after rs)
  /-- A function without a place met a full table, and left all as it was. -/
  refused : ∀ past f r, past ++ [.function f r] <+: rs → place past (.function f r) = none →
    after (past ++ [.function f r]) = after past ∧
      (after past).imports.imports.size = ImportTable.maxImports

/-- Places are settled for good, in whatever order constants, of which fewer than `2 ^ 32` differ, and
functions are asked for. -/
theorem places_settled (rs : List Demand) (h : (constants rs).dedup.length < UInt32.size) :
    Settled rs where
  constants := (after_oneEach rs).constants.nodup.imp fun hne hcd =>
    hne (Constant.identical_iff.mp hcd)
  imports := List.pairwise_map.mp (after_oneEach rs).functions.nodup
  constant past c hc := by
    obtain ⟨i, hi, hentry⟩ := constant_place hc
    have hlt := (Array.getElem?_eq_some_iff.mp hentry).1
    have hsize := size_pool_le rs
    have hword : (UInt32.ofNat i).toNat = i := UInt32.toNat_ofNat_of_lt' (by omega)
    refine ⟨.ofNat i, c, ?_, ?_, Constant.identical_iff.mpr rfl⟩
    · rw [hword, hi]
    · rw [hword]
      exact hentry
  shared past c past' d hc hd := by
    obtain ⟨i, hi, hci⟩ := constant_place hc
    obtain ⟨j, hj, hdj⟩ := constant_place hd
    rw [hi, hj, Option.some.injEq, Constant.identical_iff]
    constructor
    · rintro rfl
      exact Option.some.inj (hci.symm.trans hdj)
    · rintro rfl
      have hplaces := (after_oneEach rs).constants
      exact Option.some.inj ((hplaces i c hci).symm.trans (hplaces j c hdj))
  function past f r i hf hi := by
    obtain ⟨imp, himp, hfirst⟩ := function_place hf hi
    have hlt := (Array.getElem?_eq_some_iff.mp himp).1
    have hsize := size_imports_le rs
    simp only [ImportTable.maxImports] at hsize
    have hword : (UInt16.ofNat i).toNat = i := UInt16.toNat_ofNat_of_lt' (by simp only [UInt16.size]; omega)
    exact ⟨.ofNat i, imp, hword.symm, himp, hfirst⟩
  kept _ := after_extends
  refused past f r _ hnone := by
    rw [after_concat]
    obtain ⟨i, -, hadd⟩ | ⟨-, hfull, hadd⟩ | ⟨-, -, hadd⟩ := (after past).imports.add_cases f r
    · simp [place, answer, hadd] at hnone
    · refine ⟨?_, Nat.le_antisymm (size_imports_le past) hfull⟩
      simp only [answer, hadd]
    · simp [place, answer, hadd] at hnone

/-- Zeros of both signs have places of their own, a NaN is found again, and functions that share an
identity share the import of the first one. -/
theorem places_settled_mixed :
    let zero : Demand := .constant (.double .zero)
    let negative : Demand := .constant (.double Double.zero.neg)
    let nan : Demand := .constant (.double .nan)
    let call (name : String) : Demand :=
      .function ⟨"C", name, [.int], .void, false, ⟨7⟩, pure ()⟩ none
    let rs := [zero, negative, nan, call "First", nan, call "Second"]
    (constants rs).dedup.length < UInt32.size ∧ Settled rs ∧ place [] zero ≠ place [zero] negative ∧
      place [zero, negative] nan = place [zero, negative, nan, call "First"] nan ∧
      firstImport? ⟨7⟩ rs = some ⟨⟨7⟩, "C.First", [.int], .void⟩ := by
  intro zero negative nan call rs
  have hsmall : (constants rs).dedup.length < UInt32.size := by decide
  have hsettled : Settled rs := places_settled rs hsmall
  refine ⟨hsmall, hsettled, fun heq => ?_, ?_, rfl⟩
  · have hsame := (hsettled.shared [] _ [zero] _ ⟨_, rfl⟩ ⟨_, rfl⟩).mp heq
    exact absurd hsame (show Double.zero.bits ≠ Double.zero.neg.bits by decide)
  · exact (hsettled.shared [zero, negative] _ [zero, negative, nan, call "First"] _ ⟨_, rfl⟩
      ⟨_, rfl⟩).mpr rfl

end Numbering
end ClassScript
