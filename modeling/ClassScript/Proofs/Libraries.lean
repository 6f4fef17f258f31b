import ClassScript.Library
import Mathlib.Data.List.Nodup

/-!
What registration guarantees of a library.

Its classes have different names, every function belongs to the class that lists it, and the index
has an entry for the identity of every function, and no others. Each class that is described keeps
this, whether it is new or continued. Where no class is described twice, each holds just what its
description says.
-/

namespace ClassScript

def Library.functions (l : Library) : List NativeFunction := l.classes.flatMap (·.functions)

/-- A library that was put together by descriptions of its classes. -/
def Library.IsBuilt (l : Library) : Prop := ∃ name spaces specs, l = Library.build name spaces specs

/-- The class that a description makes where it is the only one of its name. -/
def ClassSpec.asClass (s : ClassSpec) : NativeClass :=
  ⟨s.fullName, s.keyword, s.functions.map (·.build s.fullName), s.constants⟩

/-- The classes have different names and list their own functions, which are what the index finds. -/
structure Library.Registered (l : Library) : Prop where
  names : (l.classes.map (·.name)).Nodup
  owners : ∀ c ∈ l.classes, ∀ f ∈ c.functions, f.owner = c.name
  indexed : ∀ f ∈ l.functions, ∃ g, l.findFunction? f.identity = some g
  found : ∀ id g, l.findFunction? id = some g → g.identity = id ∧ g ∈ l.functions

namespace Library

variable {l : Library} {s : ClassSpec} {c : NativeClass} {f g : NativeFunction}

theorem mem_functions : f ∈ l.functions ↔ ∃ c ∈ l.classes, f ∈ c.functions := List.mem_flatMap

/-- Behind the registration of functions, an identity is that of one of them or means what it meant. -/
theorem index_insert (fs : List NativeFunction) (index : Std.HashMap Identity NativeFunction)
    (id : Identity) :
    (∃ g ∈ fs, g.identity = id ∧
      (fs.foldl (fun index f => index.insert f.identity f) index)[id]? = some g) ∨
    ((∀ g ∈ fs, g.identity ≠ id) ∧
      (fs.foldl (fun index f => index.insert f.identity f) index)[id]? = index[id]?) := by
  induction fs generalizing index with
  | nil => exact .inr ⟨by simp, rfl⟩
  | cons f fs ih =>
    obtain ⟨g, hg, hid, hfound⟩ | ⟨hnone, hsame⟩ := ih (index.insert f.identity f)
    · exact .inl ⟨g, List.mem_cons_of_mem f hg, hid, hfound⟩
    · by_cases hf : f.identity = id
      · refine .inl ⟨f, List.mem_cons_self, hf, hsame.trans ?_⟩
        rw [hf, Std.HashMap.getElem?_insert_self]
      · refine .inr ⟨?_, hsame.trans ?_⟩
        · rintro g (_ | ⟨_, hg⟩)
          · exact hf
          · exact hnone g hg
        · rw [Std.HashMap.getElem?_insert, if_neg (by simpa using hf)]

/-! ## Descriptions -/

def described (s : ClassSpec) : List NativeFunction := s.functions.map (·.build s.fullName)

theorem owner_described (h : f ∈ described s) : f.owner = s.fullName := by
  obtain ⟨spec, -, rfl⟩ := List.mem_map.mp h
  rfl

/-- The classes behind a description, by the classes in front of it. -/
theorem addClass_classes (l : Library) (s : ClassSpec) :
    (l.addClass s).classes =
      if s.fullName ∈ l.classes.map (·.name) then
        l.classes.map fun c => if c.name == s.fullName then extendClass s (described s) c else c
      else l.classes ++ [extendClass s (described s) ⟨s.fullName, none, [], []⟩] := by
  have hany : (l.classes.any (·.name == s.fullName)) = true ↔
      s.fullName ∈ l.classes.map (·.name) := by simp
  simp only [addClass, addNamespace, hany]
  rfl

theorem addClass_findFunction (l : Library) (s : ClassSpec) (id : Identity) :
    (∃ g ∈ described s, g.identity = id ∧ (l.addClass s).findFunction? id = some g) ∨
    ((∀ g ∈ described s, g.identity ≠ id) ∧ (l.addClass s).findFunction? id = l.findFunction? id) :=
  index_insert (described s) l.index id

/-- A function of a class behind a description was there, or it is described. -/
theorem mem_addClass (hc : c ∈ (l.addClass s).classes) (hf : f ∈ c.functions) :
    (∃ d ∈ l.classes, d.name = c.name ∧ f ∈ d.functions) ∨
      c.name = s.fullName ∧ f ∈ described s := by
  rw [addClass_classes] at hc
  split at hc
  · obtain ⟨d, hd, rfl⟩ := List.mem_map.mp hc
    by_cases hname : d.name == s.fullName
    · rw [if_pos hname] at hf ⊢
      obtain hf | hf := List.mem_append.mp hf
      · exact .inl ⟨d, hd, rfl, hf⟩
      · exact .inr ⟨eq_of_beq hname, hf⟩
    · rw [if_neg hname] at hf ⊢
      exact .inl ⟨d, hd, rfl, hf⟩
  · obtain hc | hc := List.mem_append.mp hc
    · exact .inl ⟨c, hc, rfl, hf⟩
    · obtain rfl := List.mem_singleton.mp hc
      exact .inr ⟨rfl, by simpa [extendClass] using hf⟩

/-- What a class lists, it lists behind a description as well. -/
theorem functions_addClass (h : f ∈ l.functions ∨ f ∈ described s) :
    f ∈ (l.addClass s).functions := by
  rw [mem_functions, addClass_classes]
  split
  · next hname =>
    obtain ⟨d, hd, hdname⟩ := List.mem_map.mp hname
    rcases h with h | h
    · obtain ⟨c, hc, hf⟩ := mem_functions.mp h
      refine ⟨_, List.mem_map_of_mem hc, ?_⟩
      split
      · exact List.mem_append_left _ hf
      · exact hf
    · refine ⟨_, List.mem_map_of_mem hd, ?_⟩
      rw [if_pos (by simpa using hdname)]
      exact List.mem_append_right _ h
  · rcases h with h | h
    · obtain ⟨c, hc, hf⟩ := mem_functions.mp h
      exact ⟨c, List.mem_append_left _ hc, hf⟩
    · exact ⟨_, List.mem_append_right _ (List.mem_singleton_self _), by simpa [extendClass] using h⟩

theorem addClass_registered (h : l.Registered) (s : ClassSpec) : (l.addClass s).Registered where
  names := by
    rw [addClass_classes]
    split
    · have hsame (c : NativeClass) :
          (if c.name == s.fullName then extendClass s (described s) c else c).name = c.name := by
        split <;> rfl
      simp only [List.map_map, Function.comp_def, hsame]
      exact h.names
    · next hnew =>
      rw [List.map_append]
      exact h.names.append (List.nodup_singleton _) (by simpa [extendClass] using hnew)
  owners c hc f hf := by
    obtain ⟨d, hd, hname, hf⟩ | ⟨hname, hf⟩ := mem_addClass hc hf
    · exact (h.owners d hd f hf).trans hname
    · exact (owner_described hf).trans hname.symm
  indexed f hf := by
    obtain ⟨g, -, -, hg⟩ | ⟨hnone, hsame⟩ := addClass_findFunction l s f.identity
    · exact ⟨g, hg⟩
    · obtain ⟨c, hc, hf⟩ := mem_functions.mp hf
      obtain ⟨d, hd, -, hf⟩ | ⟨-, hf⟩ := mem_addClass hc hf
      · rw [hsame]
        exact h.indexed f (mem_functions.mpr ⟨d, hd, hf⟩)
      · exact absurd rfl (hnone f hf)
  found id g hg := by
    obtain ⟨f, hf, hid, hfound⟩ | ⟨-, hsame⟩ := addClass_findFunction l s id
    · obtain rfl := Option.some.inj (hfound.symm.trans hg)
      exact ⟨hid, functions_addClass (.inr hf)⟩
    · obtain ⟨hid, hg⟩ := h.found id g (hsame ▸ hg)
      exact ⟨hid, functions_addClass (.inl hg)⟩

/-! ## Whole libraries -/

theorem build_classes (name : String) (spaces : List String) :
    (spaces.foldl addNamespace (empty name)).classes = [] ∧
      (spaces.foldl addNamespace (empty name)).index = ∅ := by
  have hkept (l : Library) : (spaces.foldl addNamespace l).classes = l.classes ∧
      (spaces.foldl addNamespace l).index = l.index := by
    induction spaces generalizing l with
    | nil => exact ⟨rfl, rfl⟩
    | cons space spaces ih => exact ih (l.addNamespace space)
  exact hkept (empty name)

theorem IsBuilt.registered (h : l.IsBuilt) : l.Registered := by
  obtain ⟨name, spaces, specs, rfl⟩ := h
  obtain ⟨hclasses, hindex⟩ := build_classes name spaces
  have hstart : (spaces.foldl addNamespace (empty name)).Registered := {
    names := by simp [hclasses]
    owners := by simp [hclasses]
    indexed := by simp [functions, hclasses]
    found := by simp [findFunction?, hindex] }
  unfold build
  generalize spaces.foldl addNamespace (empty name) = start at hstart
  induction specs generalizing start with
  | nil => exact hstart
  | cons s specs ih => exact ih _ (addClass_registered hstart s)

/-- A class is found by its name. -/
theorem Registered.class_eq (h : l.Registered) {c d : NativeClass} (hc : c ∈ l.classes)
    (hd : d ∈ l.classes) (hname : c.name = d.name) : c = d :=
  List.inj_on_of_nodup_map h.names hc hd hname

/-! ### Classes that are described once -/

theorem addNamespace_classes (l : Library) (space : String) :
    (l.addNamespace space).classes = l.classes := rfl

theorem addClass_classes_of_new (h : s.fullName ∉ l.classes.map (·.name)) :
    (l.addClass s).classes = l.classes ++ [s.asClass] := by
  rw [addClass_classes, if_neg h]
  simp [extendClass, ClassSpec.asClass, described]

/-- Descriptions of different classes make one class each. -/
theorem build_classes_of_nodup (name : String) (spaces : List String) {specs : List ClassSpec}
    (h : (specs.map (·.fullName)).Nodup) :
    (build name spaces specs).classes = specs.map (·.asClass) := by
  have hfold : ∀ (l : Library), (l.classes.map (·.name) ++ specs.map (·.fullName)).Nodup →
      (specs.foldl addClass l).classes = l.classes ++ specs.map (·.asClass) := by
    clear h
    induction specs with
    | nil => simp
    | cons s specs ih =>
      intro l hl
      have hnew : s.fullName ∉ l.classes.map (·.name) := by
        intro hmem
        rw [List.map_cons] at hl
        exact List.disjoint_of_nodup_append hl hmem List.mem_cons_self
      have hs := addClass_classes_of_new hnew
      rw [List.foldl_cons, ih, hs]
      · simp
      · simpa [hs, ClassSpec.asClass] using hl
  obtain ⟨hclasses, -⟩ := build_classes name spaces
  rw [build, hfold] <;> simp [hclasses, h]

end Library
end ClassScript
