import ClassScript.Proofs.Access.Method
import ClassScript.Proofs.Execution.Protection
import ClassScript.Proofs.Execution.Soundness

/-!
What the code of an image reaches for.

`m.Grants cls g i` tells of an instruction in a method `g` of the class at `cls` what the method may
do with it: which methods it calls, and whose fields it reads and stores to. Slots belong to one field
each, so this is said of the very members that an instruction names. It holds of all instructions of
an image that is compiled.
-/

namespace ClassScript

open Code (Instruction)
open Compile Layout Flow

def Code.Holds (code : Code) (i : Instruction) : Prop :=
  ∃ front back : Asm, Spells code (front ++ i :: back)

namespace Image

structure HasField (m : Image) (cls slot : Nat) (f : FieldImage) : Prop where
  mem : ∃ k, m.classes[cls]? = some k ∧ f ∈ k.fields
  instance_ : f.isStatic = false
  slot : f.slot.toNat = slot

structure HasStatic (m : Image) (cls slot : Nat) (f : FieldImage) : Prop where
  mem : ∃ k, m.classes[cls]? = some k ∧ f ∈ k.fields
  static : f.isStatic = true
  slot : f.slot.toNat = slot

/-- What a method of a class may do with an instruction. -/
structure Grants (m : Image) (cls : Nat) (g : MethodImage) (i : Instruction) : Prop where
  call : i.op = .call → ∃ f, m.method? i.first i.second = some f ∧ f.kind = .method ∧
    (f.isStatic = false → i.first = cls ∧ g.isStatic = false) ∧
    (i.first ≠ cls → f.visibility = .pub ∨ f.visibility = .internal)
  field : i.op = .getField ∨ i.op = .setField → g.isStatic = false ∧ ∃ f, m.HasField cls i.first f
  static : i.op = .getStatic ∨ i.op = .setStatic → ∃ c f, m.HasStatic c i.first f
  staticAccess : i.op = .getStatic ∨ i.op = .setStatic → ∀ c f, m.HasStatic c i.first f →
    c ≠ cls → f.visibility = .pub ∨ f.visibility = .internal
  readonlyField : i.op = .setField → ∀ f, m.HasField cls i.first f → f.isReadonly = true →
    g.kind = .constructor
  readonlyStatic : i.op = .setStatic → ∀ c f, m.HasStatic c i.first f → f.isReadonly = true →
    c = cls ∧ g.kind = .typeInitializer

end Image

theorem Visibility.of_not_isOwnClassOnly {v : Visibility} (h : v.isOwnClassOnly = false) :
    v = .pub ∨ v = .internal := by
  cases v with
  | pub => exact .inl rfl
  | internal => exact .inr rfl
  | prot | priv => cases h

/-! ## Slots -/

/-- An element of a piece of a list that is put together from pieces. -/
theorem getElem?_flatMap {α β : Type} {g : α → List β} {xs : List α} {i j : Nat} {x : α} {y : β}
    (hx : xs[i]? = some x) (hy : (g x)[j]? = some y) :
    (xs.flatMap g)[((xs.take i).flatMap g).length + j]? = some y := by
  induction xs generalizing i with
  | nil => cases hx
  | cons a xs ih =>
    cases i with
    | zero =>
      cases hx
      have hlt := (List.getElem?_eq_some_iff.mp hy).1
      simp [List.getElem?_append_left hlt, hy]
    | succ i =>
      have hrest := ih hx
      rw [List.take_succ_cons, List.flatMap_cons, List.flatMap_cons, List.length_append, Nat.add_assoc,
        List.getElem?_append_right (Nat.le_add_right ..), Nat.add_sub_cancel_left]
      exact hrest

/-- Pieces in front end before pieces behind begin. -/
theorem length_flatMap_take {α β : Type} {g : α → List β} {xs : List α} {i k : Nat} {x : α}
    (hx : xs[i]? = some x) (hik : i < k) :
    ((xs.take i).flatMap g).length + (g x).length ≤ ((xs.take k).flatMap g).length := by
  have htake : xs.take (i + 1) = xs.take i ++ [x] := by
    rw [List.take_add_one, hx]
    rfl
  have hpiece : (xs.take (i + 1)).flatMap g = (xs.take i).flatMap g ++ g x := by
    rw [htake, List.flatMap_append, List.flatMap_singleton]
  rw [← List.length_append, ← hpiece]
  have hprefix : xs.take (i + 1) <+: xs.take k := List.take_prefix_take_left (by omega)
  obtain ⟨rest, hrest⟩ := hprefix
  rw [← hrest, List.flatMap_append, List.length_append]
  exact Nat.le_add_right ..

section

variable {s : Symbols} {release : Bool} {libraries : List Library} {m : Image}
  (hs : s.Sound libraries) (hlaid : LaidImage s release m)

include hs hlaid

/-- The place of a static field among all static fields is its slot. -/
theorem place_of_hasStatic {c slot : Nat} {f : FieldImage} (h : m.HasStatic c slot f) :
    ∃ k j, m.classes.toList[c]? = some k ∧ (k.fields.toList.filter (·.isStatic))[j]? = some f ∧
      slot = ((m.classes.toList.take c).flatMap fun k => k.fields.toList.filter (·.isStatic)).length + j := by
  obtain ⟨k, hk, hf⟩ := h.mem
  rw [← Array.getElem?_toList] at hk
  have hmem : f ∈ k.fields.toList.filter (·.isStatic) :=
    List.mem_filter.mpr ⟨Array.mem_toList_iff.mpr hf, h.static⟩
  obtain ⟨j, hj⟩ := List.getElem?_of_mem hmem
  refine ⟨k, j, hk, hj, ?_⟩
  rw [← h.slot]
  exact slots_staticFields hs hlaid _ f (getElem?_flatMap (g := fun k => k.fields.toList.filter (·.isStatic)) hk hj)

/-- A static slot belongs to one field of one class. -/
theorem static_unique {c c' slot : Nat} {f f' : FieldImage} (h : m.HasStatic c slot f)
    (h' : m.HasStatic c' slot f') : c = c' ∧ f = f' := by
  obtain ⟨k, j, hk, hj, hslot⟩ := place_of_hasStatic hs hlaid h
  obtain ⟨k', j', hk', hj', hslot'⟩ := place_of_hasStatic hs hlaid h'
  have hlt := (List.getElem?_eq_some_iff.mp hj).1
  have hlt' := (List.getElem?_eq_some_iff.mp hj').1
  obtain hc | rfl | hc := Nat.lt_trichotomy c c'
  · have hbefore := length_flatMap_take (g := fun k => k.fields.toList.filter (·.isStatic)) hk hc
    omega
  · cases hk.symm.trans hk'
    obtain rfl : j = j' := by omega
    exact ⟨rfl, Option.some.inj (hj.symm.trans hj')⟩
  · have hbefore := length_flatMap_take (g := fun k => k.fields.toList.filter (·.isStatic)) hk' hc
    omega

/-- A slot of a class belongs to one of its instance fields. -/
theorem field_unique {c slot : Nat} {f f' : FieldImage} (h : m.HasField c slot f)
    (h' : m.HasField c slot f') : f = f' := by
  obtain ⟨k, hk, hf⟩ := h.mem
  obtain ⟨k', hk', hf'⟩ := h'.mem
  cases hk.symm.trans hk'
  have place {f : FieldImage} (hf : f ∈ k.fields) (hinstance : f.isStatic = false) :
      k.instanceFields[f.slot.toNat]? = some f := by
    have hmem : f ∈ k.instanceFields :=
      List.mem_filter.mpr ⟨Array.mem_toList_iff.mpr hf, by simp [hinstance]⟩
    obtain ⟨j, hj⟩ := List.getElem?_of_mem hmem
    rw [slots_instanceFields hs hlaid hk j f hj]
    exact hj
  have hplace := place hf h.instance_
  have hplace' := place hf' h'.instance_
  rw [h.slot] at hplace
  rw [h'.slot] at hplace'
  exact Option.some.inj (hplace.symm.trans hplace')

/-- The fields of a class of an image are those of the class it was compiled from. -/
theorem field_of_laid {c : Nat} {k : ClassSymbol} {f : FieldSymbol} (hk : s.classes[c]? = some k)
    (hf : f ∈ k.fields) : (∃ ki, m.classes[c]? = some ki ∧ fieldImage f ∈ ki.fields) ∧
      (fieldImage f).slot.toNat = f.slot := by
  have hmem : k ∈ s.classes.toList := Array.mem_toList_iff.mpr (Array.mem_of_getElem? hk)
  constructor
  · obtain ⟨ki, hki, hcompiled⟩ := forall₂_getElem? hlaid.classes (getElem?_sites hk)
    rw [Array.getElem?_toList] at hki
    refine ⟨ki, hki, ?_⟩
    rw [hcompiled.fields]
    exact Array.mem_map_of_mem hf
  · have hslot : f.slot < 65536 := Nat.lt_trans (hs.slot_lt hmem hf) (by decide)
    simpa [fieldImage] using hslot

end

/-! ## Classes -/

/-- A place without a class has no members. -/
theorem class_cases (site : Site) (c : Nat) : site.symbols.classes[c]? = some (classAt site c) ∨
    (classAt site c).fields = #[] ∧ (classAt site c).methods = #[] := by
  rw [classAt, Array.getD_eq_getD_getElem?]
  cases site.symbols.classes[c]? with
  | some k => exact .inl rfl
  | none => exact .inr ⟨rfl, rfl⟩

theorem class_of_field {site : Site} {c : Nat} {f : FieldSymbol} (h : f ∈ (classAt site c).fields) :
    site.symbols.classes[c]? = some (classAt site c) := by
  refine (class_cases site c).resolve_right fun hnone => ?_
  rw [hnone.1] at h
  simp at h

theorem class_of_method {site : Site} {c i : Nat} {f : MethodSymbol}
    (h : (classAt site c).methods[i]? = some f) :
    site.symbols.classes[c]? = some (classAt site c) := by
  refine (class_cases site c).resolve_right fun hnone => ?_
  rw [hnone.2] at h
  simp at h

/-! ## Instructions -/

section

variable {s : Symbols} {release : Bool} {libraries : List Library} {m : Image}
  (hs : s.Sound libraries) (hlaid : LaidImage s release m)

include hs hlaid

theorem hasField_of_laid {site : Site} (hsite : site.symbols = s) {slot : Nat} {f : FieldSymbol}
    (h : site.HasField slot f) : m.HasField site.cls slot (fieldImage f) := by
  obtain ⟨hmem, hslot⟩ := field_of_laid hs hlaid (hsite ▸ class_of_field h.mem) h.mem
  exact ⟨hmem, h.instance_, hslot.trans h.slot⟩

theorem hasStatic_of_laid {site : Site} (hsite : site.symbols = s) {slot c : Nat} {f : FieldSymbol}
    (h : site.SeesStatic slot c f) : m.HasStatic c slot (fieldImage f) := by
  obtain ⟨hmem, hslot⟩ := field_of_laid hs hlaid (hsite ▸ class_of_field h.mem) h.mem
  exact ⟨hmem, h.static, hslot.trans h.slot⟩

/-- What is granted to a method of the script is granted to the method compiled from it. -/
theorem grants_of_site {c : ClassSite} {f : MethodSymbol} {g : MethodImage} {i : Instruction}
    (hc : c.symbols = s) (hcompiled : Compiled ⟨m.constants, m.imports⟩ c f g)
    (h : (methodSite c f).Grants i) : m.Grants c.cls g i := by
  have static (hop : i.op = .getStatic ∨ i.op = .setStatic) :
      ∃ k f', (methodSite c f).SeesStatic i.first k f' := by
    obtain hop | hop := hop
    · exact h.getStatic hop
    · obtain ⟨k, f', hf, -⟩ := h.setStatic hop
      exact ⟨k, f', hf⟩
  constructor
  case call =>
    intro hop
    obtain ⟨f', hfound, hkind, haccess, hreceiver⟩ := h.call hop
    have hclass : c.symbols.classes[i.first]? = some (classAt (methodSite c f) i.first) :=
      class_of_method hfound
    rw [hc] at hclass
    obtain ⟨g', hg', hcompiled'⟩ := method_of_laid hlaid hclass hfound
    refine ⟨g', hg', hcompiled'.kind.trans hkind, fun hinstance => ?_, fun hother => ?_⟩
    · rw [hcompiled'.isStatic] at hinstance
      obtain hstatic | ⟨hcls, hsite⟩ := hreceiver
      · cases hinstance.symm.trans hstatic
      · exact ⟨hcls, hcompiled.isStatic.trans hsite⟩
    · rw [hcompiled'.visibility]
      exact Visibility.of_not_isOwnClassOnly (haccess.resolve_left hother)
  case field =>
    intro hop
    have hfield : ∃ f', (methodSite c f).HasField i.first f' := by
      obtain hop | hop := hop
      · exact h.getField hop
      · obtain ⟨f', hf, -⟩ := h.setField hop
        exact ⟨f', hf⟩
    obtain ⟨f', hf⟩ := hfield
    exact ⟨hcompiled.isStatic.trans hf.receiver, _, hasField_of_laid hs hlaid hc hf⟩
  case static =>
    intro hop
    obtain ⟨k, f', hf⟩ := static hop
    exact ⟨k, _, hasStatic_of_laid hs hlaid hc hf⟩
  case staticAccess =>
    intro hop k e he hother
    obtain ⟨k', f', hf⟩ := static hop
    obtain ⟨rfl, rfl⟩ := static_unique hs hlaid he (hasStatic_of_laid hs hlaid hc hf)
    exact Visibility.of_not_isOwnClassOnly (hf.access.resolve_left hother)
  case readonlyField =>
    intro hop e he hreadonly
    obtain ⟨f', hf, hmakes⟩ := h.setField hop
    obtain rfl := field_unique hs hlaid he (hasField_of_laid hs hlaid hc hf)
    exact hcompiled.kind.trans (hmakes hreadonly)
  case readonlyStatic =>
    intro hop k e he hreadonly
    obtain ⟨k', f', hf, hmakes⟩ := h.setStatic hop
    obtain ⟨rfl, rfl⟩ := static_unique hs hlaid he (hasStatic_of_laid hs hlaid hc hf)
    obtain ⟨hcls, hkind⟩ := hmakes hreadonly
    exact ⟨hcls, hcompiled.kind.trans hkind⟩

/-- Every instruction of an image that is compiled is granted to its method. -/
theorem grants_of_laid {cls j : Nat} {g : MethodImage} (hg : m.method? cls j = some g)
    {i : Instruction} (hi : g.code.Holds i) : m.Grants cls g i := by
  obtain ⟨k, f, hk, hf, hcompiled⟩ := symbol_of_laid hlaid hg
  obtain ⟨is, locals, B, hlays, hspells, -⟩ := hcompiled.laid
  have hsound : f.Sound := (hs.classes k (Array.mem_toList_iff.mpr (Array.mem_of_getElem? hk))).methods
    f (Array.mem_toList_iff.mpr (Array.mem_of_getElem? hf))
  obtain ⟨front, back, hspells'⟩ := hi
  obtain rfl := hspells.unique hspells'
  exact grants_of_site hs hlaid rfl hcompiled (hlays.granted hk hsound i (by simp))

end

end ClassScript
