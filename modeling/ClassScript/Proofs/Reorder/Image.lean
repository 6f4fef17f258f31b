import ClassScript.Proofs.Reorder.Lockstep
import ClassScript.Proofs.Reorder.Module
import ClassScript.Proofs.Verification
import Mathlib.Data.List.Perm.Subperm

/-!
Images of scripts that differ in the order of their methods.

What is looked for in a class is the constructor, the initializer, or a method of one name and
signature. A class has one of these at most, so it does not matter in which order they stand. What
is found in the one image is relocated to what is found in the other one.
-/

namespace ClassScript

open Compile Layout

/-! ## Searches among methods -/

def SamePlace (methods methods' : Array MethodSymbol) (i j : Nat) : Prop :=
  ∃ f f', methods[i]? = some f ∧ methods'[j]? = some f' ∧ f.placeless = f'.placeless

instance MethodSymbol.Apart.symm : Std.Symm MethodSymbol.Apart where
  symm f g h := by
    rintro ⟨hkind, hname, hparams⟩
    exact h ⟨hkind.symm, fun hf => (hname (hkind.trans hf)).symm,
      fun hf => (hparams fun hg => hf (hkind.symm.trans hg)).symm⟩

/-- A condition that holds for one method at most of those that differ in their signatures. -/
structure MethodSymbol.Singles (P : MethodSymbol → Bool) : Prop where
  placeless : ∀ f, P f.placeless = P f
  unique : ∀ f g, P f = true → P g = true → ¬ f.Apart g

namespace MethodSymbol.Singles

variable {P : MethodSymbol → Bool} (hP : Singles P)

include hP

theorem congr {f g : MethodSymbol} (h : f.placeless = g.placeless) : P f = P g := by
  rw [← hP.placeless f, h, hP.placeless]

/-- Where one method at most is looked for, both orders have it or neither has. -/
theorem findIdx? {c c' : ClassSymbol} (h : c.Akin c')
    (hapart : c.methods.toList.Pairwise MethodSymbol.Apart) :
    Option.Rel (SamePlace c.methods c'.methods) (c.methods.findIdx? P) (c'.methods.findIdx? P) := by
  have left {f' : MethodSymbol} (hf' : f' ∈ c'.methods) : ∃ f ∈ c.methods, f.placeless = f'.placeless := by
    obtain ⟨f, hf, heq⟩ := List.mem_map.mp (h.methods.mem_iff.mpr (List.mem_map_of_mem hf'.val))
    exact ⟨f, ⟨hf⟩, heq⟩
  have right {f : MethodSymbol} (hf : f ∈ c.methods) : ∃ f' ∈ c'.methods, f'.placeless = f.placeless := by
    obtain ⟨f', hf', heq⟩ := List.mem_map.mp (h.methods.mem_iff.mp (List.mem_map_of_mem hf.val))
    exact ⟨f', ⟨hf'⟩, heq⟩
  cases hi : c.methods.findIdx? P with
  | none =>
    have hnone : c'.methods.findIdx? P = none := by
      rw [Array.findIdx?_eq_none_iff]
      intro f' hf'
      obtain ⟨f, hf, heq⟩ := left hf'
      rw [← hP.congr heq]
      exact Array.findIdx?_eq_none_iff.mp hi f hf
    rw [hnone]
    exact .none
  | some i =>
    obtain ⟨hlt, hf, -⟩ := Array.findIdx?_eq_some_iff_getElem.mp hi
    cases hj : c'.methods.findIdx? P with
    | none =>
      obtain ⟨f', hf', heq⟩ := right (Array.getElem_mem hlt)
      rw [← hP.congr heq, Array.findIdx?_eq_none_iff.mp hj f' hf'] at hf
      cases hf
    | some j =>
      obtain ⟨hlt', hf', -⟩ := Array.findIdx?_eq_some_iff_getElem.mp hj
      obtain ⟨f, hmem, heq⟩ := left (Array.getElem_mem hlt')
      -- both methods of the first class meet the condition, so that they are one
      have hsame : c.methods[i] = f := by
        by_contra hne
        exact hP.unique _ _ hf ((hP.congr heq).trans hf')
          (hapart.forall (Array.getElem_mem hlt).val hmem.val hne)
      exact .some ⟨_, _, Array.getElem?_eq_getElem hlt, Array.getElem?_eq_getElem hlt', hsame ▸ heq⟩

end MethodSymbol.Singles

theorem singles_constructor : MethodSymbol.Singles fun f =>
    f.kind == .constructor && f.visibility.isPublic && f.params.isEmpty where
  placeless _ := rfl
  unique f g hf hg h := by
    simp only [Bool.and_eq_true, beq_iff_eq, List.isEmpty_iff] at hf hg
    exact h ⟨hf.1.1.trans hg.1.1.symm, by simp [hf.1.1], fun _ => hf.2.trans hg.2.symm⟩

theorem singles_typeInitializer : MethodSymbol.Singles (·.kind == .typeInitializer) where
  placeless _ := rfl
  unique f g hf hg h := by
    simp only [beq_iff_eq] at hf hg
    exact h ⟨hf.trans hg.symm, by simp [hf], fun hne => absurd hf hne⟩

theorem singles_bindable (name : String) (s : CallSignature) : MethodSymbol.Singles fun f =>
    f.kind == .method && !f.isStatic && f.visibility.isPublic && f.name == name &&
      f.params == s.params && f.returns == s.returns where
  placeless _ := rfl
  unique f g hf hg h := by
    simp only [Bool.and_eq_true, beq_iff_eq] at hf hg
    obtain ⟨⟨⟨⟨⟨hkind, -⟩, -⟩, hname⟩, hparams⟩, -⟩ := hf
    obtain ⟨⟨⟨⟨⟨hkind', -⟩, -⟩, hname'⟩, hparams'⟩, -⟩ := hg
    exact h ⟨hkind.trans hkind'.symm, fun _ => hname.trans hname'.symm,
      fun _ => hparams.trans hparams'.symm⟩

theorem findIdx?_forall₂ {α β : Type} {R : α → β → Prop} {as : List α} {bs : List β}
    (h : List.Forall₂ R as bs) {P : α → Bool} {Q : β → Bool} (hPQ : ∀ a b, R a b → Q b = P a) :
    bs.findIdx? Q = as.findIdx? P := by
  induction h with
  | nil => rfl
  | cons hab _ ih => rw [List.findIdx?_cons, List.findIdx?_cons, hPQ _ _ hab, ih]

/-- A search that does not look at code finds methods at the places of their symbols. -/
theorem Layout.CompiledClass.findIdx? {T : Tables} {c : ClassSite} {k : ClassImage}
    (h : CompiledClass T c k) {P : MethodSymbol → Bool} {Q : MethodImage → Bool}
    (hPQ : ∀ f g, Compiled T c f g → Q g = P f) :
    k.methods.findIdx? Q = c.owner.methods.findIdx? P := by
  rw [← k.methods.toArray_toList, ← c.owner.methods.toArray_toList,
    List.findIdx?_toArray, List.findIdx?_toArray]
  exact findIdx?_forall₂ h.methods hPQ

/-! ## What can be written -/

namespace Encode

/-- Where the first can be written, the second can. -/
def AsWell (x y : Except EncodeError (List UInt8)) : Prop := ∀ out, x = .ok out → ∃ out', y = .ok out'

namespace AsWell

variable {α : Type} {x y : Except EncodeError (List UInt8)} {what : String}

theorem refl (x : Except EncodeError (List UInt8)) : AsWell x x := fun out h => ⟨out, h⟩

theorem pure (bs : List UInt8) : AsWell x (Pure.pure bs) := fun _ _ => ⟨bs, rfl⟩

theorem bind {k l : List UInt8 → Except EncodeError (List UInt8)} (h : AsWell x y)
    (hk : ∀ bs cs, AsWell (k bs) (l cs)) : AsWell (x >>= k) (y >>= l) := by
  intro out hout
  obtain ⟨bs, hbs, hout⟩ := ok_bind hout
  obtain ⟨cs, hcs⟩ := h bs hbs
  obtain ⟨out', hout'⟩ := hk bs cs out hout
  exact ⟨out', by rw [hcs]; exact hout'⟩

theorem count {size n n' : Nat} (h : n' ≤ n) : AsWell (Encode.count size what n) (Encode.count size what n') := by
  intro out hout
  have hbound : n' < 256 ^ size := Nat.lt_of_le_of_lt h (Reads.count_inv hout).1
  exact ⟨_, if_pos hbound⟩

theorem bytes {bs cs : List UInt8} (h : cs.length ≤ bs.length) : AsWell (Encode.bytes bs) (Encode.bytes cs) :=
  (count h).bind fun _ _ => pure _

/-- A list whose items are like some of another list that is as long. -/
theorem counted {size : Nat} {f : α → Except EncodeError (List UInt8)} {as bs : List α}
    (hlength : bs.length ≤ as.length) (h : ∀ b ∈ bs, ∃ a ∈ as, AsWell (f a) (f b)) :
    AsWell (Encode.counted size what f as) (Encode.counted size what f bs) := by
  refine (count hlength).bind fun _ _ => bind (fun out hout => ?_) fun _ _ => pure _
  obtain ⟨pieces, hpieces, -⟩ := Reads.all_inv hout
  obtain ⟨pieces', hpieces'⟩ := show ∃ pieces', bs.mapM f = .ok pieces' from exists_mapM_ok fun b hb => by
    obtain ⟨a, ha, hab⟩ := h b hb
    obtain ⟨i, hi⟩ := List.getElem?_of_mem ha
    obtain ⟨piece, -, hpiece⟩ := Flow.forall₂_getElem? hpieces hi
    exact hab piece hpiece
  exact ⟨_, by rw [Encode.all, hpieces']; rfl⟩

theorem types {ts us : List ValueType} (h : us.length ≤ ts.length) : AsWell (Encode.types ts) (Encode.types us) :=
  (count h).bind fun _ _ => pure _

theorem nativeImport {a b : NativeImport} (hname : a.name = b.name) (hparams : b.params.length ≤ a.params.length) :
    AsWell (Encode.nativeImport a) (Encode.nativeImport b) := by
  unfold Encode.nativeImport
  rw [hname]
  exact (refl _).bind fun _ _ => (types hparams).bind fun _ _ => pure _

theorem method {f g : MethodImage} (hname : f.name = g.name) (hparams : f.params = g.params)
    (hcode : g.code.size ≤ f.code.size) : AsWell (Encode.method f) (Encode.method g) := by
  unfold Encode.method
  rw [hname, hparams]
  exact (refl _).bind fun _ _ => (refl _).bind fun _ _ => (bytes hcode).bind fun _ _ => pure _

theorem class_ {c d : ClassImage} (hname : c.name = d.name) (hfields : c.fields = d.fields)
    (hsize : d.methods.size ≤ c.methods.size)
    (h : ∀ g ∈ d.methods.toList, ∃ f ∈ c.methods.toList, AsWell (Encode.method f) (Encode.method g)) :
    AsWell (Encode.class_ c) (Encode.class_ d) := by
  unfold Encode.class_
  rw [hname, hfields]
  exact (refl _).bind fun _ _ => (refl _).bind fun _ _ => (counted hsize h).bind fun _ _ => pure _

end AsWell
end Encode
/-- An image that can be written has no class with too many methods. -/
theorem Image.few_of_encode {m : Image} {bytes : List UInt8} (h : m.encode = .ok bytes) :
    ∀ k ∈ m.classes.toList, k.methods.size ≤ Emitter.maxOperand + 1 := by
  intro k hk
  obtain ⟨_, -, h⟩ := ok_bind h
  obtain ⟨_, -, h⟩ := ok_bind h
  obtain ⟨_, -, h⟩ := ok_bind h
  obtain ⟨_, -, h⟩ := ok_bind h
  obtain ⟨_, hclasses, -⟩ := ok_bind h
  obtain ⟨_, -, hclasses⟩ := ok_bind hclasses
  obtain ⟨_, hclasses, -⟩ := ok_bind hclasses
  obtain ⟨pieces, hpieces, -⟩ := Reads.all_inv hclasses
  obtain ⟨i, hi⟩ := List.getElem?_of_mem hk
  obtain ⟨piece, -, hk⟩ := Flow.forall₂_getElem? hpieces hi
  obtain ⟨_, -, hk⟩ := ok_bind hk
  obtain ⟨_, -, hk⟩ := ok_bind hk
  obtain ⟨_, hmethods, -⟩ := ok_bind hk
  obtain ⟨_, hcount, -⟩ := ok_bind hmethods
  have hbound : k.methods.size < 256 ^ 2 := (Reads.count_inv hcount).1
  exact Nat.le_of_lt hbound

/-! ## Two images -/

theorem Tables.Distinct.constants_size_le {T : Tables} (h : T.Distinct) (T' : Tables)
    (hsub : ∀ c ∈ T.constants.toList, c ∈ T'.constants.toList) :
    T.constants.size ≤ T'.constants.size := by
  have hnodup : T.constants.toList.Nodup := by
    refine List.nodup_iff_getElem?_ne_getElem?.mpr fun i j hij hj heq => ?_
    rw [Array.getElem?_toList, Array.getElem?_toList, Array.getElem?_eq_getElem hj] at heq
    exact Nat.ne_of_lt hij (h.constants i j _ heq (Array.getElem?_eq_getElem hj))
  simpa using (List.Nodup.subperm hnodup hsub).length_le

theorem Tables.Distinct.imports_size_le {T : Tables} (h : T.Distinct) (T' : Tables)
    (hsub : ∀ imp ∈ T.imports.toList, ∃ imp' ∈ T'.imports.toList, imp'.identity = imp.identity) :
    T.imports.size ≤ T'.imports.size := by
  have hnodup : (T.imports.toList.map (·.identity)).Nodup := by
    refine List.nodup_iff_getElem?_ne_getElem?.mpr fun i j hij hj heq => ?_
    rw [List.length_map] at hj
    rw [List.getElem?_map, List.getElem?_map, Array.getElem?_toList, Array.getElem?_toList,
      Array.getElem?_eq_getElem (Nat.lt_trans hij hj), Array.getElem?_eq_getElem hj] at heq
    exact Nat.ne_of_lt hij (h.imports i j _ _ (Array.getElem?_eq_getElem (Nat.lt_trans hij hj))
      (Array.getElem?_eq_getElem hj) (Option.some.inj heq))
  have hsubset : T.imports.toList.map (·.identity) ⊆ T'.imports.toList.map (·.identity) := by
    intro id hid
    obtain ⟨imp, himp, rfl⟩ := List.mem_map.mp hid
    obtain ⟨imp', himp', heq⟩ := hsub imp himp
    exact List.mem_map.mpr ⟨imp', himp', heq⟩
  simpa using (hnodup.subperm hsubset).length_le

namespace Layout

/-- Methods that are the same are methods of akin classes. -/
theorem classes_of_samePlace {s s' : Symbols} (h : s.Akin s') {cls i j : Nat}
    (hij : SamePlace (s.classes.getD cls default).methods (s'.classes.getD cls default).methods i j) :
    ∃ c c' f f', s.classes[cls]? = some c ∧ s'.classes[cls]? = some c' ∧ c.Akin c' ∧
      c.methods[i]? = some f ∧ c'.methods[j]? = some f' ∧ f.placeless = f'.placeless := by
  obtain ⟨f, f', hf, hf', hsame⟩ := hij
  rw [Array.getD_eq_getD_getElem?] at hf hf'
  cases hc : s.classes[cls]? with
  | none =>
    rw [hc, Option.getD_none] at hf
    exact absurd hf (by simp [show (default : ClassSymbol).methods = #[] from rfl])
  | some c =>
    obtain ⟨c', hc', hakin⟩ := h.right hc
    rw [hc] at hf
    rw [hc'] at hf'
    exact ⟨c, c', f, f', rfl, hc', hakin, hf, hf', hsame⟩

/-- Classes are twins if they are compiled from akin classes in which no two methods have one
signature. -/
theorem CompiledClass.twins {T T' : Tables} {c c' : ClassSite} {k k' : ClassImage}
    (hk : CompiledClass T c k) (hk' : CompiledClass T' c' k') (h : c.owner.Akin c'.owner)
    (hapart : c.owner.methods.toList.Pairwise MethodSymbol.Apart) :
    k.Twins (SamePlace c.owner.methods c'.owner.methods) k' := by
  have search {P : MethodSymbol → Bool} {Q : MethodImage → Bool} (hP : MethodSymbol.Singles P)
      (hQ : ∀ {T : Tables} {c : ClassSite} (f g), Compiled T c f g → Q g = P f) :
      Option.Rel (SamePlace c.owner.methods c'.owner.methods) (k.methods.findIdx? Q)
        (k'.methods.findIdx? Q) := by
    rw [hk.findIdx? hQ, hk'.findIdx? hQ]
    exact hP.findIdx? h hapart
  refine ⟨?_, ?_, search singles_constructor ?_, search singles_typeInitializer ?_,
    fun name s => search (singles_bindable name s) ?_, ?_⟩
  · rw [hk.name, hk'.name, h.name]
  · have himage (fs : Array FieldSymbol) :
        (fs.map fieldImage).toList = (fs.toList.map FieldSymbol.placeless).map fieldImage := by
      rw [Array.toList_map, List.map_map]
      rfl
    rw [hk.fields, hk'.fields]
    exact Array.ext' (by rw [himage, himage, h.fields])
  · intro T c f g hg
    rw [hg.kind, hg.visibility, hg.params]
  · intro T c f g hg
    rw [hg.kind]
  · intro T c f g hg
    rw [Instance.isBindable, hg.kind, hg.isStatic, hg.visibility, hg.name, hg.params, hg.returns]
  · rintro i j ⟨f, f', hf, hf', hsame⟩
    obtain ⟨g, hg, hfg⟩ := Flow.forall₂_getElem? hk.methods (Array.getElem?_toList ▸ hf)
    obtain ⟨g', hg', hfg'⟩ := Flow.forall₂_getElem? hk'.methods (Array.getElem?_toList ▸ hf')
    rw [Array.getElem?_toList] at hg hg'
    obtain ⟨hname, -⟩ := MethodSymbol.mk.inj hsame
    rw [hg, hg', Option.map_some, Option.map_some, MethodImage.signature, MethodImage.signature,
      hfg.name, hfg'.name, hfg.params, hfg'.params, hname, (MethodSymbol.eq_of_placeless hsame).2.2.1]

end Layout

namespace Compilation

/-- Where an image has what another one has, and which methods of the two scripts are the same. -/
def relocation (options : Options) (libraries : List Library) (script script' : Script)
    (m m' : Image) : Relocation where
  source := ⟨m.constants, m.imports⟩
  target := ⟨m'.constants, m'.imports⟩
  methods cls := SamePlace ((symbolsOf options libraries script).classes.getD cls default).methods
    ((symbolsOf options libraries script').classes.getD cls default).methods

variable {name : String} {options : Options} {libraries : List Library} {script script' : Script}
  {m m' : Image} (h : script.Rearranged script')
  (hm : (Compilation.ofScript name options libraries script).image = some m)
  (hm' : (Compilation.ofScript name options libraries script').image = some m')

include h hm hm'

/-- Classes of both images have the same numbers of methods. -/
theorem few_of_rearranged (hfew : ∀ k ∈ m.classes.toList, k.methods.size ≤ Emitter.maxOperand + 1) :
    ∀ k ∈ m'.classes.toList, k.methods.size ≤ Emitter.maxOperand + 1 := by
  intro k hk
  obtain ⟨i, hi⟩ := List.getElem?_of_mem hk
  obtain ⟨site, hsite, hcompiled⟩ := Flow.forall₂_getElem? (laid_of_compiled hm').classes.flip hi
  obtain ⟨howner, -⟩ := Flow.of_getElem?_sites hsite
  have hbound := few_rearranged h hm hfew i
  rw [Array.getD_eq_getD_getElem?, howner, Option.getD_some] at hbound
  have hlength := hcompiled.methods.length_eq
  simp only [Array.length_toList] at hlength
  omega

/-- Images are twins if they are compiled from one script but for the order of the methods. -/
theorem image_twins : m.Twins (relocation options libraries script script' m m').methods m' where
  name := by rw [image_eq hm, image_eq hm']
  classes i := by
    have hakin := symbols_akin h hm
    have hlaid := (laid_of_compiled hm).classes
    have hlaid' := (laid_of_compiled hm').classes
    rw [← Array.getElem?_toList, ← Array.getElem?_toList]
    cases hk : m.classes.toList[i]? with
    | none =>
      cases hk' : m'.classes.toList[i]? with
      | none => exact .none
      | some k' =>
        obtain ⟨site', hsite', -⟩ := Flow.forall₂_getElem? hlaid'.flip hk'
        obtain ⟨c, hc, -⟩ := hakin.left (Flow.of_getElem?_sites hsite').1
        obtain ⟨k, hsome, -⟩ := Flow.forall₂_getElem? hlaid (Flow.getElem?_sites hc)
        cases hk.symm.trans hsome
    | some k =>
      obtain ⟨site, hsite, hcompiled⟩ := Flow.forall₂_getElem? hlaid.flip hk
      obtain ⟨hc, -⟩ := Flow.of_getElem?_sites hsite
      obtain ⟨c', hc', howner⟩ := hakin.right hc
      obtain ⟨k', hk', hcompiled'⟩ := Flow.forall₂_getElem? hlaid' (Flow.getElem?_sites hc')
      have hapart := Registration.ofScript_apart libraries options.usings script _
        (List.mem_of_getElem? (Array.getElem?_toList ▸ hc))
      rw [hk']
      simp only [relocation, Array.getD_eq_getD_getElem?, hc, hc', Option.getD_some]
      exact .some (hcompiled.twins hcompiled' howner hapart)

section

variable (hfew : ∀ k ∈ m.classes.toList, k.methods.size ≤ Emitter.maxOperand + 1)

include hfew

theorem covers : (relocation options libraries script script' m m').Covers
      (symbolsOf options libraries script) (symbolsOf options libraries script') := by
  obtain ⟨image, himage, hconstants, hfunctions⟩ :=
    image_rearranged h.symm hm' (few_of_rearranged h hm hm' hfew)
  obtain rfl : image = m := Option.some.inj (himage.symm.trans hm)
  exact ⟨hconstants, hfunctions, fun cls i j f f' hf hf' hsame => ⟨f, f', hf, hf', hsame⟩⟩

/-- The code of a method in one image is that in the other one, relocated. -/
theorem method_relocates {cls i j : Nat} (hij : (relocation options libraries script script' m m').methods cls i j) :
    ∃ g g', m.method? cls i = some g ∧ m'.method? cls j = some g' ∧
      g.Relocates (relocation options libraries script script' m m') g' := by
  have hakin := symbols_akin h hm
  obtain ⟨c, c', f, f', hc, hc', howner, hf, hf', hsame⟩ := classes_of_samePlace hakin hij
  obtain ⟨g, hg, hcompiled⟩ := Flow.method_of_laid (laid_of_compiled hm) hc hf
  obtain ⟨g', hg', hcompiled'⟩ := Flow.method_of_laid (laid_of_compiled hm') hc' hf'
  have hsite : ClassSite.Akin ⟨symbolsOf options libraries script, options.release, cls, c⟩
      ⟨symbolsOf options libraries script', options.release, cls, c'⟩ :=
    ⟨hakin, rfl, rfl, howner, few_rearranged h hm hfew⟩
  obtain ⟨-, -, hdistinct⟩ := tables_release (r := options.release) hm' hm'
  exact ⟨g, g', hg, hg', hcompiled.relocates hsite (covers h hm hm' hfew) hdistinct hsame hcompiled'⟩

/-- Modules do the same if the functions that they import do. -/
theorem program_twins {natives natives' : Array (Native Unit)} (hsize : natives.size = m.imports.size)
    (hnatives : ∀ (i j : Nat) (a b : NativeImport), m.imports[i]? = some a →
      m'.imports[j]? = some b → a.identity = b.identity →
      a.name = b.name ∧ a.params.length = b.params.length ∧ a.returns = b.returns ∧
        natives[i]? = natives'[j]?) :
    Program.Twins id (relocation options libraries script script' m m').methods ⟨m, natives⟩ ⟨m', natives'⟩ where
  image := image_twins h hm hm'
  calls c i j hij n args s := by
    have hlaid := laid_of_compiled hm
    suffices hrelocates : Program.Relocates (relocation options libraries script script' m m')
        ⟨m, natives⟩ ⟨m', natives'⟩ from call_relocates hrelocates hij n args s
    refine ⟨rfl, rfl, ?_, ⟨fun c hc f hf => ?_, hsize⟩, fun c i j => method_relocates h hm hm' hfew, hnatives⟩
    · change m.checked = m'.checked
      rw [image_eq hm, image_eq hm']
    · exact (Flow.method_sound (symbolsOf_sound ..) hlaid hc hf).1

/-- What can be written of a class can be written of the same class of the other image. -/
theorem class_rearranged {k' : ClassImage} (hk' : k' ∈ m'.classes.toList) :
    ∃ k ∈ m.classes.toList, Encode.AsWell (Encode.class_ k) (Encode.class_ k') := by
  obtain ⟨cls, hcls⟩ := List.getElem?_of_mem hk'
  obtain ⟨site', hsite', hcompiled'⟩ := Flow.forall₂_getElem? (laid_of_compiled hm').classes.flip hcls
  obtain ⟨hc', -⟩ := Flow.of_getElem?_sites hsite'
  obtain ⟨c, hc, howner⟩ := (symbols_akin h hm).left hc'
  obtain ⟨k, hk, hcompiled⟩ := Flow.forall₂_getElem? (laid_of_compiled hm).classes (Flow.getElem?_sites hc)
  have htwins := (image_twins h hm hm').classes cls
  rw [Array.getElem?_toList] at hcls hk
  rw [hcls, hk] at htwins
  obtain @⟨_, _, htwins⟩ := htwins
  refine ⟨k, List.mem_of_getElem? (Array.getElem?_toList ▸ hk), .class_ htwins.name htwins.fields ?_ fun g' hg' => ?_⟩
  · have hlength := hcompiled.methods.length_eq
    have hlength' := hcompiled'.methods.length_eq
    have hperm := howner.methods.length_eq
    simp only [List.length_map, Array.length_toList] at hlength hlength' hperm
    omega
  · obtain ⟨j, hj⟩ := List.getElem?_of_mem hg'
    obtain ⟨f', hf', -⟩ := Flow.forall₂_getElem? hcompiled'.methods.flip hj
    obtain ⟨f, hf, hsame⟩ := List.mem_map.mp
      (howner.methods.mem_iff.mpr (List.mem_map_of_mem (List.mem_of_getElem? hf')))
    obtain ⟨i, hi⟩ := List.getElem?_of_mem hf
    have hplace : (relocation options libraries script script' m m').methods cls i j :=
      ⟨f, f', by simpa [Array.getD_eq_getD_getElem?, hc] using hi,
        by simpa [Array.getD_eq_getD_getElem?, hc'] using hf', hsame⟩
    obtain ⟨g, g₁, hg, hg₁, hrelocates⟩ := method_relocates h hm hm' hfew hplace
    rw [Image.method?, hk] at hg
    rw [Image.method?, hcls] at hg₁
    rw [Array.getElem?_toList] at hj
    obtain rfl : g₁ = g' := Option.some.inj (hg₁.symm.trans hj)
    have hname : g.name = g₁.name := by
      have hname := congrArg MethodImage.name hrelocates.outline
      exact hname
    have hg : k.methods[i]? = some g := hg
    exact ⟨g, List.mem_of_getElem? (Array.getElem?_toList ▸ hg), .method hname hrelocates.params
      (Nat.le_of_eq hrelocates.size.symm)⟩

end

/-- What can be written of a script can be written of one with its methods in another order. -/
theorem encode_rearranged (himports : ∀ a ∈ m.imports.toList, ∀ b ∈ m'.imports.toList,
      a.identity = b.identity → a.name = b.name ∧ a.params.length = b.params.length) {bytes : List UInt8}
    (hbytes : m.encode = .ok bytes) : ∃ bytes', m'.encode = .ok bytes' := by
  have hfew := m.few_of_encode hbytes
  obtain ⟨image, himage, hconstants, hfunctions⟩ := image_rearranged h hm hfew
  obtain rfl : image = m' := Option.some.inj (himage.symm.trans hm')
  obtain ⟨-, -, hdistinct⟩ := tables_release (r := options.release) hm' hm'
  have hencode : Encode.AsWell m.encode image.encode := by
    have hname : m.name = image.name := by rw [image_eq hm, image_eq hm']
    have hreferences : m.references = image.references := by rw [image_eq hm, image_eq hm']
    unfold Image.encode
    rw [hname, hreferences]
    refine (Encode.AsWell.refl _).bind fun _ _ => (Encode.AsWell.refl _).bind fun _ _ =>
      Encode.AsWell.bind ?_ fun _ _ => Encode.AsWell.bind ?_ fun _ _ => Encode.AsWell.bind ?_ fun _ _ => .pure _
    · exact .counted (hdistinct.constants_size_le ⟨m.constants, m.imports⟩ hconstants)
        fun c hc => ⟨c, hconstants c hc, .refl _⟩
    · refine .counted (hdistinct.imports_size_le ⟨m.constants, m.imports⟩ hfunctions)
        fun b hb => ?_
      obtain ⟨a, ha, hab⟩ := hfunctions b hb
      obtain ⟨hname, hparams⟩ := himports a ha b hb hab
      exact ⟨a, ha, .nativeImport hname (Nat.le_of_eq hparams.symm)⟩
    · have hsize := congrArg Array.size
        ((image_twins h hm hm').classes_map (f := ClassImage.name) fun _ _ _ hc => hc.name)
      rw [Array.size_map, Array.size_map] at hsize
      exact .counted (Nat.le_of_eq hsize.symm) fun k' hk' => class_rearranged h hm hm' hfew hk'
  exact hencode bytes hbytes

end Compilation
end ClassScript
