import ClassScript.Build
import ClassScript.Proofs.Verification

/-!
Modules that the pipeline gives.

A module is there only if nothing that was reported prevents it. It then holds the image that was
compiled, as it is read back from its bytes, and its imports are bound against the very libraries
that it was compiled against.
-/

namespace ClassScript

open Layout

namespace LoadedModule

/-- Libraries that a catalog has under their names are found by them. -/
theorem mapM_findLibrary {catalog : Catalog} {libraries : List Library}
    (h : ∀ l ∈ libraries, catalog.find? l.name = some l) :
    (libraries.map (·.name)).mapM (findLibrary catalog) = .ok libraries := by
  induction libraries with
  | nil => rfl
  | cons l ls ih =>
    rw [List.map_cons, List.mapM_cons, ih fun k hk => h k (List.mem_cons_of_mem _ hk), findLibrary,
      h l List.mem_cons_self]
    rfl

theorem runInitializers_program {fuel : Nat} {places : List (Nat × Nat)} {m m' : LoadedModule}
    (h : runInitializers fuel places m = some (.ok m')) : m'.program = m.program := by
  induction places generalizing m with
  | nil =>
    cases h
    rfl
  | cons place places ih =>
    unfold runInitializers at h
    split at h
    · cases h
    · cases h
    · have hrest := ih h
      exact hrest

theorem bind_ok {image : Image} {bytes : List UInt8} {catalog : Catalog} {m : LoadedModule}
    (h : bind image bytes catalog = .ok m) : ∃ libraries natives,
      image.references.mapM (findLibrary catalog) = .ok libraries ∧
      image.imports.toList.mapM (bindImport libraries) = .ok natives ∧
      m.program = ⟨image, natives.toArray⟩ := by
  unfold bind at h
  obtain ⟨libraries, hlibraries, h⟩ := ok_bind h
  obtain ⟨natives, hnatives, h⟩ := ok_bind h
  cases h
  exact ⟨libraries, natives, hlibraries, hnatives, rfl⟩

end LoadedModule

namespace Build

def librariesOf (s : Settings) (catalog : Catalog) : List Library :=
  (resolveReferences catalog s.references).1

theorem mem_catalog {s : Settings} {catalog : Catalog} {l : Library}
    (h : l ∈ librariesOf s catalog) : l ∈ catalog.libraries ∧ catalog.find? l.name = some l := by
  simp only [librariesOf, resolveReferences] at h
  obtain ⟨name, -, hl⟩ := List.mem_filterMap.mp h
  unfold Catalog.find? at hl ⊢
  have hname := List.find?_some hl
  refine ⟨List.mem_of_find?_eq_some hl, ?_⟩
  rwa [eq_of_beq hname]

/-- Without an image, something was reported that prevents one. -/
theorem blocking_of_none {name : String} {options : Options} {libraries : List Library}
    {script : Script} (h : (Compilation.ofScript name options libraries script).image = none) :
    Diagnostic.anyBlocking (Compilation.ofScript name options libraries script).diagnostics =
      true := by
  simp only [Compilation.ofScript] at h ⊢
  generalize (if options.warningsAsErrors = true then _ else _) = found at h ⊢
  split at h
  · next hblocking =>
    rw [if_pos hblocking]
    exact hblocking
  · cases h

theorem anyBlocking_append (ds es : List Diagnostic) :
    Diagnostic.anyBlocking (ds ++ es) = (Diagnostic.anyBlocking ds || Diagnostic.anyBlocking es) :=
  List.any_append

variable {s : Settings} {catalog : Catalog} {tree : Parsed} {bytes : List UInt8}
  {found : List Diagnostic}

/-- What is written without a blocking diagnostic is the compiled image. -/
theorem generate_ok (h : generate s catalog tree = (bytes, found))
    (hfound : Diagnostic.anyBlocking found = false) : ∃ image,
      (Compilation.ofScript s.moduleName.text s.options (librariesOf s catalog) tree.script).image =
        some image ∧ image.encode = .ok bytes := by
  unfold generate at h
  dsimp only at h
  split at h
  · next hsyntactic =>
    obtain ⟨-, rfl⟩ := Prod.mk.inj h
    exact absurd hsyntactic (by simp [hfound])
  · split at h
    · next hnone =>
      obtain ⟨-, rfl⟩ := Prod.mk.inj h
      have := blocking_of_none hnone
      simp [anyBlocking_append, this] at hfound
    · next image himage =>
      split at h
      · next hblocking =>
        obtain ⟨-, rfl⟩ := Prod.mk.inj h
        cases hblocking.symm.trans hfound
      · split at h
        · next out hout =>
          obtain ⟨rfl, -⟩ := Prod.mk.inj h
          exact ⟨image, himage, hout⟩
        · obtain ⟨-, rfl⟩ := Prod.mk.inj h
          simp [imageFailure, Diagnostic.anyBlocking, Diagnostic.isBlocking] at hfound

/-- A module that the pipeline gives is the compiled image with its imports bound. -/
theorem emit_ok {fuel : Nat} {m : LoadedModule} (h : emit fuel s catalog tree = some (.ok m)) :
    ∃ image natives,
      (Compilation.ofScript s.moduleName.text s.options (librariesOf s catalog) tree.script).image =
        some image ∧
      image.imports.toList.mapM (LoadedModule.bindImport (librariesOf s catalog)) = .ok natives ∧
      m.program = ⟨image, natives.toArray⟩ := by
  obtain ⟨bytes, found, hgenerate⟩ : ∃ bytes found, generate s catalog tree = (bytes, found) :=
    ⟨_, _, rfl⟩
  simp only [emit, hgenerate] at h
  split at h
  · cases h
  · next hfound =>
    obtain ⟨image, himage, hbytes⟩ := generate_ok hgenerate (by simpa using hfound)
    have hlaid := laid_of_compiled himage
    have hread := image.decode_of_encode hbytes
      (Flow.verified_of_laid (symbolsOf_sound s.options (librariesOf s catalog) tree.script) hlaid)
    simp only [LoadedModule.load, hread] at h
    split at h
    · cases h
    · next m' hm' =>
      cases h
      split at hm'
      · cases hm'
      · next m₀ hbind =>
        obtain ⟨libraries, natives, hlibraries, hnatives, hprogram⟩ := LoadedModule.bind_ok hbind
        have hreferences : image.references = (librariesOf s catalog).map (·.name) := by
          rw [image_eq himage]
        rw [hreferences, LoadedModule.mapM_findLibrary fun l hl => (mem_catalog hl).2] at hlibraries
        cases hlibraries
        exact ⟨image, natives, himage, hnatives,
          (LoadedModule.runInitializers_program hm').trans hprogram⟩
    · cases h

end Build
end ClassScript
