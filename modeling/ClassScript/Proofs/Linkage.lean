import ClassScript.Proofs.Dispatch

/-!
Emitted modules link.

The compiler takes the functions of a script from the libraries of distinct names that the catalog has,
and the image lists these libraries and, as its imports, the functions. The loader searches the same
libraries by identity. If no two functions of the catalog share an identity, it finds for every import
the very function that the import was made from, so the import declares what the function takes and
gives. All that can fail when an emitted module is loaded is an initializer.
-/

namespace ClassScript

open Layout

/-- No two functions of the libraries share an identity. -/
def Catalog.Distinct (c : Catalog) : Prop :=
  ((c.libraries.flatMap Library.functions).map (·.identity)).Nodup

theorem Catalog.Distinct.function_eq {c : Catalog} (h : c.Distinct) {k l : Library}
    {f g : NativeFunction} (hk : k ∈ c.libraries) (hf : f ∈ k.functions) (hl : l ∈ c.libraries)
    (hg : g ∈ l.functions) (hid : f.identity = g.identity) : f = g :=
  List.inj_on_of_nodup_map h (List.mem_flatMap.mpr ⟨k, hk, hf⟩) (List.mem_flatMap.mpr ⟨l, hl, hg⟩) hid

namespace LoadedModule

variable {libraries : List Library} {f : NativeFunction} {r : Option ValueType}

/-- The identity of a function finds some function of that identity. -/
theorem exists_findFunction (hregistered : ∀ l ∈ libraries, l.Registered) {l : Library}
    (hl : l ∈ libraries) (hf : f ∈ l.functions) :
    ∃ g, libraries.findSome? (·.findFunction? f.identity) = some g ∧
      ∃ k ∈ libraries, g ∈ k.functions ∧ g.identity = f.identity := by
  obtain ⟨g, hg⟩ := (hregistered l hl).indexed f hf
  have hsome : (libraries.findSome? (·.findFunction? f.identity)).isSome := by
    rw [List.findSome?_isSome_iff]
    exact ⟨l, hl, by rw [hg]; rfl⟩
  obtain ⟨g, hg⟩ := Option.isSome_iff_exists.mp hsome
  obtain ⟨k, hk, hfound⟩ := List.exists_of_findSome?_eq_some hg
  obtain ⟨hid, hgk⟩ := (hregistered k hk).found _ _ hfound
  exact ⟨g, hg, k, hk, hgk, hid⟩

/-- The import of a function declares what the function takes and gives. -/
theorem matchesImport_importOf (h : f.isInstance = r.isSome) :
    matchesImport f (ImportTable.importOf f r) = true := by
  cases r with
  | none => simp [matchesImport, ImportTable.importOf, NativeFunction.arity, h]
  | some t => simp [matchesImport, ImportTable.importOf, NativeFunction.arity, h]

theorem bindImport_importOf (hr : f.isInstance = r.isSome)
    (hf : libraries.findSome? (·.findFunction? f.identity) = some f) :
    bindImport libraries (ImportTable.importOf f r) = .ok f.body := by
  have hfound : libraries.findSome? (·.findFunction? (ImportTable.importOf f r).identity) = some f :=
    hf
  simp only [bindImport, hfound, matchesImport_importOf hr, if_true]

/-- An initializer that fails is the only failure behind binding. -/
theorem runInitializers_error {fuel : Nat} {places : List (Nat × Nat)} {m : LoadedModule}
    {e : LoadError} (h : runInitializers fuel places m = some (.error e)) :
    ∃ f, e = .initializer f := by
  induction places generalizing m with
  | nil => cases h
  | cons place places ih =>
    unfold runInitializers at h
    split at h
    · cases h
    · cases h
      exact ⟨_, rfl⟩
    · exact ih h

end LoadedModule

namespace Build

variable {s : Settings} {catalog : Catalog} {tree : Parsed} {bytes : List UInt8}
  {found : List Diagnostic}

/-- An identity finds the function that it was taken from. -/
theorem findFunction_of_callable (hbuilt : ∀ l ∈ catalog.libraries, l.IsBuilt)
    (hdistinct : catalog.Distinct) {f : NativeFunction} {r : Option ValueType}
    (hf : Callable (librariesOf s catalog) f r) :
    (librariesOf s catalog).findSome? (·.findFunction? f.identity) = some f := by
  obtain ⟨l, hl, c, hc, hfc, -, -⟩ := hf
  have hfl : f ∈ l.functions := Library.mem_functions.mpr ⟨c, hc, hfc⟩
  obtain ⟨g, hg, k, hk, hgk, hid⟩ := LoadedModule.exists_findFunction
    (fun k hk => (hbuilt k (mem_catalog hk).1).registered) hl hfl
  rw [hg, hdistinct.function_eq (mem_catalog hk).1 hgk (mem_catalog hl).1 hfl hid]

/-- The libraries of a compiled image are found, so that it is bound if its imports are. -/
theorem bind_of_natives {image : Image} {natives : List (Native Unit)}
    (himage : (Compilation.ofScript s.moduleName.text s.options (librariesOf s catalog)
      tree.script).image = some image)
    (hnatives : image.imports.toList.mapM (LoadedModule.bindImport (librariesOf s catalog)) =
      .ok natives) :
    LoadedModule.bind image bytes catalog = .ok ⟨⟨image, natives.toArray⟩, bytes,
      librariesOf s catalog, LoadedModule.firstStatics image, .empty, []⟩ := by
  have hreferences : image.references = (librariesOf s catalog).map (·.name) := by
    rw [image_eq himage]
  have hlibraries : image.references.mapM (LoadedModule.findLibrary catalog) =
      .ok (librariesOf s catalog) := by
    rw [hreferences, LoadedModule.mapM_findLibrary fun l hl => (mem_catalog hl).2]
  rw [LoadedModule.bind, hlibraries]
  change (image.imports.toList.mapM (LoadedModule.bindImport (librariesOf s catalog)) >>= fun natives =>
    pure _) = _
  rw [hnatives]
  rfl

/-- The libraries and imports of a compiled image are found and bound. -/
theorem bind_of_compiled (hbuilt : ∀ l ∈ catalog.libraries, l.IsBuilt) (hdistinct : catalog.Distinct)
    {image : Image}
    (himage : (Compilation.ofScript s.moduleName.text s.options (librariesOf s catalog)
      tree.script).image = some image) :
    ∃ m, LoadedModule.bind image bytes catalog = .ok m ∧ m.libraries = librariesOf s catalog := by
  have hbound : ∀ i ∈ image.imports.toList, ∃ body,
      LoadedModule.bindImport (librariesOf s catalog) i = .ok body := by
    intro i hi
    obtain ⟨f, r, hf, rfl⟩ := (laid_of_compiled himage).callable i hi
    rw [(symbolsOf_sound s.options (librariesOf s catalog) tree.script).libraries] at hf
    have hr : f.isInstance = r.isSome := by
      obtain ⟨l, -, c, -, -, hr, -⟩ := hf
      exact hr
    exact ⟨f.body, LoadedModule.bindImport_importOf hr (findFunction_of_callable hbuilt hdistinct hf)⟩
  obtain ⟨natives, hnatives⟩ := exists_mapM_ok hbound
  exact ⟨_, bind_of_natives himage hnatives, rfl⟩

/-- An image that is written without a blocking diagnostic is read back, its libraries are found and
its imports bound against the same catalog. Loading it therefore never misses a reference or an import,
and never finds an import with another signature. -/
theorem generate_links (hbuilt : ∀ l ∈ catalog.libraries, l.IsBuilt) (hdistinct : catalog.Distinct)
    (h : generate s catalog tree = (bytes, found)) (hfound : Diagnostic.anyBlocking found = false) :
    (∃ image m, Image.decode bytes = .ok image ∧ LoadedModule.bind image bytes catalog = .ok m ∧
      m.libraries = librariesOf s catalog) ∧
    ∀ fuel name,
      LoadedModule.load fuel bytes catalog ≠ some (.error (.missingReference name)) ∧
      LoadedModule.load fuel bytes catalog ≠ some (.error (.unresolvedImport name)) ∧
      LoadedModule.load fuel bytes catalog ≠ some (.error (.importMismatch name)) := by
  obtain ⟨image, himage, hbytes⟩ := generate_ok h hfound
  have hread := image.decode_of_encode hbytes
    (Flow.verified_of_laid (symbolsOf_sound s.options (librariesOf s catalog) tree.script)
      (laid_of_compiled himage))
  obtain ⟨m, hbind, hlibraries⟩ : ∃ m, LoadedModule.bind image bytes catalog = .ok m ∧
      m.libraries = librariesOf s catalog := bind_of_compiled hbuilt hdistinct himage
  refine ⟨⟨image, m, hread, hbind, hlibraries⟩, fun fuel name => ?_⟩
  have hload : LoadedModule.load fuel bytes catalog =
      LoadedModule.runInitializers fuel (LoadedModule.initializers image) m := by
    simp only [LoadedModule.load, hread, hbind]
  have hfails (e : LoadError) (he : LoadedModule.load fuel bytes catalog = some (.error e)) :
      ∃ f, e = .initializer f := LoadedModule.runInitializers_error (hload ▸ he)
  refine ⟨fun he => ?_, fun he => ?_, fun he => ?_⟩ <;> simpa using hfails _ he

/-! ## A library that is referred to twice -/

def twiceCatalog : Catalog := ⟨[pickLibrary "B" (some .bool) 2]⟩

def twiceSettings : Settings := pickSettingsOf ["B", "B"]

theorem generate_links_twice :
    (∀ l ∈ twiceCatalog.libraries, l.IsBuilt) ∧ twiceCatalog.Distinct ∧
    ∃ bytes, generate twiceSettings twiceCatalog ⟨pickScript, []⟩ = (bytes, []) ∧
      ∃ image m, Image.decode bytes = .ok image ∧ LoadedModule.bind image bytes twiceCatalog = .ok m ∧
        m.libraries = twiceCatalog.libraries := by
  have hbuilt : ∀ l ∈ twiceCatalog.libraries, l.IsBuilt := by
    simp only [twiceCatalog, List.forall_mem_cons, List.not_mem_nil, false_imp_iff, implies_true,
      and_true]
    exact ⟨_, _, _, rfl⟩
  have hdistinct : twiceCatalog.Distinct := by
    simp [Catalog.Distinct, twiceCatalog, Library.functions, pickLibrary_classes]
  have hlibraries : resolveReferences twiceCatalog twiceSettings.references =
      (twiceCatalog.libraries, []) := rfl
  have hclass : twiceCatalog.libraries.findSome? (·.keywordClass? .bool) = some pickClass := by
    simp [twiceCatalog, Library.keywordClass?, pickLibrary_classes, pickClass]
  have hcompiled : Compilation.ofScript twiceSettings.moduleName.text twiceSettings.options
      twiceCatalog.libraries pickScript = ⟨some { pickImage with references := ["B"] }, []⟩ :=
    Compilation.ofScript_pickScript hclass
  obtain ⟨bytes, hbytes⟩ : ∃ bytes, Image.encode { pickImage with references := ["B"] } = .ok bytes :=
    ⟨_, by rfl⟩
  have hgenerate : generate twiceSettings twiceCatalog ⟨pickScript, []⟩ = (bytes, []) := by
    simp [generate, hlibraries, hcompiled, hbytes, Diagnostic.anyBlocking]
  exact ⟨hbuilt, hdistinct, bytes, hgenerate, (generate_links hbuilt hdistinct hgenerate rfl).1⟩

end Build
end ClassScript
