import ClassScript.Proofs.Linkage
import ClassScript.Proofs.Reorder.Image

/-!
Modules built from one script with its methods in different orders.

An import names its function by the identity alone, and is written where the function is called first.
If functions of one identity are alike, it does not matter which of them that is: the imports of both
modules are bound to the same bodies. The modules are twins then, and a host is told the same.
-/

namespace ClassScript

open Layout

/-! ## Binding -/

/-- Functions of the libraries that share an identity are alike, and give values of one type. -/
def Interchangeable (libraries : List Library) : Prop :=
  ∀ l ∈ libraries, ∀ f ∈ l.functions, ∀ l' ∈ libraries, ∀ g ∈ l'.functions,
    f.identity = g.identity → f.Alike g ∧ f.returns = g.returns

namespace Interchangeable

variable {libraries : List Library} {f g : NativeFunction} {r r' : Option ValueType}
  (h : Interchangeable libraries)

include h

theorem callable (hf : Callable libraries f r) (hg : Callable libraries g r')
    (hid : f.identity = g.identity) : f.Alike g ∧ f.returns = g.returns := by
  obtain ⟨l, hl, c, hc, hfc, -⟩ := hf
  obtain ⟨l', hl', c', hc', hgc, -⟩ := hg
  exact h l hl f (Library.mem_functions.mpr ⟨c, hc, hfc⟩) l' hl' g
    (Library.mem_functions.mpr ⟨c', hc', hgc⟩) hid

/-- Imports of one identity declare the same, but for the types of receivers. -/
theorem importOf (hf : Callable libraries f r) (hg : Callable libraries g r')
    (hid : f.identity = g.identity) :
    (ImportTable.importOf f r).name = (ImportTable.importOf g r').name ∧
      (ImportTable.importOf f r).params.length = (ImportTable.importOf g r').params.length ∧
      (ImportTable.importOf f r).returns = (ImportTable.importOf g r').returns := by
  obtain ⟨hlike, hreturns⟩ := h.callable hf hg hid
  obtain ⟨-, -, -, -, -, hr, -⟩ := hf
  obtain ⟨-, -, -, -, -, hr', -⟩ := hg
  have hreceiver : r.isSome = r'.isSome := by rw [← hr, hlike.isInstance, hr']
  refine ⟨?_, ?_, hreturns⟩
  · simp only [ImportTable.importOf, NativeFunction.fullName, hlike.owner, hlike.name]
  · cases r <;> cases r' <;> simp_all [ImportTable.importOf, hlike.params]

/-- Every import is bound, to the function that its identity finds. -/
theorem bindImport (hregistered : ∀ l ∈ libraries, l.Registered) (hf : Callable libraries f r) :
    ∃ g, libraries.findSome? (·.findFunction? f.identity) = some g ∧
      LoadedModule.bindImport libraries (ImportTable.importOf f r) = .ok g.body := by
  obtain ⟨l, hl, c, hc, hfc, hr, -⟩ := hf
  have hfl : f ∈ l.functions := Library.mem_functions.mpr ⟨c, hc, hfc⟩
  obtain ⟨g, hg, l', hl', hgl, hid⟩ := LoadedModule.exists_findFunction hregistered hl hfl
  obtain ⟨hlike, hreturns⟩ := h l hl f hfl l' hl' g hgl hid.symm
  have hmatches : LoadedModule.matchesImport g (ImportTable.importOf f r) = true := by
    rw [← LoadedModule.matchesImport_importOf hr]
    simp only [LoadedModule.matchesImport, NativeFunction.arity, hlike.params, hlike.isInstance, hreturns]
  have hidentity : libraries.findSome? (·.findFunction? (ImportTable.importOf f r).identity) = some g := hg
  exact ⟨g, hg, by simp only [LoadedModule.bindImport, hidentity, hmatches, if_true]⟩

end Interchangeable

/-! ## Modules -/

/-- The same script with the methods of its classes in another order, as it was read from two sources. -/
structure Parsed.Rearranged (tree tree' : Parsed) : Prop where
  script : tree.script.Rearranged tree'.script
  errors : tree.errors = [] ↔ tree'.errors = []

theorem Parsed.Rearranged.symm {tree tree' : Parsed} (h : tree.Rearranged tree') :
    tree'.Rearranged tree := ⟨h.script.symm, h.errors.symm⟩

namespace Build

variable {s : Settings} {catalog : Catalog} {tree tree' : Parsed}

theorem free_of_image {name : String} {options : Options} {libraries : List Library} {script : Script}
    {image : Image} (h : (Compilation.ofScript name options libraries script).image = some image) :
    Diagnostic.anyBlocking (Compilation.ofScript name options libraries script).diagnostics = false := by
  rw [Compilation.ofScript_eq] at h ⊢
  dsimp only at h ⊢
  generalize (if options.warningsAsErrors = true then _ else _) = found at h ⊢
  cases hblocking : Diagnostic.anyBlocking found with
  | true =>
    rw [hblocking] at h
    cases h
  | false => rw [if_neg Bool.false_ne_true, hblocking]

/-- What is generated of a source that was read without a mistake. -/
theorem generate_eq (herrors : tree.errors = []) : generate s catalog tree =
    let c := Compilation.ofScript s.moduleName.text s.options (librariesOf s catalog) tree.script
    let found := (resolveReferences catalog s.references).2.map (·.diagnostic) ++ c.diagnostics
    match c.image with
    | none => ([], found)
    | some image =>
      if Diagnostic.anyBlocking found then ([], found)
      else
        match image.encode with
        | .ok bytes => (bytes, found)
        | .error e => ([], found ++ [imageFailure e.message]) := by
  unfold generate
  rw [herrors]
  rfl

/-- A module is written unless its source, its references, its script or its size prevent it. -/
theorem generate_clean_iff : Diagnostic.anyBlocking (generate s catalog tree).2 = false ↔
    tree.errors = [] ∧
      Diagnostic.anyBlocking ((resolveReferences catalog s.references).2.map (·.diagnostic)) = false ∧
      ∃ image bytes, (Compilation.ofScript s.moduleName.text s.options (librariesOf s catalog)
        tree.script).image = some image ∧ image.encode = .ok bytes := by
  cases herrors : tree.errors with
  | cons e es =>
    have hblocking : Diagnostic.anyBlocking (generate s catalog tree).2 = true := by
      unfold generate
      rw [herrors]
      rfl
    simp [hblocking]
  | nil =>
    rw [generate_eq herrors]
    generalize hc : Compilation.ofScript s.moduleName.text s.options (librariesOf s catalog)
      tree.script = c
    generalize (resolveReferences catalog s.references).2.map (·.diagnostic) = missing
    cases himage : c.image with
    | none =>
      have hblocking : Diagnostic.anyBlocking c.diagnostics = true := hc ▸ blocking_of_none (hc ▸ himage)
      simp [himage, anyBlocking_append, hblocking]
    | some image =>
      have hfree : Diagnostic.anyBlocking c.diagnostics = false := hc ▸ free_of_image (hc ▸ himage)
      cases hmissing : Diagnostic.anyBlocking missing with
      | true => simp [himage, anyBlocking_append, hmissing]
      | false =>
        cases hbytes : image.encode with
        | ok bytes => simp [himage, anyBlocking_append, hmissing, hfree, hbytes]
        | error e =>
          have hfailure : Diagnostic.anyBlocking [imageFailure e.message] = true := rfl
          simp [himage, anyBlocking_append, hmissing, hfree, hbytes, hfailure]

section

variable (hbuilt : ∀ l ∈ catalog.libraries, l.IsBuilt)
  (hagree : Interchangeable (librariesOf s catalog)) (h : tree.Rearranged tree')

include hagree h

omit h in
/-- Imports of one identity declare the same in both images, but for the types of receivers. -/
theorem imports_rearranged {m m' : Image}
    (hm : (Compilation.ofScript s.moduleName.text s.options (librariesOf s catalog)
      tree.script).image = some m)
    (hm' : (Compilation.ofScript s.moduleName.text s.options (librariesOf s catalog)
      tree'.script).image = some m') {a b : NativeImport} (ha : a ∈ m.imports.toList)
    (hb : b ∈ m'.imports.toList) (hab : a.identity = b.identity) :
    a.name = b.name ∧ a.params.length = b.params.length ∧ a.returns = b.returns := by
  obtain ⟨f, r, hf, rfl⟩ := (laid_of_compiled hm).callable a ha
  obtain ⟨g, r', hg, rfl⟩ := (laid_of_compiled hm').callable b hb
  rw [(symbolsOf_sound ..).libraries] at hf hg
  exact hagree.importOf hf hg hab

theorem clean_rearranged (hclean : Diagnostic.anyBlocking (generate s catalog tree).2 = false) :
    Diagnostic.anyBlocking (generate s catalog tree').2 = false := by
  obtain ⟨herrors, hmissing, m, bytes, hm, hbytes⟩ := generate_clean_iff.mp hclean
  obtain ⟨m', hm', -⟩ := Compilation.image_rearranged h.script hm (m.few_of_encode hbytes)
  obtain ⟨bytes', hbytes'⟩ := Compilation.encode_rearranged h.script hm hm'
    (fun a ha b hb hab => by
      obtain ⟨hname, hparams, -⟩ := imports_rearranged hagree hm hm' ha hb hab
      exact ⟨hname, hparams⟩) hbytes
  exact generate_clean_iff.mpr ⟨h.errors.mp herrors, hmissing, m', bytes', hm', hbytes'⟩

include hbuilt

/-- The functions of both images are bound alike. -/
theorem bind_rearranged {m m' : Image}
    (hm : (Compilation.ofScript s.moduleName.text s.options (librariesOf s catalog)
      tree.script).image = some m)
    (hm' : (Compilation.ofScript s.moduleName.text s.options (librariesOf s catalog)
      tree'.script).image = some m')
    (hfew : ∀ k ∈ m.classes.toList, k.methods.size ≤ Emitter.maxOperand + 1) (bytes bytes' : List UInt8) :
    LoadedModule.Loads id (Compilation.relocation s.options (librariesOf s catalog) tree.script
      tree'.script m m').methods (LoadedModule.bind m bytes catalog)
      (LoadedModule.bind m' bytes' catalog) := by
  have hregistered (l : Library) (hl : l ∈ librariesOf s catalog) : l.Registered :=
    (hbuilt l (mem_catalog hl).1).registered
  have bound {tree : Parsed} {m : Image}
      (hm : (Compilation.ofScript s.moduleName.text s.options (librariesOf s catalog)
        tree.script).image = some m) (a : NativeImport) (ha : a ∈ m.imports.toList) :
      ∃ g, (librariesOf s catalog).findSome? (·.findFunction? a.identity) = some g ∧
        LoadedModule.bindImport (librariesOf s catalog) a = .ok g.body := by
    obtain ⟨f, r, hf, rfl⟩ := (laid_of_compiled hm).callable a ha
    rw [(symbolsOf_sound ..).libraries] at hf
    exact hagree.bindImport hregistered hf
  have natives {tree : Parsed} {m : Image}
      (hm : (Compilation.ofScript s.moduleName.text s.options (librariesOf s catalog)
        tree.script).image = some m) :
      ∃ natives, m.imports.toList.mapM (LoadedModule.bindImport (librariesOf s catalog)) = .ok natives ∧
        natives.length = m.imports.size ∧ ∀ (i : Nat) (a : NativeImport), m.imports[i]? = some a →
          ∃ g, (librariesOf s catalog).findSome? (·.findFunction? a.identity) = some g ∧
            natives[i]? = some g.body := by
    obtain ⟨natives, hnatives⟩ := exists_mapM_ok fun a ha => ⟨_, (bound hm a ha).choose_spec.2⟩
    have hall := forall₂_of_mapM hnatives
    refine ⟨natives, hnatives, by simpa using hall.length_eq.symm, fun i a ha => ?_⟩
    rw [← Array.getElem?_toList] at ha
    obtain ⟨body, hbody, hbind⟩ := Flow.forall₂_getElem? hall ha
    obtain ⟨g, hg, hgbind⟩ := bound hm a (List.mem_of_getElem? ha)
    exact ⟨g, hg, by rw [hbody, Except.ok.inj (hbind.symm.trans hgbind)]⟩
  obtain ⟨ns, hns, hsize, hbodies⟩ := natives hm
  obtain ⟨ns', hns', -, hbodies'⟩ := natives hm'
  rw [bind_of_natives hm hns, bind_of_natives hm' hns']
  have htwins : Program.Twins id (Compilation.relocation s.options (librariesOf s catalog)
      tree.script tree'.script m m').methods ⟨m, ns.toArray⟩ ⟨m', ns'.toArray⟩ :=
    Compilation.program_twins h.script hm hm' hfew (by simpa using hsize) fun i j a b ha hb hab => by
      obtain ⟨g, hg, hbody⟩ := hbodies i a ha
      obtain ⟨g', hg', hbody'⟩ := hbodies' j b hb
      obtain ⟨hname, hparams, hreturns⟩ := imports_rearranged hagree hm hm'
        (List.mem_of_getElem? (Array.getElem?_toList ▸ ha))
        (List.mem_of_getElem? (Array.getElem?_toList ▸ hb)) hab
      obtain rfl : g = g' := Option.some.inj (hg.symm.trans (hab ▸ hg'))
      exact ⟨hname, hparams, hreturns, by simp [hbody, hbody']⟩
  exact .ok ⟨htwins, htwins.image.firstStatics, rfl⟩

/-- The order of the methods does not matter: a module is written of both sources or of neither, and
whatever a host asks of the one module, it is told the same by the other. -/
theorem generate_rearranged :
    Diagnostic.anyBlocking (generate s catalog tree).2 =
        Diagnostic.anyBlocking (generate s catalog tree').2 ∧
      (Diagnostic.anyBlocking (generate s catalog tree).2 = false → ∀ fuel requests,
        (LoadedModule.load fuel (generate s catalog tree).1 catalog).map
            (LoadedModule.watch id requests) =
          (LoadedModule.load fuel (generate s catalog tree').1 catalog).map
            (LoadedModule.watch id requests)) := by
  refine ⟨?_, fun hclean fuel requests => ?_⟩
  · have hiff : Diagnostic.anyBlocking (generate s catalog tree).2 = false ↔
        Diagnostic.anyBlocking (generate s catalog tree').2 = false :=
      ⟨clean_rearranged hagree h, clean_rearranged hagree h.symm⟩
    cases hx : Diagnostic.anyBlocking (generate s catalog tree).2 <;>
      cases hy : Diagnostic.anyBlocking (generate s catalog tree').2 <;> simp_all
  · have hclean' := clean_rearranged hagree h hclean
    obtain ⟨m, hm, hbytes⟩ := generate_ok (Prod.mk.eta).symm hclean
    obtain ⟨m', hm', hbytes'⟩ := generate_ok (Prod.mk.eta).symm hclean'
    have hread := m.decode_of_encode hbytes (Flow.verified_of_laid (symbolsOf_sound ..) (laid_of_compiled hm))
    have hread' := m'.decode_of_encode hbytes' (Flow.verified_of_laid (symbolsOf_sound ..) (laid_of_compiled hm'))
    have hload := LoadedModule.load_twins (Compilation.image_twins h.script hm hm') hread hread'
      (bind_rearranged hbuilt hagree h hm hm' (m.few_of_encode hbytes) _ _) fuel
    generalize LoadedModule.load fuel (generate s catalog tree).1 catalog = o at hload ⊢
    generalize LoadedModule.load fuel (generate s catalog tree').1 catalog = o' at hload ⊢
    cases hload with
    | none => rfl
    | some hloads => exact congrArg some (hloads.watch requests)

end

end Build

/-! ## Two classes of one name -/

section

open Compile

variable {v : Value}

/-- A library whose class `System.Boolean` stands for a type; its method `Pick` gives a value. -/
def answerLibrary (name : String) (keyword : ValueType) (v : Value) : Library :=
  .build name [] [⟨"System", "Boolean", some keyword, [], [.method "Pick" [] v.type (Native.give v)]⟩]

def answerFunction (v : Value) : NativeFunction :=
  (FunctionSpec.method "Pick" [] v.type (Native.give v)).build "System.Boolean"

def answerClass (keyword : ValueType) (v : Value) : NativeClass :=
  ⟨"System.Boolean", some keyword, [answerFunction v], []⟩

def answerCatalog (v : Value) : Catalog :=
  ⟨[answerLibrary "A" .int v, answerLibrary "B" .bool (.int 2)]⟩

/-- A method whose body is `=> lit.Pick();` -/
def answerMember (name : String) (type : ValueType) (lit : Literal) : Member :=
  .method ⟨some .pub, false, false, {}⟩ ⟨.keyword type, {}⟩ ⟨name, {}⟩ [] (.arrow (pickOf lit)) {}

def answerScript (members : List Member) : Script where
  usings := []
  items := [.type {
    modifiers := ⟨some .pub, false, false, {}⟩
    name := ⟨"T", {}⟩
    members := members
    span := {} }]
  span := {}

/-- `int M() => true.Pick();`, and a method `N` of a type that is `=> 1.Pick();` -/
def truthFirst (v : Value) : Parsed :=
  ⟨answerScript [answerMember "M" .int (.bool true), answerMember "N" v.type (.int 1)], []⟩

def numberFirst (v : Value) : Parsed :=
  ⟨answerScript [answerMember "N" v.type (.int 1), answerMember "M" .int (.bool true)], []⟩

theorem rearranged_answers (v : Value) : (truthFirst v).Rearranged (numberFirst v) :=
  ⟨⟨rfl, .cons (.type ⟨rfl, rfl, .swap (.inl rfl)⟩) .nil⟩, Iff.rfl⟩

theorem answerLibrary_classes (name : String) (keyword : ValueType) (v : Value) :
    (answerLibrary name keyword v).classes = [answerClass keyword v] := by
  have hname : ClassSpec.fullName ⟨"System", "Boolean", some keyword, [],
      [.method "Pick" [] v.type (Native.give v)]⟩ = "System.Boolean" := by
    simp only [ClassSpec.fullName]
    decide +kernel
  simp [answerLibrary, Library.build, Library.addClass_classes, Library.empty, Library.extendClass,
    Library.described, hname, answerClass, answerFunction]

theorem keywordClass_answers {s : Symbols} (hs : s.libraries = (answerCatalog v).libraries) :
    s.keywordClass? .int = some (answerClass .int v) ∧
      s.keywordClass? .bool = some (answerClass .bool (.int 2)) := by
  simp [Symbols.keywordClass?, hs, answerCatalog, Library.keywordClass?, answerLibrary_classes,
    answerClass]

theorem isBuilt_answers (v : Value) : ∀ l ∈ (answerCatalog v).libraries, l.IsBuilt := by
  simp only [answerCatalog, List.forall_mem_cons, List.not_mem_nil, false_imp_iff, implies_true,
    and_true]
  exact ⟨⟨_, _, _, rfl⟩, ⟨_, _, _, rfl⟩⟩

theorem findFunction_answer (name : String) (keyword : ValueType) (v w : Value) :
    (answerLibrary name keyword v).findFunction? (answerFunction w).identity =
      some (answerFunction v) := by
  have hregistered : (answerLibrary name keyword v).Registered :=
    Library.IsBuilt.registered ⟨_, _, _, rfl⟩
  have hfunctions : (answerLibrary name keyword v).functions = [answerFunction v] := by
    simp [Library.functions, answerLibrary_classes, answerClass]
  obtain ⟨g, hg⟩ := hregistered.indexed (answerFunction v) (by simp [hfunctions])
  obtain ⟨-, hmem⟩ := hregistered.found _ _ hg
  rw [hfunctions, List.mem_singleton] at hmem
  exact hmem ▸ hg

def answerOwner (members : List Member) (f g : MethodSymbol) : ClassSymbol where
  name := ⟨"T", []⟩
  visibility := .pub
  isStatic := false
  usings := []
  decl := ⟨⟨some .pub, false, false, {}⟩, ⟨"T", {}⟩, members, {}⟩
  fields := #[]
  methods := #[f, g, ⟨".ctor", .constructor, .pub, false, [], .void, .implied, {}⟩]

section

variable {a b : String} (hab : a ≠ b) (ha : a ≠ "T") (hb : b ≠ "T") (t u : ValueType) (l k : Literal)

include hab ha hb

theorem Registration.members_answers {s : Symbols} {c : ClassSymbol} (hname : c.name.simple = "T")
    (hstatic : c.isStatic = false) (hdecl : c.decl.members = [answerMember a t l, answerMember b u k])
    (hspan : c.decl.name.span = {}) :
    (members s c).fields = #[] ∧ (members s c).reports = [] ∧
      (members s c).methods = #[pickedMethod a t l, pickedMethod b u k,
        ⟨".ctor", .constructor, .pub, false, [], .void, .implied, {}⟩] := by
  have hdeclared : c.decl.members.foldl (member s c) (.start s.staticCount) =
      ⟨#[], #[pickedMethod a t l, pickedMethod b u k], ∅, (Std.HashSet.insert ∅ a).insert b, 0,
        s.staticCount, []⟩ := by
    simp [hdecl, hname, hstatic, answerMember, pickedMethod, member, method, paramTypes,
      Symbols.resolveType, methodFault?, Members.start, Members.hasSignature, Members.addMethod,
      MethodSymbol.isInvocable, hab, ha, hb]
  simp [members, withImplied, hdeclared, hstatic, hspan, pickedMethod, impliedMethod, constructorName,
    Members.addMethod, MethodSymbol.isInvocable]

theorem Registration.ofScript_answers (libraries : List Library) :
    let r := ofScript libraries [] (answerScript [answerMember a t l, answerMember b u k])
    r.diagnostics = [] ∧ r.symbols.libraries = libraries ∧
      r.symbols.classes = #[answerOwner [answerMember a t l, answerMember b u k]
        (pickedMethod a t l) (pickedMethod b u k)] := by
  have hmembers (s : Symbols) := members_answers (s := s) hab ha hb t u l k
    (c := (⟨⟨"T", []⟩, .pub, false, [], ⟨⟨some .pub, false, false, {}⟩, ⟨"T", {}⟩,
      [answerMember a t l, answerMember b u k], {}⟩, #[], #[]⟩ : ClassSymbol)) rfl rfl rfl rfl
  simp [ofScript, answerScript, answerOwner, Script.classes, Item.classesOf, Item.classes, spacesOf,
    spaces, usingsOf, usings, Symbols.start, addClasses, classError?, classSymbol, addClass,
    List.range_succ, addMembers, hmembers]

end

/-- The method of a compiled script that takes the function it calls from the table of imports. -/
def answerMethod (name : String) (v : Value) (push : Code) : MethodImage :=
  ⟨name, .method, .pub, false, [], v.type, 0, push ++ #[55, 0, 0, 56]⟩

def answerConstructor : MethodImage := ⟨".ctor", .constructor, .pub, false, [], .void, 0, #[57]⟩

/-- Methods that are compiled one behind the other are the methods of the class. -/
theorem classImage_answers {s : Symbols} {ms : List Member} {f g : MethodSymbol} {x y : MethodImage}
    {m m' : ModuleState}
    (hf : Compile.method ⟨s, true, 0, answerOwner ms f g⟩ #[] #[] f .start = (x, m))
    (hg : Compile.method ⟨s, true, 0, answerOwner ms f g⟩ #[] #[] g m = (y, m')) :
    classImage ⟨s, true, 0, answerOwner ms f g⟩ .start =
      (⟨"T", .pub, #[], #[x, y, answerConstructor]⟩, m') := by
  have hinit (isStatic : Bool) :
      initializerCode ⟨s, true, 0, answerOwner ms f g⟩ isStatic .start = (#[], .start) := by
    cases isStatic <;> rfl
  have hmethods : inOrder (Compile.method ⟨s, true, 0, answerOwner ms f g⟩ #[] #[])
      (answerOwner ms f g).methods.toList .start = ([x, y, answerConstructor], m') := by
    change inOrder _ [f, g, _] _ = _
    simp only [inOrder, hf, hg]
    rfl
  have hname : (⟨"T", []⟩ : QualifiedName).text = "T" := by decide +kernel
  simp only [classImage, hinit, hmethods]
  simp [answerOwner, hname]

/-- The function that is called first stands for both. -/
def answerImports (v : Value) (keyword : ValueType) : ImportTable :=
  ⟨#[ImportTable.importOf (answerFunction v) (some keyword)],
    (∅ : Std.HashMap Identity Nat).insert (answerFunction v).identity 0⟩

theorem add_first (v : Value) (keyword : ValueType) :
    ImportTable.empty.add (answerFunction v) (some keyword) = (some 0, answerImports v keyword) := by
  simp [ImportTable.add, ImportTable.empty, ImportTable.maxImports, answerImports]

theorem add_second (v w : Value) (keyword other : ValueType) :
    (answerImports v keyword).add (answerFunction w) (some other) =
      (some 0, answerImports v keyword) := by
  have hidentity : (answerFunction w).identity = (answerFunction v).identity := rfl
  simp [ImportTable.add, answerImports, hidentity]

def answerPool : Pool := ⟨#[.int 1], (∅ : Std.HashMap Constant Nat).insert (.int 1) 0⟩

theorem code_number : (((Emitter.start .empty).emitValue (.int 1)).emitWith .callNative 0).emit .ret =
    ⟨#[0, 0, 0, 55, 0, 0, 56], answerPool, [], false⟩ := by
  have hadd : Pool.empty.add (.int 1) = (0, answerPool) := by
    simp [Pool.add, Pool.empty, answerPool]
  simp only [Emitter.emitValue, Constant.ofValue?, Emitter.emitConstant, Emitter.start, hadd]
  rfl

theorem named_answer (keyword : ValueType) (v : Value) :
    (answerClass keyword v).methodsNamed "Pick" = [answerFunction v] := by
  simp [NativeClass.methodsNamed, answerClass, answerFunction, FunctionSpec.method, FunctionSpec.build]

def answerImage (imports : ImportTable) (methods : List MethodImage) : Image where
  name := "m"
  checked := true
  release := true
  references := ["A", "B"]
  constants := #[.int 1]
  imports := imports.imports
  classes := #[⟨"T", .pub, #[], (methods ++ [answerConstructor]).toArray⟩]

theorem Compilation.ofScript_answers {a b : String} (hab : a ≠ b) (ha : a ≠ "T") (hb : b ≠ "T")
    {t u : ValueType} {l k : Literal} {x y : MethodImage} {imports : ImportTable}
    (hall : ∀ s : Symbols, s.libraries = (answerCatalog v).libraries →
      classImage ⟨s, true, 0, answerOwner [answerMember a t l, answerMember b u k] (pickedMethod a t l)
          (pickedMethod b u k)⟩ .start =
        (⟨"T", .pub, #[], #[x, y, answerConstructor]⟩, ⟨answerPool, imports, []⟩)) :
    ofScript "m" {} (answerCatalog v).libraries (answerScript [answerMember a t l, answerMember b u k]) =
      ⟨some (answerImage imports [x, y]), []⟩ := by
  obtain ⟨hnone, hlibraries, hclasses⟩ := Registration.ofScript_answers hab ha hb t u l k
    (answerCatalog v).libraries
  generalize hs : (Registration.ofScript (answerCatalog v).libraries [] (answerScript
    [answerMember a t l, answerMember b u k])).symbols = symbols at *
  have hclass : Compile.inOrder Compile.classImage ([answerOwner [answerMember a t l, answerMember b u k]
      (pickedMethod a t l) (pickedMethod b u k)].zipIdx.map fun c => ⟨symbols, true, c.2, c.1⟩) .start =
        ([⟨"T", .pub, #[], #[x, y, answerConstructor]⟩], ⟨answerPool, imports, []⟩) := by
    change Compile.inOrder Compile.classImage [⟨symbols, true, 0, _⟩] .start = _
    rw [Compile.inOrder, hall symbols hlibraries]
    rfl
  simp only [ofScript, hnone, hs, hclasses]
  rw [hclass]
  rfl

section

variable (hv : v.type.isVoid = false)

include hv

theorem method_number {c : ClassSite} (hc : c.symbols.libraries = (answerCatalog v).libraries)
    {imports table : ImportTable} (hadd : imports.add (answerFunction v) (some .int) = (some 0, table)) :
    Compile.method c #[] #[] (pickedMethod "N" (answerFunction v).returns (.int 1)) ⟨.empty, imports, []⟩ =
      (answerMethod "N" v #[0, 0, 0], ⟨answerPool, table, []⟩) :=
  method_picked (keywordClass_answers hc).1 (named_answer ..) rfl hv hadd "N" rfl code_number

omit hv in
theorem method_truth {c : ClassSite} (hc : c.symbols.libraries = (answerCatalog v).libraries)
    {imports table : ImportTable} {pool : Pool}
    (hadd : imports.add (answerFunction (.int 2)) (some .bool) = (some 0, table)) :
    Compile.method c #[] #[] (pickedMethod "M" (answerFunction (.int 2)).returns (.bool true))
        ⟨pool, imports, []⟩ =
      (answerMethod "M" (.int 2) #[1], ⟨pool, table, []⟩) :=
  method_picked (keywordClass_answers hc).2 (named_answer ..) rfl rfl hadd "M" rfl rfl

theorem ofScript_truthFirst : Compilation.ofScript "m" {} (answerCatalog v).libraries
    (truthFirst v).script = ⟨some (answerImage (answerImports (.int 2) .bool)
      [answerMethod "M" (.int 2) #[1], answerMethod "N" v #[0, 0, 0]]), []⟩ :=
  Compilation.ofScript_answers (by decide) (by decide) (by decide) fun _ hs =>
    classImage_answers (method_truth hs (add_first ..)) (method_number hv hs (add_second ..))

theorem ofScript_numberFirst : Compilation.ofScript "m" {} (answerCatalog v).libraries
    (numberFirst v).script = ⟨some (answerImage (answerImports v .int)
      [answerMethod "N" v #[0, 0, 0], answerMethod "M" (.int 2) #[1]]), []⟩ :=
  Compilation.ofScript_answers (by decide) (by decide) (by decide) fun _ hs =>
    classImage_answers (method_number hv hs (add_first ..)) (method_truth hs (add_second ..))

end

theorem generate_answers (tree : Parsed) {imports : ImportTable} {methods : List MethodImage}
    (herrors : tree.errors = []) (hcompiled : Compilation.ofScript "m" {} (answerCatalog v).libraries
      tree.script = ⟨some (answerImage imports methods), []⟩)
    (hencode : ∃ bytes, (answerImage imports methods).encode = .ok bytes) :
    ∃ bytes, Build.generate pickSettings (answerCatalog v) tree = (bytes, []) ∧
      Image.decode bytes = .ok (answerImage imports methods) := by
  obtain ⟨bytes, hbytes⟩ := hencode
  have hlibraries : Build.resolveReferences (answerCatalog v) pickSettings.references =
      ((answerCatalog v).libraries, []) := rfl
  have hsettings : Compilation.ofScript pickSettings.moduleName.text pickSettings.options
      (answerCatalog v).libraries tree.script = ⟨some (answerImage imports methods), []⟩ := hcompiled
  refine ⟨bytes, ?_, (answerImage imports methods).decode_of_encode hbytes (Flow.verified_of_laid
    (symbolsOf_sound {} (answerCatalog v).libraries tree.script)
    (laid_of_compiled (congrArg (·.image) hcompiled)))⟩
  simp [Build.generate, hlibraries, hsettings, hbytes, Diagnostic.anyBlocking, herrors]

/-- The first library of the catalog decides which function the import is bound to. -/
theorem bind_answers {w : Value} {keyword : ValueType} {methods : List MethodImage} {bytes : List UInt8} :
    LoadedModule.bind (answerImage (answerImports w keyword) methods) bytes (answerCatalog v) =
      if v.type = w.type then
        .ok ⟨⟨answerImage (answerImports w keyword) methods, #[(answerFunction v).body]⟩, bytes,
          (answerCatalog v).libraries, #[], .empty, []⟩
      else .error (.importMismatch "System.Boolean.Pick") := by
  have hnative : LoadedModule.bindImport (answerCatalog v).libraries
      (ImportTable.importOf (answerFunction w) (some keyword)) =
        if v.type = w.type then .ok (answerFunction v).body
        else .error (.importMismatch "System.Boolean.Pick") := by
    have hfound : (answerCatalog v).libraries.findSome? (·.findFunction? (answerFunction w).identity) =
        some (answerFunction v) := by
      simp [answerCatalog, findFunction_answer]
    have hname : (answerFunction w).fullName = "System.Boolean.Pick" := by
      simp [NativeFunction.fullName, answerFunction, FunctionSpec.build, FunctionSpec.method]
    have hmatches : LoadedModule.matchesImport (answerFunction v)
        (ImportTable.importOf (answerFunction w) (some keyword)) = (v.type == w.type) := rfl
    have hidentity : (ImportTable.importOf (answerFunction w) (some keyword)).identity =
        (answerFunction w).identity := rfl
    rw [LoadedModule.bindImport, hidentity, hfound]
    simp only [hmatches, beq_iff_eq]
    rw [show (ImportTable.importOf (answerFunction w) (some keyword)).name = "System.Boolean.Pick" from
      hname]
  have hlibraries : (answerImage (answerImports w keyword) methods).references.mapM
      (LoadedModule.findLibrary (answerCatalog v)) = .ok (answerCatalog v).libraries := rfl
  rw [LoadedModule.bind, hlibraries]
  change ((do
    let natives ← [ImportTable.importOf (answerFunction w) (some keyword)].mapM
      (LoadedModule.bindImport (answerCatalog v).libraries)
    pure _ : Except LoadError LoadedModule)) = _
  rw [List.mapM_cons, hnative]
  split <;> rfl

theorem load_answers {w : Value} {keyword : ValueType} {methods : List MethodImage} {bytes : List UInt8}
    (hread : Image.decode bytes = .ok (answerImage (answerImports w keyword) methods))
    (hinit : LoadedModule.initializers (answerImage (answerImports w keyword) methods) = []) :
    LoadedModule.load 0 bytes (answerCatalog v) =
      if v.type = w.type then
        some (.ok ⟨⟨answerImage (answerImports w keyword) methods, #[(answerFunction v).body]⟩, bytes,
          (answerCatalog v).libraries, #[], .empty, []⟩)
      else some (.error (.importMismatch "System.Boolean.Pick")) := by
  by_cases h : v.type = w.type
  · simp only [LoadedModule.load, hread, bind_answers, hinit, if_pos h, LoadedModule.runInitializers]
  · simp only [LoadedModule.load, hread, bind_answers, if_neg h]

/-- Two libraries have a class of one name, for different types, with methods of one signature that give
values of different types. An import names both of them, and declares the type of the one that is called
first. So the module loads or does not load, depending on which method comes first. -/
theorem Build.generate_order_matters :
    (∀ l ∈ (answerCatalog (.long 1)).libraries, l.IsBuilt) ∧
    (truthFirst (.long 1)).Rearranged (numberFirst (.long 1)) ∧
    (∃ bytes, generate pickSettings (answerCatalog (.long 1)) (truthFirst (.long 1)) = (bytes, []) ∧
      LoadedModule.load 0 bytes (answerCatalog (.long 1)) =
        some (.error (.importMismatch "System.Boolean.Pick"))) ∧
    ∃ bytes m, generate pickSettings (answerCatalog (.long 1)) (numberFirst (.long 1)) = (bytes, []) ∧
      LoadedModule.load 0 bytes (answerCatalog (.long 1)) = some (.ok m) := by
  refine ⟨isBuilt_answers _, rearranged_answers _, ?_, ?_⟩
  · obtain ⟨bytes, hgenerate, hread⟩ := generate_answers (truthFirst (.long 1)) rfl
      (ofScript_truthFirst rfl) ⟨_, by rfl⟩
    exact ⟨bytes, hgenerate, (load_answers hread (by decide +kernel)).trans (if_neg (by decide))⟩
  · obtain ⟨bytes, hgenerate, hread⟩ := generate_answers (numberFirst (.long 1)) rfl
      (ofScript_numberFirst rfl) ⟨_, by rfl⟩
    exact ⟨bytes, _, hgenerate, (load_answers hread (by decide +kernel)).trans (if_pos rfl)⟩

theorem interchangeable_answers :
    Interchangeable (Build.librariesOf pickSettings (answerCatalog (.int 1))) := by
  have hfunction : ∀ l ∈ (answerCatalog (.int 1)).libraries, ∀ f ∈ l.functions,
      ∃ n, f = answerFunction (.int n) := by
    simp only [answerCatalog, Library.functions, List.forall_mem_cons, answerLibrary_classes, answerClass,
      List.flatMap_cons, List.flatMap_nil, List.append_nil, List.not_mem_nil, false_imp_iff, implies_true,
      and_true]
    exact ⟨⟨1, rfl⟩, ⟨2, rfl⟩⟩
  intro l hl f hf l' hl' g hg _
  obtain ⟨n, rfl⟩ := hfunction l hl f hf
  obtain ⟨k, rfl⟩ := hfunction l' hl' g hg
  exact ⟨⟨rfl, rfl, rfl, rfl⟩, rfl⟩

/-- Where both methods give values of one type, either order of the methods calls the first of them. -/
theorem Build.generate_rearranged_answers :
    (∀ l ∈ (answerCatalog (.int 1)).libraries, l.IsBuilt) ∧
    Interchangeable (librariesOf pickSettings (answerCatalog (.int 1))) ∧
    (truthFirst (.int 1)).Rearranged (numberFirst (.int 1)) ∧
    Diagnostic.anyBlocking (generate pickSettings (answerCatalog (.int 1)) (truthFirst (.int 1))).2 = false ∧
    Diagnostic.anyBlocking (generate pickSettings (answerCatalog (.int 1)) (numberFirst (.int 1))).2 = false ∧
    ∀ fuel requests,
      (LoadedModule.load fuel (generate pickSettings (answerCatalog (.int 1)) (truthFirst (.int 1))).1
          (answerCatalog (.int 1))).map (LoadedModule.watch id requests) =
        (LoadedModule.load fuel (generate pickSettings (answerCatalog (.int 1)) (numberFirst (.int 1))).1
          (answerCatalog (.int 1))).map (LoadedModule.watch id requests) := by
  obtain ⟨bytes, hgenerate, -⟩ := generate_answers (truthFirst (.int 1)) rfl
    (ofScript_truthFirst rfl) ⟨_, by rfl⟩
  have hclean : Diagnostic.anyBlocking
      (generate pickSettings (answerCatalog (.int 1)) (truthFirst (.int 1))).2 = false :=
    congrArg (fun r => Diagnostic.anyBlocking r.2) hgenerate
  obtain ⟨hblocking, hsame⟩ := generate_rearranged (isBuilt_answers (.int 1)) interchangeable_answers
    (rearranged_answers (.int 1))
  exact ⟨isBuilt_answers _, interchangeable_answers, rearranged_answers _, hclean, hblocking ▸ hclean,
    hsame hclean⟩

end

end ClassScript
