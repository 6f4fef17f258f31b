import ClassScript.Proofs.Libraries
import ClassScript.Proofs.Loading

/-!
Which function of the libraries runs when a script calls one.

A call is written with the place of an import, an import names its function by an identity, and the
identity is looked up in the libraries once more when the module is loaded, in the order of the
references. Two look-ups therefore have to agree: that of the compiler, by the name of a class or by
the type that it stands for, and that of the loader. They do, as long as the class is the first one
of its name among the libraries.
-/

namespace ClassScript

open Layout

/-! ## Overloads -/

/-- No candidate with the parameters of the chosen one stands at another place. -/
theorem Overload.resolve_unique {candidates : List Params} {args : List ValueType} {i j : Nat}
    {p : Params} (h : resolve candidates args = .ok i) (hi : candidates[i]? = some p)
    (hj : candidates[j]? = some p) : j = i := by
  obtain ⟨q, hq, hbest⟩ := best_of_resolve h
  obtain rfl := Option.some.inj (hi.symm.trans hq)
  exact places_unique hbest.once hj hi

/-- Functions that no look-up tells apart. -/
structure NativeFunction.Alike (f g : NativeFunction) : Prop where
  owner : f.owner = g.owner
  name : f.name = g.name
  params : f.params = g.params
  isInstance : f.isInstance = g.isInstance

/-- Functions of the libraries that differ in class, name, parameters or kind differ in identity. -/
def TellsApart (libraries : List Library) : Prop :=
  ∀ l ∈ libraries, ∀ f ∈ l.functions, ∀ l' ∈ libraries, ∀ g ∈ l'.functions,
    f.identity = g.identity → f.Alike g

/-- The function that is chosen is the only one of its kind in the class. -/
theorem Layout.Chooses.unique {functions : List NativeFunction} {items : List (Asm × Pushed)}
    {f g : NativeFunction} (h : Chooses functions (·.params) items f) (hg : g ∈ functions)
    (hparams : f.params = g.params) : g = f := by
  obtain ⟨i, hi, hf⟩ := h.resolves
  obtain ⟨j, hj⟩ := List.getElem?_of_mem hg
  obtain rfl := Overload.resolve_unique (p := f.params) hi (by simp [hf]) (j := j)
    (by simp [hj, hparams])
  exact Option.some.inj (hj.symm.trans hf)

/-! ## Calls of library functions -/

/-- The code of a call of a library function. `f` is the function that the arguments choose from the
class `c`, and `i` is its place among the imports. -/
inductive CallsLibrary (T : Tables) (site : Site) (locals : LocalScope) :
    Expr → NativeClass → NativeFunction → Nat → Asm → Prop
  | function {callee : Expr} {args : List Expr} {sp : Span} {is : Asm} {c : NativeClass}
      {name : String} {items : List (Asm × Pushed)} {f : NativeFunction} {i : Nat}
      (h : Means T site locals .bare callee is (.methods (.function c) name))
      (hargs : Passes T site locals args items)
      (hf : Chooses (c.functionsNamed name) (·.params) items f)
      (hi : Imports T site.symbols.libraries f none i) :
      CallsLibrary T site locals (.call callee args sp) c f i
        (is ++ passing items f.params ++ [.unary .callNative i])
  | method {callee : Expr} {args : List Expr} {sp : Span} {is : Asm} {c : NativeClass} {p : Pushed}
      {name : String} {items : List (Asm × Pushed)} {f : NativeFunction} {i : Nat}
      (h : Means T site locals .bare callee is (.methods (.method c p) name))
      (hargs : Passes T site locals args items)
      (hf : Chooses (c.methodsNamed name) (·.params) items f)
      (hi : Imports T site.symbols.libraries f (some p.type) i) :
      CallsLibrary T site locals (.call callee args sp) c f i
        (is ++ passing items f.params ++ [.unary .callNative i])

variable {T : Tables} {site : Site} {locals : LocalScope} {e : Expr} {c : NativeClass}
  {f : NativeFunction} {i : Nat} {is : Asm} {libraries : List Library}

/-- The function of a call is one of the class, and the only one of its kind there. -/
theorem CallsLibrary.chosen (h : CallsLibrary T site locals e c f i is) :
    f ∈ c.functions ∧ ∀ g ∈ c.functions, f.Alike g → g = f := by
  have named {q : NativeFunction → Bool} {items : List (Asm × Pushed)}
      (hf : Chooses (c.functions.filter q) (·.params) items f)
      (hq : ∀ g : NativeFunction, f.Alike g → q f = true → q g = true) :
      f ∈ c.functions ∧ ∀ g ∈ c.functions, f.Alike g → g = f := by
    obtain ⟨hmem, hqf⟩ := List.mem_filter.mp (Flow.Chooses.spec hf).1
    exact ⟨hmem, fun g hg hlike =>
      hf.unique (List.mem_filter.mpr ⟨hg, hq g hlike hqf⟩) hlike.params⟩
  cases h with
  | function _ _ hf _ => exact named hf fun g hlike => by simp [hlike.isInstance, hlike.name]
  | method _ _ hf _ => exact named hf fun g hlike => by simp [hlike.isInstance, hlike.name]

theorem CallsLibrary.imported (h : CallsLibrary T site locals e c f i is) :
    ∃ r, Imports T site.symbols.libraries f r i := by
  cases h with
  | function _ _ _ hi => exact ⟨_, hi⟩
  | method _ _ _ hi => exact ⟨_, hi⟩

/-! ## Binding -/

/-- An identity finds a function like the one that it was taken from. -/
theorem alike_of_found (hapart : TellsApart libraries)
    (hregistered : ∀ l ∈ libraries, l.Registered) {g : NativeFunction} {l : Library}
    (hl : l ∈ libraries) (hf : f ∈ l.functions)
    (hg : libraries.findSome? (·.findFunction? f.identity) = some g) : f.Alike g := by
  obtain ⟨k, hk, hfound⟩ := List.exists_of_findSome?_eq_some hg
  obtain ⟨hid, hgk⟩ := (hregistered k hk).found _ _ hfound
  exact hapart l hl f hf k hk g hgk hid.symm

/-- A function whose class is the first one of its name is what its identity finds, unless there is
another one of its kind in the class. -/
theorem found_eq (hapart : TellsApart libraries) (hregistered : ∀ l ∈ libraries, l.Registered)
    (hfirst : libraries.findSome? (·.findClass? c.name) = some c) (hf : f ∈ c.functions)
    (honly : ∀ g ∈ c.functions, f.Alike g → g = f) :
    libraries.findSome? (·.findFunction? f.identity) = some f := by
  obtain ⟨before, l, after, rfl, hc, hbefore⟩ := List.findSome?_eq_some_iff.mp hfirst
  have hl : l ∈ before ++ l :: after := by simp
  have hcl : c ∈ l.classes := List.mem_of_find?_eq_some hc
  have hfl : f ∈ l.functions := Library.mem_functions.mpr ⟨c, hcl, hf⟩
  -- a library in front has no class of this name, hence no function of this identity
  have hnone : ∀ k ∈ before, k.findFunction? f.identity = none := by
    intro k hk
    have hkl : k ∈ before ++ l :: after := by simp [hk]
    by_contra hsome
    obtain ⟨g, hg⟩ := Option.ne_none_iff_exists'.mp hsome
    obtain ⟨hid, hgk⟩ := (hregistered k hkl).found _ _ hg
    have hlike := hapart l hl f hfl k hkl g hgk hid.symm
    obtain ⟨d, hd, hgd⟩ := Library.mem_functions.mp hgk
    have hname : d.name = c.name := by
      rw [← (hregistered k hkl).owners d hd g hgd, ← hlike.owner,
        (hregistered l hl).owners c hcl f hf]
    have := List.find?_eq_none.mp (hbefore k hk) d hd
    simp [hname] at this
  obtain ⟨g, hg⟩ := (hregistered l hl).indexed f hfl
  obtain ⟨hid, hgl⟩ := (hregistered l hl).found _ _ hg
  have hlike := hapart l hl f hfl l hl g hgl hid.symm
  obtain ⟨d, hd, hgd⟩ := Library.mem_functions.mp hgl
  have hname : d.name = c.name := by
    rw [← (hregistered l hl).owners d hd g hgd, ← hlike.owner, (hregistered l hl).owners c hcl f hf]
  obtain rfl := (hregistered l hl).class_eq hd hcl hname
  rw [List.findSome?_append, List.findSome?_eq_none_iff.mpr hnone, Option.none_or,
    List.findSome?_cons, hg, honly g hgd hlike]

/-- A class that is found by its name is the first one of its name. -/
theorem first_of_findClass {s : Symbols} {name : String}
    (h : s.findClass? name = some (.native c)) :
    s.libraries.findSome? (·.findClass? c.name) = some c := by
  unfold Symbols.findClass? at h
  split at h
  · cases h
  · obtain ⟨d, hd, hcd⟩ := Option.map_eq_some_iff.mp h
    cases hcd
    obtain ⟨l, -, hl⟩ := List.exists_of_findSome?_eq_some hd
    unfold Library.findClass? at hl
    have hname := List.find?_some hl
    rwa [eq_of_beq hname]

/-! ## Modules -/

namespace Build

variable {s : Settings} {catalog : Catalog} {tree : Parsed}

/-- Every call of a library function is written with an import that is bound to a function of the
same class, name, parameters and kind as the one that overload resolution chose: to the function that
is found first in the order of the references. It is the chosen one itself if its class is the first
one of its name, as every class is that is called by its name. -/
theorem emit_dispatches {fuel : Nat} {m : LoadedModule}
    (hbuilt : ∀ l ∈ catalog.libraries, l.IsBuilt) (hapart : TellsApart (librariesOf s catalog))
    (h : emit fuel s catalog tree = some (.ok m)) :
    LaidImage (symbolsOf s.options (librariesOf s catalog) tree.script) s.options.release m.image ∧
    (∀ site locals e c f i is,
      site.symbols = symbolsOf s.options (librariesOf s catalog) tree.script →
      CallsLibrary ⟨m.image.constants, m.image.imports⟩ site locals e c f i is →
      ∃ g, (librariesOf s catalog).findSome? (·.findFunction? f.identity) = some g ∧
        m.program.natives[i]? = some g.body ∧ f.Alike g ∧
        ((librariesOf s catalog).findSome? (·.findClass? c.name) = some c → g = f)) ∧
    ∀ name c, (symbolsOf s.options (librariesOf s catalog) tree.script).findClass? name =
        some (.native c) →
      (librariesOf s catalog).findSome? (·.findClass? c.name) = some c := by
  have hregistered (l : Library) (hl : l ∈ librariesOf s catalog) : l.Registered :=
    (hbuilt l (mem_catalog hl).1).registered
  have hlibraries := (symbolsOf_sound s.options (librariesOf s catalog) tree.script).libraries
  obtain ⟨image, natives, himage, hnatives, hprogram⟩ := emit_ok h
  have hm : m.image = image := congrArg Program.image hprogram
  rw [hm, hprogram]
  refine ⟨laid_of_compiled himage, fun site locals e c f i is hsite hcall => ?_,
    fun name c hc => hlibraries ▸ first_of_findClass hc⟩
  obtain ⟨r, ⟨k, hk, d, hd, hfd, -⟩, imp, himp, hid⟩ := hcall.imported
  rw [hsite, hlibraries] at hk
  obtain ⟨hfc, honly⟩ := hcall.chosen
  -- the import of the call, and what it is bound to
  have hbound : ∃ body, natives[i]? = some body ∧
      LoadedModule.bindImport (librariesOf s catalog) imp = .ok body := by
    rw [← Array.getElem?_toList] at himp
    exact Flow.forall₂_getElem? (forall₂_of_mapM hnatives) himp
  obtain ⟨body, hbody, hbind⟩ := hbound
  unfold LoadedModule.bindImport at hbind
  split at hbind
  · cases hbind
  · next g hg =>
    split at hbind
    · cases hbind
      rw [hid] at hg
      refine ⟨g, hg, by simpa using hbody,
        alike_of_found hapart hregistered hk (Library.mem_functions.mpr ⟨d, hd, hfd⟩) hg,
        fun hfirst => ?_⟩
      have hsame := found_eq hapart hregistered hfirst hfc honly
      exact Option.some.inj (hg.symm.trans hsame)
    · cases hbind

end Build

/-! ## A shadowed keyword class -/

/-- `true.Pick()` -/
def pickCall : Expr := .call (.member (.literal (.bool true) {}) ⟨"Pick", {}⟩ {}) [] {}

/-- `public class T { public int M() => true.Pick(); }` -/
def pickScript : Script where
  usings := []
  items := [.type {
    modifiers := ⟨some .pub, false, false, {}⟩
    name := ⟨"T", {}⟩
    members := [
      .method ⟨some .pub, false, false, {}⟩ ⟨.keyword .int, {}⟩ ⟨"M", {}⟩ [] (.arrow pickCall) {}]
    span := {} }]
  span := {}

def pickMethod : MethodSymbol :=
  ⟨"M", .method, .pub, false, [], .int, .declared [] (.arrow pickCall) {}, {}⟩

def pickOwner : ClassSymbol where
  name := ⟨"T", []⟩
  visibility := .pub
  isStatic := false
  usings := []
  decl := (pickScript.classes.map (·.decl)).headD default
  fields := #[]
  methods := #[pickMethod, ⟨".ctor", .constructor, .pub, false, [], .void, .implied, {}⟩]

/-- A library with a class `System.Boolean` whose method `Pick` gives a number. -/
def pickLibrary (name : String) (keyword : Option ValueType) (answer : Int32) : Library :=
  .build name [] [⟨"System", "Boolean", keyword, [],
    [.method "Pick" [] .int (Native.give (.int answer))]⟩]

def pickFunction (answer : Int32) : NativeFunction :=
  (FunctionSpec.method "Pick" [] .int (Native.give (.int answer))).build "System.Boolean"

def pickClass : NativeClass := ⟨"System.Boolean", some .bool, [pickFunction 2], []⟩

def pickLibraries : List Library := [pickLibrary "A" none 1, pickLibrary "B" (some .bool) 2]

def pickCatalog : Catalog := ⟨pickLibraries⟩

def pickSettings : Settings := ⟨⟨"m", by decide +kernel⟩, ["A", "B"], {}⟩

def pickSettingsOf (references : List String) : Settings := { pickSettings with references := references }

def pickImports : ImportTable :=
  ⟨#[ImportTable.importOf (pickFunction 2) (some .bool)],
    (∅ : Std.HashMap Identity Nat).insert (pickFunction 2).identity 0⟩

def pickImage : Image where
  name := "m"
  checked := true
  release := true
  references := ["A", "B"]
  constants := #[]
  imports := pickImports.imports
  classes := #[⟨"T", .pub, #[], #[
    ⟨"M", .method, .pub, false, [], .int, 0, #[1, 55, 0, 0, 56]⟩,
    ⟨".ctor", .constructor, .pub, false, [], .void, 0, #[57]⟩]⟩]

theorem pickLibrary_classes (name : String) (keyword : Option ValueType) (answer : Int32) :
    (pickLibrary name keyword answer).classes =
      [⟨"System.Boolean", keyword, [pickFunction answer], []⟩] := by
  have hname : ClassSpec.fullName ⟨"System", "Boolean", keyword, [],
      [.method "Pick" [] .int (Native.give (.int answer))]⟩ = "System.Boolean" := by
    simp only [ClassSpec.fullName]
    decide +kernel
  simp [pickLibrary, Library.build, Library.addClass_classes, Library.empty, Library.extendClass,
    Library.described, hname, pickFunction]

theorem keywordClass_pick :
    pickLibraries.findSome? (·.keywordClass? .bool) = some pickClass := by
  simp [pickLibraries, Library.keywordClass?, pickLibrary_classes, pickClass]

theorem isBuilt_pick : ∀ l ∈ pickCatalog.libraries, l.IsBuilt := by
  simp only [pickCatalog, pickLibraries, List.forall_mem_cons, List.not_mem_nil, false_imp_iff,
    implies_true, and_true]
  exact ⟨⟨_, _, _, rfl⟩, ⟨_, _, _, rfl⟩⟩

/-- All functions of the two libraries are of one kind. -/
theorem tellsApart_pick (references : List String) :
    TellsApart (Build.librariesOf (pickSettingsOf references) pickCatalog) := by
  have hfunction (l : Library) (hl : l ∈ Build.librariesOf (pickSettingsOf references) pickCatalog)
      (f : NativeFunction) (hf : f ∈ l.functions) : ∃ answer, f = pickFunction answer := by
    have hmem := (Build.mem_catalog hl).1
    simp only [pickCatalog, pickLibraries, List.mem_cons, List.not_mem_nil, or_false] at hmem
    rcases hmem with rfl | rfl <;>
      simp only [Library.functions, pickLibrary_classes, List.flatMap_cons, List.flatMap_nil,
        List.append_nil, List.mem_singleton] at hf <;>
      exact ⟨_, hf⟩
  intro l hl f hf l' hl' g hg _
  obtain ⟨answer, rfl⟩ := hfunction l hl f hf
  obtain ⟨answer', rfl⟩ := hfunction l' hl' g hg
  exact ⟨rfl, rfl, rfl, rfl⟩

theorem Registration.ofScript_pickScript (libraries : List Library) :
    (ofScript libraries [] pickScript).diagnostics = [] ∧
      (ofScript libraries [] pickScript).symbols.libraries = libraries ∧
      (ofScript libraries [] pickScript).symbols.classes = #[pickOwner] := by
  simp [ofScript, pickScript, pickOwner, pickMethod, Script.classes, Item.classesOf, Item.classes,
    spacesOf, spaces, usingsOf, usings, Symbols.start, addClasses, classError?, classSymbol,
    addClass, List.range_succ, addMembers, members, member, method, paramTypes,
    Symbols.resolveType, methodFault?, Members.start, Members.hasSignature, Members.addMethod,
    MethodSymbol.isInvocable, withImplied, impliedMethod, constructorName]

section

open Compile

variable {e : Emitter} {imports table : ImportTable} {f : NativeFunction} {i : Nat}

/-- The table of imports is looked up by identities, which no evaluation opens. -/
theorem importFunction_added {r : Option ValueType} (hadd : imports.add f r = (some i, table)) :
    Returns (importFunction f r {}) ⟨e, imports⟩ i ⟨e, table⟩ := by
  refine Returns.andThen (a := some i) (u := ⟨e, table⟩) ?_ rfl
  change (Except.ok (imports.add f r).1, CodeState.mk e (imports.add f r).2) = _
  rw [hadd]

theorem push_returns (v : Value) :
    Returns (push v) ⟨e, imports⟩ (.known v e.offset) ⟨e.emitValue v, imports⟩ := rfl

/-- The call of the one method `Pick` that values of a type have. -/
def pickOf (lit : Literal) : Expr := .call (.member (.literal lit {}) ⟨"Pick", {}⟩ {}) [] {}

variable {symbols : Symbols} {lit : Literal} {k : NativeClass}
  (hkey : symbols.keywordClass? lit.value.type = some k) (hnamed : k.methodsNamed "Pick" = [f])
  (hparams : f.params = []) (hreturns : f.returns.isVoid = false)
  (hadd : imports.add f (some lit.value.type) = (some i, table))

include hkey hnamed hparams hreturns hadd

theorem valueOf_pickOf {locals : LocalScope} {site : Site} (hsite : site.symbols = symbols) :
    Returns (valueOf site locals (pickOf lit) f.returns) ⟨e, imports⟩ (.unknown f.returns e.offset)
      ⟨(e.emitValue lit.value).emitWith .callNative i, table⟩ := by
  subst hsite
  have hcallee : Returns (meaning site locals 2 .bare (.member (.literal lit {}) ⟨"Pick", {}⟩ {}))
      ⟨e, imports⟩ (.methods (.method k (.known lit.value e.offset)) "Pick")
      ⟨e.emitValue lit.value, imports⟩ := by
    rw [meaning]
    refine Returns.andThen (a := .value (.known lit.value e.offset))
      (u := ⟨e.emitValue lit.value, imports⟩) ?_ ?_
    · change Returns (meaning site locals 3 .value (.literal lit {})) _ _ _
      rw [meaning]
      exact (push_returns lit.value).andThen .pure
    · refine Returns.andThen (a := .known lit.value e.offset)
        (u := ⟨e.emitValue lit.value, imports⟩) (by rfl) ?_
      simp [valueMember, hkey, Pushed.known, hnamed]
  have hchosen : Returns (choose (k.methodsNamed "Pick") (·.params) (·.signature) "Pick" [] {})
      ⟨e.emitValue lit.value, imports⟩ f ⟨e.emitValue lit.value, imports⟩ := by
    rw [hnamed]
    simp only [choose, List.map_cons, List.map_nil, hparams]
    rfl
  have hcall : Returns (call site e.offset (.method k (.known lit.value e.offset)) "Pick" [] {})
      ⟨e.emitValue lit.value, imports⟩ (.unknown f.returns e.offset)
      ⟨(e.emitValue lit.value).emitWith .callNative i, table⟩ := by
    refine hchosen.andThen ?_
    refine Returns.andThen (a := ()) (u := ⟨e.emitValue lit.value, imports⟩) rfl ?_
    exact (importFunction_added hadd).andThen rfl
  have hmeaning : Returns (meaning site locals 1 .value (pickOf lit)) ⟨e, imports⟩
      (.value (.unknown f.returns e.offset))
      ⟨(e.emitValue lit.value).emitWith .callNative i, table⟩ := by
    rw [pickOf, meaning]
    refine Returns.andThen (a := e.offset) (u := ⟨e, imports⟩) rfl ?_
    refine Returns.andThen (a := .methods (.method k (.known lit.value e.offset)) "Pick")
      (u := ⟨e.emitValue lit.value, imports⟩) (by exact hcallee) ?_
    refine Returns.andThen (a := []) (u := ⟨e.emitValue lit.value, imports⟩) ?_ ?_
    · rw [arguments]
      rfl
    · exact hcall.andThen rfl
  refine Returns.andThen (hmeaning.andThen (by rfl)) ?_
  have hidentity : Conversion.implicit? f.returns f.returns = some .identity := by
    cases hr : f.returns <;> simp_all [Conversion.implicit?, ValueType.isVoid]
  simp [coerce, Pushed.unknown, hidentity]

def pickedMethod (name : String) (type : ValueType) (lit : Literal) : MethodSymbol :=
  ⟨name, .method, .pub, false, [], type, .declared [] (.arrow (pickOf lit)) {}, {}⟩

theorem method_picked (name : String) {c : ClassSite} (hc : c.symbols = symbols) {pool pool' : Pool}
    {code : Code}
    (hcode : (((Emitter.start pool).emitValue lit.value).emitWith .callNative i).emit .ret =
      ⟨code, pool', [], false⟩) :
    Compile.method c #[] #[] (pickedMethod name f.returns lit) ⟨pool, imports, []⟩ =
      (⟨name, .method, .pub, false, [], f.returns, 0, code⟩, ⟨pool', table, []⟩) := by
  have hattempt : Runs (attempt fun locals =>
        valueOf (methodSite c (pickedMethod name f.returns lit)) locals (pickOf lit) f.returns)
      (beginMethod ⟨pool, imports, []⟩) (some (.unknown f.returns (Emitter.start pool).offset))
      ⟨⟨((Emitter.start pool).emitValue lit.value).emitWith .callNative i, table⟩, .start, []⟩ :=
    .attempted (valueOf_pickOf hkey hnamed hparams hreturns hadd hc)
  have hbody : Runs (methodCode (methodSite c (pickedMethod name f.returns lit))
      (pickedMethod name f.returns lit) #[]) (beginMethod ⟨pool, imports, []⟩) ()
      ⟨⟨⟨code, pool', [], false⟩, table⟩, .start, []⟩ := by
    change Runs (body (methodSite c (pickedMethod name f.returns lit)) {} (.arrow (pickOf lit))) _ _ _
    have hvalue : ¬(methodSite c (pickedMethod name f.returns lit)).returns.isVoid = true := by
      rw [show (methodSite c (pickedMethod name f.returns lit)).returns = f.returns from rfl, hreturns]
      exact Bool.false_ne_true
    rw [body, if_neg hvalue]
    change StateT.run (_ >>= _) _ = _
    rw [StateT.run_bind]
    change ((attempt fun locals => valueOf (methodSite c (pickedMethod name f.returns lit)) locals
      (pickOf lit) f.returns).run _ >>= _) = _
    rw [hattempt, ← hcode]
    rfl
  have hfinish : Compile.method c #[] #[] (pickedMethod name f.returns lit) ⟨pool, imports, []⟩ =
      let w := finishMethod (methodSite c (pickedMethod name f.returns lit)) {}
        ((methodCode (methodSite c (pickedMethod name f.returns lit))
          (pickedMethod name f.returns lit) #[]).run (beginMethod ⟨pool, imports, []⟩)).2
      (⟨name, .method, .pub, false, [], f.returns, UInt16.ofNat w.1.frameSize, w.1.code⟩, w.2) := rfl
  rw [hfinish, hbody]
  rfl

end

section

open Compile

variable {symbols : Symbols} (hkey : symbols.keywordClass? .bool = some pickClass)

include hkey

theorem method_pick (c : ClassSite) (hc : c.symbols = symbols) :
    Compile.method c #[] #[] pickMethod .start =
      (⟨"M", .method, .pub, false, [], .int, 0, #[1, 55, 0, 0, 56]⟩, ⟨.empty, pickImports, []⟩) := by
  have hadd : ImportTable.empty.add (pickFunction 2) (some .bool) = (some 0, pickImports) := by
    simp [ImportTable.add, ImportTable.empty, ImportTable.maxImports, pickImports]
  have hnamed : pickClass.methodsNamed "Pick" = [pickFunction 2] := by
    simp [NativeClass.methodsNamed, pickClass, pickFunction, FunctionSpec.method, FunctionSpec.build]
  have hmethod : Compile.method c #[] #[] (pickedMethod "M" (pickFunction 2).returns (.bool true)) .start =
      (⟨"M", .method, .pub, false, [], (pickFunction 2).returns, 0, #[1, 55, 0, 0, 56]⟩,
        ⟨.empty, pickImports, []⟩) := method_picked hkey hnamed rfl rfl hadd "M" hc rfl
  exact hmethod

theorem classImage_pick :
    classImage ⟨symbols, true, 0, pickOwner⟩ .start =
      (⟨"T", .pub, #[], #[
        ⟨"M", .method, .pub, false, [], .int, 0, #[1, 55, 0, 0, 56]⟩,
        ⟨".ctor", .constructor, .pub, false, [], .void, 0, #[57]⟩]⟩, ⟨.empty, pickImports, []⟩) := by
  have hinit (b : Bool) :
      initializerCode ⟨symbols, true, 0, pickOwner⟩ b .start = (#[], .start) := by
    cases b <;> rfl
  have hmethods : inOrder (Compile.method ⟨symbols, true, 0, pickOwner⟩ #[] #[])
      pickOwner.methods.toList .start =
      ([⟨"M", .method, .pub, false, [], .int, 0, #[1, 55, 0, 0, 56]⟩,
        ⟨".ctor", .constructor, .pub, false, [], .void, 0, #[57]⟩], ⟨.empty, pickImports, []⟩) := by
    change inOrder _ [pickMethod, _] _ = _
    rw [inOrder, method_pick hkey _ rfl]
    rfl
  have hname : pickOwner.name.text = "T" := by decide +kernel
  rw [classImage, hinit]
  dsimp only
  rw [hinit]
  dsimp only
  rw [hmethods]
  simp [pickOwner] at hname ⊢
  exact hname

end

/-- Against any libraries in which the class stands for `bool`. -/
theorem Compilation.ofScript_pickScript {libraries : List Library}
    (hclass : libraries.findSome? (·.keywordClass? .bool) = some pickClass) :
    ofScript "m" {} libraries pickScript =
      ⟨some { pickImage with references := libraries.map (·.name) }, []⟩ := by
  obtain ⟨hnone, hlibraries, hclasses⟩ := Registration.ofScript_pickScript libraries
  generalize hs : (Registration.ofScript libraries [] pickScript).symbols = symbols at *
  have hkey : symbols.keywordClass? .bool = some pickClass := by
    rw [Symbols.keywordClass?, hlibraries]
    exact hclass
  have hall : Compile.inOrder Compile.classImage
      ([pickOwner].zipIdx.map fun x => ⟨symbols, true, x.2, x.1⟩) .start =
        (pickImage.classes.toList, ⟨.empty, pickImports, []⟩) := by
    change Compile.inOrder Compile.classImage [⟨symbols, true, 0, pickOwner⟩] .start = _
    rw [Compile.inOrder, classImage_pick hkey]
    rfl
  simp only [ofScript, hnone, hs, hclasses]
  rw [hall]
  rfl

theorem findFunction_pick (name : String) (keyword : Option ValueType) (answer other : Int32) :
    (pickLibrary name keyword answer).findFunction? (pickFunction other).identity =
      some (pickFunction answer) := by
  have hregistered : (pickLibrary name keyword answer).Registered :=
    Library.IsBuilt.registered ⟨_, _, _, rfl⟩
  have hfunctions : (pickLibrary name keyword answer).functions = [pickFunction answer] := by
    simp [Library.functions, pickLibrary_classes]
  obtain ⟨g, hg⟩ := hregistered.indexed (pickFunction answer) (by simp [hfunctions])
  obtain ⟨-, hmem⟩ := hregistered.found _ _ hg
  rw [hfunctions, List.mem_singleton] at hmem
  exact hmem ▸ hg

section

variable {references : List String} {libraries : List Library} {answer : Int32}
  (hlibraries : Build.resolveReferences pickCatalog references = (libraries, []))
  (hclass : libraries.findSome? (·.keywordClass? .bool) = some pickClass)
  (hfound : libraries.findSome? (·.findFunction? (pickFunction 2).identity) =
    some (pickFunction answer))

include hlibraries hfound in
/-- The loader finds the function of the first library. -/
theorem bind_pick (bytes : List UInt8) :
    LoadedModule.bind { pickImage with references := libraries.map (·.name) } bytes pickCatalog =
      .ok ⟨⟨{ pickImage with references := libraries.map (·.name) }, #[(pickFunction answer).body]⟩,
        bytes, libraries, LoadedModule.firstStatics pickImage, .empty, []⟩ := by
  have hfind (l : Library) (hl : l ∈ libraries) : pickCatalog.find? l.name = some l := by
    have hmem : l ∈ Build.librariesOf (pickSettingsOf references) pickCatalog := by
      rw [Build.librariesOf]
      exact hlibraries.symm ▸ hl
    exact (Build.mem_catalog hmem).2
  have hnames : (libraries.map (·.name)).mapM (LoadedModule.findLibrary pickCatalog) =
      .ok libraries := LoadedModule.mapM_findLibrary hfind
  have hnative : LoadedModule.bindImport libraries
      (ImportTable.importOf (pickFunction 2) (some .bool)) = .ok (pickFunction answer).body := by
    simp only [LoadedModule.bindImport, ImportTable.importOf, hfound]
    rfl
  unfold LoadedModule.bind
  dsimp only
  rw [hnames]
  change ((do
    let natives ← [ImportTable.importOf (pickFunction 2) (some .bool)].mapM
      (LoadedModule.bindImport libraries)
    pure _ : Except LoadError LoadedModule)) = _
  rw [List.mapM_cons, hnative]
  rfl

include hlibraries hclass hfound in
theorem emit_pick {bytes : List UInt8}
    (hbytes : Image.encode { pickImage with references := libraries.map (·.name) } = .ok bytes) :
    ∃ m, Build.emit 0 (pickSettingsOf references) pickCatalog ⟨pickScript, []⟩ = some (.ok m) ∧
      m.program = ⟨{ pickImage with references := libraries.map (·.name) },
        #[(pickFunction answer).body]⟩ := by
  have hcompiled := Compilation.ofScript_pickScript hclass
  have hread : Image.decode bytes = .ok { pickImage with references := libraries.map (·.name) } :=
    Image.decode_of_encode hbytes (Flow.verified_of_laid (symbolsOf_sound {} libraries pickScript)
      (laid_of_compiled (congrArg (·.image) hcompiled)))
  have hgenerate : Build.generate (pickSettingsOf references) pickCatalog ⟨pickScript, []⟩ =
      (bytes, []) := by
    have hsettings : Compilation.ofScript (pickSettingsOf references).moduleName.text
        (pickSettingsOf references).options libraries pickScript =
          ⟨some { pickImage with references := libraries.map (·.name) }, []⟩ := hcompiled
    have hreferences : Build.resolveReferences pickCatalog (pickSettingsOf references).references =
        (libraries, []) := hlibraries
    simp [Build.generate, hreferences, hsettings, hbytes, Diagnostic.anyBlocking]
  have hinit : LoadedModule.initializers { pickImage with references := libraries.map (·.name) } =
      [] := by
    change LoadedModule.initializers pickImage = []
    decide +kernel
  refine ⟨⟨⟨{ pickImage with references := libraries.map (·.name) }, #[(pickFunction answer).body]⟩,
    bytes, libraries, LoadedModule.firstStatics pickImage, .empty, []⟩, ?_, rfl⟩
  simp only [Build.emit, hgenerate, LoadedModule.load, hread, bind_pick hlibraries hfound, hinit,
    LoadedModule.runInitializers]
  rfl

def pickSite (libraries : List Library) : Site :=
  Compile.methodSite ⟨symbolsOf {} libraries pickScript, true, 0, pickOwner⟩ pickMethod

include hclass in
theorem callsLibrary_pick (hmem : pickLibrary "B" (some .bool) 2 ∈ libraries) :
    CallsLibrary ⟨#[], pickImports.imports⟩ (pickSite libraries) .start pickCall pickClass
      (pickFunction 2) 0 [.plain .pushTrue, .unary .callNative 0] := by
  have hlibraries : (pickSite libraries).symbols.libraries = libraries :=
    (symbolsOf_sound {} libraries pickScript).libraries
  have hkey : (pickSite libraries).symbols.keywordClass? .bool = some pickClass := by
    rw [Symbols.keywordClass?, hlibraries]
    exact hclass
  have hvalue : Values ⟨#[], pickImports.imports⟩ (pickSite libraries) .start
      (.literal (.bool true) {}) ([.plain .pushTrue] ++ []) (.known (.bool true) 0) :=
    .intro (.literal .yes) .value
  have hcallable : Callable (pickSite libraries).symbols.libraries (pickFunction 2) (some .bool) := by
    refine ⟨pickLibrary "B" (some .bool) 2, hlibraries.symm ▸ hmem, pickClass, ?_, ?_, rfl, ?_⟩
    · simp [pickLibrary_classes, pickClass]
    · simp [pickClass]
    · rintro _ ⟨⟩
      rfl
  exact .method (.methods hvalue (by simp [Pushed.known, Value.type]) (by simp) hkey) .nil
    ⟨0, rfl, rfl⟩ ⟨hcallable, _, rfl, rfl⟩

end

/-- The method that is chosen for `true.Pick()` is that of the library whose class stands for `bool`,
but the one that runs is that of the first library. -/
theorem Build.emit_shadowed :
    (∀ l ∈ pickCatalog.libraries, l.IsBuilt) ∧
    TellsApart (librariesOf pickSettings pickCatalog) ∧
    ∃ m, emit 0 pickSettings pickCatalog ⟨pickScript, []⟩ = some (.ok m) ∧
    ∃ site locals c f i is,
      site.symbols = symbolsOf pickSettings.options
        (librariesOf pickSettings pickCatalog) pickScript ∧
      CallsLibrary ⟨m.image.constants, m.image.imports⟩ site locals pickCall c f i is ∧
      f ∈ (pickLibrary "B" (some .bool) 2).functions ∧
      f.body.run #[.bool true] .empty = (.ok (.int 2), .empty) ∧
      ∃ body, m.program.natives[i]? = some body ∧
        body.run #[.bool true] .empty = (.ok (.int 1), .empty) := by
  have hfound : pickLibraries.findSome? (·.findFunction? (pickFunction 2).identity) =
      some (pickFunction 1) := by
    simp [pickLibraries, findFunction_pick]
  obtain ⟨bytes, hbytes⟩ : ∃ bytes, Image.encode { pickImage with
      references := pickLibraries.map (·.name) } = .ok bytes := ⟨_, by rfl⟩
  obtain ⟨m, hemit, hprogram⟩ :=
    emit_pick (show Build.resolveReferences pickCatalog ["A", "B"] = _ from rfl) keywordClass_pick hfound
      hbytes
  refine ⟨isBuilt_pick, tellsApart_pick ["A", "B"], m, hemit, pickSite pickLibraries, .start, pickClass,
    pickFunction 2, 0, [.plain .pushTrue, .unary .callNative 0], rfl, ?_, ?_, rfl,
    (pickFunction 1).body, ?_, rfl⟩
  · rw [LoadedModule.image, hprogram]
    exact callsLibrary_pick keywordClass_pick (by simp [pickLibraries])
  · simp [Library.functions, pickLibrary_classes]
  · rw [hprogram]
    rfl

/-- With the library whose class stands for `bool` in front, the method that is chosen runs. -/
theorem Build.emit_dispatches_pick :
    (∀ l ∈ pickCatalog.libraries, l.IsBuilt) ∧
    TellsApart (librariesOf (pickSettingsOf ["B", "A"]) pickCatalog) ∧
    (librariesOf (pickSettingsOf ["B", "A"]) pickCatalog).findSome? (·.findClass? pickClass.name) =
      some pickClass ∧
    ∃ m, emit 0 (pickSettingsOf ["B", "A"]) pickCatalog ⟨pickScript, []⟩ = some (.ok m) ∧
      CallsLibrary ⟨m.image.constants, m.image.imports⟩
        (pickSite (librariesOf (pickSettingsOf ["B", "A"]) pickCatalog)) .start pickCall pickClass
        (pickFunction 2) 0 [.plain .pushTrue, .unary .callNative 0] ∧
      m.program.natives[0]? = some (pickFunction 2).body := by
  have hlibraries : librariesOf (pickSettingsOf ["B", "A"]) pickCatalog =
      [pickLibrary "B" (some .bool) 2, pickLibrary "A" none 1] := rfl
  have hclass : (librariesOf (pickSettingsOf ["B", "A"]) pickCatalog).findSome?
      (·.keywordClass? .bool) = some pickClass := by
    simp [hlibraries, Library.keywordClass?, pickLibrary_classes, pickClass]
  have hfound : (librariesOf (pickSettingsOf ["B", "A"]) pickCatalog).findSome?
      (·.findFunction? (pickFunction 2).identity) = some (pickFunction 2) := by
    simp [hlibraries, findFunction_pick]
  have hfirst : (librariesOf (pickSettingsOf ["B", "A"]) pickCatalog).findSome?
      (·.findClass? pickClass.name) = some pickClass := by
    simp [hlibraries, Library.findClass?, pickLibrary_classes, pickClass]
  obtain ⟨bytes, hbytes⟩ : ∃ bytes, Image.encode { pickImage with
      references := (librariesOf (pickSettingsOf ["B", "A"]) pickCatalog).map (·.name) } = .ok bytes :=
    ⟨_, by rfl⟩
  obtain ⟨m, hemit, hprogram⟩ :=
    emit_pick (show Build.resolveReferences pickCatalog ["B", "A"] = _ from rfl) hclass hfound hbytes
  have hcall : CallsLibrary ⟨m.image.constants, m.image.imports⟩
      (pickSite (librariesOf (pickSettingsOf ["B", "A"]) pickCatalog)) .start pickCall pickClass
      (pickFunction 2) 0 [.plain .pushTrue, .unary .callNative 0] := by
    rw [LoadedModule.image, hprogram]
    exact callsLibrary_pick hclass (by simp [hlibraries])
  obtain ⟨-, hcalls, -⟩ := Build.emit_dispatches isBuilt_pick (tellsApart_pick _) hemit
  obtain ⟨g, -, hbody, -, hsame⟩ := hcalls _ _ _ _ _ _ _ rfl hcall
  obtain rfl := hsame hfirst
  exact ⟨isBuilt_pick, tellsApart_pick _, hfirst, m, hemit, hcall, hbody⟩

end ClassScript
