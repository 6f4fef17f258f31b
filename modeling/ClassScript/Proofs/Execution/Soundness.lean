import ClassScript.Proofs.Codec
import ClassScript.Proofs.Execution.Initialization
import ClassScript.Proofs.Execution.Session
import ClassScript.Proofs.Loading
import ClassScript.Proofs.Verification

/-!
Type soundness of compiled modules.

In a module whose library functions give what they are declared to give, every operand, stored local,
instance field and static slot holds a value of its static type, through every run that reads no
local before it is stored. What one run preserves is preserved by loading the module and by every
request of a session, whether its run succeeds or not.
-/

namespace ClassScript

open Flow

/-! ## Machines -/

section

variable (p : Program) {sane : Prop} (N : Notes p.image sane)

def operandsOf (f : Frame) : List ValueType :=
  (((N.note f.cls f.method).known f.ip).map (·.stack)).getD []

def resultOf (f : Frame) : ValueType := ((p.method? f.cls f.method).map (·.returns)).getD .void

/-- The types on the stacks of suspended calls, of which the first one waits for a result. -/
def waitingTypes : ValueType → List Frame → List ValueType
  | _, [] => []
  | r, f :: fs => (operandsOf p N f).drop (returned r).length ++ waitingTypes (resultOf p f) fs

/-- The types on the stack that frames share, the innermost frame first. -/
def operandTypes : List Frame → List ValueType
  | [] => []
  | f :: fs => operandsOf p N f ++ waitingTypes p N (resultOf p f) fs

/-- Parameters and stored locals of a frame hold values of their types. -/
def Frame.Typed (f : Frame) (slots : List Nat) : Prop :=
  ∀ g n v t, p.method? f.cls f.method = some g → n < g.params.length ∨ n ∈ slots →
    f.locals[n]? = some v → (N.note f.cls f.method).types[n]? = some t → v.type = t

/-- Everything that a machine holds has its static type. -/
structure Machine.Typed (home : Option Nat) (m : Machine) (stored : List (List Nat)) : Prop where
  operands : m.stack.map (·.type) = operandTypes p N m.frames
  locals : List.Forall₂ (Frame.Typed p N) m.frames stored
  statics : m.statics.toList.map (·.type) = p.image.staticTypes
  fields : ∀ c, home = some c →
    ∃ fs, m.fields = some fs ∧ fs.toList.map (·.type) = p.image.fieldTypes c

end

namespace Flow

variable {W : Setting} {b : Base} {r : ValueType}

theorem Stands.resultOf {f : Frame} {slots : List Nat} {g : MethodImage} {s : State}
    (h : Stands W f slots g s) : resultOf W.program f = g.returns := by
  rw [ClassScript.resultOf, h.method]
  rfl

theorem Stands.operandsOf {f : Frame} {slots : List Nat} {g : MethodImage} {s : State}
    (h : Stands W f slots g s) : operandsOf W.program W.notes f = s.stack := by
  have hknown : (W.notes.note f.cls f.method).known f.ip = some s := h.known
  rw [ClassScript.operandsOf, hknown]
  rfl

theorem Stands.typed {f : Frame} {slots : List Nat} {g : MethodImage} {s : State}
    (h : Stands W f slots g s) (hstrict : W.strict) : f.Typed W.program W.notes slots := by
  intro g' n v t hg' hn hv ht
  rw [h.method] at hg'
  cases hg'
  exact h.locals n v t hn hv ht hstrict

theorem Callers.typed {fs : List Frame} {stored : List (List Nat)} {stack : List Value}
    (hstrict : W.strict) (h : Callers W (.outside r) fs stored stack t) :
    stack.map (·.type) = waitingTypes W.program W.notes t fs ∧
      List.Forall₂ (Frame.Typed W.program W.notes) fs stored := by
  generalize hb : Base.outside r = b at h
  induction h with
  | base =>
    subst hb
    exact ⟨rfl, .nil⟩
  | @frame f fs slots stored g s u ts stack rest hstands _ hs hstack _ ih =>
    obtain ⟨htypes, hframes⟩ := ih
    have hsane := W.sane_of_strict hstrict
    obtain ⟨vs, rfl, hvs⟩ := hstack hsane
    refine ⟨?_, .cons (hstands.typed hstrict) hframes⟩
    rw [List.map_append, htypes, hvs.types hstrict, waitingTypes, hstands.operandsOf, hs hsane,
      List.drop_left, hstands.resultOf]

/-- A machine that runs annotated code holds values of the types that are known of it. -/
theorem Running.typed {m : Machine} {stored : List (List Nat)} (h : Running W (.outside r) m stored)
    (hstrict : W.strict) : m.Typed W.program W.notes W.home stored := by
  cases h with
  | @intro f fs slots stored g s stack rest fields statics sink hstands _ hstack hcallers hkept =>
  obtain ⟨htypes, hframes⟩ := hcallers.typed hstrict
  obtain ⟨vs, rfl, hvs⟩ := hstack (W.sane_of_strict hstrict)
  refine ⟨?_, .cons (hstands.typed hstrict) hframes, hkept.statics hstrict, hkept.fields hstrict⟩
  rw [List.map_append, htypes, hvs.types hstrict, operandTypes, hstands.operandsOf, hstands.resultOf]

def typeSetting (p : Program) (N : Notes p.image True) (hp : p.Sound) (home : Option Nat) :
    Setting where
  program := p
  sane := True
  strict := True
  notes := N
  home := home
  sane_of_strict := id
  sound _ := hp

end Flow

/-! ## Slots -/

/-- Fields have the slots from zero on, one after the other. -/
def InOrder (fs : List FieldImage) : Prop :=
  ∀ (k : Nat) (f : FieldImage), fs[k]? = some f → f.slot.toNat = k

/-- The first values of fields in order have the types of the fields. -/
theorem types_defaultSlots {fs : List FieldImage} (h : InOrder fs) :
    (LoadedModule.defaultSlots fs.length fs).toList.map (·.type) = fs.map (·.type) := by
  -- the slots of the fields that are done hold their values, the others anything
  have filled (todo : List FieldImage) (slots : Array Value) (done : Nat)
      (hslots : ∀ (k : Nat) (f : FieldImage), todo[k]? = some f → f.slot.toNat = done + k)
      (hsize : slots.size = done + todo.length) :
      (todo.foldl (fun slots f => slots.setIfInBounds f.slot.toNat f.type.default) slots).toList =
        slots.toList.take done ++ todo.map (·.type.default) := by
    induction todo generalizing slots done with
    | nil => simp [List.take_of_length_le (show slots.toList.length ≤ done by simp [hsize])]
    | cons f fs ih =>
      have hf : f.slot.toNat = done := hslots 0 f rfl
      simp only [List.length_cons] at hsize
      rw [List.foldl_cons, ih _ (done + 1) (fun k g hg => by rw [hslots (k + 1) g hg]; omega)
        (by simp [hsize]; omega), hf, Array.toList_setIfInBounds, List.take_add_one,
        List.take_set_of_le (Nat.le_refl _),
        List.getElem?_set_self (by simp [hsize]), List.append_assoc]
      rfl
  rw [LoadedModule.defaultSlots, filled fs _ 0 (fun k f hf => by rw [h k f hf, Nat.zero_add]) (by simp)]
  simp [ValueType.type_default]

section

variable {s : Symbols} {release : Bool} {m : Image} {libraries : List Library}

theorem slots_fieldImage {fs : List FieldSymbol} (h : Numbered 0 fs)
    (hbound : fs.length ≤ Registration.maxSlots) : InOrder (fs.map Compile.fieldImage) := by
  intro k f hf
  rw [List.getElem?_map] at hf
  obtain ⟨g, hg, rfl⟩ := Option.map_eq_some_iff.mp hf
  have hk := (List.getElem?_eq_some_iff.mp hg).1
  have hslot := h k g hg
  simp only [Registration.maxSlots] at hbound
  simp only [Compile.fieldImage, UInt16.toNat_ofNat']
  rw [hslot, Nat.zero_add]
  exact Nat.mod_eq_of_lt (by omega)

/-- The static fields of an image, in the order of their slots. -/
def Image.staticFields (m : Image) : List FieldImage :=
  m.classes.toList.flatMap fun c => c.fields.toList.filter (·.isStatic)

theorem staticFields_of_laid (h : Layout.LaidImage s release m) :
    m.staticFields = s.staticFields.map Compile.fieldImage := by
  have howners : s.classes.toList = (Layout.sites s release).map (·.owner) := by
    simp only [Layout.sites, List.map_map]
    exact (List.zipIdx_map_fst 0 s.classes.toList).symm
  have hfields (c : Compile.ClassSite) (k : ClassImage)
      (hk : Layout.CompiledClass ⟨m.constants, m.imports⟩ c k) :
      (c.owner.staticFields).map Compile.fieldImage = k.fields.toList.filter (·.isStatic) := by
    rw [hk.fields, Array.toList_map, List.filter_map]
    rfl
  rw [Symbols.staticFields, howners, List.flatMap_map, List.map_flatMap]
  exact (forall₂_flatMap h.classes hfields).symm

theorem slots_staticFields (hs : s.Sound libraries) (h : Layout.LaidImage s release m) :
    InOrder m.staticFields := by
  rw [staticFields_of_laid h]
  exact slots_fieldImage hs.statics hs.bound

theorem types_firstStatics (hs : s.Sound libraries) (h : Layout.LaidImage s release m) :
    (LoadedModule.firstStatics m).toList.map (·.type) = m.staticTypes := by
  have hlength : m.staticCount = m.staticFields.length := by
    rw [← staticTypes_length, Image.staticTypes, Image.staticFields, ← List.map_flatMap,
      List.length_map]
  have htypes : m.staticTypes = m.staticFields.map (·.type) := by
    rw [Image.staticTypes, Image.staticFields, List.map_flatMap]
  rw [htypes, ← types_defaultSlots (slots_staticFields hs h), LoadedModule.firstStatics, hlength]
  rfl

theorem instanceFields_of_laid (h : Layout.LaidImage s release m) {cls : Nat} {c : ClassImage}
    (hc : m.classes[cls]? = some c) :
    ∃ k ∈ s.classes.toList, c.instanceFields = k.instanceFields.map Compile.fieldImage := by
  obtain ⟨k, hk, hcompiled⟩ := forall₂_getElem? h.classes.flip (Array.getElem?_toList ▸ hc)
  obtain ⟨hk, -⟩ := of_getElem?_sites hk
  refine ⟨k.owner, Array.mem_toList_iff.mpr (Array.mem_of_getElem? hk), ?_⟩
  rw [ClassImage.instanceFields, hcompiled.fields, Array.toList_map, List.filter_map]
  rfl

theorem slots_instanceFields (hs : s.Sound libraries) (h : Layout.LaidImage s release m) {cls : Nat}
    {c : ClassImage} (hc : m.classes[cls]? = some c) : InOrder c.instanceFields := by
  obtain ⟨k, hk, hfields⟩ := instanceFields_of_laid h hc
  rw [hfields]
  exact slots_fieldImage (hs.classes k hk).instances (hs.classes k hk).bound

end

/-! ## Library functions -/

/-- Library functions that succeed give values of the types they are declared to give. -/
def TypedNatives (libraries : List Library) : Prop :=
  ∀ l ∈ libraries, ∀ id f, l.findFunction? id = some f → ∀ args sink v sink',
    f.body.run args sink = (.ok v, sink') → v.type = f.returns

/-- An import is bound to a function of a library that gives what the import declares. -/
theorem typed_of_bindImport {libraries : List Library} (h : TypedNatives libraries) {i : NativeImport}
    {body : Native Unit} (hbind : LoadedModule.bindImport libraries i = .ok body) {args : Array Value}
    {sink sink' : Sink} {v : Value} (hrun : body.run args sink = (.ok v, sink')) :
    v.type = i.returns := by
  unfold LoadedModule.bindImport at hbind
  split at hbind
  · cases hbind
  · next f hf =>
    split at hbind
    · next hmatches =>
      cases hbind
      obtain ⟨l, hl, hfind⟩ := List.exists_of_findSome?_eq_some hf
      rw [h l hl _ _ hfind _ _ _ _ hrun]
      simp only [LoadedModule.matchesImport, Bool.and_eq_true, beq_iff_eq] at hmatches
      exact hmatches.2
    · cases hbind

/-- A module as it is bound: its imports give what they declare, and no initializer has run. -/
theorem LoadedModule.bind_sound {image : Image} {bytes : List UInt8} {catalog : Catalog}
    {libraries : List Library} {M : LoadedModule} (hnatives : TypedNatives libraries)
    (hnames : image.references = libraries.map (·.name))
    (hcatalog : ∀ l ∈ libraries, catalog.find? l.name = some l)
    (h : LoadedModule.bind image bytes catalog = .ok M) :
    M.program.image = image ∧ M.program.Sound ∧ M.statics = firstStatics image := by
  obtain ⟨found, hfound, h⟩ := ok_bind h
  obtain ⟨natives, hbound, h⟩ := ok_bind h
  cases h
  rw [hnames, mapM_findLibrary hcatalog] at hfound
  cases hfound
  refine ⟨rfl, fun j i hi => ?_, rfl⟩
  obtain ⟨body, hbody, hbind⟩ := forall₂_getElem? (forall₂_of_mapM hbound) (Array.getElem?_toList ▸ hi)
  exact ⟨body, by simpa using hbody, fun args sink v sink' hrun =>
    typed_of_bindImport hnatives hbind hrun⟩

/-! ## Runs of a module -/

def Instance.Typed (m : Image) (i : Instance) : Prop :=
  i.fields.toList.map (·.type) = m.fieldTypes i.cls

/-- A run that begins in a machine reads no local before it is stored. -/
def Step.Reads (p : Program) (begun : Step) : Prop :=
  ∀ start, begun = .next start → Machine.Initialized p start [[]]

namespace LoadedModule

/-- A module that is bound or was in use: its program can be run, and its statics are typed. -/
structure Typed (p : Program) (M : LoadedModule) : Prop where
  program : M.program = p
  statics : M.statics.toList.map (·.type) = p.image.staticTypes

def started (M : LoadedModule) (cls method : Nat) (args : List Value) (fields : Option (Array Value)) :
    Step := Machine.enter M.program cls method args (M.machine fields)

end LoadedModule

section

variable {p : Program} (N : Notes p.image True) (hp : p.Sound) {M : LoadedModule}
  {cls method : Nat} {args : List Value} {fields : Option (Array Value)} {g : MethodImage}
  {home : Option Nat}

include hp

/-- All machines of a run from outside are typed. -/
theorem LoadedModule.Typed.reaches (hM : M.Typed p) (hg : p.method? cls method = some g)
    (hhome : g.isStatic = false → home = some cls) (htypes : args.map (·.type) = g.params)
    (hfields : ∀ c, home = some c →
      ∃ fs, fields = some fs ∧ fs.toList.map (·.type) = p.image.fieldTypes c)
    (hread : (M.started cls method args fields).Reads p) {start m : Machine}
    {stored : List (List Nat)} (hstart : M.started cls method args fields = .next start)
    (hreach : Machine.Reaches p start [[]] m stored) : m.Typed p N home stored := by
  have hprogram := hM.program
  subst hprogram
  have hkept : Kept (typeSetting M.program N hp home) fields M.statics :=
    ⟨fun _ => hM.statics, fun _ => hfields⟩
  have hrunning : Running (typeSetting M.program N hp home) (.outside g.returns) start [[]] :=
    running_entered hg hhome (fun _ => htypes) hkept hstart
  exact (hrunning.reaches rfl (fun _ => hread start hstart) hreach).typed trivial

/-- A run from outside ends with a value of its type or a fault that code may have. -/
theorem LoadedModule.Typed.ends (hM : M.Typed p) (hg : p.method? cls method = some g)
    (hhome : g.isStatic = false → home = some cls) (htypes : args.map (·.type) = g.params)
    (hfields : ∀ c, home = some c →
      ∃ fs, fields = some fs ∧ fs.toList.map (·.type) = p.image.fieldTypes c)
    (hread : (M.started cls method args fields).Reads p) {fuel : Nat} {o : Machine.Outcome}
    (h : Machine.call p fuel cls method args (M.machine fields) = some o) :
    Ends (typeSetting p N hp home) g.returns o := by
  have hkept : Kept (typeSetting p N hp home) fields M.statics :=
    ⟨fun _ => hM.statics, fun _ => hfields⟩
  refine call_ends hg hhome (fun _ => htypes) hkept (fun _ start hstart => hread start ?_) h
  rw [LoadedModule.started, hM.program]
  exact hstart

end

/-! ## Loading -/

/-- The runs of initializers read no local before it is stored. -/
def LoadedModule.InitializersRead (fuel : Nat) : List (Nat × Nat) → LoadedModule → Prop
  | [], _ => True
  | (cls, method) :: rest, M =>
    (M.started cls method [] none).Reads M.program ∧
      ∀ v m, Machine.call M.program fuel cls method [] (M.machine none) = some ⟨.ok v, m⟩ →
        InitializersRead fuel rest (M.after m)

/-- Every machine of the runs of initializers is typed. -/
def LoadedModule.InitializersTyped (p : Program) (N : Notes p.image True) (fuel : Nat) :
    List (Nat × Nat) → LoadedModule → Prop
  | [], _ => True
  | (cls, method) :: rest, M =>
    (∀ start m stored, M.started cls method [] none = .next start →
      Machine.Reaches p start [[]] m stored → m.Typed p N none stored) ∧
      ∀ v m, Machine.call M.program fuel cls method [] (M.machine none) = some ⟨.ok v, m⟩ →
        InitializersTyped p N fuel rest (M.after m)

def Fault.BlamesNoCode (f : Fault) : Prop := ∀ offset d, f ≠ .invalidCode offset d

theorem Fault.blamesNoCode_of_permitted {W : Setting} (hstrict : W.strict) {f : Fault}
    (h : Permitted W f) : f.BlamesNoCode := by
  rintro offset d rfl
  exact h.1 hstrict

section

variable {s : Symbols} {release : Bool} {m : Image} {libraries : List Library} {p : Program}
  {M M' : LoadedModule} {fuel : Nat}

/-- The initializers of an image are methods without parameters that need no receiver. -/
theorem initializer_of_mem (hs : s.Sound libraries) (h : Layout.LaidImage s release m) {c j : Nat}
    (hmem : (c, j) ∈ LoadedModule.initializers m) :
    ∃ g, m.method? c j = some g ∧ g.isStatic = true ∧ g.params = [] := by
  obtain ⟨⟨k, i⟩, hk, hj⟩ := List.mem_filterMap.mp hmem
  obtain ⟨j', hj', heq⟩ := Option.map_eq_some_iff.mp hj
  cases heq
  have hclass : m.classes[c]? = some k := by
    rw [← Array.getElem?_toList]
    exact List.mem_zipIdx_iff_getElem?.mp hk
  obtain ⟨hlt, hkind, -⟩ := Array.findIdx?_eq_some_iff_getElem.mp hj'
  have hg : m.method? c j = some k.methods[j] := by
    rw [Image.method?, hclass]
    exact Array.getElem?_eq_getElem hlt
  obtain ⟨k', f, hk', hf, hcompiled⟩ := symbol_of_laid h hg
  have hsound : f.Sound := (hs.classes k' (Array.mem_toList_iff.mpr (Array.mem_of_getElem? hk'))).methods
    f (Array.mem_toList_iff.mpr (Array.mem_of_getElem? hf))
  have hf : f.kind = .typeInitializer := hcompiled.kind ▸ eq_of_beq hkind
  obtain ⟨hstatic, himplied⟩ := hsound.typeInitializer hf
  exact ⟨_, hg, hcompiled.isStatic.trans hstatic, hcompiled.params.trans (hsound.implied himplied).2⟩

/-- Initializers run typed. They leave the module typed, or end with a fault that does not blame the
code. -/
theorem LoadedModule.Typed.runInitializers (N : Notes p.image True) (hp : p.Sound)
    {todo : List (Nat × Nat)}
    (htodo : ∀ c j, (c, j) ∈ todo →
      ∃ g, p.image.method? c j = some g ∧ g.isStatic = true ∧ g.params = [])
    (hM : M.Typed p) (hread : InitializersRead fuel todo M) :
    InitializersTyped p N fuel todo M ∧
      ∀ r, LoadedModule.runInitializers fuel todo M = some r →
        (∀ M', r = .ok M' → M'.Typed p) ∧ ∀ f, r = .error (.initializer f) → f.BlamesNoCode := by
  induction todo generalizing M with
  | nil =>
    refine ⟨trivial, fun r h => ?_⟩
    cases h
    exact ⟨(fun M' hM' => by cases hM'; exact hM), fun f hf => by cases hf⟩
  | cons head todo ih =>
    obtain ⟨c, j⟩ := head
    obtain ⟨g, hg, hstatic, hparams⟩ := htodo c j List.mem_cons_self
    have hg : p.method? c j = some g := hg
    have hread' : (M.started c j [] none).Reads p := hM.program ▸ hread.1
    have hends {o : Machine.Outcome}
        (ho : Machine.call M.program fuel c j [] (M.machine none) = some o) :
        Ends (typeSetting p N hp none) g.returns o :=
      hM.ends N hp hg (by simp [hstatic]) (by simp [hparams]) (fun _ h => by cases h) hread'
        (hM.program ▸ ho)
    have hrest {v : Value} {m : Machine}
        (ho : Machine.call M.program fuel c j [] (M.machine none) = some ⟨.ok v, m⟩) :=
      ih (fun c j hcj => htodo c j (List.mem_cons_of_mem _ hcj))
        (⟨hM.program, (hends ho).kept.statics trivial⟩ : (M.after m).Typed p) (hread.2 v m ho)
    refine ⟨⟨fun start m stored hstart hreach => ?_, fun v m ho => (hrest ho).1⟩, fun r h => ?_⟩
    · exact hM.reaches N hp hg (by simp [hstatic]) (by simp [hparams]) (fun _ h => by cases h) hread'
        hstart hreach
    unfold LoadedModule.runInitializers at h
    split at h
    · cases h
    · next f m ho =>
      cases h
      refine ⟨(fun M' hM' => by cases hM'), fun f' hf' => ?_⟩
      cases hf'
      exact Fault.blamesNoCode_of_permitted trivial ((hends ho).fault f rfl)
    · next v m ho => exact (hrest ho).2 r h

end

/-! ## Sessions -/

namespace Session

structure Typed (p : Program) (s : Session) : Prop where
  module : s.module.Typed p
  instances : ∀ i ∈ s.instances, i.Typed p.image

/-- The run that a request starts reads no local before it is stored. -/
def Reads (s : Session) (r : Request) : Prop :=
  ∀ i method args, s.Starts r i method args →
    (s.module.started i.cls method args (some i.fields)).Reads s.module.program

variable {p : Program} {s s' : Session} {r : Request} {i : Instance} {method fuel : Nat}
  {args : List Value} {reply : Reply}

/-- A request starts a method that takes its arguments, and that returns what it expects. -/
theorem Starts.takes (h : s.Starts r i method args) : ∃ g,
    s.module.program.method? i.cls method = some g ∧ args.map (·.type) = g.params ∧
      ∀ k name returns args', r = .callTyped k name returns args' → g.returns = returns := by
  have bound {c : Option ClassImage} {name : String} {signature : CallSignature} {j : Nat}
      (h : (c.bind fun c => c.methods.findIdx? (Instance.isBindable name signature)) = some j) :
      ∃ g, (c.bind fun c => c.methods[j]?) = some g ∧ g.params = signature.params ∧
        g.returns = signature.returns := by
    obtain ⟨c, rfl, hj⟩ := Option.bind_eq_some_iff.mp h
    obtain ⟨hlt, hg, -⟩ := Array.findIdx?_eq_some_iff_getElem.mp hj
    simp only [Instance.isBindable, Bool.and_eq_true, beq_iff_eq] at hg
    exact ⟨_, Array.getElem?_eq_getElem hlt, hg.1.2, hg.2⟩
  have found {name : String} {signature : CallSignature}
      (h : i.bind s.module name signature = .ok method) :
      ∃ g, s.module.program.method? i.cls method = some g ∧ g.params = signature.params ∧
        g.returns = signature.returns := by
    unfold Instance.bind at h
    split at h
    · next j hj =>
      cases h
      exact bound hj
    · cases h
  cases h with
  | @create type cls method c hcls hc hmethod =>
    obtain ⟨hlt, hg, -⟩ := Array.findIdx?_eq_some_iff_getElem.mp hmethod
    simp only [Bool.and_eq_true, List.isEmpty_iff] at hg
    refine ⟨c.methods[method], ?_, by simp [hg.2], fun _ _ _ _ h => by cases h⟩
    rw [Program.method?, show s.module.program.image.classes[(Instance.unmade cls c).cls]? = some c
      from hc]
    exact Array.getElem?_eq_getElem hlt
  | call _ hmethod htypes =>
    obtain ⟨g, hg, hparams, -⟩ := found hmethod
    exact ⟨g, hg, htypes.trans hparams.symm, fun _ _ _ _ h => by cases h⟩
  | callTyped _ hmethod =>
    obtain ⟨g, hg, hparams, hreturns⟩ := found hmethod
    exact ⟨g, hg, hparams.symm, fun _ _ _ _ h => by cases h; exact hreturns⟩

section

variable {symbols : Symbols} {release : Bool} {libraries : List Library} (N : Notes p.image True)
  (hp : p.Sound) (hs : symbols.Sound libraries) (hlaid : Layout.LaidImage symbols release p.image)

include hs hlaid

/-- An instance that a request runs a method on is typed, also if it was just made. -/
theorem Starts.receiver (hsession : s.Typed p) (h : s.Starts r i method args) : i.Typed p.image := by
  cases h with
  | @create type cls method c hcls hc hmethod =>
    have hc : p.image.classes[cls]? = some c := hsession.module.program ▸ hc
    have htypes : p.image.fieldTypes cls = c.instanceFields.map (·.type) := by
      rw [Image.fieldTypes, hc]
      rfl
    rw [Instance.Typed, Instance.unmade, htypes]
    exact types_defaultSlots (slots_instanceFields hs hlaid hc)
  | call hi _ _ => exact hsession.instances i (List.mem_of_getElem? hi)
  | callTyped hi _ => exact hsession.instances i (List.mem_of_getElem? hi)

include hp

/-- Every machine of the run of a request is typed. -/
theorem Starts.reaches (hsession : s.Typed p) (hread : s.Reads r) (h : s.Starts r i method args)
    {start m : Machine} {stored : List (List Nat)}
    (hstart : s.module.started i.cls method args (some i.fields) = .next start)
    (hreach : Machine.Reaches p start [[]] m stored) : m.Typed p N (some i.cls) stored := by
  obtain ⟨g, hg, htypes, -⟩ := h.takes
  rw [hsession.module.program] at hg
  refine hsession.module.reaches N hp hg (fun _ => rfl) htypes (fun c hc => ?_)
    (hsession.module.program ▸ hread i method args h) hstart hreach
  cases hc
  exact ⟨i.fields, rfl, h.receiver hs hlaid hsession⟩

include N in
/-- A request leaves a session typed. It does not end with a fault that blames the code, and the
value of a call has the type that its method returns. -/
theorem perform_typed (hsession : s.Typed p) (hread : s.Reads r)
    (h : s.perform fuel r = some (reply, s')) :
    s'.Typed p ∧ (∀ f, reply.fault? = some f → f.BlamesNoCode) ∧
      ∀ v, reply = .result (.ok v) → ∃ i method args g, s.Starts r i method args ∧
        p.method? i.cls method = some g ∧ v.type = g.returns := by
  obtain hrefused | ⟨i, method, args, a, hstarts, hrun, hran⟩ := perform_spec h
  · rw [hrefused.unchanged, hrefused.fault]
    exact ⟨hsession, (fun f hf => by cases hf), fun v hv => absurd hv (hrefused.value v)⟩
  obtain ⟨g, hg, htypes, hreturns⟩ := hstarts.takes
  rw [hsession.module.program] at hg
  unfold Instance.run at hrun
  split at hrun
  · cases hrun
  · next result m ho =>
    cases hrun
    have hends : Ends (typeSetting p N hp (some i.cls)) g.returns ⟨result, m⟩ :=
      hsession.module.ends N hp hg (fun _ => rfl) htypes
        (fun c hc => by cases hc; exact ⟨i.fields, rfl, hstarts.receiver hs hlaid hsession⟩)
        (hsession.module.program ▸ hread i method args hstarts) (hsession.module.program ▸ ho)
    refine ⟨⟨?_, fun j hj => ?_⟩, fun f hf => ?_, fun v hv => ⟨i, method, args, g, hstarts, hg, ?_⟩⟩
    · rw [hran.module]
      exact ⟨hsession.module.program, hends.kept.statics trivial⟩
    · obtain hj | rfl := hran.instances j hj
      · exact hsession.instances j hj
      · obtain ⟨fs, hfs, hfields⟩ := hends.kept.fields trivial i.cls rfl
        have hfs : m.fields = some fs := hfs
        simp only [Instance.Typed, hfs]
        exact hfields
    · obtain hf | ⟨k, name, returns, args', v, hr, hv, htype⟩ := hran.fault f hf
      · exact Fault.blamesNoCode_of_permitted trivial (hends.fault f hf)
      · rw [← hreturns k name returns args' hr] at htype
        exact absurd (hends.value v hv trivial) htype
    · exact hends.value v (hran.value v hv) trivial

end

/-- Sessions that requests lead to whose runs read no local before it is stored. -/
inductive LeadsTo (s₀ : Session) : Session → Prop
  | refl : LeadsTo s₀ s₀
  | step {s s' : Session} {r : Request} {fuel : Nat} {reply : Reply} (h : LeadsTo s₀ s)
      (hread : s.Reads r) (hperform : s.perform fuel r = some (reply, s')) : LeadsTo s₀ s'

/-- All fields hold values of their types, and whatever is requested next runs typed. -/
structure Sound (p : Program) (N : Notes p.image True) (s : Session) : Prop where
  statics : ∀ f ∈ p.image.staticFields, ∃ v, s.module.statics[f.slot.toNat]? = some v ∧ v.type = f.type
  fields : ∀ i ∈ s.instances, ∀ c, p.image.classes[i.cls]? = some c → ∀ f ∈ c.instanceFields,
    ∃ v, i.fields[f.slot.toNat]? = some v ∧ v.type = f.type
  machines : ∀ r, s.Reads r → ∀ i method args, s.Starts r i method args →
    ∀ start m stored, s.module.started i.cls method args (some i.fields) = .next start →
      Machine.Reaches p start [[]] m stored → m.Typed p N (some i.cls) stored
  faults : ∀ r, s.Reads r → ∀ fuel reply s', s.perform fuel r = some (reply, s') →
    ∀ f, reply.fault? = some f → f.BlamesNoCode
  values : ∀ r, s.Reads r → ∀ fuel reply s', s.perform fuel r = some (reply, s') →
    ∀ v, reply = .result (.ok v) → ∃ i method args g, s.Starts r i method args ∧
      p.method? i.cls method = some g ∧ v.type = g.returns

end Session

/-- A slot of a field in order holds a value of its type. -/
theorem InOrder.typed {fs : List FieldImage} {vs : Array Value} (h : InOrder fs)
    (htypes : vs.toList.map (·.type) = fs.map (·.type)) {f : FieldImage} (hf : f ∈ fs) :
    ∃ v, vs[f.slot.toNat]? = some v ∧ v.type = f.type := by
  obtain ⟨k, hk⟩ := List.getElem?_of_mem hf
  rw [h k f hk]
  exact type_of_getElem? htypes (by rw [List.getElem?_map, hk]; rfl)

section

variable {symbols : Symbols} {release : Bool} {libraries : List Library} {p : Program}
  {s s₀ : Session}

theorem Session.Typed.sound (N : Notes p.image True) (hp : p.Sound) (hs : symbols.Sound libraries)
    (hlaid : Layout.LaidImage symbols release p.image) (h : s.Typed p) : s.Sound p N where
  statics f hf := by
    refine (slots_staticFields hs hlaid).typed ?_ hf
    rw [h.module.statics, Image.staticTypes, Image.staticFields, List.map_flatMap]
  fields i hi c hc f hf := by
    refine (slots_instanceFields hs hlaid hc).typed ?_ hf
    rw [h.instances i hi, Image.fieldTypes, hc]
    rfl
  machines _ hread _ _ _ hstarts _ _ _ hstart hreach :=
    hstarts.reaches N hp hs hlaid h hread hstart hreach
  faults _ hread _ _ _ hperform := (Session.perform_typed N hp hs hlaid h hread hperform).2.1
  values _ hread _ _ _ hperform := (Session.perform_typed N hp hs hlaid h hread hperform).2.2

theorem Session.LeadsTo.typed (N : Notes p.image True) (hp : p.Sound) (hs : symbols.Sound libraries)
    (hlaid : Layout.LaidImage symbols release p.image) (h₀ : s₀.Typed p) (h : s₀.LeadsTo s) :
    s.Typed p := by
  induction h with
  | refl => exact h₀
  | step _ hread hperform ih => exact (Session.perform_typed N hp hs hlaid ih hread hperform).1

end

theorem Compilation.references_eq {name : String} {options : Options} {libraries : List Library}
    {script : Script} {m : Image}
    (h : (Compilation.ofScript name options libraries script).image = some m) :
    m.references = libraries.map (·.name) := by
  unfold Compilation.ofScript at h
  dsimp only at h
  generalize (if options.warningsAsErrors = true then _ else _) = found at h
  split at h
  · cases h
  · cases h
    rfl

/-- A module that is compiled, written and loaded keeps the types of everything that it computes and
stores, in its initializers and in every session of a host. -/
theorem Compilation.type_soundness {name : String} {options : Options} {libraries : List Library}
    {script : Script} {m : Image} {bytes : List UInt8} {catalog : Catalog} {M₀ : LoadedModule}
    {fuel : Nat} (hfunctions : DistinctFunctions libraries) (hkeywords : ValueKeywords libraries)
    (hnatives : TypedNatives libraries)
    (h : (Compilation.ofScript name options libraries script).image = some m)
    (hbytes : m.encode = .ok bytes) (hcatalog : ∀ l ∈ libraries, catalog.find? l.name = some l)
    (hbind : LoadedModule.bind m bytes catalog = .ok M₀)
    (hread : M₀.InitializersRead fuel (LoadedModule.initializers m)) :
    M₀.program.image = m ∧ ∃ N : Notes M₀.program.image True,
      M₀.InitializersTyped M₀.program N fuel (LoadedModule.initializers m) ∧
      ∀ r, LoadedModule.load fuel bytes catalog = some r →
        (∀ f, r = .error (.initializer f) → f.BlamesNoCode) ∧
        ∀ M, r = .ok M → ∀ s, Session.LeadsTo ⟨M, []⟩ s → s.Sound M₀.program N := by
  have hs := Layout.symbolsOf_sound options libraries script
  have hlaid := Layout.laid_of_compiled h
  obtain ⟨himage, hp, hstatics⟩ :=
    LoadedModule.bind_sound hnatives (Compilation.references_eq h) hcatalog hbind
  obtain ⟨N, -⟩ := exists_notes hs (himage ▸ hlaid) fun _ : True => ⟨hfunctions, hkeywords⟩
  have hM₀ : M₀.Typed M₀.program := ⟨rfl, by rw [hstatics, himage, types_firstStatics hs hlaid]⟩
  obtain ⟨htyped, hresult⟩ := hM₀.runInitializers N hp
    (fun c j hmem => himage ▸ initializer_of_mem hs hlaid hmem) hread
  refine ⟨himage, N, htyped, fun r hload => ?_⟩
  have hrun : LoadedModule.runInitializers fuel (LoadedModule.initializers m) M₀ = some r := by
    rw [LoadedModule.load, m.decode_of_encode hbytes (verified_of_laid hs hlaid)] at hload
    simpa only [hbind] using hload
  obtain ⟨hok, herror⟩ := hresult r hrun
  refine ⟨herror, fun M hM s hleads => ?_⟩
  have hlaid' : Layout.LaidImage (Layout.symbolsOf options libraries script) options.release
      M₀.program.image := himage ▸ hlaid
  exact (hleads.typed N hp hs hlaid' ⟨hok M hM, fun i hi => by cases hi⟩).sound N hp hs hlaid'

/-! ## The sample -/

namespace Watch

/-- The library function gives a truth value, if it gives anything. -/
theorem type_ring {args : Array Value} {sink sink' : Sink} {v : Value}
    (h : bellFunction.body.run args sink = (.ok v, sink')) : v.type = .bool := by
  obtain ⟨_ | ⟨a, rest⟩⟩ := args
  · cases h
  · cases a with
    | bool b =>
      cases h
      rfl
    | _ => cases h

theorem typedNatives : TypedNatives [bells] := by
  intro l hl id f hf args sink v sink' hrun
  obtain rfl := List.mem_singleton.mp hl
  rw [bells_eq, Library.findFunction?, Std.HashMap.getElem?_insert] at hf
  by_cases hid : bellFunction.identity == id
  · rw [if_pos hid] at hf
    cases hf
    exact type_ring hrun
  · rw [if_neg hid, Std.HashMap.getElem?_empty] at hf
    cases hf

def program : Program := ⟨image true, #[bellFunction.body]⟩

def bound (bytes : List UInt8) : LoadedModule where
  program := program
  bytes := bytes
  libraries := [bells]
  statics := #[.bool false]
  sink := .empty
  warnings := []

theorem bind_image (bytes : List UInt8) :
    LoadedModule.bind (image true) bytes ⟨[bells]⟩ = .ok (bound bytes) := by
  have hfind : LoadedModule.findLibrary ⟨[bells]⟩ "bells" = .ok bells := by
    simp [LoadedModule.findLibrary, Catalog.find?, bells_eq]
  have hfunction : bells.findFunction? bellFunction.identity = some bellFunction := by
    rw [bells_eq, Library.findFunction?, Std.HashMap.getElem?_insert_self]
  have himport : LoadedModule.bindImport [bells] ringImport = .ok bellFunction.body := by
    rw [LoadedModule.bindImport, ringImport, List.findSome?_cons_of_isSome (by simp [hfunction]), hfunction]
    rfl
  have hstatics : LoadedModule.firstStatics (image true) = #[.bool false] := rfl
  have hreferences : (image true).references = ["bells"] := rfl
  have himports : (image true).imports.toList = [ringImport] := rfl
  rw [LoadedModule.bind, hstatics, hreferences, himports]
  simp [hfind, himport, Bind.bind, Except.bind, pure, Except.pure, bound, program]

theorem initializers_image : LoadedModule.initializers (image true) = [(1, 2)] := by
  decide +kernel

theorem initializersRead (bytes : List UInt8) (fuel : Nat) :
    (bound bytes).InitializersRead fuel (LoadedModule.initializers (image true)) := by
  have hreads : (bound bytes).program.ReadsStored symbols :=
    Program.readsStored_of_laid (symbolsOf_script ▸ Layout.symbolsOf_sound {} [bells] script)
      (symbolsOf_script ▸ Layout.laid_of_compiled (compiled true))
  rw [initializers_image]
  exact ⟨fun start hstart => hreads.initialized looseAt_eq hstart, fun _ _ _ => trivial⟩

def initializing (ip : Nat) (stack : List Value) (b : Bool) : Machine :=
  ⟨[⟨1, 2, ip, #[]⟩], stack, none, #[.bool b], .empty⟩

theorem step_initializing {ip : Nat} {stack : List Value} {b : Bool} {i : Code.Instruction}
    (h : (initializing ip stack b).fetch? program = some i) :
    Machine.step program (initializing ip stack b) =
      Machine.execute program i ip (ip + i.width) (initializing (ip + i.width) stack b) := by
  obtain ⟨f, fs, hf, hstep⟩ := Machine.step_of_fetch h
  cases hf
  exact hstep

/-- The initializer sets the static field. -/
theorem call_initializer : Machine.call program 100 1 2 [] (.idle none #[.bool false] .empty) =
    some ⟨.ok .void, .idle none #[.bool true] .empty⟩ := by
  have henter : Machine.enter program 1 2 [] (.idle none #[.bool false] .empty) =
      .next (initializing 0 [] false) := rfl
  have hpush : Machine.step program (initializing 0 [] false) =
      .next (initializing 1 [.bool true] false) :=
    step_initializing (i := .plain .pushTrue) rfl
  have hstore : Machine.step program (initializing 1 [.bool true] false) =
      .next (initializing 4 [] true) :=
    step_initializing (i := .unary .setStatic 0) rfl
  have hreturn : Machine.step program (initializing 4 [] true) =
      .done .void (.idle none #[.bool true] .empty) :=
    step_initializing (i := .plain .retVoid) rfl
  rw [Machine.call, henter]
  simp only [Machine.run, hpush, hstore, hreturn]

theorem load_image {bytes : List UInt8} (h : (image true).encode = .ok bytes) :
    LoadedModule.load 100 bytes ⟨[bells]⟩ =
      some (.ok { bound bytes with statics := #[.bool true] }) := by
  have hdecode := (image true).decode_of_encode h (verified_of_laid
    (Layout.symbolsOf_sound {} [bells] script) (Layout.laid_of_compiled (compiled true)))
  rw [LoadedModule.load, hdecode]
  simp only [bind_image, initializers_image]
  rw [LoadedModule.runInitializers, LoadedModule.machine]
  simp only [bound, call_initializer]
  rfl

end Watch

/-- The sample has fields of both kinds, an initializer that runs when it is loaded, and a library
function that it calls. -/
theorem Compilation.type_soundness_watch : ∃ bytes M₀, (Watch.image true).encode = .ok bytes ∧
    DistinctFunctions [bells] ∧ ValueKeywords [bells] ∧ TypedNatives [bells] ∧
    (Compilation.ofScript "m" {} [bells] Watch.script).image = some (Watch.image true) ∧
    LoadedModule.bind (Watch.image true) bytes ⟨[bells]⟩ = .ok M₀ ∧
    LoadedModule.initializers (Watch.image true) = [(1, 2)] ∧
    M₀.InitializersRead 100 (LoadedModule.initializers (Watch.image true)) ∧
    ∃ N : Flow.Notes M₀.program.image True,
      M₀.InitializersTyped M₀.program N 100 (LoadedModule.initializers (Watch.image true)) ∧
      ∃ M, LoadedModule.load 100 bytes ⟨[bells]⟩ = some (.ok M) ∧
        ∀ s, Session.LeadsTo ⟨M, []⟩ s → s.Sound M₀.program N := by
  obtain ⟨bytes, hbytes⟩ : ∃ bytes, (Watch.image true).encode = .ok bytes := ⟨_, rfl⟩
  have hcatalog (l : Library) (hl : l ∈ [bells]) : (Catalog.mk [bells]).find? l.name = some l := by
    obtain rfl := List.mem_singleton.mp hl
    simp [Catalog.find?]
  have hread := Watch.initializersRead bytes 100
  obtain ⟨-, N, htyped, hload⟩ := Compilation.type_soundness Watch.distinctFunctions Watch.valueKeywords
    Watch.typedNatives (Watch.compiled true) hbytes hcatalog (Watch.bind_image bytes) hread
  exact ⟨bytes, _, hbytes, Watch.distinctFunctions, Watch.valueKeywords, Watch.typedNatives,
    Watch.compiled true, Watch.bind_image bytes, Watch.initializers_image, hread, N, htyped, _,
    Watch.load_image hbytes, (hload _ (Watch.load_image hbytes)).2 _ rfl⟩

end ClassScript
