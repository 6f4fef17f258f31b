import ClassScript.Proofs.Execution.Session
import ClassScript.Proofs.Simulation.Run

/-!
Loaded modules that a host cannot tell apart.

Twins have classes with the same members, though a method may have another place, and their methods
do the same: a run ends with the same result or with a fault of which the same is told, and leaves the
same fields, static slots and output. Every request finds twins and leaves twins, so a host sees the
same whatever it requests. What is told of a fault may leave out its place in the code.
-/

namespace ClassScript

open Machine (Outcome call)

/-! ## What a host sees -/

def CallError.placeless : CallError → CallError
  | fault f => fault f.placeless
  | e => e

def BindError.placeless : BindError → BindError
  | construction type cause => construction type (cause.map Fault.placeless)
  | e => e

def LoadError.placeless : LoadError → LoadError
  | initializer f => initializer f.placeless
  | e => e

/-- A reply without the places where faults were noticed. -/
def Reply.placeless : Reply → Reply
  | failed e => failed e.placeless
  | result r => result (r.mapError CallError.placeless)
  | r => r

def Machine.Outcome.observed (o : Outcome) : Except Fault Value × Heap :=
  (o.result.mapError Fault.placeless, o.machine.heap)

namespace Session

structure Sight where
  statics : Array Value
  sink : Sink
  instances : List Instance

def sight (s : Session) : Sight := ⟨s.module.statics, s.module.sink, s.instances⟩

/-- What is seen after each of some requests, up to one that does not end in time. -/
def observe (s : Session) : List (Nat × Request) → List (Option (Reply × Sight))
  | [] => []
  | (fuel, r) :: rest =>
    match s.perform fuel r with
    | none => [none]
    | some (reply, s) => some (reply.placeless, s.sight) :: s.observe rest

end Session

/-- What is seen of an attempt to load a module, and then of some requests. -/
def LoadedModule.observe (requests : List (Nat × Request)) (r : Except LoadError LoadedModule) :
    Except LoadError (Session.Sight × List (Option (Reply × Session.Sight))) :=
  (r.map fun m => (Session.sight ⟨m, []⟩, Session.observe ⟨m, []⟩ requests)).mapError
    LoadError.placeless

/-! ## What is told of faults -/

section

variable (φ : Fault → Fault)

def CallError.told : CallError → CallError
  | fault f => fault (φ f)
  | e => e

def BindError.told : BindError → BindError
  | construction type cause => construction type (cause.map φ)
  | e => e

def LoadError.told : LoadError → LoadError
  | initializer f => initializer (φ f)
  | e => e

def Reply.told : Reply → Reply
  | failed e => failed (e.told φ)
  | result r => result (r.mapError (CallError.told φ))
  | r => r

def Machine.Outcome.told (o : Outcome) : Except Fault Value × Heap :=
  (o.result.mapError φ, o.machine.heap)

/-- What a host is told after each of some requests, up to one that does not end in time. -/
def Session.watch (s : Session) : List (Nat × Request) → List (Option (Reply × Session.Sight))
  | [] => []
  | (fuel, r) :: rest =>
    match s.perform fuel r with
    | none => [none]
    | some (reply, s) => some (reply.told φ, s.sight) :: s.watch rest

/-- What a host is told of an attempt to load a module, and then of some requests. -/
def LoadedModule.watch (requests : List (Nat × Request)) (r : Except LoadError LoadedModule) :
    Except LoadError (Session.Sight × List (Option (Reply × Session.Sight))) :=
  (r.map fun m => (Session.sight ⟨m, []⟩, Session.watch φ ⟨m, []⟩ requests)).mapError
    (LoadError.told φ)

end

theorem Reply.told_placeless (r : Reply) : r.told Fault.placeless = r.placeless := by
  have hcall : CallError.told Fault.placeless = CallError.placeless := by
    funext e
    cases e <;> rfl
  cases r with
  | failed e => cases e <;> rfl
  | result r => rw [told, placeless, hcall]
  | created | noReceiver => rfl

theorem Session.observe_eq_watch (s : Session) (requests : List (Nat × Request)) :
    s.observe requests = s.watch Fault.placeless requests := by
  induction requests generalizing s with
  | nil => rfl
  | cons request rest ih =>
    obtain ⟨fuel, r⟩ := request
    simp only [Session.observe, Session.watch, Reply.told_placeless, ih]

theorem LoadedModule.observe_eq_watch (requests : List (Nat × Request))
    (r : Except LoadError LoadedModule) : observe requests r = watch Fault.placeless requests r := by
  cases r with
  | error e => cases e <;> rfl
  | ok m =>
    simp only [observe, watch, Except.map, Except.mapError, Session.observe_eq_watch]

/-! ## Twins -/

/-- Classes with the same members. Methods at places that are the same look alike. -/
structure ClassImage.Twins (same : Nat → Nat → Prop) (c c' : ClassImage) : Prop where
  name : c.name = c'.name
  fields : c.fields = c'.fields
  constructor : Option.Rel same (Instance.constructor? c) (Instance.constructor? c')
  initializer : Option.Rel same c.typeInitializer? c'.typeInitializer?
  bindable : ∀ name s, Option.Rel same (c.methods.findIdx? (Instance.isBindable name s))
    (c'.methods.findIdx? (Instance.isBindable name s))
  signature : ∀ i j, same i j →
    (c.methods[i]?).map (·.signature) = (c'.methods[j]?).map (·.signature)

/-- Images with the same classes; `same` tells which methods of a class are the same. -/
structure Image.Twins (same : Nat → Nat → Nat → Prop) (m m' : Image) : Prop where
  name : m.name = m'.name
  classes : ∀ i, Option.Rel (ClassImage.Twins (same i)) m.classes[i]? m'.classes[i]?

/-- Programs in which methods that are the same do the same, as far as it is told. -/
structure Program.Twins (φ : Fault → Fault) (same : Nat → Nat → Nat → Prop) (p p' : Program) :
    Prop where
  image : p.image.Twins same p'.image
  calls : ∀ c i j, same c i j → ∀ n args (s : Heap),
    (call p n c i args (.idle s.fields s.statics s.sink)).map (Outcome.told φ) =
      (call p' n c j args (.idle s.fields s.statics s.sink)).map (Outcome.told φ)

structure LoadedModule.Twins (φ : Fault → Fault) (same : Nat → Nat → Nat → Prop)
    (m m' : LoadedModule) : Prop where
  program : m.program.Twins φ same m'.program
  statics : m.statics = m'.statics
  sink : m.sink = m'.sink

structure Session.Twins (φ : Fault → Fault) (same : Nat → Nat → Nat → Prop) (s s' : Session) :
    Prop where
  module : s.module.Twins φ same s'.module
  instances : s.instances = s'.instances

variable {φ : Fault → Fault} {same : Nat → Nat → Nat → Prop}

/-! ## Images -/

namespace Image.Twins

variable {m m' : Image} (h : m.Twins same m')

include h

/-- What does not depend on the methods of classes is the same. -/
theorem classes_map {α : Type} {f : ClassImage → α}
    (hf : ∀ (R : Nat → Nat → Prop) (c c' : ClassImage), c.Twins R c' → f c = f c') :
    m.classes.map f = m'.classes.map f := by
  refine Array.ext_getElem? fun i => ?_
  have hclass := h.classes i
  rw [Array.getElem?_map, Array.getElem?_map]
  generalize m.classes[i]? = c at hclass ⊢
  generalize m'.classes[i]? = c' at hclass ⊢
  cases hclass with
  | none => rfl
  | some hc => rw [Option.map_some, Option.map_some, hf _ _ _ hc]

theorem findClass? (name : String) : m.findClass? name = m'.findClass? name := by
  have hnames := h.classes_map (f := ClassImage.name) fun _ _ _ hc => hc.name
  have hfind (m : Image) : m.findClass? name = (m.classes.map (·.name)).findIdx? (· == name) := by
    rw [Array.findIdx?_map]
    rfl
  rw [hfind m, hfind m', hnames]

theorem firstStatics : LoadedModule.firstStatics m = LoadedModule.firstStatics m' := by
  have hfields := h.classes_map (f := ClassImage.fields) fun _ _ _ hc => hc.fields
  have hstatics (m : Image) : LoadedModule.firstStatics m =
      LoadedModule.defaultSlots ((m.classes.map (·.fields)).foldl (fun n fs => n + fs.countP (·.isStatic)) 0)
        ((m.classes.map (·.fields)).toList.flatMap fun fs => fs.toList.filter (·.isStatic)) := by
    rw [Array.foldl_map, Array.toList_map, List.flatMap_map]
    rfl
  rw [hstatics m, hstatics m', hfields]

end Image.Twins

/-! ## Runs -/

structure Answer.Twins {α : Type} (φ : Fault → Fault) (same : Nat → Nat → Nat → Prop) (seen : α → α)
    (a a' : Answer α) : Prop where
  result : seen a.result = seen a'.result
  module : a.module.Twins φ same a'.module
  receiver : a.receiver = a'.receiver

/-- Results that look alike are the same value, or errors that look alike. -/
theorem alike_cases {ε α : Type} {seen : ε → ε} {r r' : Except ε α}
    (h : r.mapError seen = r'.mapError seen) :
    (∃ v, r = .ok v ∧ r' = .ok v) ∨
      ∃ e e', r = .error e ∧ r' = .error e' ∧ seen e = seen e' := by
  cases r with
  | ok v =>
    cases r' with
    | ok v' => exact .inl ⟨v, rfl, h.symm⟩
    | error e => cases h
  | error e =>
    cases r' with
    | ok v => cases h
    | error e' => exact .inr ⟨e, e', rfl, rfl, Except.error.inj h⟩

namespace LoadedModule.Twins

variable {m m' : LoadedModule} {i j k : Nat}

/-- The modules after runs that end alike. -/
theorem after (h : m.Twins φ same m') {x y : Machine} (hheap : x.heap = y.heap) :
    (m.after x).Twins φ same (m'.after y) := by
  obtain ⟨-, hstatics, hsink⟩ := Heap.mk.inj hheap
  exact ⟨h.program, hstatics, hsink⟩

theorem call (h : m.Twins φ same m') (hsame : same k i j) (n : Nat) (fields : Option (Array Value))
    (args : List Value) :
    Option.Rel (fun o o' => o.told φ = o'.told φ)
      (Machine.call m.program n k i args (m.machine fields))
      (Machine.call m'.program n k j args (m'.machine fields)) := by
  have hcalls := h.program.calls k i j hsame n args ⟨fields, m.statics, m.sink⟩
  unfold LoadedModule.machine
  rw [← h.statics, ← h.sink]
  generalize Machine.call m.program n k i args _ = o at hcalls ⊢
  generalize Machine.call m'.program n k j args _ = o' at hcalls ⊢
  cases o with
  | none => rw [Option.map_eq_none_iff.mp hcalls.symm]; exact .none
  | some o =>
    obtain ⟨o', rfl, ho'⟩ := Option.map_eq_some_iff.mp hcalls.symm
    exact .some ho'.symm

theorem run (h : m.Twins φ same m') {r : Instance} (hsame : same r.cls i j) (n : Nat)
    (args : List Value) :
    Option.Rel (Answer.Twins φ same (·.mapError φ)) (r.run n m i args)
      (r.run n m' j args) := by
  have hcall := h.call hsame n (some r.fields) args
  unfold Instance.run
  generalize Machine.call m.program n r.cls i args _ = o at hcall ⊢
  generalize Machine.call m'.program n r.cls j args _ = o' at hcall ⊢
  cases hcall with
  | none => exact .none
  | @some x y hseen =>
    obtain ⟨hresult, hheap⟩ := Prod.mk.inj hseen
    obtain ⟨hfields, -⟩ := Heap.mk.inj hheap
    exact .some ⟨hresult, h.after hheap, by rw [hfields]⟩

/-- The class of an instance in both modules. -/
theorem image? (h : m.Twins φ same m') (r : Instance) :
    Option.Rel (ClassImage.Twins (same r.cls)) (r.image? m) (r.image? m') :=
  h.program.image.classes r.cls

theorem typeName (h : m.Twins φ same m') (r : Instance) : r.typeName m = r.typeName m' := by
  have hclass := h.image? r
  unfold Instance.typeName
  generalize r.image? m = c at hclass ⊢
  generalize r.image? m' = c' at hclass ⊢
  cases hclass with
  | none => rfl
  | some hc => rw [Option.map_some, Option.map_some, hc.name]

theorem methodText (h : m.Twins φ same m') {r : Instance} (hsame : same r.cls i j) :
    r.methodText m i = r.methodText m' j := by
  have hclass := h.image? r
  unfold Instance.methodText
  generalize r.image? m = c at hclass ⊢
  generalize r.image? m' = c' at hclass ⊢
  cases hclass with
  | none => rfl
  | some hc => exact congrArg (·.getD "") (hc.signature i j hsame)

/-- A name and a signature are bound to methods that are the same, or to none. -/
theorem bind_cases (h : m.Twins φ same m') (r : Instance) (name : String) (s : CallSignature) :
    (∃ e, r.bind m name s = .error e ∧ r.bind m' name s = .error e) ∨
      ∃ i j, r.bind m name s = .ok i ∧ r.bind m' name s = .ok j ∧ same r.cls i j := by
  have hmethod : Option.Rel (same r.cls)
      ((r.image? m).bind fun c => c.methods.findIdx? (Instance.isBindable name s))
      ((r.image? m').bind fun c => c.methods.findIdx? (Instance.isBindable name s)) := by
    have hclass := h.image? r
    generalize r.image? m = c at hclass ⊢
    generalize r.image? m' = c' at hclass ⊢
    cases hclass with
    | none => exact .none
    | some hc => exact hc.bindable name s
  unfold Instance.bind
  rw [h.typeName r]
  generalize Option.bind _ _ = o at hmethod ⊢
  generalize Option.bind _ _ = o' at hmethod ⊢
  cases hmethod with
  | none => exact .inl ⟨_, rfl, rfl⟩
  | some hsame => exact .inr ⟨_, _, rfl, rfl, hsame⟩

theorem create (h : m.Twins φ same m') (n : Nat) (type : String) :
    Option.Rel (fun x y => x.1.mapError (BindError.told φ) = y.1.mapError (BindError.told φ) ∧
      x.2.Twins φ same y.2) (Instance.create n m type) (Instance.create n m' type) := by
  have hname : m.name = m'.name := h.program.image.name
  unfold Instance.create
  rw [show m.image.findClass? type = m'.image.findClass? type from
    h.program.image.findClass? type, hname]
  cases hcls : m'.image.findClass? type with
  | none => exact .some ⟨rfl, h⟩
  | some cls =>
    have hclass := h.program.image.classes cls
    have hlt : cls < m'.image.classes.size := (Array.findIdx?_eq_some_iff_getElem.mp hcls).1
    obtain ⟨c, c', hc, hc', htwins⟩ : ∃ c c', m.image.classes.getD cls default = c ∧
        m'.image.classes.getD cls default = c' ∧ c.Twins (same cls) c' := by
      rw [show m'.program.image.classes[cls]? = some _ from Array.getElem?_eq_getElem hlt] at hclass
      simp only [Array.getD_eq_getD_getElem?]
      generalize hc : m.program.image.classes[cls]? = c at hclass
      cases hclass with
      | some htwins => exact ⟨_, _, congrArg (·.getD default) hc, by simp [hlt], htwins⟩
    have hfields : c.instanceFields = c'.instanceFields := by
      rw [ClassImage.instanceFields, htwins.fields]
      rfl
    have hmade : Instance.unmade cls c = Instance.unmade cls c' := by
      rw [Instance.unmade, hfields]
      rfl
    dsimp only
    rw [hc, hc']
    have hconstructor := htwins.constructor
    generalize Instance.constructor? c = o at hconstructor ⊢
    generalize Instance.constructor? c' = o' at hconstructor ⊢
    cases hconstructor with
    | none => exact .some ⟨rfl, h⟩
    | @some i j hsame =>
      have hrun := h.run (r := Instance.unmade cls c) hsame n []
      rw [← hmade]
      dsimp only
      generalize (Instance.unmade cls c).run n m i [] = o at hrun ⊢
      generalize (Instance.unmade cls c).run n m' j [] = o' at hrun ⊢
      cases hrun with
      | none => exact .none
      | @some a a' ha =>
        obtain ⟨result, m₁, r⟩ := a
        obtain ⟨result', m₁', r'⟩ := a'
        obtain ⟨hresult, hmodule, rfl⟩ := ha
        obtain ⟨v, rfl, rfl⟩ | ⟨f, f', rfl, rfl, hfault⟩ := alike_cases hresult
        · exact .some ⟨rfl, hmodule⟩
        · refine .some ⟨?_, hmodule⟩
          simp only [Except.mapError, BindError.told, Option.map_some, hfault]

theorem invoke (h : m.Twins φ same m') {r : Instance} (hsame : same r.cls i j) (n : Nat)
    (s : CallSignature) (args : List Value) :
    Option.Rel (Answer.Twins φ same (·.mapError (CallError.told φ))) (r.invoke n m i s args)
      (r.invoke n m' j s args) := by
  unfold Instance.invoke
  rw [h.methodText hsame]
  split
  · have hrun := h.run hsame n args
    generalize r.run n m i args = o at hrun ⊢
    generalize r.run n m' j args = o' at hrun ⊢
    cases hrun with
    | none => exact .none
    | some ha =>
      refine .some ⟨?_, ha.module, ha.receiver⟩
      obtain ⟨v, hv, hv'⟩ | ⟨f, f', hf, hf', hfault⟩ := alike_cases ha.result
      · simp only [hv, hv', Except.mapError]
      · simp only [hf, hf', Except.mapError, CallError.told, hfault]
  · exact .some ⟨rfl, h, rfl⟩

theorem invokeTyped (h : m.Twins φ same m') {r : Instance} (hsame : same r.cls i j) (n : Nat)
    (returns : ValueType) (args : List Value) :
    Option.Rel (Answer.Twins φ same (·.mapError (CallError.told φ)))
      (r.invokeTyped n m i returns args) (r.invokeTyped n m' j returns args) := by
  have hrun := h.run hsame n args
  unfold Instance.invokeTyped
  generalize r.run n m i args = o at hrun ⊢
  generalize r.run n m' j args = o' at hrun ⊢
  cases hrun with
  | none => exact .none
  | some ha =>
    refine .some ⟨?_, ha.module, ha.receiver⟩
    obtain ⟨v, hv, hv'⟩ | ⟨f, f', hf, hf', hfault⟩ := alike_cases ha.result
    · simp only [hv, hv', Instance.typedResult, h.methodText hsame]
    · simp only [hf, hf', Instance.typedResult, Except.mapError, CallError.told, hfault]

end LoadedModule.Twins

/-! ## Sessions -/

namespace Session.Twins

variable {s s' : Session}

theorem sight (h : s.Twins φ same s') : s.sight = s'.sight := by
  rw [Session.sight, h.module.statics, h.module.sink, h.instances]
  rfl

/-- Twins after a call. -/
theorem afterCall (h : s.Twins φ same s') {a a' : Answer (Except CallError Value)}
    (ha : a.Twins φ same (·.mapError (CallError.told φ)) a') (receiver : Nat) :
    (s.afterCall receiver a).1.told φ = (s'.afterCall receiver a').1.told φ ∧
      (s.afterCall receiver a).2.Twins φ same (s'.afterCall receiver a').2 := by
  refine ⟨congrArg Reply.result ha.result, ha.module, ?_⟩
  simp only [Session.afterCall, h.instances, ha.receiver]

/-- Twins answer every request alike, and are twins again. -/
theorem perform (h : s.Twins φ same s') (fuel : Nat) (r : Request) :
    Option.Rel (fun x y => x.1.told φ = y.1.told φ ∧ x.2.Twins φ same y.2)
      (s.perform fuel r) (s'.perform fuel r) := by
  have bound (receiver : Nat) (name : String) (signature : CallSignature)
      (k k' : Instance → Nat → Option (Answer (Except CallError Value)))
      (hk : ∀ i method method', same i.cls method method' →
        Option.Rel (Answer.Twins φ same (·.mapError (CallError.told φ))) (k i method) (k' i method')) :
      Option.Rel (fun x y => x.1.told φ = y.1.told φ ∧ x.2.Twins φ same y.2)
        (s.bound receiver name signature fun i method => (k i method).map (s.afterCall receiver))
        (s'.bound receiver name signature fun i method => (k' i method).map (s'.afterCall receiver)) := by
    unfold Session.bound
    rw [← h.instances]
    cases s.instances[receiver]? with
    | none => exact .some ⟨rfl, h⟩
    | some i =>
      obtain ⟨e, he, he'⟩ | ⟨method, method', hm, hm', hsame⟩ :=
        h.module.bind_cases i name signature
      · simp only [he, he']
        exact .some ⟨rfl, h⟩
      · simp only [hm, hm']
        have hanswer := hk i method method' hsame
        generalize k i method = o at hanswer ⊢
        generalize k' i method' = o' at hanswer ⊢
        cases hanswer with
        | none => exact .none
        | some ha => exact .some (h.afterCall ha receiver)
  cases r with
  | create type =>
    have hcreate := h.module.create fuel type
    simp only [Session.perform]
    generalize Instance.create fuel s.module type = o at hcreate ⊢
    generalize Instance.create fuel s'.module type = o' at hcreate ⊢
    cases hcreate with
    | none => exact .none
    | @some x y hxy =>
      obtain ⟨result, m⟩ := x
      obtain ⟨result', m'⟩ := y
      obtain ⟨hresult, hmodule⟩ := hxy
      obtain ⟨i, rfl, rfl⟩ | ⟨e, e', rfl, rfl, he⟩ := alike_cases hresult
      · exact .some ⟨rfl, hmodule, congrArg (· ++ [i]) h.instances⟩
      · exact .some ⟨congrArg Reply.failed he, hmodule, h.instances⟩
  | call receiver name signature args =>
    exact bound receiver name signature _ _ fun _ _ _ hsame =>
      h.module.invoke hsame fuel signature args
  | callTyped receiver name returns args =>
    exact bound receiver name _ _ _ fun _ _ _ hsame =>
      h.module.invokeTyped hsame fuel returns args

/-- Nothing that is seen tells twins apart. -/
theorem watch (h : s.Twins φ same s') (requests : List (Nat × Request)) :
    s.watch φ requests = s'.watch φ requests := by
  induction requests generalizing s s' with
  | nil => rfl
  | cons request rest ih =>
    obtain ⟨fuel, r⟩ := request
    have hperform := h.perform fuel r
    simp only [Session.watch]
    generalize s.perform fuel r = o at hperform ⊢
    generalize s'.perform fuel r = o' at hperform ⊢
    cases hperform with
    | none => rfl
    | @some x y hxy =>
      obtain ⟨hreply, htwins⟩ := hxy
      simp only [hreply, htwins.sight, ih htwins]

end Session.Twins

/-! ## Loading -/

namespace LoadedModule

/-- Attempts to load modules that fail alike, or give twins. -/
inductive Loads (φ : Fault → Fault) (same : Nat → Nat → Nat → Prop) :
    Except LoadError LoadedModule → Except LoadError LoadedModule → Prop
  | ok {m m' : LoadedModule} (h : m.Twins φ same m') : Loads φ same (.ok m) (.ok m')
  | error {e e' : LoadError} (h : e.told φ = e'.told φ) : Loads φ same (.error e) (.error e')

theorem Loads.watch {r r' : Except LoadError LoadedModule} (h : Loads φ same r r')
    (requests : List (Nat × Request)) :
    LoadedModule.watch φ requests r = LoadedModule.watch φ requests r' := by
  cases h with
  | ok h =>
    have hsession : Session.Twins φ same ⟨_, []⟩ ⟨_, []⟩ := ⟨h, rfl⟩
    exact congrArg Except.ok (Prod.ext hsession.sight (hsession.watch requests))
  | error h => exact congrArg Except.error h

theorem Loads.observe {r r' : Except LoadError LoadedModule} (h : Loads Fault.placeless same r r')
    (requests : List (Nat × Request)) :
    LoadedModule.observe requests r = LoadedModule.observe requests r' := by
  rw [observe_eq_watch, observe_eq_watch, h.watch]

theorem Twins.runInitializers {m m' : LoadedModule} (h : m.Twins φ same m') (fuel : Nat)
    {places places' : List (Nat × Nat)}
    (hplaces : List.Forall₂ (fun a b => a.1 = b.1 ∧ same a.1 a.2 b.2) places places') :
    Option.Rel (Loads φ same) (runInitializers fuel places m) (runInitializers fuel places' m') := by
  induction hplaces generalizing m m' with
  | nil => exact .some (.ok h)
  | @cons a b as bs hab _ ih =>
    obtain ⟨cls, i⟩ := a
    obtain ⟨cls', j⟩ := b
    obtain ⟨rfl, hsame⟩ := hab
    have hcall := h.call hsame fuel none []
    unfold LoadedModule.runInitializers
    generalize Machine.call m.program fuel cls i [] _ = o at hcall ⊢
    generalize Machine.call m'.program fuel cls j [] _ = o' at hcall ⊢
    cases hcall with
    | none => exact .none
    | @some x y hseen =>
      obtain ⟨result, x⟩ := x
      obtain ⟨result', y⟩ := y
      obtain ⟨hresult, hheap⟩ := Prod.mk.inj hseen
      obtain ⟨v, rfl, rfl⟩ | ⟨f, f', rfl, rfl, hfault⟩ := alike_cases hresult
      · exact ih (h.after hheap)
      · exact .some (.error (congrArg LoadError.initializer hfault))

end LoadedModule

/-- The initializers of images that are twins. -/
theorem Image.Twins.initializers {m m' : Image} (h : m.Twins same m') :
    List.Forall₂ (fun a b => a.1 = b.1 ∧ same a.1 a.2 b.2) (LoadedModule.initializers m)
      (LoadedModule.initializers m') := by
  have hlists (cs cs' : List ClassImage) (n : Nat)
      (hclasses : ∀ i, Option.Rel (ClassImage.Twins (same (n + i))) cs[i]? cs'[i]?) :
      List.Forall₂ (fun a b => a.1 = b.1 ∧ same a.1 a.2 b.2)
        ((cs.zipIdx n).filterMap fun p => p.1.typeInitializer?.map fun j => (p.2, j))
        ((cs'.zipIdx n).filterMap fun p => p.1.typeInitializer?.map fun j => (p.2, j)) := by
    induction cs generalizing cs' n with
    | nil =>
      cases cs' with
      | nil => exact .nil
      | cons c' cs' => cases hclasses 0
    | cons c cs ih =>
      cases cs' with
      | nil => cases hclasses 0
      | cons c' cs' =>
        have hrest := ih cs' (n + 1) fun i => by
          have hclass := hclasses (i + 1)
          rwa [← Nat.add_assoc, Nat.add_right_comm] at hclass
        cases hclasses 0 with
        | some hc =>
          have hinitializer := hc.initializer
          rw [List.zipIdx_cons, List.zipIdx_cons, List.filterMap_cons, List.filterMap_cons]
          dsimp only
          generalize c.typeInitializer? = o at hinitializer ⊢
          generalize c'.typeInitializer? = o' at hinitializer ⊢
          cases hinitializer with
          | none => exact hrest
          | some hsame => exact .cons ⟨rfl, hsame⟩ hrest
  exact hlists _ _ 0 fun i => by simpa using h.classes i

/-- Images that are twins are loaded alike, if their imports are bound alike. -/
theorem LoadedModule.load_twins {m m' : Image} (h : m.Twins same m') {bytes bytes' : List UInt8}
    (hread : Image.decode bytes = .ok m) (hread' : Image.decode bytes' = .ok m') {catalog : Catalog}
    (hbind : Loads φ same (bind m bytes catalog) (bind m' bytes' catalog)) (fuel : Nat) :
    Option.Rel (Loads φ same) (load fuel bytes catalog) (load fuel bytes' catalog) := by
  simp only [load, hread, hread']
  generalize bind m bytes catalog = r at hbind ⊢
  generalize bind m' bytes' catalog = r' at hbind ⊢
  cases hbind with
  | ok htwins => exact htwins.runInitializers fuel h.initializers
  | error he => exact .some (.error he)

end ClassScript
