import ClassScript.Instance

/-!
What a host does with a loaded module.

A session is a module with the instances that were made of its classes. `perform` does one request:
an instance is made, or a method of an instance is bound by its name and signature and called. Every
request starts one run at most, and `Starts` tells which.
-/

namespace ClassScript

inductive Request where
  /-- Makes an instance of a class. -/
  | create (type : String)
  /-- Calls a method of the instance at a place. -/
  | call (receiver : Nat) (name : String) (signature : CallSignature) (args : List Value)
  /-- Calls a method whose parameters have the types of the arguments. -/
  | callTyped (receiver : Nat) (name : String) (returns : ValueType) (args : List Value)

def Request.receiver? : Request → Option Nat
  | create _ => none
  | call receiver .. | callTyped receiver .. => some receiver

inductive Reply where
  | created
  /-- There is no instance, or no method to call. -/
  | failed (e : BindError)
  /-- There is no instance at the place. -/
  | noReceiver
  | result (r : Except CallError Value)

def Reply.fault? : Reply → Option Fault
  | failed (.construction _ f) => f
  | result (.error (.fault f)) => some f
  | _ => none

structure Session where
  module : LoadedModule
  instances : List Instance

namespace Session

def afterCreate (s : Session) : Except BindError Instance × LoadedModule → Reply × Session
  | (.ok i, m) => (.created, ⟨m, s.instances ++ [i]⟩)
  | (.error e, m) => (.failed e, ⟨m, s.instances⟩)

def afterCall (s : Session) (receiver : Nat) (a : Answer (Except CallError Value)) :
    Reply × Session := (.result a.result, ⟨a.module, s.instances.set receiver a.receiver⟩)

/-- Binds a method of the instance at a place and goes on with it. -/
def bound (s : Session) (receiver : Nat) (name : String) (signature : CallSignature)
    (k : Instance → Nat → Option (Reply × Session)) : Option (Reply × Session) :=
  match s.instances[receiver]? with
  | none => some (.noReceiver, s)
  | some i =>
    match i.bind s.module name signature with
    | .error e => some (.failed e, s)
    | .ok method => k i method

/-- Does a request. Its run may take so many instructions; none is no answer by then. -/
def perform (fuel : Nat) (s : Session) : Request → Option (Reply × Session)
  | .create type => (Instance.create fuel s.module type).map s.afterCreate
  | .call receiver name signature args =>
    s.bound receiver name signature fun i method =>
      (i.invoke fuel s.module method signature args).map (s.afterCall receiver)
  | .callTyped receiver name returns args =>
    s.bound receiver name ⟨args.map (·.type), returns⟩ fun i method =>
      (i.invokeTyped fuel s.module method returns args).map (s.afterCall receiver)

inductive Starts (s : Session) : Request → Instance → Nat → List Value → Prop
  | create {type : String} {cls method : Nat} {c : ClassImage}
      (hcls : s.module.image.findClass? type = some cls)
      (hc : s.module.image.classes[cls]? = some c) (hmethod : Instance.constructor? c = some method) :
      Starts s (.create type) (Instance.unmade cls c) method []
  | call {receiver method : Nat} {name : String} {signature : CallSignature} {args : List Value}
      {i : Instance} (hi : s.instances[receiver]? = some i)
      (hmethod : i.bind s.module name signature = .ok method)
      (htypes : args.map (·.type) = signature.params) :
      Starts s (.call receiver name signature args) i method args
  | callTyped {receiver method : Nat} {name : String} {returns : ValueType} {args : List Value}
      {i : Instance} (hi : s.instances[receiver]? = some i)
      (hmethod : i.bind s.module name ⟨args.map (·.type), returns⟩ = .ok method) :
      Starts s (.callTyped receiver name returns args) i method args

/-- What a request that runs a method leaves: the module and the receiver after the run, and a reply
that tells how it ended. -/
structure Ran (s : Session) (r : Request) (a : Answer (Except Fault Value)) (reply : Reply)
    (s' : Session) : Prop where
  module : s'.module = a.module
  instances : ∀ i ∈ s'.instances, i ∈ s.instances ∨ i = a.receiver
  /-- Instances that no method was called of stay as they are. -/
  kept : r.receiver? = none → s.instances <+: s'.instances
  replaced : ∀ k, r.receiver? = some k → s'.instances = s.instances.set k a.receiver
  value : ∀ v, reply = .result (.ok v) → a.result = .ok v
  fault : ∀ f, reply.fault? = some f → a.result = .error f ∨
    ∃ k name returns args v, r = .callTyped k name returns args ∧ a.result = .ok v ∧ v.type ≠ returns

structure Refused (s : Session) (reply : Reply) (s' : Session) : Prop where
  unchanged : s' = s
  value : ∀ v, reply ≠ .result (.ok v)
  fault : reply.fault? = none

variable {s s' : Session} {fuel : Nat} {reply : Reply}

theorem ok_of_mapError {r : Except Fault Value} {v : Value}
    (h : r.mapError CallError.fault = .ok v) : r = .ok v := by
  cases r with
  | ok w =>
    cases h
    rfl
  | error f => cases h

theorem fault_of_mapError {r : Except Fault Value} {f : Fault}
    (h : (Reply.result (r.mapError .fault)).fault? = some f) : r = .error f := by
  cases r with
  | ok w => cases h
  | error f =>
    cases h
    rfl

theorem ok_of_typedResult {m : LoadedModule} {i : Instance} {method : Nat} {t : ValueType}
    {r : Except Fault Value} {v : Value} (h : i.typedResult m method t r = .ok v) : r = .ok v := by
  cases r with
  | ok w =>
    simp only [Instance.typedResult] at h
    split at h
    · cases h
      rfl
    · cases h
  | error f => cases h

theorem fault_of_typedResult {m : LoadedModule} {i : Instance} {method : Nat} {t : ValueType}
    {r : Except Fault Value} {f : Fault}
    (h : (Reply.result (i.typedResult m method t r)).fault? = some f) :
    r = .error f ∨ ∃ v, r = .ok v ∧ v.type ≠ t := by
  cases r with
  | ok w =>
    simp only [Instance.typedResult] at h
    split at h
    · cases h
    · next ht => exact .inr ⟨w, rfl, ht⟩
  | error f =>
    cases h
    exact .inl rfl

theorem create_spec {type : String} (h : s.perform fuel (.create type) = some (reply, s')) :
    Refused s reply s' ∨ ∃ i method a, s.Starts (.create type) i method [] ∧
      i.run fuel s.module method [] = some a ∧ Ran s (.create type) a reply s' := by
  obtain ⟨⟨r, m⟩, hcreate, h⟩ := Option.map_eq_some_iff.mp h
  unfold Instance.create at hcreate
  split at hcreate
  · cases hcreate
    cases h
    exact .inl ⟨rfl, (fun _ h => by cases h), rfl⟩
  · next cls hcls =>
    obtain ⟨hlt, -⟩ := Array.findIdx?_eq_some_iff_getElem.mp hcls
    have hc : s.module.image.classes[cls]? = some (s.module.image.classes.getD cls default) := by
      simp [hlt]
    dsimp only at hcreate
    split at hcreate
    · cases hcreate
      cases h
      exact .inl ⟨rfl, (fun _ h => by cases h), rfl⟩
    · next method hmethod =>
      split at hcreate
      · cases hcreate
      · next m' i hrun =>
        cases hcreate
        cases h
        refine .inr ⟨_, method, _, .create hcls hc hmethod, hrun, rfl, fun j hj => ?_,
          fun _ => List.prefix_append .., nofun, (fun _ h => by cases h), fun _ h => by cases h⟩
        exact (List.mem_append.mp hj).imp id List.mem_singleton.mp
      · next f m' i hrun =>
        cases hcreate
        cases h
        exact .inr ⟨_, method, _, .create hcls hc hmethod, hrun, rfl, fun j hj => .inl hj,
          fun _ => List.prefix_rfl, nofun, (fun _ h => by cases h),
          fun f' hf' => .inl (by cases hf'; rfl)⟩

/-- A request to a method that cannot be bound is refused; any other one goes on with it. -/
theorem bound_spec {receiver : Nat} {name : String} {signature : CallSignature}
    {k : Instance → Nat → Option (Reply × Session)}
    (h : s.bound receiver name signature k = some (reply, s')) :
    Refused s reply s' ∨ ∃ i method, s.instances[receiver]? = some i ∧
      i.bind s.module name signature = .ok method ∧ k i method = some (reply, s') := by
  unfold bound at h
  split at h
  · cases h
    exact .inl ⟨rfl, (fun _ h => by cases h), rfl⟩
  · next i hi =>
    split at h
    · next e he =>
      cases h
      refine .inl ⟨rfl, nofun, ?_⟩
      unfold Instance.bind at he
      split at he
      · cases he
      · cases he
        rfl
    · next method hmethod => exact .inr ⟨i, method, hi, hmethod, h⟩

/-- Every request is refused, or runs the method that it starts. -/
theorem perform_spec {r : Request} (h : s.perform fuel r = some (reply, s')) :
    Refused s reply s' ∨ ∃ i method args a, s.Starts r i method args ∧
      i.run fuel s.module method args = some a ∧ Ran s r a reply s' := by
  cases r with
  | create type =>
    obtain h | ⟨i, method, a, hstarts, hrun, hran⟩ := create_spec h
    · exact .inl h
    · exact .inr ⟨i, method, [], a, hstarts, hrun, hran⟩
  | call receiver name signature args =>
    obtain h | ⟨i, method, hi, hmethod, h⟩ := bound_spec h
    · exact .inl h
    obtain ⟨a, ha, h⟩ := Option.map_eq_some_iff.mp h
    cases h
    unfold Instance.invoke at ha
    split at ha
    · next htypes =>
      obtain ⟨a', hrun, rfl⟩ := Option.map_eq_some_iff.mp ha
      exact .inr ⟨i, method, args, a', .call hi hmethod htypes, hrun, rfl,
        fun j => List.mem_or_eq_of_mem_set, nofun, fun k hk => by cases hk; rfl,
        fun v hv => ok_of_mapError (Reply.result.inj hv), fun f hf => .inl (fault_of_mapError hf)⟩
    · cases ha
      refine .inl ⟨?_, (fun _ h => by cases h), rfl⟩
      obtain ⟨hlt, rfl⟩ := List.getElem?_eq_some_iff.mp hi
      rw [List.set_getElem_self]
  | callTyped receiver name returns args =>
    obtain h | ⟨i, method, hi, hmethod, h⟩ := bound_spec h
    · exact .inl h
    obtain ⟨a, ha, h⟩ := Option.map_eq_some_iff.mp h
    cases h
    obtain ⟨a', hrun, rfl⟩ := Option.map_eq_some_iff.mp ha
    refine .inr ⟨i, method, args, a', .callTyped hi hmethod, hrun, rfl,
      fun j => List.mem_or_eq_of_mem_set, nofun, fun k hk => by cases hk; rfl,
      fun v hv => ok_of_typedResult (Reply.result.inj hv),
      fun f hf => (fault_of_typedResult hf).imp id ?_⟩
    rintro ⟨v, hv, ht⟩
    exact ⟨_, _, _, _, v, rfl, hv, ht⟩

end Session
end ClassScript
