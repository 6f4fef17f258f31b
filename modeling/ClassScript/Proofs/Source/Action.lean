import ClassScript.Machine

/-!
Computations that scripts stand for.

An action reads and changes a state and ends with an answer or a fault. One that may run on for ever
is told for how many rounds it may; if they are too few, it has no outcome. Nothing here knows about
code: a fault that blames code is noticed at no particular place in it.
-/

namespace ClassScript

/-- What outlasts a call: the fields of the receiver, if there is one, the static slots and the
output. -/
structure Heap where
  fields : Option (Array Value)
  statics : Array Value
  sink : Sink

structure Store where
  locals : Array Value
  heap : Heap

abbrev Action (σ α : Type) : Type := ExceptT Fault (StateT σ Option) α

namespace Action

variable {σ α β : Type}

/-- The outcome on a state, if there is one. -/
def on (a : Action σ α) (s : σ) : Option (Except Fault α × σ) := a s

def blame (d : CodeDefect) : Action σ α := throw (.invalidCode 0 d)

def compute : Except EvalError Value → Action σ Value
  | .ok v => pure v
  | .error e => throw (e.fault 0)

def found (d : CodeDefect) : Option Value → Action σ Value
  | some v => pure v
  | none => blame d

/-- A value as a condition that the instruction `op` looks at. -/
def truth (op : Opcode) : Value → Action σ Bool
  | .bool b => pure b
  | _ => blame (.notACondition op)

/-- Repeats an action until it answers, for so many rounds at most. -/
def rounds (round : Action σ (Option α)) : Nat → Action σ α
  | 0 => fun _ => none
  | n + 1 => round >>= fun answer => answer.elim (rounds round n) pure

/-- What an action on the heap does to it beside the locals of a method. -/
def beside (a : Action Heap α) : Action Store α := fun s =>
  (a.on s.heap).map fun r => (r.1, ⟨s.locals, r.2⟩)

/-- A method at work: its locals are its own. -/
def within (locals : Array Value) (a : Action Store α) : Action Heap α := fun h =>
  (a.on ⟨locals, h⟩).map fun r => (r.1, r.2.heap)

@[simp] theorem on_pure (a : α) (s : σ) : (pure a : Action σ α).on s = some (.ok a, s) := rfl

@[simp] theorem on_get (s : σ) : (get : Action σ σ).on s = some (.ok s, s) := rfl

@[simp] theorem on_set (s t : σ) : (set t : Action σ PUnit).on s = some (.ok ⟨⟩, t) := rfl

@[simp] theorem on_throw (f : Fault) (s : σ) :
    (throw f : Action σ α).on s = some (.error f, s) := rfl

@[simp] theorem on_blame (d : CodeDefect) (s : σ) :
    (blame d : Action σ α).on s = some (.error (.invalidCode 0 d), s) := rfl

def follow (f : α → Action σ β) : Except Fault α × σ → Option (Except Fault β × σ)
  | (.ok x, s) => (f x).on s
  | (.error e, s) => some (.error e, s)

@[simp] theorem follow_ok (f : α → Action σ β) (x : α) (s : σ) : follow f (.ok x, s) = (f x).on s :=
  rfl

@[simp] theorem follow_error (f : α → Action σ β) (e : Fault) (s : σ) :
    follow f (.error e, s) = some (.error e, s) := rfl

theorem on_bind (a : Action σ α) (f : α → Action σ β) (s : σ) :
    (a >>= f).on s = (a.on s).bind (follow f) := by
  change (a.on s).bind _ = _
  congr 1
  funext r
  obtain ⟨x | e, t⟩ := r <;> rfl

@[simp] theorem compute_ok (v : Value) : (compute (.ok v) : Action σ Value) = pure v := rfl

@[simp] theorem truth_bool (op : Opcode) (b : Bool) :
    (truth op (.bool b) : Action σ Bool) = pure b := rfl

end Action
end ClassScript
