import ClassScript.Proofs.Execution.Heights
import ClassScript.Proofs.Source.Action

/-!
Machines that do what actions say.

`Does p n m post r` tells that the machine `m` does what the outcome `r` of an action says: it comes
to a machine of which `post` holds, or stops with the same fault and the same heap. Where the action
has no outcome, the machine does not stop within `n` instructions; so if there is none however often
loops may be repeated, the machine runs for ever. The rules follow the ways actions are put together.
-/

namespace ClassScript

/-- A fault, wherever in the code it is noticed. -/
def Fault.placeless : Fault → Fault
  | invalidCode _ d => invalidCode 0 d
  | f => f

/-- States that hold what outlasts a call. -/
class Lasting (σ : Type) where
  heap : σ → Heap

instance : Lasting Heap := ⟨id⟩

instance : Lasting Store := ⟨Store.heap⟩

namespace Machine

variable {p : Program} {n k : Nat} {m m' m'' : Machine}

def heap (m : Machine) : Heap := ⟨m.fields, m.statics, m.sink⟩

inductive GoesTo (p : Program) : Machine → Machine → Prop
  | refl {m : Machine} : GoesTo p m m
  | step {m m' m'' : Machine} (h : step p m = .next m') (hs : GoesTo p m' m'') : GoesTo p m m''

theorem GoesTo.trans (h : GoesTo p m m') (h' : GoesTo p m' m'') : GoesTo p m m'' := by
  induction h with
  | refl => exact h'
  | step hstep _ ih => exact .step hstep (ih h')

theorem run_succ (h : step p m = .next m') (n : Nat) : run p (n + 1) m = run p n m' := by
  simp only [run, h]

/-- A run that is not over is not over earlier either. -/
theorem run_eq_none (h : run p n m = none) (hk : k ≤ n) : run p k m = none := by
  induction n generalizing k m with
  | zero => rw [Nat.le_zero.mp hk]; rfl
  | succ n ih =>
    cases k with
    | zero => rfl
    | succ k =>
      unfold run at h ⊢
      split at h
      · next hstep => exact ih h (Nat.le_of_succ_le_succ hk)
      · cases h
      · cases h

theorem run_eq_none_of_step (hstep : step p m = .next m') (h : run p n m' = none) :
    run p (n + 1) m = none := by rw [run_succ hstep, h]

theorem GoesTo.run_eq_none (h : GoesTo p m m') (hm : run p n m' = none) : run p n m = none := by
  induction h with
  | refl => exact hm
  | step hstep _ ih => exact Machine.run_eq_none (run_eq_none_of_step hstep (ih hm)) n.le_succ

theorem GoesTo.run_eq_some {o : Outcome} (h : GoesTo p m m') (hm : run p n m' = some o) :
    ∃ k, run p k m = some o := by
  induction h with
  | refl => exact ⟨n, hm⟩
  | step hstep _ ih =>
    obtain ⟨k, hk⟩ := ih hm
    exact ⟨k + 1, (run_succ hstep k).trans hk⟩

/-! ## Outcomes of actions -/

/-- A machine does what an outcome says; `post` tells where it comes to. -/
inductive Does {σ α : Type} [Lasting σ] (p : Program) (n : Nat) (m : Machine)
    (post : α → σ → Machine → Prop) : Option (Except Fault α × σ) → Prop
  | endless (h : run p n m = none) : Does p n m post none
  | comes {a : α} {s : σ} {m' : Machine} (h : GoesTo p m m') (hpost : post a s m') :
      Does p n m post (some (.ok a, s))
  | fails {e f : Fault} {s : σ} {k : Nat} {m' : Machine} (h : run p k m = some ⟨.error e, m'⟩)
      (he : e.placeless = f.placeless) (hheap : m'.heap = Lasting.heap s) :
      Does p n m post (some (.error f, s))

namespace Does

variable {σ α β : Type} [Lasting σ] {post : α → σ → Machine → Prop}
  {post' : β → σ → Machine → Prop} {r : Option (Except Fault α × σ)} {s : σ}

theorem pure {a : α} (h : post a s m) : Does p n m post ((Pure.pure a : Action σ α).on s) :=
  .comes .refl h

theorem goesTo (h : GoesTo p m m') (hm : Does p n m' post r) : Does p n m post r := by
  cases hm with
  | endless hm => exact .endless (h.run_eq_none hm)
  | comes hm hpost => exact .comes (h.trans hm) hpost
  | fails hm he hheap =>
    obtain ⟨k, hk⟩ := h.run_eq_some hm
    exact .fails hk he hheap

theorem step (hstep : Machine.step p m = .next m') (h : Does p n m' post r) : Does p n m post r :=
  h.goesTo (.step hstep .refl)

theorem imp {post' : α → σ → Machine → Prop} (h : Does p n m post r)
    (himp : ∀ a s m', post a s m' → post' a s m') : Does p n m post' r := by
  cases h with
  | endless h => exact .endless h
  | comes h hpost => exact .comes h (himp _ _ _ hpost)
  | fails h he hheap => exact .fails h he hheap

/-- The machine goes on when all is done. -/
theorem onward {post' : α → σ → Machine → Prop} (h : Does p n m post r)
    (hon : ∀ a s m', post a s m' → ∃ m'', GoesTo p m' m'' ∧ post' a s m'') :
    Does p n m post' r := by
  cases h with
  | endless h => exact .endless h
  | comes h hpost =>
    obtain ⟨m'', hto, hpost'⟩ := hon _ _ _ hpost
    exact .comes (h.trans hto) hpost'
  | fails h he hheap => exact .fails h he hheap

/-- The machine stops at once, with the fault of the action. -/
theorem fault {e f : Fault} {m' : Machine} (hstep : Machine.step p m = .fault e m')
    (he : e.placeless = f.placeless) (hheap : m'.heap = Lasting.heap s) :
    Does p n m post ((throw f : Action σ α).on s) :=
  .fails (k := 1) (by simp only [run, hstep]) he hheap

theorem bind {a : Action σ α} {f : α → Action σ β} (h : Does p n m post (a.on s))
    (hf : ∀ x t m', post x t m' → Does p n m' post' ((f x).on t)) :
    Does p n m post' ((a >>= f).on s) := by
  rw [Action.on_bind]
  generalize a.on s = r at h
  cases h with
  | endless h => exact .endless h
  | comes h hpost => exact (hf _ _ _ hpost).goesTo h
  | fails h he hheap => exact .fails h he hheap

/-- What is done to the heap beside the locals of a method. -/
theorem beside {a : Action Heap α} {post : α → Store → Machine → Prop} {s : Store}
    (h : Does p n m (fun x t => post x ⟨s.locals, t⟩) (a.on s.heap)) :
    Does p n m post (a.beside.on s) := by
  change Does p n m post ((a.on s.heap).map _)
  generalize a.on s.heap = r at h
  cases h with
  | endless h => exact .endless h
  | comes h hpost => exact .comes h hpost
  | fails h he hheap => exact .fails h he hheap

/-- What a method does with locals of its own. -/
theorem within {a : Action Store α} {post : α → Heap → Machine → Prop} {locals : Array Value}
    {s : Heap} (h : Does p n m (fun x t => post x t.heap) (a.on ⟨locals, s⟩)) :
    Does p n m post ((a.within locals).on s) := by
  change Does p n m post ((a.on ⟨locals, s⟩).map _)
  generalize a.on ⟨locals, s⟩ = r at h
  cases h with
  | endless h => exact .endless h
  | comes h hpost => exact .comes h hpost
  | fails h he hheap => exact .fails h he hheap

/-- A loop: every round comes to its end, or back to its start by one more step. -/
theorem rounds {round : Action σ (Option α)} {start : σ → Machine → Prop}
    (hround : ∀ s m, start s m → Does p n m (fun answer t m' =>
      (∀ a, answer = some a → post a t m') ∧
        (answer = none → ∃ m'', Machine.step p m' = .next m'' ∧ start t m'')) (round.on s))
    (hm : start s m) (hk : k ≤ n) : Does p k m post ((Action.rounds round k).on s) := by
  induction k generalizing s m with
  | zero => exact .endless rfl
  | succ k ih =>
    have h := hround s m hm
    rw [Action.rounds, Action.on_bind]
    generalize round.on s = r at h
    cases h with
    | endless h => exact .endless (run_eq_none h hk)
    | fails h he hheap => exact .fails h he hheap
    | @comes answer t m' h hpost =>
      cases answer with
      | some a => exact .comes h (hpost.1 a rfl)
      | none =>
        obtain ⟨m'', hstep, hstart⟩ := hpost.2 rfl
        have hrest := ih hstart (Nat.le_of_succ_le hk)
        change Does p (k + 1) m post ((Action.rounds round k).on t)
        generalize (Action.rounds round k).on t = r at hrest
        cases hrest with
        | endless hrest => exact .endless (h.run_eq_none (run_eq_none_of_step hstep hrest))
        | comes hrest hpost => exact .comes (h.trans (.step hstep hrest)) hpost
        | fails hrest he hheap =>
          obtain ⟨j, hj⟩ := (h.trans (.step hstep .refl)).run_eq_some hrest
          exact .fails hj he hheap

end Does
end Machine
end ClassScript
