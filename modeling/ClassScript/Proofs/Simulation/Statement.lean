import ClassScript.Proofs.Flow.Statement
import ClassScript.Proofs.Simulation.Operator
import ClassScript.Proofs.Source.Program

/-!
The code of statements does what they mean.

`A.Executes n F x a` tells that the pieces `F`, wherever they stand in the method of the activation
`A`, do what the action `a` says: where it completes at its end the machine comes to the end of the
pieces, and where it leaves what is around it the machine comes to one of the jumps among them, or to
a return. Loops go round as often as the machine executes instructions at most. What expressions mean
is given, and that their code does it.
-/

namespace ClassScript

open Code (Instruction)
open Compile Layout
open Layout.Fragment
open Machine (Does)
open Source (Completion Interpretation)

namespace Activation

open Performs (left left_of_ne)

variable (A : Activation)

/-! ## Places in a method -/

def Jumps (o target : Nat) : Prop := ∀ stack s,
  Machine.step A.program (A.machine o stack s) = .next (A.machine target stack s)

/-- Pieces stand at an offset. The jumps out of the loop around them and to its next round have the
given properties. -/
def Holds (leaves agains : Nat → Prop) : Nat → Fragment → Prop
  | _, [] => True
  | o, .op i :: F => A.op? o = some i ∧ Holds leaves agains (o + i.width) F
  | o, .leave :: F => leaves o ∧ Holds leaves agains (o + 3) F
  | o, .again :: F => agains o ∧ Holds leaves agains (o + 3) F

inductive Returning (stack : List Value) : Option Value → Store → Machine → Prop
  | value {o : Nat} {v : Value} {t : Store} (hr : A.image.returns.isVoid = false)
      (h : A.op? o = some (.plain .ret)) : Returning stack (some v) t (A.machine o (v :: stack) t)
  | void {o : Nat} {t : Store} (hr : A.image.returns.isVoid = true)
      (h : A.op? o = some (.plain .retVoid)) : Returning stack none t (A.machine o stack t)

/-- Where the machine stands when a statement completes, whose code ends at `stop`. -/
inductive Completes (leaves agains : Nat → Prop) (stop : Nat) (x : Exits) (stack : List Value) :
    Completion → Store → Machine → Prop
  | next {t : Store} (hx : x.ends = true) :
      Completes leaves agains stop x stack .next t (A.machine stop stack t)
  | leave {o : Nat} {t : Store} (hx : x.breaks = true) (h : leaves o) :
      Completes leaves agains stop x stack .leave t (A.machine o stack t)
  | again {o : Nat} {t : Store} (hx : x.continues = true) (h : agains o) :
      Completes leaves agains stop x stack .again t (A.machine o stack t)
  | ret {r : Option Value} {t : Store} {m : Machine} (h : A.Returning stack r t m) :
      Completes leaves agains stop x stack (.ret r) t m

/-- Where the machine stands when a round of a loop is over. -/
inductive EndsRound (start stop : Nat) (ends : Bool) (stack : List Value) :
    Option Completion → Store → Machine → Prop
  | on {o : Nat} {t : Store} (h : A.Jumps o start) :
      EndsRound start stop ends stack none t (A.machine o stack t)
  | out {t : Store} (h : ends = true) :
      EndsRound start stop ends stack (some .next) t (A.machine stop stack t)
  | ret {r : Option Value} {t : Store} {m : Machine} (h : A.Returning stack r t m) :
      EndsRound start stop ends stack (some (.ret r)) t m

/-- Pieces do what a statement means, wherever they stand. -/
def Executes (n : Nat) (F : Fragment) (x : Exits) (a : Action Store Completion) : Prop :=
  ∀ leaves agains ip stack s, A.Holds leaves agains ip F → Does A.program n (A.machine ip stack s)
    (A.Completes leaves agains (ip + F.size) x stack) (a.on s)

/-- Code computes a condition, whose value may be known. -/
structure Decides (n : Nat) (is : Asm) (known : Option Bool) (c : Action Store Value) : Prop where
  performs : A.Performs n is [] c fun v => [v]
  known : ∀ b, known = some b → c = pure (.bool b)

/-- The code of expressions does what they mean. A value that is known is all that is meant. -/
structure Interprets (n : Nat) (T : Tables) (site : Site) (I : Interpretation) : Prop where
  constants : T.constants = A.program.image.constants
  value : ∀ {locals e is p}, locals.Valued → Values T site locals e is p →
    ∃ a, I.value site locals e = some (p.type, a) ∧ A.Performs n is [] a (left p.type)
  valueOf : ∀ {locals e type is p}, locals.Valued → Evaluates T site locals e type is p →
    ∃ a, I.valueOf site locals e type = some a ∧ (A.Performs n is [] a fun v => [v]) ∧
      ∀ v, p.constant = some v → a = pure v
  effect : ∀ {locals e is}, locals.Valued → Acts T site locals e is →
    ∃ a, I.effect site locals e = some a ∧ A.Performs n is [] a fun _ => []

variable {A} {n ip o d start stop : Nat} {is js ks : Asm} {F G : Fragment} {x y : Exits}
  {leaves agains : Nat → Prop} {stack : List Value} {s : Store} {a b : Action Store Completion}

theorem jumps_jump (h : A.op? o = some (.unary .jump d)) : A.Jumps o (o + 3 + d) :=
  fun _ _ => step_eq h

theorem jumps_loop (h : A.op? o = some (.unary .loop d)) (hd : d ≤ o + 3) :
    A.Jumps o (o + 3 - d) := fun _ _ => (step_eq h).trans (if_pos hd)

@[simp] theorem holds_nil : A.Holds leaves agains o [] := trivial

@[simp] theorem holds_op {i : Instruction} : A.Holds leaves agains o (.op i :: F) ↔
    A.op? o = some i ∧ A.Holds leaves agains (o + i.width) F := .rfl

@[simp] theorem holds_leave : A.Holds leaves agains o (.leave :: F) ↔
    leaves o ∧ A.Holds leaves agains (o + 3) F := .rfl

@[simp] theorem holds_again : A.Holds leaves agains o (.again :: F) ↔
    agains o ∧ A.Holds leaves agains (o + 3) F := .rfl

@[simp] theorem holds_ops : A.Holds leaves agains o (ops is) ↔ A.Has o is := by
  induction is generalizing o with
  | nil => simp
  | cons i is ih => simp [ih]

@[simp] theorem holds_append : A.Holds leaves agains o (F ++ G) ↔
    A.Holds leaves agains o F ∧ A.Holds leaves agains (o + F.size) G := by
  induction F generalizing o with
  | nil => simp
  | cons x F ih => cases x <;> simp [ih, and_assoc, Nat.add_assoc]

/-- Jumps to the next round are jumps to the end. -/
theorem holds_of_forward {P : Nat → Prop} (h : A.Holds leaves agains o F.forward)
    (hP : ∀ p d, A.op? p = some (.unary .jump d) → p + 3 + d = o + F.size → P p) :
    A.Holds leaves P o F := by
  -- the end stays where it is while the pieces in front of it are passed
  generalize hstop : o + F.size = stop at hP
  induction F generalizing o with
  | nil => trivial
  | cons x F ih =>
    cases x with
    | op i =>
      simp only [forward, holds_op, size_cons, Piece.width_op] at h hstop ⊢
      exact ⟨h.1, ih h.2 (by omega)⟩
    | leave =>
      simp only [forward, holds_leave, size_cons, Piece.width_leave] at h hstop ⊢
      exact ⟨h.1, ih h.2 (by omega)⟩
    | again =>
      simp only [forward, holds_op, holds_again, Instruction.width_unary, Instruction.width_jump,
        size_cons, Piece.width_again] at h hstop ⊢
      exact ⟨hP o _ h.1 (by omega), ih h.2 (by omega)⟩

/-- In a loop, jumps out of it are jumps to its end, and jumps to the next round lead back to its
start. -/
theorem holds_of_closed {k : Nat} {P Q : Nat → Prop} (h : A.Has (start + k) (closed k F))
    (hP : ∀ p d, A.op? p = some (.unary .jump d) → p + 3 + d = start + k + F.size → P p)
    (hQ : ∀ p d, A.op? p = some (.unary .loop d) → p + 3 = start + d → Q p) :
    A.Holds P Q (start + k) F := by
  generalize hstop : start + k + F.size = stop at hP
  induction F generalizing k with
  | nil => trivial
  | cons x F ih =>
    cases x with
    | op i =>
      simp only [closed, has_cons, holds_op, size_cons, Piece.width_op, Nat.add_assoc] at h hstop ⊢
      exact ⟨h.1, ih h.2 (by omega)⟩
    | leave =>
      simp only [closed, has_cons, holds_leave, Instruction.width_unary, Instruction.width_jump,
        size_cons, Piece.width_leave, Nat.add_assoc] at h hstop ⊢
      exact ⟨hP _ _ h.1 (by omega), ih h.2 (by omega)⟩
    | again =>
      simp only [closed, has_cons, holds_again, Instruction.width_unary, Instruction.width_loop,
        size_cons, Piece.width_again, Nat.add_assoc] at h hstop ⊢
      exact ⟨hQ _ _ h.1 (by omega), ih h.2 (by omega)⟩

/-- Jumps to the next round lead to the end. -/
theorem holds_forward (h : A.Holds leaves agains o F.forward) :
    A.Holds leaves (A.Jumps · (o + F.size)) o F :=
  holds_of_forward h fun _ _ hop hstop => hstop ▸ jumps_jump hop

/-- In a loop, jumps out of it lead to its end, and jumps to the next round to its start. -/
theorem holds_closed {k : Nat} (h : A.Has (start + k) (closed k F)) :
    A.Holds (A.Jumps · (start + k + F.size)) (A.Jumps · start) (start + k) F := by
  refine holds_of_closed h (fun _ _ hop hstop => hstop ▸ jumps_jump hop) fun p d hop hd => ?_
  have hback := jumps_loop hop (by omega)
  rwa [show p + 3 - d = start by omega] at hback

namespace Executes

/-! ## Code in general -/

/-- Code that is left at its end only. -/
theorem ofPerforms {a : Action Store Unit} (h : A.Performs n is [] a fun _ => []) :
    A.Executes n (ops is) (.plain true) (Source.completing a) := by
  intro leaves agains ip stack s hF
  refine (h ip stack s (holds_ops.mp hF)).bind fun _ t m hm => ?_
  rw [hm, size_ops]
  exact .pure (.next rfl)

/-- Pieces behind other code. -/
theorem behind {a : Action Store Unit} (h : A.Performs n is [] a fun _ => [])
    (hb : A.Executes n F x b) : A.Executes n (ops is ++ F) x (a >>= fun _ => b) := by
  intro leaves agains ip stack s hF
  obtain ⟨hi, hF⟩ := holds_append.mp hF
  rw [size_ops] at hF
  refine (h ip stack s (holds_ops.mp hi)).bind fun _ t m hm => ?_
  rw [hm, Fragment.size_append, size_ops, ← Nat.add_assoc]
  exact hb leaves agains _ stack t hF

/-- What is done behind a statement is done only if its end can be reached. -/
theorem sequence (ha : A.Executes n F x a) (hb : x.ends = true → A.Executes n G y b) :
    A.Executes n (F ++ G) (x.both y y.ends) (Source.sequence a b) := by
  intro leaves agains ip stack s hFG
  obtain ⟨hF, hG⟩ := holds_append.mp hFG
  refine (ha leaves agains ip stack s hF).bind fun c t m hm => ?_
  cases hm with
  | next hx =>
    rw [Fragment.size_append, ← Nat.add_assoc]
    refine (hb hx leaves agains _ stack t hG).imp fun c t m hm => ?_
    cases hm with
    | next hy => exact .next hy
    | leave hy h => exact .leave (by simp [Exits.both, hy]) h
    | again hy h => exact .again (by simp [Exits.both, hy]) h
    | ret h => exact .ret h
  | leave hx h => exact .pure (.leave (by simp [Exits.both, hx]) h)
  | again hx h => exact .pure (.again (by simp [Exits.both, hx]) h)
  | ret h => exact .pure (.ret h)

end Executes

/-! ## Conditions -/

namespace Decides

variable {known : Option Bool} {c : Action Store Value}

/-- A condition and its jump. Only a branch that can be taken has to do what is meant. -/
theorem choose {α : Type} {yes no : Action Store α} {post : α → Store → Machine → Prop}
    (h : A.Decides n is known c) (hhas : A.Has ip (is ++ [.unary .jumpIfFalse d]))
    (hyes : known ≠ some false →
      ∀ t, Does A.program n (A.machine (ip + is.size + 3) stack t) post (yes.on t))
    (hno : known ≠ some true →
      ∀ t, Does A.program n (A.machine (ip + is.size + 3 + d) stack t) post (no.on t)) :
    Does A.program n (A.machine ip stack s) post ((Source.choose c yes no).on s) := by
  obtain ⟨hi, hjump, -⟩ := has_append.mp hhas
  have hanswers : c.Answers fun v => ∀ b, known = some b → v = .bool b := by
    cases hknown : known with
    | none => exact fun _ _ _ _ _ hb => by cases hb
    | some b =>
      rw [h.known b hknown]
      exact .pure fun b' hb => by cases hb; rfl
  rw [Source.choose, Source.test, bind_assoc]
  refine ((h.performs ip stack s hi).and (hanswers s)).bind fun v t m hm => ?_
  obtain ⟨hv, rfl⟩ := hm
  refine does_truth false (.inl ⟨rfl, rfl⟩) hjump fun b hb => ?_
  subst hb
  cases b with
  | true => exact hyes (fun hfalse => by cases hv false hfalse) t
  | false => exact hno (fun htrue => by cases hv true htrue) t

end Decides

/-- The heading of a loop. Where the condition is known to hold there is none. -/
theorem does_heading {α : Type} {yes no : Action Store α} {post : α → Store → Machine → Prop}
    {known : Option Bool} {c : Action Store Value}
    (hc : known ≠ some true → A.Decides n is known c) (hknown : known = some true → c = pure (.bool true))
    (hhas : A.Has ip (heading is known d))
    (hyes : known ≠ some false →
      ∀ t, Does A.program n (A.machine (ip + (heading is known d).size) stack t) post (yes.on t))
    (hno : known ≠ some true →
      ∀ t, Does A.program n (A.machine (ip + (heading is known d).size + d) stack t) post (no.on t)) :
    Does A.program n (A.machine ip stack s) post ((Source.choose c yes no).on s) := by
  by_cases htrue : known = some true
  · subst htrue
    have hyes := hyes (by simp) s
    rw [heading, if_pos rfl] at hyes
    rw [hknown rfl]
    exact hyes
  · have hsize : (heading is known d).size = is.size + 3 := by
      rw [heading, if_neg htrue, Asm.size_append]
      rfl
    rw [heading, if_neg htrue] at hhas
    rw [hsize, ← Nat.add_assoc] at hyes hno
    exact (hc htrue).choose hhas hyes hno

namespace Executes

variable {known : Option Bool} {c : Action Store Value}

theorem ifThen (hc : A.Decides n is known c) (ha : known ≠ some false → A.Executes n F x a) :
    A.Executes n (ops is ++ .op (.unary .jumpIfFalse F.size) :: F)
      (x.both (.plain false) (x.ends || known != some true)) (Source.choose c a (pure .next)) := by
  intro leaves agains ip stack s hhas
  obtain ⟨hi, hjump, hF⟩ := holds_append.mp hhas
  rw [size_ops] at hjump hF
  have hstop : ip + Fragment.size (ops is ++ .op (.unary .jumpIfFalse F.size) :: F) =
      ip + is.size + 3 + F.size := by
    simp only [Fragment.size_append, size_ops, size_cons, Piece.width_op, Instruction.width_unary,
      Instruction.width_jumpIfFalse]
    omega
  rw [hstop]
  refine hc.choose (has_append.mpr ⟨holds_ops.mp hi, hjump, trivial⟩) (fun hknown t => ?_)
    fun hknown t => .pure (.next (by simp [Exits.both, hknown]))
  refine (ha hknown leaves agains _ stack t hF).imp fun c t m hm => ?_
  cases hm with
  | next hx => exact .next (by simp [Exits.both, hx])
  | leave hx h => exact .leave (by simp [Exits.both, hx]) h
  | again hx h => exact .again (by simp [Exits.both, hx]) h
  | ret h => exact .ret h

theorem ifElse (hc : A.Decides n is known c) (ha : known ≠ some false → A.Executes n F x a)
    (hb : known ≠ some true → A.Executes n G y b) :
    A.Executes n (ops is ++ .op (.unary .jumpIfFalse (F.size + (skip x.ends G.size).size)) ::
        (F ++ ops (skip x.ends G.size)) ++ G)
      (x.both y (x.ends || y.ends)) (Source.choose c a b) := by
  intro leaves agains ip stack s hhas
  obtain ⟨hfront, hG⟩ := holds_append.mp hhas
  obtain ⟨hi, hjump, hFskip⟩ := holds_append.mp hfront
  obtain ⟨hF, hskip⟩ := holds_append.mp hFskip
  simp only [Fragment.size_append, size_ops, size_cons, Piece.width_op, Instruction.width_unary,
    Instruction.width_jumpIfFalse] at hjump hF hskip hG ⊢
  refine hc.choose (has_append.mpr ⟨holds_ops.mp hi, hjump, trivial⟩) (fun hknown t => ?_)
    fun hknown t => ?_
  · refine (ha hknown leaves agains _ stack t hF).onward fun c t m hm => ?_
    cases hm with
    | next hx =>
      rw [hx] at hskip ⊢
      have hover := jumps_jump (holds_ops.mp hskip).1 stack t
      refine ⟨_, .step hover .refl, ?_⟩
      have hsize : (skip true G.size).size = 3 := rfl
      rw [hsize, show ip + is.size + 3 + F.size + 3 + G.size =
        ip + (is.size + (3 + (F.size + 3)) + G.size) by omega]
      exact .next (by simp [Exits.both])
    | leave hx h => exact ⟨_, .refl, .leave (by simp [Exits.both, hx]) h⟩
    | again hx h => exact ⟨_, .refl, .again (by simp [Exits.both, hx]) h⟩
    | ret h => exact ⟨_, .refl, .ret h⟩
  · rw [show ip + is.size + 3 + (F.size + (skip x.ends G.size).size) =
      ip + (is.size + (3 + (F.size + (skip x.ends G.size).size))) by omega]
    refine (hb hknown leaves agains _ stack t hG).imp fun c t m hm => ?_
    rw [Nat.add_assoc] at hm
    cases hm with
    | next hy => exact .next (by simp [Exits.both, hy])
    | leave hy h => exact .leave (by simp [Exits.both, hy]) h
    | again hy h => exact .again (by simp [Exits.both, hy]) h
    | ret h => exact .ret h

/-! ## Loops -/

/-- A loop does what its rounds do, one after the other. -/
theorem loop {round : Action Store (Option Completion)} {ends : Bool}
    (h : ∀ ip stack s, A.Has ip is → Does A.program n (A.machine ip stack s)
      (A.EndsRound ip (ip + is.size) ends stack) (round.on s)) :
    A.Executes n (ops is) (.plain ends) (.rounds round n) := by
  intro leaves agains ip stack s hF
  let start : Store → Machine → Prop := fun s m => m = A.machine ip stack s
  refine Does.rounds (fun s m (hm : start s m) => ?_) rfl (Nat.le_refl n)
  subst hm
  refine (h ip stack s (holds_ops.mp hF)).imp fun answer t m hm => ?_
  rw [size_ops]
  cases hm with
  | on h => exact ⟨by simp, fun _ => ⟨_, h stack t, rfl⟩⟩
  | out h => exact ⟨fun c hc => Option.some.inj hc ▸ .next h, by simp⟩
  | ret h => exact ⟨fun c hc => Option.some.inj hc ▸ .ret h, by simp⟩

/-- A round of a loop: behind its body the machine stands at the end or at a jump to the next
round. -/
theorem round {rest : Action Store (Option Completion)} {ends : Bool} (ha : A.Executes n F x a)
    (hF : A.Holds (A.Jumps · stop) agains ip F) (hends : x.breaks = true → ends = true)
    (hrest : ∀ o t, o = ip + F.size ∧ x.ends = true ∨ agains o ∧ x.continues = true →
      Does A.program n (A.machine o stack t) (A.EndsRound start stop ends stack) (rest.on t)) :
    Does A.program n (A.machine ip stack s) (A.EndsRound start stop ends stack)
      ((Source.roundOf a rest).on s) := by
  refine (ha _ agains ip stack s hF).bind fun c t m hm => ?_
  cases hm with
  | next hx => exact hrest _ t (.inl ⟨rfl, hx⟩)
  | leave hx h => exact .step (h stack t) (.pure (.out (hends hx)))
  | again hx h => exact hrest _ t (.inr ⟨h, hx⟩)
  | ret h => exact .pure (.ret h)

/-- A round whose rest stands behind the body, where jumps to the next round lead. -/
theorem forwardRound {rest : Action Store (Option Completion)} {ends : Bool}
    (ha : A.Executes n F x a) (hF : A.Holds (A.Jumps · stop) agains ip F.forward)
    (hends : x.breaks = true → ends = true)
    (hrest : (x.ends || x.continues) = true → ∀ t,
      Does A.program n (A.machine (ip + F.size) stack t) (A.EndsRound start stop ends stack)
        (rest.on t)) :
    Does A.program n (A.machine ip stack s) (A.EndsRound start stop ends stack)
      ((Source.roundOf a rest).on s) := by
  refine ha.round (holds_forward hF) hends fun o t ho => ?_
  obtain ⟨rfl, hx⟩ | ⟨hjump, hx⟩ := ho
  · exact hrest (by simp [hx]) t
  · exact .step (hjump stack t) (hrest (by simp [hx]) t)

theorem whileLoop (hc : A.Decides n is known c) (ha : known ≠ some false → A.Executes n F x a) :
    A.Executes n (ops (closed 0 (ops (heading is known (F.size + 3)) ++ (F ++ [.again]))))
      (.plain (known != some true || x.breaks))
      (.rounds (Source.choose c (Source.roundOf a (pure none)) (pure (some .next))) n) := by
  refine loop fun ip stack s hhas => ?_
  have hclosed := holds_closed (k := 0) hhas
  rw [Nat.add_zero, ← size_closed 0] at hclosed
  generalize hstop : ip + Asm.size _ = stop at hclosed ⊢
  simp only [size_closed, Fragment.size_append, size_ops, size_cons, size_nil, Piece.width_again]
    at hstop
  obtain ⟨hhead, hbody⟩ := holds_append.mp hclosed
  obtain ⟨hF, hagain, -⟩ := holds_append.mp hbody
  rw [size_ops] at hF hagain
  refine does_heading (fun _ => hc) (hc.known true) (holds_ops.mp hhead) (fun hknown t => ?_)
    fun hknown t => ?_
  · refine (ha hknown).round hF (fun hx => by simp [hx]) fun o t ho => .pure (.on ?_)
    obtain ⟨rfl, -⟩ | ⟨hjump, -⟩ := ho
    · exact hagain
    · exact hjump
  · rw [show ip + (heading is known (F.size + 3)).size + (F.size + 3) = stop by omega]
    exact .pure (.out (by simp [hknown]))

theorem doLoop (ha : A.Executes n F x a) (hc : A.Decides n is known c) :
    A.Executes n (ops (closed 0 (F.forward ++ returning is known)))
      (.plain (x.breaks || (known != some true && (x.ends || x.continues))))
      (.rounds (Source.roundOf a (Source.choose c (pure none) (pure (some .next)))) n) := by
  refine loop fun ip stack s hhas => ?_
  have hclosed := holds_closed (k := 0) hhas
  rw [Nat.add_zero, ← size_closed 0] at hclosed
  generalize hstop : ip + Asm.size _ = stop at hclosed ⊢
  simp only [size_closed, Fragment.size_append, size_forward] at hstop
  obtain ⟨hF, hback⟩ := holds_append.mp hclosed
  rw [size_forward] at hback
  refine ha.forwardRound hF (fun hx => by simp [hx]) fun hx t => ?_
  cases hknown : known with
  | none =>
    rw [hknown] at hback hstop
    obtain ⟨hi, hjump, hagain, -⟩ := holds_append.mp hback
    rw [size_ops] at hjump hagain
    have hsize : Fragment.size (returning is none) = is.size + 3 + 3 := by
      simp only [returning, Fragment.size_append, size_ops, size_cons, size_nil, Piece.width_op,
        Piece.width_again, Instruction.width_unary, Instruction.width_jumpIfFalse]
    refine hc.choose (has_append.mpr ⟨holds_ops.mp hi, hjump, trivial⟩)
      (fun _ t => .pure (.on hagain)) fun _ t => ?_
    rw [show ip + F.size + is.size + 3 + 3 = stop by omega]
    exact .pure (.out (by simp [hx]))
  | some b =>
    rw [hc.known b hknown]
    rw [hknown] at hback hstop
    cases b with
    | true => exact .pure (.on hback.1)
    | false =>
      obtain rfl : ip + F.size = stop := hstop
      exact .pure (.out (by simp [hx]))

theorem forLoop {init step : Action Store Unit} (hinit : A.Performs n is [] init fun _ => [])
    (hc : known ≠ some true → A.Decides n js known c)
    (hknown : known = some true → c = pure (.bool true))
    (ha : known ≠ some false → A.Executes n F x a)
    (hstep : A.Performs n ks [] step fun _ => []) :
    A.Executes n (ops (is ++ closed 0 (ops (heading js known (F.size + (ks.size + 3))) ++
        (F.forward ++ (ops ks ++ [.again])))))
      (.plain (known != some true || x.breaks))
      (init >>= fun _ => .rounds (Source.choose c
        (Source.roundOf a (step >>= fun _ => pure none)) (pure (some .next))) n) := by
  rw [ops_append]
  refine behind hinit (loop fun ip stack s hhas => ?_)
  have hclosed := holds_closed (k := 0) hhas
  rw [Nat.add_zero, ← size_closed 0] at hclosed
  generalize hstop : ip + Asm.size _ = stop at hclosed ⊢
  simp only [size_closed, Fragment.size_append, size_ops, size_cons, size_nil, Piece.width_again,
    size_forward] at hstop
  obtain ⟨hhead, hbody⟩ := holds_append.mp hclosed
  obtain ⟨hF, hupdate⟩ := holds_append.mp hbody
  obtain ⟨hk, hagain, -⟩ := holds_append.mp hupdate
  simp only [size_ops, size_forward] at hF hk hagain
  refine does_heading hc hknown (holds_ops.mp hhead) (fun hknown t => ?_) fun hknown t => ?_
  · refine (ha hknown).forwardRound hF (fun hx => by simp [hx]) fun _ t => ?_
    refine (hstep _ stack t (holds_ops.mp hk)).bind fun _ t m hm => ?_
    rw [hm]
    exact .pure (.on hagain)
  · rw [show ip + (heading js known (F.size + (ks.size + 3))).size + (F.size + (ks.size + 3)) = stop
      by omega]
    exact .pure (.out (by simp [hknown]))

end Executes

/-! ## Parts of statements -/

namespace Interprets

variable {T : Tables} {site : Site} {I : Interpretation} {l l' : LocalScope} {e : Expr}
  {known : Option Bool}

theorem acts (hI : A.Interprets n T site I) (hl : l.Valued) {es : List Expr}
    (h : ActsAll T site l es is) :
    ∃ a, Source.effects I site l es = some a ∧ A.Performs n is [] a fun _ => [] := by
  induction h with
  | nil => exact ⟨pure (), rfl, .nil (fun _ => []) ()⟩
  | cons h _ ih =>
    obtain ⟨a, ha, hfirst⟩ := hI.effect hl h
    obtain ⟨rest, hrest, hothers⟩ := ih
    refine ⟨a >>= fun _ => rest, ?_, hfirst.bind fun _ => hothers⟩
    simp only [Source.effects, ha, hrest, Option.bind_eq_bind, Option.bind_some]

theorem decides (hI : A.Interprets n T site I) (hl : l.Valued) (h : Tests T site l e is known) :
    ∃ c, I.valueOf site l e .bool = some c ∧ A.Decides n is known c := by
  cases h with
  | known h hb =>
    obtain ⟨c, hc, hperforms, hknown⟩ := hI.valueOf hl h
    exact ⟨c, hc, hperforms, fun b hb' => Option.some.inj hb' ▸ hknown _ hb⟩
  | unknown h =>
    obtain ⟨c, hc, hperforms, -⟩ := hI.valueOf hl h
    exact ⟨c, hc, hperforms, by simp⟩

theorem heads (hI : A.Interprets n T site I) (hl : l.Valued) {cond : Option Expr}
    (h : Heads T site l cond is known) :
    ∃ c, Source.condition I site l cond = some c ∧ (known ≠ some true → A.Decides n is known c) ∧
      (known = some true → c = pure (.bool true)) := by
  cases h with
  | always => exact ⟨_, rfl, fun h => (h rfl).elim, fun _ => rfl⟩
  | tested h =>
    obtain ⟨c, hc, hdecides⟩ := hI.decides hl h
    exact ⟨c, hc, fun _ => hdecides, hdecides.known true⟩

theorem begins (hI : A.Interprets n T site I) (hl : l.Valued) {v : Declarator}
    {declared : Option ValueType} {type : ValueType} (h : Begins T site l v declared is type)
    (htype : type ≠ .void) :
    ∃ a, Source.firstValue I site l declared v = some (type, a) ∧
      A.Performs n is [] a fun w => [w] := by
  cases h with
  | given hv h =>
    obtain ⟨a, ha, hperforms, -⟩ := hI.valueOf hl h
    exact ⟨a, by simp only [Source.firstValue, hv, ha, Option.map_some], hperforms⟩
  | default hv h =>
    refine ⟨pure type.default, by simp only [Source.firstValue, hv], ?_⟩
    refine (Performs.pushes hI.constants h).leaves rfl fun w => ?_
    rw [ValueType.type_default, left_of_ne htype]
  | inferred hv h =>
    obtain ⟨a, ha, hperforms⟩ := hI.value hl h
    exact ⟨a, by simp only [Source.firstValue, hv, ha],
      hperforms.leaves rfl fun w => left_of_ne htype w⟩

theorem declares (hI : A.Interprets n T site I) (hl : l.Valued) {declared : Option ValueType}
    {vs : List Declarator} (h : Declares T site declared vs l is l')
    (hd : ∀ t, declared = some t → t ≠ .void) :
    ∃ a, Source.declare I site declared vs l = some (l', a) ∧ A.Performs n is [] a fun _ => [] := by
  induction h with
  | nil => exact ⟨pure (), rfl, .nil (fun _ => []) ()⟩
  | @cons v vs l l₁ is js type h hfree _ ih =>
    have htype := Flow.begins_value h hd
    obtain ⟨a, ha, hfirst⟩ := hI.begins hl h htype
    obtain ⟨rest, hrest, hothers⟩ := ih ((Scoped.add hfree htype).valued hl)
    refine ⟨a >>= fun w => Source.setLocal (l.add v.name.name type).1 w >>= fun _ => rest, ?_, ?_⟩
    · simp only [Source.declare, ha, hrest, Option.bind_eq_bind, Option.bind_some]
    · exact hfirst.bind fun w => (Performs.setLocal _ w).bind fun _ => hothers

theorem declaresAll (hI : A.Interprets n T site I) (hl : l.Valued) {d : VarDecl}
    (h : DeclaresAll T site d l is l') :
    ∃ a, Source.declareAll I site d l = some (l', a) ∧ A.Performs n is [] a fun _ => [] := by
  obtain ⟨hd, h⟩ := h
  obtain ⟨a, ha, hperforms⟩ := hI.declares hl h (Flow.declaredType_value hd)
  refine ⟨a, ?_, hperforms⟩
  simp only [Source.declareAll, hd, Except.toOption, Option.bind_eq_bind, Option.bind_some, ha]

theorem starts (hI : A.Interprets n T site I) (hl : l.Valued) {first : Option ForInit}
    (h : Starts T site l first is l') :
    ∃ a, Source.begin I site first l = some (l', a) ∧ A.Performs n is [] a fun _ => [] := by
  cases h with
  | none => exact ⟨pure (), rfl, .nil (fun _ => []) ()⟩
  | decl h => exact hI.declaresAll hl h
  | exprs h =>
    obtain ⟨a, ha, hperforms⟩ := hI.acts hl h
    exact ⟨a, by simp only [Source.begin, ha, Option.map_some], hperforms⟩

end Interprets

end Activation

/-! ## The walk -/

theorem Flow.Performed.valued {T : Tables} {site : Site} {live : Bool} {count : Nat}
    {slots loose : List Nat} {l l' : LocalScope} {F : Fragment} {x : Exits} {B : List Extent}
    (h : Performed T site live count slots loose l F l' x B) (hl : l.Valued) : l'.Valued := by
  obtain ⟨_, _, hs, -⟩ := h
  exact hs.valued hl

namespace Layout

open Activation

variable {A : Activation} {n : Nat} {T : Tables} {site : Site} {I : Interpretation}

mutual

/-- The code of a statement that can be reached does what the statement means, form by form. -/
theorem Lays.executes (hI : A.Interprets n T site I) (hreturns : site.returns = A.image.returns)
    {live : Bool} {s : Stmt} {l l' : LocalScope} {F : Fragment} {x : Exits} {B : List Extent}
    (hl : l.Valued) : Lays T site live s l F l' x B →
      ∃ a, Source.mean I site n s l = some (l', a) ∧ (live = true → A.Executes n F x a)
  | .block h => by
    obtain ⟨a, ha, hexec⟩ := h.executes hI hreturns hl.opened
    exact ⟨a, by simp only [Source.mean, ha, Option.bind_eq_bind, Option.bind_some], hexec⟩
  | .decl h => by
    obtain ⟨a, ha, hperforms⟩ := hI.declaresAll hl h
    refine ⟨_, by simp only [Source.mean, ha, Option.bind_eq_bind, Option.bind_some]; rfl, ?_⟩
    rintro rfl
    exact .ofPerforms hperforms
  | .expr h => by
    obtain ⟨a, ha, hperforms⟩ := hI.effect hl h
    refine ⟨_, by simp only [Source.mean, ha, Option.bind_eq_bind, Option.bind_some]; rfl, ?_⟩
    rintro rfl
    exact .ofPerforms hperforms
  | .ifThen hc hy => by
    obtain ⟨c, hmeans, hdecides⟩ := hI.decides hl hc
    obtain ⟨a, ha, hyes⟩ := hy.executes hI hreturns hl
    refine ⟨_, by simp only [Source.mean, hmeans, ha, Option.bind_eq_bind, Option.bind_some]; rfl, ?_⟩
    rintro rfl
    exact .ifThen hdecides fun hknown => hyes (by simpa using hknown)
  | .ifElse hc hy hn => by
    obtain ⟨c, hmeans, hdecides⟩ := hI.decides hl hc
    obtain ⟨a, ha, hyes⟩ := hy.executes hI hreturns hl
    obtain ⟨b, hb, hno⟩ := hn.executes hI hreturns (hy.performed.valued hl)
    refine ⟨_, by simp only [Source.mean, hmeans, ha, hb, Option.bind_eq_bind, Option.bind_some]; rfl, ?_⟩
    rintro rfl
    exact .ifElse hdecides (fun hknown => hyes (by simpa using hknown))
      fun hknown => hno (by simpa using hknown)
  | .whileLoop hc hb => by
    obtain ⟨c, hmeans, hdecides⟩ := hI.decides hl hc
    obtain ⟨a, ha, hbody⟩ := hb.executes hI hreturns hl
    refine ⟨_, by simp only [Source.mean, hmeans, ha, Option.bind_eq_bind, Option.bind_some]; rfl, ?_⟩
    rintro rfl
    exact .whileLoop hdecides fun hknown => hbody (by simpa using hknown)
  | .doLoop hb hc => by
    obtain ⟨a, ha, hbody⟩ := hb.executes hI hreturns hl
    obtain ⟨c, hmeans, hdecides⟩ := hI.decides (hb.performed.valued hl) hc
    refine ⟨_, by simp only [Source.mean, hmeans, ha, Option.bind_eq_bind, Option.bind_some]; rfl, ?_⟩
    rintro rfl
    exact .doLoop (hbody rfl) hdecides
  | .forLoop hs hc hb hu => by
    obtain ⟨_, (hscoped : Flow.Performed T site live _ _ _ _ _ _ _ _)⟩ := Flow.Performed.starts hs
    obtain ⟨init, hinit, hfirst⟩ := hI.starts hl.opened hs
    have hl₁ := hscoped.valued hl.opened
    obtain ⟨c, hmeans, hdecides, hknown⟩ := hI.heads hl₁ hc
    obtain ⟨a, ha, hbody⟩ := hb.executes hI hreturns hl₁
    obtain ⟨step, hstep, hupdate⟩ := hI.acts (hb.performed.valued hl₁) hu
    refine ⟨_, by
      simp only [Source.mean, hinit, hmeans, ha, hstep, Option.bind_eq_bind, Option.bind_some]; rfl, ?_⟩
    rintro rfl
    exact .forLoop hfirst hdecides hknown (fun hknown => hbody (by simpa using hknown)) hupdate
  | .ret htype h => by
    obtain ⟨a, ha, hperforms, -⟩ := hI.valueOf hl h
    refine ⟨_, by simp only [Source.mean, ha, Option.bind_eq_bind, Option.bind_some]; rfl, fun _ => ?_⟩
    intro leaves agains ip stack s hhas
    obtain ⟨hi, hret, -⟩ := has_append.mp (holds_ops.mp hhas)
    refine (hperforms ip stack s hi).bind fun v t m hm => ?_
    rw [hm]
    exact .pure (.ret (.value (hreturns ▸ htype) hret))
  | .retVoid htype => ⟨_, rfl, fun _ _ _ _ _ _ hhas => .pure (.ret (.void (hreturns ▸ htype) hhas.1))⟩
  | .breakLoop => ⟨_, rfl, fun hlive _ _ _ _ _ hhas => .pure (.leave hlive hhas.1)⟩
  | .continueLoop => ⟨_, rfl, fun hlive _ _ _ _ _ hhas => .pure (.again hlive hhas.1)⟩
  | .empty => ⟨_, rfl, fun hlive _ _ _ _ _ _ => .pure (.next hlive)⟩

theorem Nests.executes (hI : A.Interprets n T site I) (hreturns : site.returns = A.image.returns)
    {live : Bool} {s : Stmt} {l l' : LocalScope} {F : Fragment} {x : Exits} {B : List Extent}
    (hl : l.Valued) : Nests T site live s l F l' x B →
      ∃ a, Source.mean I site n s l = some (l', a) ∧ (live = true → A.Executes n F x a)
  | .kept _ h => h.executes hI hreturns hl
  | .dropped _ h => by
    obtain ⟨a, ha, -⟩ := h.executes hI hreturns hl
    exact ⟨a, ha, by simp⟩

theorem LaysAll.executes (hI : A.Interprets n T site I) (hreturns : site.returns = A.image.returns)
    {live : Bool} {ss : List Stmt} {l l' : LocalScope} {F : Fragment} {x : Exits} {B : List Extent}
    (hl : l.Valued) : LaysAll T site live ss l F l' x B →
      ∃ a, Source.meanAll I site n ss l = some (l', a) ∧ (live = true → A.Executes n F x a)
  | .nil => ⟨_, rfl, fun hlive _ _ _ _ _ _ => .pure (.next hlive)⟩
  | .cons h hs => by
    obtain ⟨a, ha, hfirst⟩ := h.executes hI hreturns hl
    obtain ⟨b, hb, hrest⟩ := hs.executes hI hreturns (h.performed.valued hl)
    refine ⟨_, by simp only [Source.meanAll, ha, hb, Option.bind_eq_bind, Option.bind_some]; rfl,
      fun hlive => ?_⟩
    exact (hfirst hlive).sequence hrest

end

end Layout
end ClassScript
