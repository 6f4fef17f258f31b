import ClassScript.Proofs.Release.Matching

/-!
The code of statements and of methods matches their code in a release.

`Mirrors F G x` tells that the pieces `F`, wherever they stand in a method, match the pieces `G` in
another one, if the places match to which a statement with the exits `x` leads. Pieces that are not
reached are not looked at, so that a release may leave them out. A loop comes back to its start by
one more instruction: its rule is an induction on how many instructions match.
-/

namespace ClassScript

open Code (Instruction)
open Compile Layout Flow Activation
open Layout.Fragment

namespace Layout

/-- Wherever a condition is computed, what stands behind it has to match only where the condition is
what it is known to be. -/
def Checks (is : Asm) (known : Option Bool) : Prop := ∀ (A B : Activation) (k o p : Nat),
  A.Has o is → B.Has p is →
  Matches A.op? B.op? k known (o + is.size) (p + is.size) → Matches A.op? B.op? k none o p

/-- Wherever pieces stand in two methods, they match if the places behind a statement with these
exits do. -/
def Mirrors (F G : Fragment) (x : Exits) : Prop :=
  ∀ (A B : Activation) (k o p : Nat) (leaves agains leaves' agains' : Nat → Prop),
    A.Holds leaves agains o F → B.Holds leaves' agains' p G →
    (x.ends = true → Matches A.op? B.op? k none (o + F.size) (p + G.size)) →
    (x.breaks = true → ∀ q r, leaves q → leaves' r → Matches A.op? B.op? k none q r) →
    (x.continues = true → ∀ q r, agains q → agains' r → Matches A.op? B.op? k none q r) →
    Matches A.op? B.op? k none o p

variable {A B : Activation} {is js ks : Asm} {F F' G G' : Fragment} {x y : Exits} {known : Option Bool}
  {k o p d e : Nat} {leaves agains : Nat → Prop}

/-- A jump matches another one if the places do to which they lead. -/
theorem matches_jump {o' p' : Nat} (ho : JumpsTo A.op? o o') (hp : JumpsTo B.op? p p')
    (h : Matches A.op? B.op? k none o' p') : Matches A.op? B.op? k none o p :=
  (Matches.jump ho hp h).of_succ

/-! ## Code without statements -/

/-- Code that is left at its end only matches itself at every place in it. -/
theorem matches_onward (h : Onward is) (ho : A.Has o is) (hp : B.Has p is)
    (hstop : Matches A.op? B.op? k none (o + is.size) (p + is.size)) {q : Nat}
    (hq : Boundary (ops is) q) : Matches A.op? B.op? k none (o + q) (p + q) := by
  have end_eq (i : Instruction) (is : Asm) (o : Nat) :
      o + Asm.size (i :: is) = o + i.width + Asm.size is := by rw [Asm.size_cons, Nat.add_assoc]
  induction h generalizing o p q with
  | nil =>
    obtain rfl : q = 0 := hq
    exact hstop
  | @straight i is hi _ ih =>
    rw [end_eq, end_eq] at hstop
    obtain rfl | ⟨q, rfl, hq⟩ := hq
    · exact .meet (.straight ho.1 hp.1 hi ((ih ho.2 hp.2 hstop (.zero _)).knowing _))
    · simpa [Nat.add_assoc] using ih ho.2 hp.2 hstop hq
  | @jump d is hd _ ih =>
    rw [end_eq, end_eq] at hstop
    obtain rfl | ⟨q, rfl, hq⟩ := hq
    · exact .meet (.jumps (.inl ⟨d, ho.1, rfl⟩) (.inl ⟨d, hp.1, rfl⟩) (ih ho.2 hp.2 hstop hd))
    · simpa [Nat.add_assoc] using ih ho.2 hp.2 hstop hq
  | @branch op d wanted is hop hd _ ih =>
    have hwidth : op.width = 3 := by cases op <;> first | rfl | cases hop
    rw [end_eq, end_eq] at hstop
    obtain rfl | ⟨q, rfl, hq⟩ := hq
    · refine .meet (.branches hop ho.1 hp.1 (fun _ => ?_) fun _ => ?_)
      · simpa [hwidth] using ih ho.2 hp.2 hstop hd
      · simpa [hwidth] using ih ho.2 hp.2 hstop (.zero _)
    · simpa [Nat.add_assoc] using ih ho.2 hp.2 hstop hq

theorem matches_through (h : Onward is) (ho : A.Has o is) (hp : B.Has p is)
    (hstop : Matches A.op? B.op? k none (o + is.size) (p + is.size)) :
    Matches A.op? B.op? k none o p := matches_onward h ho hp hstop (.zero _)

/-- Code in front of a return. -/
theorem matches_return (h : Onward is) {op : Opcode} (hop : op = .ret ∨ op = .retVoid)
    (ho : A.Has o (is ++ [.plain op])) (hp : B.Has p (is ++ [.plain op])) :
    Matches A.op? B.op? k none o p := by
  obtain ⟨hi, hret, -⟩ := has_append.mp ho
  obtain ⟨hj, hret', -⟩ := has_append.mp hp
  exact matches_through h hi hj (.meet (.returns hret hret' hop))

/-- A condition and its jump. Only the ways that can be taken have to match. -/
theorem Checks.branch (h : Checks is known) (ho : A.Has o (is ++ [.unary .jumpIfFalse d]))
    (hp : B.Has p (is ++ [.unary .jumpIfFalse e]))
    (hyes : known ≠ some false →
      Matches A.op? B.op? k none (o + is.size + 3) (p + is.size + 3))
    (hno : known ≠ some true →
      Matches A.op? B.op? k none (o + is.size + 3 + d) (p + is.size + 3 + e)) :
    Matches A.op? B.op? k none o p := by
  obtain ⟨hi, hjump, -⟩ := has_append.mp ho
  obtain ⟨hj, hjump', -⟩ := has_append.mp hp
  have hop : Opcode.jumpIfFalse.awaits? = some false := rfl
  exact h A B k o p hi hj (.meet (.branches hop hjump hjump' hno hyes))

/-- The heading of a loop. Where the condition is known to hold there is none. -/
theorem matches_heading (h : known ≠ some true → Checks is known)
    (ho : A.Has o (heading is known d)) (hp : B.Has p (heading is known e))
    (hyes : known ≠ some false → Matches A.op? B.op? k none (o + (heading is known d).size)
      (p + (heading is known e).size))
    (hno : known ≠ some true → Matches A.op? B.op? k none (o + (heading is known d).size + d)
      (p + (heading is known e).size + e)) :
    Matches A.op? B.op? k none o p := by
  by_cases htrue : known = some true
  · subst htrue
    exact hyes (by simp)
  · have hsize (d : Nat) : (heading is known d).size = is.size + 3 := by
      rw [heading, if_neg htrue, Asm.size_append]
      rfl
    rw [heading, if_neg htrue] at ho hp
    rw [hsize, hsize, ← Nat.add_assoc, ← Nat.add_assoc] at hyes hno
    exact (h htrue).branch ho hp hyes hno

/-! ## Pieces -/

/-- In a loop, jumps out of it lead to its end, and jumps to the next round back to its start. -/
theorem holds_loop (h : A.Has o (closed 0 F)) :
    A.Holds (JumpsTo A.op? · (o + F.size)) (JumpsTo A.op? · o) o F :=
  holds_of_closed (k := 0) h (fun _ d hop hd => .inl ⟨d, hop, hd.symm⟩)
    fun _ d hop hd => .inr ⟨d, hop, hd⟩

theorem holds_round (h : A.Holds leaves agains o F.forward) :
    A.Holds leaves (JumpsTo A.op? · (o + F.size)) o F :=
  holds_of_forward h fun _ d hop hd => .inl ⟨d, hop, hd.symm⟩

namespace Mirrors

theorem ops (h : Onward is) : Mirrors (ops is) (ops is) (.plain true) := by
  intro A B k o p _ _ _ _ ho hp hstop _ _
  rw [size_ops] at hstop
  exact matches_through h (holds_ops.mp ho) (holds_ops.mp hp) (hstop rfl)

theorem returns (h : Onward is) {op : Opcode} (hop : op = .ret ∨ op = .retVoid) :
    Mirrors (Fragment.ops (is ++ [.plain op])) (Fragment.ops (is ++ [.plain op]))
      (.plain false) :=
  fun _ _ _ _ _ _ _ _ _ ho hp _ _ _ => matches_return h hop (holds_ops.mp ho) (holds_ops.mp hp)

theorem leave : Mirrors [.leave] [.leave] ⟨false, true, false⟩ :=
  fun _ _ _ _ _ _ _ _ _ ho hp _ hleave _ => hleave rfl _ _ ho.1 hp.1

theorem again : Mirrors [.again] [.again] ⟨false, false, true⟩ :=
  fun _ _ _ _ _ _ _ _ _ ho hp _ _ hagain => hagain rfl _ _ ho.1 hp.1

/-- Pieces behind other code. -/
theorem behind (h : Onward is) (hF : Mirrors F G x) :
    Mirrors (Fragment.ops is ++ F) (Fragment.ops is ++ G) x := by
  intro A B k o p _ _ _ _ ho hp hstop hleave hagain
  obtain ⟨hi, ho⟩ := holds_append.mp ho
  obtain ⟨hj, hp⟩ := holds_append.mp hp
  simp only [Fragment.size_append, size_ops, ← Nat.add_assoc] at ho hp hstop
  exact matches_through h (holds_ops.mp hi) (holds_ops.mp hj)
    (hF A B k _ _ _ _ _ _ ho hp hstop hleave hagain)

/-- What stands behind a statement has to match only if the end of the statement is reached. -/
theorem sequence (hF : Mirrors F F' x) (hG : x.ends = true → Mirrors G G' y) :
    Mirrors (F ++ G) (F' ++ G') (x.both y y.ends) := by
  intro A B k o p _ _ _ _ ho hp hstop hleave hagain
  obtain ⟨hoF, hoG⟩ := holds_append.mp ho
  obtain ⟨hpF, hpG⟩ := holds_append.mp hp
  simp only [Fragment.size_append, ← Nat.add_assoc] at hstop
  refine hF A B k o p _ _ _ _ hoF hpF (fun hx => ?_) (fun hx => hleave (by simp [Exits.both, hx]))
    fun hx => hagain (by simp [Exits.both, hx])
  exact hG hx A B k _ _ _ _ _ _ hoG hpG hstop (fun hy => hleave (by simp [Exits.both, hy]))
    fun hy => hagain (by simp [Exits.both, hy])

/-! ## Choices -/

theorem ifThen (hc : Checks is known) (h : known ≠ some false → Mirrors F G x) :
    Mirrors (Fragment.ops is ++ .op (.unary .jumpIfFalse F.size) :: F)
      (Fragment.ops is ++ .op (.unary .jumpIfFalse G.size) :: G)
      (x.both (.plain false) (x.ends || known != some true)) := by
  intro A B k o p _ _ _ _ ho hp hstop hleave hagain
  obtain ⟨hi, hjump, hoF⟩ := holds_append.mp ho
  obtain ⟨hj, hjump', hpG⟩ := holds_append.mp hp
  simp only [Fragment.size_append, size_ops, size_cons, Piece.width_op, Instruction.width_unary,
    Instruction.width_jumpIfFalse, ← Nat.add_assoc] at hjump hjump' hoF hpG hstop
  refine hc.branch (has_append.mpr ⟨holds_ops.mp hi, hjump, trivial⟩)
    (has_append.mpr ⟨holds_ops.mp hj, hjump', trivial⟩) (fun hknown => ?_) fun hknown => ?_
  · exact h hknown A B k _ _ _ _ _ _ hoF hpG (fun hx => hstop (by simp [Exits.both, hx]))
      (fun hx => hleave (by simp [Exits.both, hx])) fun hx => hagain (by simp [Exits.both, hx])
  · exact hstop (by simp [Exits.both, hknown])

theorem ifElse (hc : Checks is known) (h : known ≠ some false → Mirrors F F' x)
    (h' : known ≠ some true → Mirrors G G' y) :
    Mirrors
      (Fragment.ops is ++ .op (.unary .jumpIfFalse (F.size + (skip x.ends G.size).size)) ::
        (F ++ Fragment.ops (skip x.ends G.size)) ++ G)
      (Fragment.ops is ++ .op (.unary .jumpIfFalse (F'.size + (skip x.ends G'.size).size)) ::
        (F' ++ Fragment.ops (skip x.ends G'.size)) ++ G')
      (x.both y (x.ends || y.ends)) := by
  intro A B k o p _ _ _ _ ho hp hstop hleave hagain
  obtain ⟨hfront, hoG⟩ := holds_append.mp ho
  obtain ⟨hi, hjump, hbranch⟩ := holds_append.mp hfront
  obtain ⟨hoF, hover⟩ := holds_append.mp hbranch
  obtain ⟨hfront', hpG⟩ := holds_append.mp hp
  obtain ⟨hj, hjump', hbranch'⟩ := holds_append.mp hfront'
  obtain ⟨hpF, hover'⟩ := holds_append.mp hbranch'
  simp only [Fragment.size_append, size_ops, size_cons, Piece.width_op, Instruction.width_unary,
    Instruction.width_jumpIfFalse, ← Nat.add_assoc]
    at hjump hjump' hoF hpF hover hover' hoG hpG hstop
  refine hc.branch (has_append.mpr ⟨holds_ops.mp hi, hjump, trivial⟩)
    (has_append.mpr ⟨holds_ops.mp hj, hjump', trivial⟩) (fun hknown => ?_) fun hknown => ?_
  · refine h hknown A B k _ _ _ _ _ _ hoF hpF (fun hx => ?_)
      (fun hx => hleave (by simp [Exits.both, hx])) fun hx => hagain (by simp [Exits.both, hx])
    -- the jump over the second branch is there in both, if the end of the first one is reached
    have hends := hstop (by simp [Exits.both, hx])
    rw [hx] at hover hover' hends
    exact matches_jump (.inl ⟨_, (holds_ops.mp hover).1, rfl⟩) (.inl ⟨_, (holds_ops.mp hover').1, rfl⟩)
      hends
  · rw [← Nat.add_assoc, ← Nat.add_assoc]
    exact h' hknown A B k _ _ _ _ _ _ hoG hpG (fun hy => hstop (by simp [Exits.both, hy]))
      (fun hy => hleave (by simp [Exits.both, hy])) fun hy => hagain (by simp [Exits.both, hy])

/-! ## Loops -/

/-- A loop matches another one if a round does that comes back to the start by one instruction. -/
theorem loop {ends : Bool} (h : ∀ (A B : Activation) (k o p : Nat), A.Has o (closed 0 F) → B.Has p (closed 0 G) →
      Matches A.op? B.op? k none o p →
      (ends = true → Matches A.op? B.op? (k + 1) none (o + F.size) (p + G.size)) →
      Matches A.op? B.op? (k + 1) none o p) :
    Mirrors (Fragment.ops (closed 0 F)) (Fragment.ops (closed 0 G)) (.plain ends) := by
  rintro A B k o p _ _ _ _ ho hp hstop - -
  rw [size_ops, size_ops, size_closed, size_closed] at hstop
  induction k with
  | zero => trivial
  | succ k ih =>
    exact h A B k o p (holds_ops.mp ho) (holds_ops.mp hp) (ih fun hx => (hstop hx).of_succ) hstop

theorem whileLoop (hc : Checks is known) (h : known ≠ some false → Mirrors F G x) :
    Mirrors
      (Fragment.ops (closed 0 (Fragment.ops (heading is known (F.size + 3)) ++ (F ++ [.again]))))
      (Fragment.ops (closed 0 (Fragment.ops (heading is known (G.size + 3)) ++ (G ++ [.again]))))
      (.plain (known != some true || x.breaks)) := by
  refine loop fun A B k o p ho hp hstart hstop => ?_
  obtain ⟨hhead, hbody⟩ := holds_append.mp (holds_loop ho)
  obtain ⟨hoF, hagain, -⟩ := holds_append.mp hbody
  obtain ⟨hhead', hbody'⟩ := holds_append.mp (holds_loop hp)
  obtain ⟨hpG, hagain', -⟩ := holds_append.mp hbody'
  simp only [Fragment.size_append, size_ops, size_cons, size_nil, Piece.width_again,
    ← Nat.add_assoc] at hoF hpG hagain hagain' hstop
  refine matches_heading (fun _ => hc) (holds_ops.mp hhead) (holds_ops.mp hhead')
    (fun hknown => ?_) fun hknown => ?_
  · exact h hknown _ _ _ _ _ _ _ _ _ hoF hpG (fun _ => .jump hagain hagain' hstart)
      (fun hx q r hq hr => matches_jump hq hr (hstop (by simp [hx])))
      fun _ q r hq hr => .jump hq hr hstart
  · simpa [← Nat.add_assoc] using hstop (by simp [hknown])

theorem doLoop (h : Mirrors F G x) (hc : Checks is known) :
    Mirrors (Fragment.ops (closed 0 (F.forward ++ returning is known)))
      (Fragment.ops (closed 0 (G.forward ++ returning is known)))
      (.plain (x.breaks || (known != some true && (x.ends || x.continues)))) := by
  refine loop fun A B k o p ho hp hstart hstop => ?_
  obtain ⟨hoF, hback⟩ := holds_append.mp (holds_loop ho)
  obtain ⟨hpG, hback'⟩ := holds_append.mp (holds_loop hp)
  simp only [Fragment.size_append, size_forward, ← Nat.add_assoc] at hoF hpG hback hback' hstop
  have hrest (hx : (x.ends || x.continues) = true) :
      Matches A.op? B.op? (k + 1) none (o + F.size) (p + G.size) := by
    cases known with
    | none =>
      obtain ⟨hi, hjump, hagain, -⟩ := holds_append.mp hback
      obtain ⟨hj, hjump', hagain', -⟩ := holds_append.mp hback'
      simp only [returning, Fragment.size_append, size_ops, size_cons, size_nil, Piece.width_op,
        Piece.width_again, Instruction.width_unary, Instruction.width_jumpIfFalse, ← Nat.add_assoc]
        at hjump hjump' hagain hagain' hstop
      exact hc.branch (has_append.mpr ⟨holds_ops.mp hi, hjump, trivial⟩)
        (has_append.mpr ⟨holds_ops.mp hj, hjump', trivial⟩)
        (fun _ => .jump hagain hagain' hstart) fun _ => hstop (by simp [hx])
    | some b =>
      cases b with
      | true => exact .jump hback.1 hback'.1 hstart
      | false => exact hstop (by simp [hx])
  refine h _ _ _ _ _ _ _ _ _ (holds_round hoF) (holds_round hpG) (fun hx => hrest (by simp [hx]))
    (fun hx q r hq hr => matches_jump hq hr (hstop (by simp [hx])))
    fun hx q r hq hr => matches_jump hq hr (hrest (by simp [hx]))

theorem forLoop (hinit : Onward is) (hc : known ≠ some true → Checks js known)
    (h : known ≠ some false → Mirrors F G x) (hstep : Onward ks) :
    Mirrors
      (Fragment.ops (is ++ closed 0 (Fragment.ops (heading js known (F.size + (ks.size + 3))) ++
        (F.forward ++ (Fragment.ops ks ++ [.again])))))
      (Fragment.ops (is ++ closed 0 (Fragment.ops (heading js known (G.size + (ks.size + 3))) ++
        (G.forward ++ (Fragment.ops ks ++ [.again])))))
      (.plain (known != some true || x.breaks)) := by
  rw [ops_append, ops_append]
  refine behind hinit (loop fun A B k o p ho hp hstart hstop => ?_)
  obtain ⟨hhead, hbody⟩ := holds_append.mp (holds_loop ho)
  obtain ⟨hoF, hupdate⟩ := holds_append.mp hbody
  obtain ⟨hi, hagain, -⟩ := holds_append.mp hupdate
  obtain ⟨hhead', hbody'⟩ := holds_append.mp (holds_loop hp)
  obtain ⟨hpG, hupdate'⟩ := holds_append.mp hbody'
  obtain ⟨hj, hagain', -⟩ := holds_append.mp hupdate'
  simp only [Fragment.size_append, size_ops, size_cons, size_nil, size_forward, Piece.width_again,
    ← Nat.add_assoc] at hoF hpG hi hj hagain hagain' hstop
  have hround : Matches A.op? B.op? (k + 1) none
      (o + (heading js known (F.size + ks.size + 3)).size + F.size)
      (p + (heading js known (G.size + ks.size + 3)).size + G.size) :=
    matches_through hstep (holds_ops.mp hi) (holds_ops.mp hj) (.jump hagain hagain' hstart)
  refine matches_heading hc (holds_ops.mp hhead) (holds_ops.mp hhead') (fun hknown => ?_)
    fun hknown => ?_
  · simp only [← Nat.add_assoc]
    exact h hknown _ _ _ _ _ _ _ _ _ (holds_round hoF) (holds_round hpG) (fun _ => hround)
      (fun hx q r hq hr => matches_jump hq hr (hstop (by simp [hx])))
      fun _ q r hq hr => matches_jump hq hr hround
  · simpa [← Nat.add_assoc] using hstop (by simp [hknown])

end Mirrors

variable {A B : Activation} {T : Tables} {site : Site} {r : Bool} {l l₁ l₂ : LocalScope}
  {is js : Asm} {known : Option Bool}

/-! ## Parts of statements -/

theorem Evaluates.sheer (howner : site.owner = classAt site site.cls) {e : Expr} {type : ValueType}
    {p : Pushed} (h : Evaluates T site l e type is p) : Sheer T is p := by
  obtain ⟨hv, hc⟩ := h
  exact (hv.sheer howner).coerces hc

theorem Tests.checks (howner : site.owner = classAt site site.cls) {e : Expr}
    (h : Tests T site l e is known) : Checks is known := by
  intro A B k o p ho hp hstop
  cases h with
  | @known _ b h hb =>
    obtain rfl := pushes_bool ((h.sheer howner).known _ hb).2
    refine .meet (.straight ho.1 hp.1 ?_ ?_)
    · cases b <;> rfl
    · cases b <;> exact hstop
  | unknown h => exact matches_through (h.sheer howner).onward ho hp hstop

theorem Heads.checks (howner : site.owner = classAt site site.cls) {cond : Option Expr}
    (h : Heads T site l cond is known) (hknown : known ≠ some true) : Checks is known := by
  cases h with
  | always => exact absurd rfl hknown
  | tested h => exact h.checks howner

theorem Acts.onward (howner : site.owner = classAt site site.cls) {e : Expr}
    (h : Acts T site l e is) : Onward is := by
  obtain ⟨hm, hp⟩ := h
  refine ((hm.sheer howner).materializes hp).onward.append ?_
  unfold popping
  split
  · exact .nil
  · exact .single rfl

theorem ActsAll.onward (howner : site.owner = classAt site site.cls) {es : List Expr}
    (h : ActsAll T site l es is) : Onward is := by
  induction h with
  | nil => exact .nil
  | cons h _ ih => exact (h.onward howner).append ih

theorem Begins.onward (howner : site.owner = classAt site site.cls) {v : Declarator}
    {declared : Option ValueType} {type : ValueType} (h : Begins T site l v declared is type) :
    Onward is := by
  cases h with
  | given _ h => exact (h.sheer howner).onward
  | default _ h => exact (Sheer.pushes h 0).onward
  | inferred _ h => exact (h.sheer howner).onward

theorem Declares.onward (howner : site.owner = classAt site site.cls) {declared : Option ValueType}
    {vs : List Declarator} (h : Declares T site declared vs l is l₁) : Onward is := by
  induction h with
  | nil => exact .nil
  | cons h _ _ ih => exact (h.onward howner).append (.straight rfl ih)

theorem DeclaresAll.onward (howner : site.owner = classAt site site.cls) {d : VarDecl}
    (h : DeclaresAll T site d l is l₁) : Onward is := by
  obtain ⟨-, h⟩ := h
  exact h.onward howner

theorem Starts.onward (howner : site.owner = classAt site site.cls) {first : Option ForInit}
    (h : Starts T site l first is l₁) : Onward is := by
  cases h with
  | none => exact .nil
  | decl h => exact h.onward howner
  | exprs h => exact h.onward howner

/-! ## Statements -/

mutual

/-- A statement has the same locals and exits in a release, and where it is reached its code
matches the code that it has there. -/
theorem Lays.mirrors (hT : T.Distinct) (howner : site.owner = classAt site site.cls)
    {live : Bool} {s : Stmt} {l l₁ l₂ : LocalScope} {F G : Fragment} {x y : Exits}
    {X Y : List Extent} : Lays T site live s l F l₁ x X →
      Lays T { site with release := r } live s l G l₂ y Y →
      l₁ = l₂ ∧ x = y ∧ (live = true → Mirrors F G x)
  | .block h, .block h' => by
    obtain ⟨rfl, rfl, hmirrors⟩ := h.mirrors hT howner h'
    exact ⟨rfl, rfl, hmirrors⟩
  | .decl h, .decl h' => by
    obtain ⟨rfl, rfl⟩ := h.unique hT h'
    refine ⟨rfl, rfl, ?_⟩
    rintro rfl
    exact .ops (h.onward howner)
  | .expr h, .expr h' => by
    obtain rfl := h.unique hT h'
    refine ⟨rfl, rfl, ?_⟩
    rintro rfl
    exact .ops (h.onward howner)
  | .ifThen hc hy, .ifThen hc' hy' => by
    obtain ⟨rfl, rfl⟩ := hc.unique hT hc'
    obtain ⟨rfl, rfl, hmirrors⟩ := hy.mirrors hT howner hy'
    refine ⟨rfl, rfl, ?_⟩
    rintro rfl
    exact .ifThen (hc.checks howner) fun hknown => hmirrors (by simpa using hknown)
  | .ifElse hc hy hn, .ifElse hc' hy' hn' => by
    obtain ⟨rfl, rfl⟩ := hc.unique hT hc'
    obtain ⟨rfl, rfl, hfirst⟩ := hy.mirrors hT howner hy'
    obtain ⟨rfl, rfl, hsecond⟩ := hn.mirrors hT howner hn'
    refine ⟨rfl, rfl, ?_⟩
    rintro rfl
    exact .ifElse (hc.checks howner) (fun hknown => hfirst (by simpa using hknown))
      fun hknown => hsecond (by simpa using hknown)
  | .whileLoop hc hb, .whileLoop hc' hb' => by
    obtain ⟨rfl, rfl⟩ := hc.unique hT hc'
    obtain ⟨rfl, rfl, hbody⟩ := hb.mirrors hT howner hb'
    refine ⟨rfl, rfl, ?_⟩
    rintro rfl
    exact .whileLoop (hc.checks howner) fun hknown => hbody (by simpa using hknown)
  | .doLoop hb hc, .doLoop hb' hc' => by
    obtain ⟨rfl, rfl, hbody⟩ := hb.mirrors hT howner hb'
    obtain ⟨rfl, rfl⟩ := hc.unique hT hc'
    refine ⟨rfl, rfl, ?_⟩
    rintro rfl
    exact .doLoop (hbody rfl) (hc.checks howner)
  | .forLoop hs hc hb hu, .forLoop hs' hc' hb' hu' => by
    obtain ⟨rfl, rfl⟩ := hs.unique hT hs'
    obtain ⟨rfl, rfl⟩ := hc.unique hT hc'
    obtain ⟨rfl, rfl, hbody⟩ := hb.mirrors hT howner hb'
    obtain rfl := hu.unique hT hu'
    refine ⟨rfl, rfl, ?_⟩
    rintro rfl
    exact .forLoop (hs.onward howner) (hc.checks howner)
      (fun hknown => hbody (by simpa using hknown)) (hu.onward howner)
  | .ret htype h, .ret _ h' => by
    obtain ⟨rfl, -⟩ := h.unique hT h'
    exact ⟨rfl, rfl, fun _ => .returns (h.sheer howner).onward (.inl rfl)⟩
  | .retVoid _, .retVoid _ => ⟨rfl, rfl, fun _ => .returns .nil (.inr rfl)⟩
  | .breakLoop, .breakLoop => by
    refine ⟨rfl, rfl, ?_⟩
    rintro rfl
    exact .leave
  | .continueLoop, .continueLoop => by
    refine ⟨rfl, rfl, ?_⟩
    rintro rfl
    exact .again
  | .empty, .empty => by
    refine ⟨rfl, rfl, ?_⟩
    rintro rfl
    exact .ops .nil

theorem Nests.mirrors (hT : T.Distinct) (howner : site.owner = classAt site site.cls)
    {live : Bool} {s : Stmt} {l l₁ l₂ : LocalScope} {F G : Fragment} {x y : Exits}
    {X Y : List Extent} : Nests T site live s l F l₁ x X →
      Nests T { site with release := r } live s l G l₂ y Y →
      l₁ = l₂ ∧ x = y ∧ (live = true → Mirrors F G x)
  | .kept _ h, .kept _ h' => h.mirrors hT howner h'
  | .kept _ h, .dropped _ h' => by
    obtain ⟨rfl, rfl, -⟩ := h.mirrors hT howner h'
    exact ⟨rfl, rfl, nofun⟩
  | .dropped _ h, .kept _ h' => by
    obtain ⟨rfl, rfl, -⟩ := h.mirrors hT howner h'
    exact ⟨rfl, rfl, nofun⟩
  | .dropped _ h, .dropped _ h' => by
    obtain ⟨rfl, rfl, -⟩ := h.mirrors hT howner h'
    exact ⟨rfl, rfl, nofun⟩

theorem LaysAll.mirrors (hT : T.Distinct) (howner : site.owner = classAt site site.cls)
    {live : Bool} {ss : List Stmt} {l l₁ l₂ : LocalScope} {F G : Fragment} {x y : Exits}
    {X Y : List Extent} : LaysAll T site live ss l F l₁ x X →
      LaysAll T { site with release := r } live ss l G l₂ y Y →
      l₁ = l₂ ∧ x = y ∧ (live = true → Mirrors F G x)
  | .nil, .nil => by
    refine ⟨rfl, rfl, ?_⟩
    rintro rfl
    exact .ops .nil
  | .cons h hs, .cons h' hs' => by
    obtain ⟨rfl, rfl, hfirst⟩ := h.mirrors hT howner h'
    obtain ⟨rfl, rfl, hrest⟩ := hs.mirrors hT howner hs'
    exact ⟨rfl, rfl, fun hlive => (hfirst hlive).sequence hrest⟩

end

end Layout
end ClassScript
