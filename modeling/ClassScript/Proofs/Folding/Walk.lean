import ClassScript.Proofs.Folding.Constant

/-!
The walk over expressions whose operands are known values.

Each step of the compiler folds known operands where the operator gives a value under checked
arithmetic, and the walk goes on wherever it has levels left. So whether it comes back with a value
depends on the values of the operands alone.
-/

namespace ClassScript

/-! ## Levels -/

namespace Compile

def nameLevels (e : Expr) : Nat :=
  match e.bare with
  | .member .. => 1
  | _ => 0

def leftLevels : Expr → Nat
  | .binary .. => 0
  | e => valueLevels e

mutual

/-- The levels inside an expression, for a name in parentheses those of the name alone. -/
def levels (bare : Bool) : Expr → Nat
  | .literal .. | .ident _ | .this _ => 0
  | .member object _ _ => objectLevels object + levels false object
  | .paren inner _ => if bare then levels true inner else valueLevels inner + levels false inner
  | .binary _ left right _ =>
    max (leftLevels left + levels false left) (valueLevels right + levels false right)
  | .unary op operand _ =>
    if op = .increment ∨ op = .decrement then nameLevels operand + levels true operand
    else valueLevels operand + levels false operand
  | .post _ operand _ => nameLevels operand + levels true operand
  | .assign _ target value _ =>
    max (nameLevels target + levels true target) (valueLevels value + levels false value)
  | .conditional condition yes no _ =>
    max (valueLevels condition + levels false condition)
      (max (valueLevels yes + levels false yes) (valueLevels no + levels false no))
  | .call callee args _ => max (nameLevels callee + levels true callee) (argumentLevels args)

def argumentLevels : List Expr → Nat
  | [] => 0
  | e :: es => max (valueLevels e + levels false e) (argumentLevels es)

end

/-- The walk over an expression as a value may begin at this depth. -/
def FitsAt (depth : Nat) (e : Expr) : Prop := depth + (valueLevels e + levels false e) ≤ maxDepth

/-- Parentheses around what is called do not count. -/
theorem meaning_bare {site : Site} {locals : LocalScope} {depth : Nat} : (e : Expr) →
    meaning site locals depth .bare e = meaning site locals depth .bare e.bare
  | .paren inner _ => by
    rw [meaning_paren, if_pos rfl, Expr.bare]
    exact meaning_bare inner
  | .literal .. | .ident _ | .this _ | .binary .. | .unary .. | .post .. | .assign ..
  | .conditional .. | .call .. | .member .. => rfl

theorem levels_bare : (e : Expr) → levels true e = levels true e.bare
  | .paren inner _ => by
    rw [levels, if_pos rfl, Expr.bare]
    exact levels_bare inner
  | .literal .. | .ident _ | .this _ | .binary .. | .unary .. | .post .. | .assign ..
  | .conditional .. | .call .. | .member .. => rfl

end Compile

namespace Folding

open Compile Layout
open Source (Surroundings Sense)

variable {K : Surroundings} {site : Site} {locals : LocalScope} {e l r c y n o callee : Expr}
  {sp : Span} {name : Ident} {m m' : Meaning} {v w x : Value} {s : CodeState} {depth start stop : Nat}

/-! ## Steps on known values -/

def turned (code : Option Opcode) (v : Value) : Except EvalError Value :=
  code.elim (.ok v) (·.evalUnary true v)

theorem apply_checked (hK : K.checked = true) (code : Option Opcode) (v : Value) :
    Source.apply K code v = .compute (turned code v) := by
  cases code with
  | none => rfl
  | some op => rw [Source.apply, Option.elim, hK]; rfl

theorem fold_ok {r : Except EvalError Value} (h : r = .ok v) : fold r sp = pure v := by
  rw [h]
  rfl

theorem replace_returns (s : CodeState) (start : Nat) (v : Value) :
    ∃ t, Returns (replace start v) s (.known v start) t := ⟨_, rfl⟩

def IsKnown (v : Value) (m : Meaning) : Prop := m = .constant v ∨ ∃ o, m = .value (.known v o)

theorem materialize_returns (site : Site) (h : IsKnown v m) (s : CodeState) (sp : Span) :
    ∃ o t, Returns (materialize site m sp) s (.known v o) t := by
  obtain rfl | ⟨o, rfl⟩ := h
  · exact ⟨_, _, rfl⟩
  · exact ⟨_, _, rfl⟩

theorem convertAt_returns {code : Option Opcode} (h : turned code v = .ok w) (s : CodeState)
    (start : Nat) (target : ValueType) (stop : Nat) (sp : Span) :
    ∃ p t, Returns (convertAt (.known v start) code target stop sp) s p t ∧ p.constant = some w ∧
      p.start = start := by
  cases code with
  | none =>
    cases h
    exact ⟨_, _, rfl, rfl, rfl⟩
  | some op =>
    have hfold : fold (op.evalUnary true v) sp = pure w := fold_ok h
    simp only [convertAt, Pushed.known, hfold, pure_bind]
    by_cases hstop : stop = s.emitter.offset
    · exact ⟨⟨target, some w, start⟩, _, Returns.andThen (u := s) rfl (by rw [if_pos hstop]; rfl),
        rfl, rfl⟩
    · exact ⟨⟨target, some w, start⟩, _, Returns.andThen (u := s) rfl (by rw [if_neg hstop]; rfl),
        rfl, rfl⟩

theorem applyUnary_returns {op : UnaryOp} {code : Option Opcode} (hcode : unaryOp? op v.type = some code)
    (h : turned code v = .ok w) (s : CodeState) (start : Nat) (sp : Span) :
    ∃ t, Returns (applyUnary op (.known v start) sp) s (.known w start) t := by
  cases code with
  | none =>
    cases h
    simp only [applyUnary, Pushed.known, hcode]
    exact ⟨s, rfl⟩
  | some code =>
    have hfold : fold (code.evalUnary true v) sp = pure w := fold_ok h
    simp only [applyUnary, Pushed.known, hcode, hfold, pure_bind]
    exact replace_returns s start w

theorem not_zero_of_division {op : Opcode} {type : ValueType} {a : Arith}
    (ha : op.arith? = some (type, a)) (hdivision : a.isDivision = true)
    (h : op.evalBinary true v w = .ok x) : w.isIntegerZero = false := by
  by_contra hzero
  have hw : w = .int 0 ∨ w = .long 0 := by cases w <;> simp_all [Value.isIntegerZero]
  have hbits (bits : Nat) (i : Int) {f : Int → Value} :
      (a.onBits true bits i 0).map f = .error .divideByZero := by
    simp [Arith.onBits, hdivision, Except.map]
  unfold Opcode.evalBinary at h
  obtain rfl | rfl := hw
  · cases type <;> cases v <;> simp only [ha] at h <;>
      first | cases (hbits 32 _).symm.trans h | cases h
  · cases type <;> cases v <;> simp only [ha] at h <;>
      first | cases (hbits 64 _).symm.trans h | cases h

/-- A plan that divides integers divides by no zero if its operator gives a value. -/
theorem not_zero_of_ok {op : BinaryOp} {a b : ValueType} {plan : BinaryPlan}
    (hplan : op.plan? a b = some plan) (h : plan.op.evalBinary true v w = .ok x) :
    (plan.divides op && w.isIntegerZero) = false := by
  by_cases hdivides : plan.divides op = true
  · have hop : op = .div ∨ op = .rem := by
      simp only [BinaryPlan.divides, Bool.and_eq_true, Bool.or_eq_true, beq_iff_eq] at hdivides
      exact hdivides.1
    obtain ⟨type, arith, ha, hdivision⟩ : ∃ type arith, plan.op.arith? = some (type, arith) ∧
        arith.isDivision = true := by
      obtain rfl | rfl := hop <;> cases a <;> cases b <;> cases hplan <;> exact ⟨_, _, rfl, rfl⟩
    rw [not_zero_of_division ha hdivision h, Bool.and_false]
  · rw [Bool.eq_false_iff.mpr hdivides, Bool.false_and]

theorem applyBinary_returns {op : BinaryOp} {plan : BinaryPlan}
    (hplan : op.plan? v.type w.type = some plan) {v' w' : Value} (hv : turned plan.left v = .ok v')
    (hw : turned plan.right w = .ok w') (hx : plan.op.evalBinary true v' w' = .ok x)
    (s : CodeState) (start start' stop : Nat) (sp : Span) :
    ∃ t, Returns (applyBinary op (.known v start) stop (.known w start') sp) s (.known x start) t := by
  obtain ⟨p, t, hp, hpc, -⟩ := convertAt_returns hw s start' plan.operand s.emitter.offset sp
  obtain ⟨q, u, hq, hqc, hqs⟩ := convertAt_returns hv t start plan.operand stop sp
  obtain ⟨z, hz⟩ := replace_returns u start x
  have hfold : fold (plan.op.evalBinary true v' w') sp = pure x := fold_ok hx
  refine ⟨z, ?_⟩
  rw [applyBinary]
  simp only [Pushed.known, hplan]
  refine Returns.andThen (u := s) rfl (hp.andThen (hq.andThen ?_))
  simp only [hpc, hqc, Option.any_some, not_zero_of_ok hplan hx, Bool.false_eq_true, if_false, hfold,
    pure_bind, hqs]
  exact hz

theorem endLogical_returns (op : BinaryOp) (a b : Bool) (s : CodeState) (start start' label : Nat)
    (sp : Span) : ∃ t, Returns (endLogical op (.known (.bool a) start) label
      (.known (.bool b) start') sp) s (.known (.bool (logicalValue op a b)) start) t := ⟨_, rfl⟩

theorem endConditional_returns {c : Bool} {type : ValueType}
    (htype : branchType? v.type w.type = some type)
    (hx : (if c then v else w).convert? type = some x) (s : CodeState)
    (start start₁ start₂ start₃ toElse : Nat) (yesCode noCode : Code) (sp : Span) :
    ∃ t, Returns (endConditional start (.known (.bool c) start₁) toElse (.known v start₂) yesCode
      (.known w start₃) noCode sp) s (.known x start) t := by
  have hchosen : (if Value.bool c = .bool true then v else w).convert? type = some x := by
    cases c <;> exact hx
  simp only [endConditional, Pushed.known, htype, hchosen]
  exact replace_returns s start x

/-- A value of a type that converts to another has a value there. -/
theorem convert?_of_convertsTo {type : ValueType} (h : v.type.convertsTo type = true) :
    ∃ w, v.convert? type = some w := by
  cases v <;> cases type <;> first | exact ⟨_, rfl⟩ | cases h

/-! ## Folding -/

/-- The walk comes back with a value, wherever it has levels left for the expression. -/
def Meets (site : Site) (locals : LocalScope) (e : Expr) (v : Value) : Prop :=
  ∀ depth s, depth + levels false e ≤ maxDepth →
    ∃ m t, Returns (meaning site locals depth .value e) s m t ∧ IsKnown v m

namespace Meets

theorem asValue (h : Meets site locals e v) (hfits : FitsAt depth e) (s : CodeState) :
    ∃ o t, Returns (asValue site depth e fun d => meaning site locals d .value e) s (.known v o) t := by
  unfold FitsAt at hfits
  obtain ⟨m, t, hm, hknown⟩ := h (depth + valueLevels e) s (by omega)
  obtain ⟨o, u, hp⟩ := materialize_returns site hknown t e.span
  exact ⟨o, u, Returns.andThen (Returns.enter_iff.mpr ⟨by omega, hm⟩) hp⟩

theorem literal {lit : Literal} : Meets site locals (.literal lit sp) lit.value :=
  fun _ _ _ => ⟨_, _, rfl, .inr ⟨_, rfl⟩⟩

theorem named (h : Named site locals e m) (hfits : depth + levels false e ≤ maxDepth) (use : Use)
    (s : CodeState) : Returns (meaning site locals depth use e) s m s := by
  induction h generalizing depth use with
  | ident h =>
    rw [meaning, h]
    rfl
  | member h hm hm' ih =>
    rw [levels] at hfits
    rw [meaning]
    refine Returns.andThen (Returns.enter_iff.mpr ⟨by omega, ih (by omega) .value⟩) ?_
    rw [hm']
    rfl

theorem paren (h : Meets site locals e v) : Meets site locals (.paren e sp) v := by
  intro depth s hfits
  rw [levels] at hfits
  obtain ⟨o, t, hp⟩ := h.asValue (show FitsAt depth e by simpa [FitsAt] using hfits) s
  rw [meaning_paren, if_neg (by decide)]
  exact ⟨_, t, hp.andThen rfl, .inr ⟨o, rfl⟩⟩

theorem unary {op : UnaryOp} (hop : ¬(op = .increment ∨ op = .decrement)) {code : Option Opcode}
    (hcode : unaryOp? op v.type = some code) (hw : turned code v = .ok w)
    (h : Meets site locals e v) : Meets site locals (.unary op e sp) w := by
  intro depth s hfits
  rw [levels, if_neg hop] at hfits
  obtain ⟨o, t, hp⟩ := h.asValue hfits s
  obtain ⟨u, hq⟩ := applyUnary_returns hcode hw t o sp
  rw [meaning, if_neg hop]
  exact ⟨_, u, hp.andThen (hq.andThen rfl), .inr ⟨o, rfl⟩⟩

/-- A chain of operators is one level. -/
theorem left (h : Meets site locals e v) (hfits : depth + (leftLevels e + levels false e) ≤ maxDepth)
    (s : CodeState) : ∃ o t, Returns (leftOperand site locals depth e) s (.known v o) t := by
  cases e with
  | binary =>
    rw [leftLevels, Nat.zero_add] at hfits
    obtain ⟨m, t, hm, hknown⟩ := h depth s hfits
    obtain ⟨o, u, hp⟩ := materialize_returns site hknown t _
    exact ⟨o, u, hm.andThen hp⟩
  | _ => exact h.asValue hfits s

theorem logical {op : BinaryOp} (hop : op.isLogical = true) {a b : Bool}
    (hl : Meets site locals l (.bool a)) (hr : Meets site locals r (.bool b)) :
    Meets site locals (.binary op l r sp) (.bool (logicalValue op a b)) := by
  intro depth s hfits
  rw [levels] at hfits
  obtain ⟨o, t, hleft⟩ := hl.left (show depth + _ ≤ _ by omega) s
  have hbegin : ∃ label u, Returns (beginLogical op) t label u := ⟨_, _, rfl⟩
  obtain ⟨label, u, hbegin⟩ := hbegin
  obtain ⟨o', w, hright⟩ := hr.asValue (show FitsAt depth r by unfold FitsAt; omega) u
  obtain ⟨z, hend⟩ := endLogical_returns op a b w o o' label sp
  rw [meaning_binary]
  simp only [hop, if_true]
  exact ⟨_, z, hleft.andThen (hbegin.andThen (hright.andThen (hend.andThen rfl))), .inr ⟨o, rfl⟩⟩

theorem binary {op : BinaryOp} (hop : op.isLogical = false) {plan : BinaryPlan}
    (hplan : op.plan? v.type w.type = some plan) {v' w' : Value} (hv : turned plan.left v = .ok v')
    (hw : turned plan.right w = .ok w') (hx : plan.op.evalBinary true v' w' = .ok x)
    (hl : Meets site locals l v) (hr : Meets site locals r w) :
    Meets site locals (.binary op l r sp) x := by
  intro depth s hfits
  rw [levels] at hfits
  obtain ⟨o, t, hleft⟩ := hl.left (show depth + _ ≤ _ by omega) s
  obtain ⟨o', u, hright⟩ := hr.asValue (show FitsAt depth r by unfold FitsAt; omega) t
  obtain ⟨z, hend⟩ := applyBinary_returns hplan hv hw hx u o o' t.emitter.offset sp
  rw [meaning_binary]
  simp only [hop, Bool.false_eq_true, if_false]
  exact ⟨_, z, hleft.andThen (Returns.andThen (u := t) rfl (hright.andThen (hend.andThen rfl))),
    .inr ⟨o, rfl⟩⟩

theorem conditional {b : Bool} {type : ValueType} (htype : branchType? v.type w.type = some type)
    (hx : (if b then v else w).convert? type = some x) (hc : Meets site locals c (.bool b))
    (hy : Meets site locals y v) (hn : Meets site locals n w) :
    Meets site locals (.conditional c y n sp) x := by
  intro depth s hfits
  rw [levels] at hfits
  obtain ⟨o₁, t₁, hc⟩ := hc.asValue (show FitsAt depth c by unfold FitsAt; omega) s
  obtain ⟨label, t₂, hjump⟩ : ∃ label t, Returns (jump .jumpIfFalse) t₁ label t := ⟨_, _, rfl⟩
  obtain ⟨o₂, t₃, hy⟩ := hy.asValue (show FitsAt depth y by unfold FitsAt; omega) t₂
  obtain ⟨yesCode, t₄, hcut⟩ : ∃ code t, Returns (cut t₂.emitter.offset) t₃ code t := ⟨_, _, rfl⟩
  obtain ⟨o₃, t₅, hn⟩ := hn.asValue (show FitsAt depth n by unfold FitsAt; omega) t₄
  obtain ⟨noCode, t₆, hcut'⟩ : ∃ code t, Returns (cut t₂.emitter.offset) t₅ code t := ⟨_, _, rfl⟩
  obtain ⟨z, hend⟩ := endConditional_returns htype hx t₆ s.emitter.offset o₁ o₂ o₃ label yesCode noCode sp
  have hcoerce : Returns (coerce (.known (.bool b) o₁) .bool c.span) t₁ (.known (.bool b) o₁) t₁ := rfl
  rw [meaning]
  refine ⟨_, z, Returns.andThen (u := s) rfl (hc.andThen (hcoerce.andThen (hjump.andThen ?_))),
    .inr ⟨s.emitter.offset, rfl⟩⟩
  exact Returns.andThen (u := t₂) rfl (hy.andThen (hcut.andThen (hn.andThen (hcut'.andThen
    (hend.andThen rfl)))))

theorem library (h : Named site locals e (.constant v)) : Meets site locals e v :=
  fun _ s hfits => ⟨_, s, named h hfits .value s, .inl rfl⟩

/-- What a member of a known value means depends on the value alone. -/
theorem object (h : Meets site locals o v)
    (hfits : depth + (objectLevels o + levels false o) ≤ maxDepth) (use : Use) (name : Ident)
    (sp : Span) (s : CodeState) : ∃ i t, ∀ {m u}, Returns (valueMember site (.known v i) name) t m u →
      Returns (meaning site locals depth use (.member o name sp)) s m u := by
  obtain ⟨m, t, hm, hknown⟩ := h (depth + objectLevels o) s (by omega)
  obtain ⟨i, t', hp⟩ := materialize_returns site hknown t o.span
  refine ⟨i, t', fun {m' u} hmember => ?_⟩
  have hmember : Returns (memberMeaning site m o.span name) t m' u := by
    obtain rfl | ⟨i', rfl⟩ := hknown <;> exact hp.andThen hmember
  rw [meaning]
  exact Returns.andThen (Returns.enter_iff.mpr ⟨by omega, hm⟩) hmember

theorem length (h : Meets site locals o v) (hstring : v.type = .string) (hname : name.name = "Length")
    (hw : Opcode.strLen.evalUnary true v = .ok w) : Meets site locals (.member o name sp) w := by
  intro depth s hfits
  rw [levels] at hfits
  obtain ⟨i, t, hmember⟩ := h.object hfits .value name sp s
  obtain ⟨u, hu⟩ := replace_returns t i w
  refine ⟨_, u, hmember ?_, .inr ⟨i, rfl⟩⟩
  have hfold : fold (Opcode.strLen.evalUnary true v) name.span = pure w := fold_ok hw
  rw [valueMember, if_pos ⟨hstring, hname⟩]
  simp only [lengthOf, Pushed.known, hfold, pure_bind]
  exact hu.andThen rfl

theorem text (h : Meets site locals o v) (hv : v.type ≠ .void)
    (hcallee : callee.bare = .member o name sp) (hname : name.name = "ToString")
    (hw : turned (if v.type = .string then none else some .toStr) v = .ok w) {sp' : Span} :
    Meets site locals (.call callee [] sp') w := by
  intro depth s hfits
  have hlevels : levels true callee = objectLevels o + levels false o := by
    rw [levels_bare, hcallee, levels]
  have hname' : nameLevels callee = 1 := by rw [nameLevels, hcallee]
  rw [levels, hname', hlevels] at hfits
  obtain ⟨i, t, hmember⟩ := h.object (show depth + 1 + _ ≤ _ by omega) .bare name sp s
  have hmeaning : Returns (meaning site locals (depth + 1) .bare callee) s
      (.methods (.toText (.known v i)) name.name) t := by
    rw [meaning_bare, hcallee]
    refine hmember ?_
    have hvoid : (Pushed.known v i).type.isVoid = false := by
      cases hv' : v.type <;> first | exact absurd hv' hv | simp [Pushed.known, hv', ValueType.isVoid]
    rw [valueMember, if_neg fun h => by simp [hname] at h, if_pos ⟨hname, by rw [hvoid]; rfl⟩]
    rfl
  obtain ⟨u, hu⟩ : ∃ u, Returns (callToText (.known v i) name.name [] sp') t (.known w i) u := by
    by_cases hstring : v.type = .string
    · rw [if_pos hstring] at hw
      cases hw
      simp only [callToText, Pushed.known, hstring]
      exact ⟨t, rfl⟩
    · rw [if_neg hstring] at hw
      have hfold : fold (Opcode.toStr.evalUnary true v) sp' = pure w := fold_ok hw
      simp only [callToText, Pushed.known, hstring, hfold, pure_bind]
      exact replace_returns t i w
  refine ⟨_, u, ?_, .inr ⟨i, rfl⟩⟩
  rw [meaning, asName, hcallee]
  refine Returns.andThen (u := s) rfl (Returns.andThen
    (Returns.enter_iff.mpr ⟨by omega, hmeaning⟩) ?_)
  exact Returns.andThen (u := t) (by rw [arguments]; rfl) (hu.andThen rfl)

end Meets

end Folding
end ClassScript
