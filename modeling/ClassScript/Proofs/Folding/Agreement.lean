import ClassScript.Proofs.Folding.Walk
import ClassScript.Proofs.Layout.Module

/-!
The compiler folds constant expressions, and refuses just those of which a part fails.

A constant expression that has a type either has a value in every part, and then the walk over it
comes back with the value, or evaluating one of its parts fails. Folding goes into operands that
running the code would skip, so it is the parts that count and not the whole alone.
-/

namespace ClassScript
namespace Folding

open Compile Layout
open Source (Surroundings Sense)

variable {K : Surroundings} {site : Site} {locals : LocalScope} {e l r c y n o callee : Expr}
  {sp : Span} {name : Ident} {m : Meaning} {v w : Value} {s : CodeState} {bare : Bool}

/-! ## What evaluation comes to -/

/-- A computation of a value of a type gives one, or ends with an overflow or a division by zero. -/
theorem computed {type : ValueType} {r : Except EvalError Value} (h : Computes type r) :
    (∃ v, r = .ok v ∧ v.type = type) ∨ ∃ err, r = .error err ∧ (err = .overflow ∨ err = .divideByZero) := by
  match r, h with
  | .ok v, h => exact .inl ⟨v, rfl, h⟩
  | .error .overflow, _ => exact .inr ⟨_, rfl, .inl rfl⟩
  | .error .divideByZero, _ => exact .inr ⟨_, rfl, .inr rfl⟩

theorem turned_computes {a b : ValueType} {code : Option Opcode} (h : Flow.Turns a b code)
    (hv : v.type = a) : Computes b (turned code v) := by
  cases code with
  | none => exact hv.trans h
  | some op => exact Opcode.evalUnary_computes h hv true

theorem compute_bind {r : Except EvalError Value} (f : Value → Action Store Value) {err : EvalError}
    (h : r = .error err) : Action.compute r >>= f = .compute (.error err) := by
  rw [h]
  rfl

/-- Under checked arithmetic, an expression that has a type has a value which the walk meets, or
one of its parts fails. -/
def Decided (K : Surroundings) (site : Site) (locals : LocalScope) (e : Expr) : Prop :=
  ∀ type a, Source.value K site locals e = some (type, a) →
    (∃ v, a = pure v ∧ v.type = type ∧ type ≠ .void ∧ Meets site locals e v) ∨ PartFails K site locals e

/-- No member of a value is a mere name. -/
theorem ofValue_ne_name {type : ValueType} {a : Action Store Value} :
    Sense.ofValue K site type a name ≠ some (.name m) := by
  unfold Sense.ofValue
  split
  · nofun
  · split
    · nofun
    · cases site.symbols.keywordClass? type <;> nofun

/-- No call is a mere name. -/
theorem call_ne_name {items : List (ValueType × Action Store Value)} :
    (s : Sense) → s.call K site items ≠ some (.name m)
  | .name (.methods (.script ..) _), h | .name (.methods (.function _) _), h | .methods .., h => by
    obtain ⟨_, -, h⟩ := Option.bind_eq_some_iff.mp h
    cases h
  | .text .., h => by
    rw [Sense.call] at h
    split at h <;> cases h
  | .name (.methods (.method ..) _), h | .name (.methods (.toText _) _), h | .name (.space _), h
  | .name (.type _), h | .name .this, h | .name (.localVar ..), h | .name (.field ..), h
  | .name (.constant _), h | .name (.value _), h | .value .., h => by cases h

/-- A constant expression names nothing but a constant. -/
theorem IsConstant.named (h : IsConstant site locals e)
    (hs : Source.sense K site locals false e = some (.name m)) : ∃ v, m = .constant v := by
  induction h generalizing m with
  | library h =>
    cases h.sense.symm.trans hs
    exact ⟨_, rfl⟩
  | length h hname ih =>
    rw [Source.sense] at hs
    obtain ⟨s, hs, hmember⟩ := Option.bind_eq_some_iff.mp hs
    unfold Sense.member at hmember
    split at hmember
    · exact (ofValue_ne_name hmember).elim
    · next hvalue =>
      split at hmember
      · obtain ⟨v, rfl⟩ := ih hs
        cases hvalue
      · cases hmember
  | text =>
    rw [Source.sense] at hs
    obtain ⟨s, -, hs⟩ := Option.bind_eq_some_iff.mp hs
    obtain ⟨items, -, hs⟩ := Option.bind_eq_some_iff.mp hs
    exact (call_ne_name s hs).elim
  | unary hop =>
    obtain rfl | rfl | rfl := hop <;> simp [Source.sense, Option.bind_eq_some_iff] at hs
  | literal | paren | binary | conditional =>
    simp [Source.sense, Option.bind_eq_some_iff, ite_eq_iff] at hs

/-- What has a member stands for a value, if it is constant. -/
theorem IsConstant.value_of_member (h : IsConstant site locals o) {s : Sense}
    (hs : Source.sense K site locals bare (.member o name sp) = some s) :
    ∃ x, Source.value K site locals o = some x := by
  rw [Source.sense] at hs
  obtain ⟨s', hs', hmember⟩ := Option.bind_eq_some_iff.mp hs
  rw [Source.value, hs', Option.bind_some]
  cases s' with
  | value type a => exact ⟨_, rfl⟩
  | name m =>
    obtain ⟨v, rfl⟩ := h.named hs'
    exact ⟨_, rfl⟩
  | methods => cases hmember
  | text => cases hmember

/-- A failing part fails in parentheses too. -/
theorem PartFails.of_bare : (e : Expr) → PartFails K site locals e.bare → PartFails K site locals e
  | .paren inner _, h => .of_operand (List.mem_singleton_self inner) (of_bare inner h)
  | .literal .., h | .ident _, h | .this _, h | .binary .., h | .unary .., h | .post .., h
  | .assign .., h | .conditional .., h | .call .., h | .member .., h => h

namespace Decided

/-- The value of an operand, unless a part of it fails. -/
theorem operand (h : Decided K site locals o) {type : ValueType} {a : Action Store Value}
    (ha : Source.value K site locals o = some (type, a)) (ho : o ∈ e.operands)
    (hparts : ¬PartFails K site locals e) :
    ∃ v, a = pure v ∧ v.type = type ∧ type ≠ .void ∧ Meets site locals o v :=
  (h type a ha).resolve_right fun hfails => hparts (.of_operand ho hfails)

/-- A computation that ends an expression gives a value, unless the expression fails. -/
theorem gives {type : ValueType} {r : Except EvalError Value}
    (ha : Source.value K site locals e = some (type, .compute r)) (hr : Computes type r)
    (hparts : ¬PartFails K site locals e) : ∃ v, r = .ok v ∧ v.type = type := by
  refine (computed hr).resolve_right ?_
  rintro ⟨err, rfl, herr⟩
  exact hparts (Fails.part ⟨type, err, ha, herr⟩)

theorem literal {lit : Literal} : Decided K site locals (.literal lit sp) := by
  intro type a ha
  cases value_literal.symm.trans ha
  exact .inl ⟨lit.value, rfl, rfl, by cases lit <;> nofun, .literal⟩

theorem library (h : Named site locals e (.constant v)) (hv : v.type ≠ .void) :
    Decided K site locals e := by
  intro type a ha
  cases h.value.symm.trans ha
  exact .inl ⟨v, rfl, rfl, hv, .library h⟩

theorem paren (ih : Decided K site locals e) : Decided K site locals (.paren e sp) := by
  intro type a ha
  by_contra hnot
  obtain ⟨hvalue, hparts⟩ := not_or.mp hnot
  obtain ⟨v, hv, htype, hvoid, hmeets⟩ :=
    ih.operand (value_paren.symm.trans ha) (by simp [Expr.operands]) hparts
  exact hvalue ⟨v, hv, htype, hvoid, hmeets.paren⟩

theorem unary (hK : K.checked = true) {op : UnaryOp} (hop : op = .plus ∨ op = .neg ∨ op = .not)
    (ih : Decided K site locals e) : Decided K site locals (.unary op e sp) := by
  intro type a ha
  by_contra hnot
  obtain ⟨hvalue, hparts⟩ := not_or.mp hnot
  have ha' := ha
  rw [value_unary hop] at ha'
  obtain ⟨⟨t, b⟩, hb, ha'⟩ := Option.bind_eq_some_iff.mp ha'
  obtain ⟨code, hcode, ha'⟩ := Option.map_eq_some_iff.mp ha'
  cases ha'
  obtain ⟨v, rfl, rfl, hvoid, hmeets⟩ := ih.operand hb (by simp [Expr.operands]) hparts
  rw [pure_bind, apply_checked hK] at ha
  have hturns : Flow.Turns v.type v.type code := by
    cases code with
    | none => rfl
    | some code => exact Flow.unaryOp_typed hcode
  obtain ⟨w, hw, htype⟩ := gives ha (turned_computes hturns rfl) hparts
  refine hvalue ⟨w, ?_, htype, hvoid, hmeets.unary (Activation.unaryOp_plain hcode) hcode hw⟩
  rw [pure_bind, apply_checked hK, hw, Action.compute_ok]

theorem logical {op : BinaryOp} (hop : op.isLogical = true) (ihl : Decided K site locals l)
    (ihr : Decided K site locals r) : Decided K site locals (.binary op l r sp) := by
  intro type a ha
  by_contra hnot
  obtain ⟨hvalue, hparts⟩ := not_or.mp hnot
  rw [value_logical hop] at ha
  obtain ⟨⟨t, b⟩, hb, ha⟩ := Option.bind_eq_some_iff.mp ha
  obtain ⟨⟨u, d⟩, hd, ha⟩ := Option.bind_eq_some_iff.mp ha
  obtain ⟨⟨htb, hub⟩, ha⟩ := Option.ite_none_right_eq_some.mp ha
  cases ha
  obtain ⟨v, rfl, rfl, -, hleft⟩ := ihl.operand hb (by simp [Expr.operands]) hparts
  obtain ⟨w, rfl, rfl, -, hright⟩ := ihr.operand hd (by simp [Expr.operands]) hparts
  cases v <;> cases htb
  cases w <;> cases hub
  exact hvalue ⟨_, Source.logical_known .., rfl, by decide, hleft.logical hop hright⟩

theorem binary (hK : K.checked = true) {op : BinaryOp} (hop : op.isLogical = false)
    (ihl : Decided K site locals l) (ihr : Decided K site locals r) :
    Decided K site locals (.binary op l r sp) := by
  intro type a ha
  by_contra hnot
  obtain ⟨hvalue, hparts⟩ := not_or.mp hnot
  have ha' := ha
  rw [value_binary hop] at ha'
  obtain ⟨⟨t, b⟩, hb, ha'⟩ := Option.bind_eq_some_iff.mp ha'
  obtain ⟨⟨u, d⟩, hd, ha'⟩ := Option.bind_eq_some_iff.mp ha'
  obtain ⟨plan, hplan, ha'⟩ := Option.map_eq_some_iff.mp ha'
  cases ha'
  obtain ⟨v, rfl, rfl, -, hleft⟩ := ihl.operand hb (by simp [Expr.operands]) hparts
  obtain ⟨w, rfl, rfl, -, hright⟩ := ihr.operand hd (by simp [Expr.operands]) hparts
  have htyped := Flow.plan_typed hplan
  have hoperate : Source.operate K plan (pure v) (pure w) =
      Action.compute (turned plan.left v) >>= fun x => Action.compute (turned plan.right w) >>= fun y =>
        Action.compute (plan.op.evalBinary true x y) := by
    simp only [Source.operate, pure_bind, apply_checked hK, hK]
  have conversion {r : Except EvalError Value} {t : ValueType} (hr : Computes t r)
      (hcompute : ∀ err, r = .error err →
        Source.operate K plan (pure v) (pure w) = .compute (.error err)) :
      ∃ x, r = .ok x ∧ x.type = t := by
    refine (computed hr).resolve_right ?_
    rintro ⟨err, herr, hkind⟩
    exact hparts (Fails.part ⟨_, err, hcompute err herr ▸ ha, hkind⟩)
  obtain ⟨x, hx, hxtype⟩ := conversion (turned_computes htyped.left rfl) fun err herr => by
    rw [hoperate, compute_bind _ herr]
  obtain ⟨y, hy, hytype⟩ := conversion (turned_computes htyped.right rfl) fun err herr => by
    rw [hoperate, hx, Action.compute_ok, pure_bind, compute_bind _ herr]
  have hoperate : Source.operate K plan (pure v) (pure w) = .compute (plan.op.evalBinary true x y) := by
    rw [hoperate, hx, hy, Action.compute_ok, pure_bind, Action.compute_ok, pure_bind]
  obtain ⟨z, hz, hztype⟩ := gives (hoperate ▸ ha) (Opcode.evalBinary_computes htyped.op hxtype hytype true)
    hparts
  exact hvalue ⟨z, by rw [hoperate, hz, Action.compute_ok], hztype,
    fun hvoid => Flow.void_not_computed (hvoid ▸ htyped.op), hleft.binary hop hplan hx hy hz hright⟩

theorem conditional (ihc : Decided K site locals c) (ihy : Decided K site locals y)
    (ihn : Decided K site locals n) : Decided K site locals (.conditional c y n sp) := by
  intro type a ha
  by_contra hnot
  obtain ⟨hvalue, hparts⟩ := not_or.mp hnot
  rw [value_conditional] at ha
  obtain ⟨⟨t, b⟩, hb, ha⟩ := Option.bind_eq_some_iff.mp ha
  obtain ⟨⟨u, d⟩, hd, ha⟩ := Option.bind_eq_some_iff.mp ha
  obtain ⟨⟨u', d'⟩, hd', ha⟩ := Option.bind_eq_some_iff.mp ha
  obtain ⟨type', htype, ha⟩ := Option.bind_eq_some_iff.mp ha
  obtain ⟨hbool, ha⟩ := Option.ite_none_right_eq_some.mp ha
  cases ha
  obtain ⟨x, rfl, rfl, -, hcond⟩ := ihc.operand hb (by simp [Expr.operands]) hparts
  obtain ⟨v, rfl, rfl, -, hyes⟩ := ihy.operand hd (by simp [Expr.operands]) hparts
  obtain ⟨w, rfl, rfl, -, hno⟩ := ihn.operand hd' (by simp [Expr.operands]) hparts
  obtain ⟨x, rfl⟩ : ∃ b, x = .bool b := by cases x <;> cases hbool; exact ⟨_, rfl⟩
  obtain ⟨hv, hw⟩ := Activation.Gives.branch_converts htype
  obtain ⟨z, hz⟩ : ∃ z, (if x then v else w).convert? type = some z := by
    cases x with
    | true => exact convert?_of_convertsTo hv
    | false => exact convert?_of_convertsTo hw
  exact hvalue ⟨z, Source.choose_known hv hw hz, Flow.type_of_convert? hz, (Flow.branch_turns htype).1,
    hcond.conditional htype hz hyes hno⟩

theorem length (hK : K.checked = true) (hname : name.name = "Length") (hobject : IsConstant site locals o)
    (ih : Decided K site locals o) : Decided K site locals (.member o name sp) := by
  intro type a ha
  by_contra hnot
  obtain ⟨hvalue, hparts⟩ := not_or.mp hnot
  obtain ⟨s, hs, -⟩ := Option.bind_eq_some_iff.mp ha
  obtain ⟨⟨t, b⟩, hb⟩ := hobject.value_of_member hs
  obtain rfl := string_of_length hb hname ha
  obtain ⟨v, rfl, htype, -, hmeets⟩ := ih.operand hb (by simp [Expr.operands]) hparts
  cases (value_length hb hname).symm.trans ha
  rw [pure_bind, apply_checked hK] at ha hvalue
  obtain ⟨w, hw, hwtype⟩ :=
    gives ha (turned_computes (show Flow.Turns .string .int (some .strLen) from rfl) htype) hparts
  exact hvalue ⟨w, by rw [hw, Action.compute_ok], hwtype, by decide, hmeets.length htype hname hw⟩

theorem text (hK : K.checked = true) (hcallee : callee.bare = .member o name sp)
    (hname : name.name = "ToString") (hobject : IsConstant site locals o)
    (ih : Decided K site locals o) {sp' : Span} : Decided K site locals (.call callee [] sp') := by
  intro type a ha
  by_contra hnot
  obtain ⟨hvalue, hparts⟩ := not_or.mp hnot
  obtain ⟨⟨t, b⟩, hb⟩ : ∃ x, Source.value K site locals o = some x := by
    obtain ⟨s, hs, -⟩ := Option.bind_eq_some_iff.mp ha
    rw [Source.sense] at hs
    obtain ⟨s', hs', -⟩ := Option.bind_eq_some_iff.mp hs
    rw [sense_bare, hcallee] at hs'
    exact hobject.value_of_member hs'
  have hinner : PartFails K site locals o → PartFails K site locals (.call callee [] sp') := fun hfails =>
    .of_operand (o := callee) (by simp [Expr.operands])
      (.of_bare callee (hcallee ▸ .of_operand (by simp [Expr.operands]) hfails))
  obtain ⟨v, rfl, rfl, hvoid, hmeets⟩ := (ih t b hb).resolve_right (hparts ∘ hinner)
  have hcomputes : (if v.type = .string then pure v else pure v >>= Source.apply K (some .toStr)) =
      Action.compute (turned (if v.type = .string then none else some .toStr) v) := by
    rw [pure_bind, apply_checked hK]
    split <;> rfl
  have ha' := (value_text hb hvoid hcallee hname).symm.trans ha
  rw [hcomputes] at ha'
  cases ha'
  have htyped : Computes .string (turned (if v.type = .string then none else some .toStr) v) := by
    split
    · next hstring => exact hstring
    · exact turned_computes (show Flow.Turns v.type .string (some .toStr) from Flow.toStr_typed hvoid) rfl
  obtain ⟨w, hw, hwtype⟩ := gives ha htyped hparts
  exact hvalue ⟨w, by rw [hw, Action.compute_ok], hwtype, by decide, hmeets.text hvoid hcallee hname hw⟩

end Decided

/-- Constant expressions with a type have a value, or a part that fails. -/
theorem IsConstant.decided (hK : K.checked = true) (h : IsConstant site locals e) :
    Decided K site locals e := by
  induction h with
  | literal => exact .literal
  | library h hv => exact .library h hv
  | paren _ ih => exact ih.paren
  | unary hop _ ih => exact ih.unary hK hop
  | @binary op _ _ _ _ _ ihl ihr =>
    cases hop : op.isLogical with
    | true => exact ihl.logical hop ihr
    | false => exact ihl.binary hK hop ihr
  | conditional _ _ _ ihc ihy ihn => exact ihc.conditional ihy ihn
  | length h hname ih => exact ih.length hK hname h
  | text hcallee hname h ih => exact ih.text hK hcallee hname h

/-! ## Folding agrees with evaluation -/

/-- Tables that hold what a state has collected. -/
theorem exists_within (s : CodeState) : ∃ T, s.Within T :=
  ⟨⟨s.emitter.pool.entries, s.imports.imports⟩, List.prefix_rfl, List.prefix_rfl⟩

theorem single_of_pushes {T : Tables} {is : Asm} (h : Pushes T v is) (hv : v.type ≠ .void) :
    ∃ i, is = [i] := by
  cases h with
  | void => exact (hv rfl).elim
  | yes | no | constant => exact ⟨_, rfl⟩

/-- A constant expression that is accepted is a known value. Its code is a single push, and it has
that value whether arithmetic is checked or not; no part of it fails. -/
theorem IsConstant.accepted (h : IsConstant site locals e) (hs : s.Sound site.symbols.libraries)
    {depth : Nat} {p : Pushed} {u : CodeState}
    (hp : Returns (asValue site depth e fun d => meaning site locals d .value e) s p u) :
    ∃ v i, p = .known v s.emitter.offset ∧ Wrote site.symbols.libraries s u [i] ∧
      (∀ T, u.Within T → Pushes T v [i]) ∧
      ∀ K, Source.value K site locals e = some (v.type, pure v) ∧ ¬PartFails K site locals e := by
  obtain ⟨is, hw, hvalues, hstart⟩ := (meaning_sound site locals e .value).asValue hs hp
  obtain ⟨T, hT⟩ := exists_within u
  obtain ⟨v, hv⟩ := h.folds T is p (hvalues T hT)
  obtain ⟨i, rfl⟩ := single_of_pushes hv.pushes hv.valued
  refine ⟨v, i, ?_, hw, fun T' hT' => ?_, fun K => ⟨hv.computes K, hv.parts K⟩⟩
  · obtain ⟨type, constant, start⟩ := p
    cases hv.type
    cases hv.constant
    cases hstart
    rfl
  · obtain ⟨v', hv'⟩ := h.folds T' _ p (hvalues T' hT')
    obtain rfl := Option.some.inj (hv.constant.symm.trans hv'.constant)
    exact hv'.pushes

/-- Folding agrees with evaluation. A constant expression that the compiler accepts is a known value:
a single instruction pushes it, and evaluating the expression operand by operand gives that same value
under checked and under unchecked arithmetic. One that has a type, with levels left for it, is refused
just when evaluating one of its parts under checked arithmetic overflows or divides by zero, also a
part that evaluating the whole would skip. -/
theorem IsConstant.folding_agrees (h : IsConstant site locals e)
    (hs : s.Sound site.symbols.libraries) (depth : Nat) :
    (∀ p u, Returns (asValue site depth e fun d => meaning site locals d .value e) s p u →
      ∃ v i, p = .known v s.emitter.offset ∧ Wrote site.symbols.libraries s u [i] ∧
        (∀ T, u.Within T → Pushes T v [i]) ∧
        ∀ K, Source.value K site locals e = some (v.type, pure v)) ∧
    ∀ K type a, K.checked = true → Source.value K site locals e = some (type, a) → FitsAt depth e →
      ((∃ err u, (ExceptT.run (asValue site depth e fun d => meaning site locals d .value e)).run s =
        (.error err, u)) ↔ PartFails K site locals e) := by
  refine ⟨fun p u hp => ?_, fun K type a hK ha hfits => ⟨?_, fun hfails => ?_⟩⟩
  · obtain ⟨v, i, hknown, hw, hpush, hK⟩ := h.accepted hs hp
    exact ⟨v, i, hknown, hw, hpush, fun K => (hK K).1⟩
  · rintro ⟨err, u, herr⟩
    refine (h.decided hK type a ha).resolve_left ?_
    rintro ⟨v, -, -, -, hmeets⟩
    obtain ⟨o, t, hp⟩ := hmeets.asValue hfits s
    cases herr.symm.trans hp
  · rcases hrun : (ExceptT.run (asValue site depth e fun d => meaning site locals d .value e)).run s
      with ⟨err | p, u⟩
    · exact ⟨err, u, rfl⟩
    · obtain ⟨_, _, -, -, -, haccepted⟩ := h.accepted hs hrun
      exact ((haccepted K).2 hfails).elim

/-- `1 + 2` is folded; `true || 1 / 0 == 0` is refused, although running it would not divide. -/
theorem IsConstant.folding_agrees_samples :
    let site := methodSite ⟨symbolsOf {} [] default, true, 0, default⟩ default
    let one : Expr := .literal (.int 1) {}
    let zero : Expr := .literal (.int 0) {}
    let sum : Expr := .binary .add one (.literal (.int 2) {}) {}
    let skipped : Expr :=
      .binary .logicalOr (.literal (.bool true) {}) (.binary .equal (.binary .div one zero {}) zero {}) {}
    (∃ u i, Returns (asValue site 0 sum fun d => meaning site .start d .value sum) (codeOf .start)
        (.known (.int 3) 0) u ∧ Wrote [] (codeOf .start) u [i] ∧
      ∀ K, Source.value K site .start sum = some (.int, pure (.int 3))) ∧
    (∃ err u, (ExceptT.run (asValue site 0 skipped fun d => meaning site .start d .value skipped)).run
      (codeOf .start) = (.error err, u)) ∧
    ∀ K, Source.value K site .start skipped = some (.bool, pure (.bool true)) := by
  intro site one zero sum skipped
  have hlibraries : site.symbols.libraries = [] := (symbolsOf_sound {} [] default).libraries
  have hsound : (codeOf .start).Sound site.symbols.libraries := codeOf_start_sound _
  have hskipped (K : Surroundings) :
      Source.value K site .start skipped = some (.bool, pure (.bool true)) := rfl
  refine ⟨?_, ?_, hskipped⟩
  · have hreturns : Returns (asValue site 0 sum fun d => meaning site .start d .value sum)
        (codeOf .start) (.known (.int 3) 0) _ := rfl
    obtain ⟨v, i, hv, hw, -, hvalue⟩ :=
      (IsConstant.folding_agrees (.binary .literal .literal) hsound 0).1 _ _ hreturns
    obtain rfl : Value.int 3 = v := Option.some.inj (congrArg Pushed.constant hv)
    exact ⟨_, i, hreturns, hlibraries ▸ hw, hvalue⟩
  · let K : Surroundings := ⟨true, fun _ _ _ => pure .void, fun _ => default⟩
    refine ((IsConstant.folding_agrees (.binary .literal (.binary (.binary .literal .literal) .literal))
      hsound 0).2 K _ _ rfl (hskipped K) (show 0 + _ ≤ _ by decide)).mpr ?_
    have hdivision : Fails K site .start (.binary .div one zero {}) := ⟨.int, .divideByZero, rfl, .inr rfl⟩
    exact ⟨_, .operand (.tail _ (.head _)) (.operand (.head _) .self), hdivision⟩

end Folding
end ClassScript
