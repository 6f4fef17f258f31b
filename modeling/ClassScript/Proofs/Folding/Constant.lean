import ClassScript.Proofs.Simulation.Expression

/-!
Constant expressions, and what they compute.

A constant expression is made of literals and constants of the libraries with the operators that the
compiler folds. What it computes is read off the tree, operand by operand, as for every other
expression; nothing is folded in that. Each form has one equation, which takes a value apart into the
values of the operands.
-/

namespace ClassScript

/-! ## Parts of expressions -/

namespace Expr

/-- The expressions that an expression is directly made of. -/
def operands : Expr → List Expr
  | literal .. | ident _ | this _ => []
  | binary _ left right _ => [left, right]
  | unary _ operand _ => [operand]
  | post _ operand _ => [operand]
  | assign _ target value _ => [target, value]
  | conditional condition yes no _ => [condition, yes, no]
  | call callee args _ => callee :: args
  | member object _ _ => [object]
  | paren inner _ => [inner]

/-- An expression that stands somewhere in another one, or is all of it. -/
inductive Part (part : Expr) : Expr → Prop
  | self : Part part part
  | operand {e o : Expr} (ho : o ∈ e.operands) (h : Part part o) : Part part e

end Expr

namespace Folding

open Compile Layout
open Source (Surroundings Sense)

/-! ## Constant expressions -/

section

variable (site : Site) (locals : LocalScope)

inductive Named : Expr → Meaning → Prop
  | ident {name : Ident} {m : Meaning} (h : nameMeaning site locals name = pure m) :
      Named (.ident name) m
  | member {object : Expr} {name : Ident} {sp : Span} {m m' : Meaning} (h : Named object m)
      (hm : isName m = true) (hm' : memberMeaning site m object.span name = pure m') :
      Named (.member object name sp) m'

/-- Expressions of literals and constants of libraries. -/
inductive IsConstant : Expr → Prop
  | literal {lit : Literal} {sp : Span} : IsConstant (.literal lit sp)
  | library {e : Expr} {v : Value} (h : Named site locals e (.constant v)) (hv : v.type ≠ .void) :
      IsConstant e
  | paren {inner : Expr} {sp : Span} (h : IsConstant inner) : IsConstant (.paren inner sp)
  | unary {op : UnaryOp} {operand : Expr} {sp : Span} (hop : op = .plus ∨ op = .neg ∨ op = .not)
      (h : IsConstant operand) : IsConstant (.unary op operand sp)
  | binary {op : BinaryOp} {left right : Expr} {sp : Span} (hl : IsConstant left)
      (hr : IsConstant right) : IsConstant (.binary op left right sp)
  | conditional {condition yes no : Expr} {sp : Span} (hc : IsConstant condition)
      (hy : IsConstant yes) (hn : IsConstant no) : IsConstant (.conditional condition yes no sp)
  | length {object : Expr} {name : Ident} {sp : Span} (h : IsConstant object)
      (hname : name.name = "Length") : IsConstant (.member object name sp)
  | text {callee object : Expr} {name : Ident} {sp sp' : Span}
      (hcallee : callee.bare = .member object name sp) (hname : name.name = "ToString")
      (h : IsConstant object) : IsConstant (.call callee [] sp')

end

/-- Evaluating an expression ends with an overflow or a division by zero. -/
def Fails (K : Surroundings) (site : Site) (locals : LocalScope) (e : Expr) : Prop :=
  ∃ type err, Source.value K site locals e = some (type, .compute (.error err)) ∧
    (err = .overflow ∨ err = .divideByZero)

/-- Evaluating a part of an expression fails, whether or not the whole comes to it. -/
def PartFails (K : Surroundings) (site : Site) (locals : LocalScope) (e : Expr) : Prop :=
  ∃ part, Expr.Part part e ∧ Fails K site locals part

variable {K : Surroundings} {site : Site} {locals : LocalScope} {e l r c y n o callee : Expr}
  {sp : Span} {name : Ident} {m m' : Meaning} {bare : Bool}

theorem not_fails {type : ValueType} {v : Value}
    (h : Source.value K site locals e = some (type, pure v)) : ¬Fails K site locals e := by
  rintro ⟨type', err, h', -⟩
  rw [h] at h'
  have hrun := congrArg (fun a : Action Store Value => a ⟨#[], ⟨none, #[], default⟩⟩)
    (Prod.mk.inj (Option.some.inj h')).2
  cases hrun

/-- What fails is the whole or a part of an operand. -/
theorem PartFails.cases (h : PartFails K site locals e) :
    Fails K site locals e ∨ ∃ o ∈ e.operands, PartFails K site locals o := by
  obtain ⟨part, hpart, hfails⟩ := h
  cases hpart with
  | self => exact .inl hfails
  | operand ho h => exact .inr ⟨_, ho, part, h, hfails⟩

theorem PartFails.of_operand (ho : o ∈ e.operands) (h : PartFails K site locals o) :
    PartFails K site locals e :=
  let ⟨part, hpart, hfails⟩ := h
  ⟨part, .operand ho hpart, hfails⟩

theorem Fails.part (h : Fails K site locals e) : PartFails K site locals e := ⟨e, .self, h⟩

/-! ## Values, form by form -/

theorem value_literal {lit : Literal} :
    Source.value K site locals (.literal lit sp) = some (lit.value.type, pure lit.value) := by
  simp [Source.value, Source.sense, Sense.value?]

theorem value?_value (type : ValueType) (a : Action Store Value) :
    (Sense.value type a).value? = some (type, a) := rfl

/-- What is made of the value of an operand. -/
theorem sense_value {α : Type} (f : ValueType × Action Store Value → Option α) :
    ((Source.sense K site locals false e).bind fun s => s.value?.bind f) =
      (Source.value K site locals e).bind f := Option.bind_assoc .. |>.symm

theorem value_paren :
    Source.value K site locals (.paren e sp) = Source.value K site locals e := by
  rw [Source.value, Source.sense]
  simp only [Bool.false_eq_true, if_false, Option.bind_eq_bind, sense_value, Option.bind_assoc,
    Option.bind_some, value?_value]
  exact Option.bind_fun_some _

theorem value_unary {op : UnaryOp} (hop : op = .plus ∨ op = .neg ∨ op = .not) :
    Source.value K site locals (.unary op e sp) =
      (Source.value K site locals e).bind fun x =>
        (unaryOp? op x.1).map fun code => (x.1, x.2 >>= Source.apply K code) := by
  have hstep : ¬(op = .increment ∨ op = .decrement) := by
    obtain rfl | rfl | rfl := hop <;> decide
  rw [Source.value, Source.sense]
  simp only [hstep, if_false, Option.bind_eq_bind, sense_value, Option.bind_assoc,
    Option.bind_some, value?_value, Option.map_eq_bind, Function.comp_def]

theorem value_logical {op : BinaryOp} (hop : op.isLogical = true) :
    Source.value K site locals (.binary op l r sp) =
      (Source.value K site locals l).bind fun x => (Source.value K site locals r).bind fun z =>
        if x.1 = .bool ∧ z.1 = .bool then some (.bool, Source.logical op x.2 z.2) else none := by
  rw [Source.value, Source.sense]
  simp only [hop, if_true, Option.bind_eq_bind, sense_value, Option.bind_assoc]
  refine Option.bind_congr fun x _ => Option.bind_congr fun z _ => ?_
  split <;> rfl

theorem value_binary {op : BinaryOp} (hop : op.isLogical = false) :
    Source.value K site locals (.binary op l r sp) =
      (Source.value K site locals l).bind fun x => (Source.value K site locals r).bind fun z =>
        (op.plan? x.1 z.1).map fun plan => (plan.result, Source.operate K plan x.2 z.2) := by
  rw [Source.value, Source.sense]
  simp only [hop, Bool.false_eq_true, if_false, Option.bind_eq_bind, sense_value, Option.bind_assoc,
    Option.bind_some, value?_value, Option.map_eq_bind, Function.comp_def]

theorem value_conditional :
    Source.value K site locals (.conditional c y n sp) =
      (Source.value K site locals c).bind fun x => (Source.value K site locals y).bind fun z =>
        (Source.value K site locals n).bind fun w => (branchType? z.1 w.1).bind fun type =>
          if x.1 = .bool then some (type, Source.choose x.2 (z.2 >>= Source.widen K z.1 type)
            (w.2 >>= Source.widen K w.1 type))
          else none := by
  rw [Source.value, Source.sense]
  simp only [Option.bind_eq_bind, sense_value, Option.bind_assoc]
  refine Option.bind_congr fun x _ => Option.bind_congr fun z _ => Option.bind_congr fun w _ =>
    Option.bind_congr fun type _ => ?_
  split <;> rfl

/-- The length of a text. -/
theorem value_length {a : Action Store Value}
    (h : Source.value K site locals o = some (.string, a)) (hname : name.name = "Length") :
    Source.value K site locals (.member o name sp) =
      some (.int, a >>= Source.apply K (some .strLen)) := by
  rw [Source.value, Activation.sense_member h, Sense.ofValue, if_pos ⟨rfl, hname⟩]
  rfl

/-- Only a text has a length. -/
theorem string_of_length {type : ValueType} {a : Action Store Value} {x : ValueType × Action Store Value}
    (h : Source.value K site locals o = some (type, a)) (hname : name.name = "Length")
    (hx : Source.value K site locals (.member o name sp) = some x) : type = .string := by
  by_contra hstring
  rw [Source.value, Activation.sense_member h, Sense.ofValue, if_neg fun h => hstring h.1,
    if_neg fun h => by simp [hname] at h] at hx
  cases hc : site.symbols.keywordClass? type <;> rw [hc] at hx <;> cases hx

/-- Parentheses around what is called do not count. -/
theorem sense_bare : (e : Expr) →
    Source.sense K site locals true e = Source.sense K site locals true e.bare
  | .paren inner _ => by
    rw [Source.sense, Expr.bare]
    exact sense_bare inner
  | .literal .. | .ident _ | .this _ | .binary .. | .unary .. | .post .. | .assign ..
  | .conditional .. | .call .. | .member .. => rfl

/-- The text of a value. -/
theorem value_text {type : ValueType} {a : Action Store Value}
    (h : Source.value K site locals o = some (type, a)) (htype : type ≠ .void)
    (hcallee : callee.bare = .member o name sp) (hname : name.name = "ToString") {sp' : Span} :
    Source.value K site locals (.call callee [] sp') =
      some (.string, if type = .string then a else a >>= Source.apply K (some .toStr)) := by
  have hsense : Source.sense K site locals true callee = some (.text type a) := by
    rw [sense_bare, hcallee, Activation.sense_member h, Sense.ofValue,
      if_neg fun h => by simp [hname] at h, if_pos ⟨hname, htype⟩]
  rw [Source.value, Source.sense, hsense]
  rfl

/-! ## Names -/

theorem Named.sense (h : Named site locals e m) :
    Source.sense K site locals false e = some (.name m) := by
  induction h with
  | ident h => rw [Source.sense, h]; rfl
  | member _ hm hm' ih => rw [Activation.sense_named ih hm, hm']; rfl

theorem Named.value {v : Value} (h : Named site locals e (.constant v)) :
    Source.value K site locals e = some (v.type, pure v) := by
  rw [Source.value, h.sense]
  rfl

theorem Named.no_value (h : Named site locals e m) (hm : isName m = true) :
    Source.value K site locals e = none := by
  have hnone : (Sense.name m).value? = none := by cases m <;> first | rfl | cases hm
  rw [Source.value, h.sense]
  exact hnone

theorem Named.operand (h : Named site locals e m) (ho : o ∈ e.operands) :
    ∃ m', Named site locals o m' ∧ isName m' = true := by
  cases h with
  | ident => cases ho
  | member h hm =>
    obtain rfl := List.mem_singleton.mp ho
    exact ⟨_, h, hm⟩

/-- No part of a name has a value. -/
theorem Named.not_partFails (h : Named site locals e m) (hm : isName m = true) :
    ¬PartFails K site locals e := by
  rintro ⟨part, hpart, type, err, hvalue, -⟩
  induction hpart generalizing m with
  | self =>
    rw [h.no_value hm] at hvalue
    cases hvalue
  | operand ho _ ih =>
    obtain ⟨m', h', hm'⟩ := h.operand ho
    exact ih h' hm'

/-- A name is laid out as what it means, without code. -/
theorem Named.means (h : Named site locals e m) {T : Tables} {use : Use} {is : Asm}
    (hmeans : Means T site locals use e is m') : is = [] ∧ m' = m := by
  have pushed {object : Expr} {m₀ : Meaning} (hm₀ : isName m₀ = true) {js : Asm} {p : Pushed}
      (ih : ∀ {js m'}, Means T site locals .value object js m' → js = [] ∧ m' = m₀)
      (hv : Values T site locals object js p) : False := by
    obtain ⟨hobject, hp⟩ := hv
    obtain ⟨-, rfl⟩ := ih hobject
    cases hp <;> cases hm₀
  induction h generalizing use is m' with
  | ident h =>
    cases hmeans with
    | ident h' => exact ⟨rfl, Option.some.inj (congrArg Source.answer? (h'.symm.trans h))⟩
  | member h hm₁ hm' ih =>
    cases hmeans with
    | member hobject _ hm₂ =>
      obtain ⟨rfl, rfl⟩ := ih hobject
      exact ⟨rfl, Option.some.inj (congrArg Source.answer? (hm₂.symm.trans hm'))⟩
    | length hv => exact (pushed hm₁ ih hv).elim
    | lengthKnown hv => exact (pushed hm₁ ih hv).elim
    | text hv => exact (pushed hm₁ ih hv).elim
    | methods hv => exact (pushed hm₁ ih hv).elim

/-! ## Accepted expressions -/

theorem not_partFails {type : ValueType} {v : Value}
    (h : Source.value K site locals e = some (type, pure v))
    (ho : ∀ o ∈ e.operands, ¬PartFails K site locals o) : ¬PartFails K site locals e :=
  fun hfails => hfails.cases.elim (not_fails h) fun ⟨o, hmem, hpart⟩ => ho o hmem hpart

/-- The code of an expression is one push of a value, and this is what the expression computes. -/
structure Folded (T : Tables) (site : Site) (locals : LocalScope) (e : Expr) (is : Asm) (p : Pushed)
    (v : Value) : Prop where
  type : p.type = v.type
  constant : p.constant = some v
  valued : v.type ≠ .void
  pushes : Pushes T v is
  computes : ∀ K, Source.value K site locals e = some (v.type, pure v)
  parts : ∀ K, ¬PartFails K site locals e

/-- Wherever the expression is accepted, it is folded. -/
def Folds (site : Site) (locals : LocalScope) (e : Expr) : Prop :=
  ∀ T is p, Values T site locals e is p → ∃ v, Folded T site locals e is p v

variable {T : Tables} {is js : Asm} {p q : Pushed} {v w : Value}

namespace Folded

/-- A known value in place of the code of the operands. -/
theorem known (hjs : Pushes T v js) (hv : v.type ≠ .void)
    (hcomputes : ∀ K, Source.value K site locals e = some (v.type, pure v))
    (ho : ∀ K, ∀ o ∈ e.operands, ¬PartFails K site locals o) (start : Nat) :
    Folded T site locals e js (.known v start) v :=
  ⟨rfl, rfl, hv, hjs, hcomputes, fun K => not_partFails (hcomputes K) (ho K)⟩

theorem not_unknown (h : Folded T site locals e is p v) : p.constant ≠ none := by
  rw [h.constant]
  nofun

/-- An operand behind its conversion. -/
theorem converts (h : Folded T site locals e is p v) {target : ValueType} {code : Option Opcode}
    (hc : Converts target p code q) (hcode : Flow.Turns p.type target code)
    (hw : q.constant = some w) :
    w.type = target ∧ ∀ K, Source.apply K code v = pure w := by
  cases hc with
  | none =>
    obtain rfl := Option.some.inj (h.constant.symm.trans hw)
    exact ⟨h.type.symm.trans hcode, fun _ => rfl⟩
  | unknown => cases hw
  | known hv hop =>
    cases hw
    obtain rfl := Option.some.inj (h.constant.symm.trans hv)
    have htype := Opcode.evalUnary_computes hcode h.type.symm true
    rw [hop] at htype
    exact ⟨htype, fun _ => Source.apply_known hop⟩

theorem converted_known (h : Folded T site locals e is p v) {target : ValueType}
    {code : Option Opcode} (hc : Converts target p code q) : q.constant ≠ none := by
  cases hc with
  | none => exact h.not_unknown
  | unknown hp => exact (h.not_unknown hp).elim
  | known => nofun

/-- Nothing but a condition converts to one. -/
theorem condition (h : Folded T site locals e is p v) (hc : Coerces T p is .bool js q)
    {u : Value} (hu : q.constant = some u) : ∃ b, v = .bool b ∧ u = .bool b := by
  have hbool : q = p ∧ p.type = .bool := by
    cases hc with
    | identity hi => exact ⟨rfl, by cases ht : p.type <;> simp_all [Conversion.implicit?]⟩
    | widen hi => cases ht : p.type <;> simp_all [Conversion.implicit?]
    | known hi => cases ht : p.type <;> simp_all [Conversion.implicit?]
  obtain ⟨rfl, htype⟩ := hbool
  obtain rfl := Option.some.inj (h.constant.symm.trans hu)
  have := h.type.symm.trans htype
  cases v <;> cases this
  exact ⟨_, rfl, rfl⟩

theorem coerced_known (h : Folded T site locals e is p v) (hc : Coerces T p is .bool js q) :
    q.constant ≠ none := by
  cases hc with
  | identity => exact h.not_unknown
  | widen _ hp => exact (h.not_unknown hp).elim
  | known => nofun

end Folded

namespace Folds

theorem literal {lit : Literal} : Folds site locals (.literal lit sp) := by
  rintro T is p ⟨hm, hp⟩
  cases hm with
  | literal hpush =>
    cases hp
    rw [List.append_nil]
    exact ⟨_, .known hpush (by cases lit <;> nofun) (fun _ => value_literal) (by simp [Expr.operands]) _⟩

theorem library (h : Named site locals e (.constant v)) (hv : v.type ≠ .void) :
    Folds site locals e := by
  rintro T is p ⟨hm, hp⟩
  obtain ⟨rfl, rfl⟩ := h.means hm
  cases hp with
  | constant hpush =>
    refine ⟨v, .known hpush hv (fun _ => h.value) (fun K o ho => ?_) _⟩
    obtain ⟨m, h', hm'⟩ := h.operand ho
    exact h'.not_partFails hm'

theorem paren (ih : Folds site locals e) : Folds site locals (.paren e sp) := by
  rintro T is p ⟨hm, hp⟩
  cases hm with
  | paren _ hv =>
    cases hp
    rw [List.append_nil]
    obtain ⟨v, hf⟩ := ih _ _ _ hv
    have hvalue (K : Surroundings) : Source.value K site locals (.paren e sp) = some (v.type, pure v) :=
      value_paren.trans (hf.computes K)
    exact ⟨v, hf.type, hf.constant, hf.valued, hf.pushes, hvalue, fun K =>
      not_partFails (hvalue K) (by simpa [Expr.operands] using hf.parts K)⟩

theorem unary {op : UnaryOp} (hop : op = .plus ∨ op = .neg ∨ op = .not) (ih : Folds site locals e) :
    Folds site locals (.unary op e sp) := by
  rintro T is p ⟨hm, hp⟩
  have value {p : Pushed} {v w : Value} {is : Asm} {code : Option Opcode}
      (hf : Folded T site locals e is p v) (hcode : unaryOp? op p.type = some code)
      (htype : w.type = v.type) (hw : ∀ K, Source.apply K code v = pure w) (K : Surroundings) :
      Source.value K site locals (.unary op e sp) = some (w.type, pure w) := by
    rw [value_unary hop, hf.computes K, Option.bind_some, ← hf.type, hcode, htype, ← hf.type]
    simp only [Option.map_some, pure_bind, hw]
  cases hm with
  | same hv hcode =>
    cases hp
    rw [List.append_nil]
    obtain ⟨v, hf⟩ := ih _ _ _ hv
    have hvalue := value hf hcode rfl fun _ => rfl
    exact ⟨v, hf.type, hf.constant, hf.valued, hf.pushes, hvalue, fun K =>
      not_partFails (hvalue K) (by simpa [Expr.operands] using hf.parts K)⟩
  | unary hv _ hc =>
    obtain ⟨v, hf⟩ := ih _ _ _ hv
    exact (hf.not_unknown hc).elim
  | unaryKnown hv hcode hc hw hjs =>
    cases hp
    rw [List.append_nil]
    obtain ⟨v, hf⟩ := ih _ _ _ hv
    obtain rfl := Option.some.inj (hf.constant.symm.trans hc)
    have htype := Opcode.evalUnary_computes (Flow.unaryOp_typed hcode) hf.type.symm true
    rw [hw] at htype
    have htype := htype.trans hf.type
    exact ⟨_, .known hjs (htype ▸ hf.valued) (value hf hcode htype fun _ => Source.apply_known hw)
      (fun K => by simpa [Expr.operands] using hf.parts K) _⟩
  | before hstep => obtain rfl | rfl | rfl := hop <;> simp at hstep

theorem binary {op : BinaryOp} (ihl : Folds site locals l) (ihr : Folds site locals r) :
    Folds site locals (.binary op l r sp) := by
  rintro T is p ⟨hm, hp⟩
  cases hm with
  | logical _ hl hr hlt hrt hc =>
    obtain ⟨v, hf⟩ := ihl _ _ _ hl
    obtain ⟨w, hg⟩ := ihr _ _ _ hr
    have hv := hf.type.symm.trans hlt
    have hw := hg.type.symm.trans hrt
    cases v <;> cases hv
    cases w <;> cases hw
    exact (hc _ _ hf.constant hg.constant).elim
  | logicalKnown hop hl hr hlt hrt ha hb hks =>
    cases hp
    rw [List.append_nil]
    obtain ⟨v, hf⟩ := ihl _ _ _ hl
    obtain ⟨w, hg⟩ := ihr _ _ _ hr
    obtain rfl := Option.some.inj (hf.constant.symm.trans ha)
    obtain rfl := Option.some.inj (hg.constant.symm.trans hb)
    refine ⟨_, .known hks nofun (fun K => ?_) (fun K => ?_) _⟩
    · simp only [value_logical hop, hf.computes K, hg.computes K, Option.bind_some,
        Source.logical_known, Value.type, and_self, if_true]
    · simpa [Expr.operands] using ⟨hf.parts K, hg.parts K⟩
  | binary _ hl hr _ hl' hr' hc =>
    obtain ⟨v, hf⟩ := ihl _ _ _ hl
    obtain ⟨w, hg⟩ := ihr _ _ _ hr
    exact (hc.elim (hf.converted_known hl') (hg.converted_known hr')).elim
  | @binaryKnown _ _ _ _ _ _ _ _ _ _ _ _ plan _ _ _ _ hop hl hr hplan hl' hr' ha hb hx hks =>
    cases hp
    rw [List.append_nil]
    obtain ⟨v, hf⟩ := ihl _ _ _ hl
    obtain ⟨w, hg⟩ := ihr _ _ _ hr
    have htyped := Flow.plan_typed hplan
    obtain ⟨hat, hv'⟩ := hf.converts hl' htyped.left ha
    obtain ⟨hbt, hw'⟩ := hg.converts hr' htyped.right hb
    have htype := Opcode.evalBinary_computes htyped.op hat hbt true
    rw [hx] at htype
    have htype : Value.type _ = plan.result := htype
    have hvalued : plan.result ≠ .void := fun hvoid => Flow.void_not_computed (hvoid ▸ htyped.op)
    refine ⟨_, .known hks (htype ▸ hvalued) (fun K => ?_) (fun K => ?_) _⟩
    · rw [value_binary hop, hf.computes K, hg.computes K]
      simp only [Option.bind_some, ← hf.type, ← hg.type, hplan, Option.map_some,
        Source.operate_known (hv' K) (hw' K) hx, htype]
    · simpa [Expr.operands] using ⟨hf.parts K, hg.parts K⟩

theorem conditional (ihc : Folds site locals c) (ihy : Folds site locals y)
    (ihn : Folds site locals n) : Folds site locals (.conditional c y n sp) := by
  rintro T is p ⟨hm, hp⟩
  cases hm with
  | conditional hcond hc hyes hno _ hk =>
    obtain ⟨u, hf⟩ := ihc _ _ _ hcond
    obtain ⟨v, hg⟩ := ihy _ _ _ hyes
    obtain ⟨w, hh⟩ := ihn _ _ _ hno
    exact (hk.elim (hf.coerced_known hc) (Or.elim · hg.not_unknown hh.not_unknown)).elim
  | conditionalKnown hcond hc hyes hno htype hu hv hw hx hls =>
    cases hp
    rw [List.append_nil]
    obtain ⟨u, hf⟩ := ihc _ _ _ hcond
    obtain ⟨v, hg⟩ := ihy _ _ _ hyes
    obtain ⟨w, hh⟩ := ihn _ _ _ hno
    obtain rfl := Option.some.inj (hg.constant.symm.trans hv)
    obtain rfl := Option.some.inj (hh.constant.symm.trans hw)
    obtain ⟨b, rfl, rfl⟩ := hf.condition hc hu
    obtain ⟨hy, hn⟩ := Activation.Gives.branch_converts htype
    obtain ⟨hvalued, -⟩ := Flow.branch_turns htype
    rw [hg.type] at hy htype
    rw [hh.type] at hn htype
    have hvtype := Flow.type_of_convert? hx
    refine ⟨_, .known hls (hvtype ▸ hvalued) (fun K => ?_) (fun K => ?_) _⟩
    · have hbool : (Value.bool b).type = .bool := rfl
      simp only [value_conditional, hf.computes K, hg.computes K, hh.computes K, Option.bind_some,
        htype, hbool, if_true, hvtype]
      rw [Source.choose_known hy hn (by cases b <;> exact hx)]
    · simpa [Expr.operands] using ⟨hf.parts K, hg.parts K, hh.parts K⟩

theorem length (hname : name.name = "Length")
    (hobject : ∀ T is m, Means T site locals .value o is m → isName m = false)
    (ih : Folds site locals o) : Folds site locals (.member o name sp) := by
  rintro T is p ⟨hm, hp⟩
  cases hm with
  | member hm hname => exact absurd hname (by simp [hobject _ _ _ hm])
  | length hv _ _ hc =>
    obtain ⟨v, hf⟩ := ih _ _ _ hv
    exact (hf.not_unknown hc).elim
  | lengthKnown hv hstring _ hc hw hjs =>
    cases hp
    rw [List.append_nil]
    obtain ⟨v, hf⟩ := ih _ _ _ hv
    obtain rfl := Option.some.inj (hf.constant.symm.trans hc)
    have htype := hf.type.symm.trans hstring
    have hlen : Opcode.strLen.unaryType? v.type = some .int := by rw [htype]; rfl
    have hwtype := Opcode.evalUnary_computes hlen rfl true
    rw [hw] at hwtype
    have hwtype : Value.type _ = .int := hwtype
    refine ⟨_, .known hjs (hwtype ▸ by decide) (fun K => ?_) (fun K => ?_) _⟩
    · rw [value_length (htype ▸ hf.computes K) hname, pure_bind, Source.apply_known hw, hwtype]
    · simpa [Expr.operands] using hf.parts K
  | text _ _ htext => simp [hname] at htext
  | methods => cases hp

/-- Parentheses around what is called leave its layout. -/
theorem means_bare : (e : Expr) → ∀ {is m}, Means T site locals .bare e is m →
    Means T site locals .bare e.bare is m
  | .paren inner _, _, _, h => by
    cases h with
    | bare h => exact means_bare inner h
    | paren huse => exact (huse rfl).elim
  | .literal .., _, _, h | .ident _, _, _, h | .this _, _, _, h | .binary .., _, _, h
  | .unary .., _, _, h | .post .., _, _, h | .assign .., _, _, h | .conditional .., _, _, h
  | .call .., _, _, h | .member .., _, _, h => h

/-- Parentheses neither fail nor keep from failing. -/
theorem partFails_bare : (e : Expr) → PartFails K site locals e → PartFails K site locals e.bare
  | .paren inner _, h => by
    refine partFails_bare inner (h.cases.elim (fun hself => ?_) fun ⟨o, ho, hpart⟩ => ?_)
    · obtain ⟨type, err, hvalue, herr⟩ := hself
      exact Fails.part ⟨type, err, value_paren.symm.trans hvalue, herr⟩
    · exact List.mem_singleton.mp ho ▸ hpart
  | .literal .., h | .ident _, h | .this _, h | .binary .., h | .unary .., h | .post .., h
  | .assign .., h | .conditional .., h | .call .., h | .member .., h => h

/-- What is called for a text has no value of its own. -/
theorem not_partFails_callee {type : ValueType} {a : Action Store Value}
    (ho : Source.value K site locals o = some (type, a)) (htype : type ≠ .void)
    (hcallee : callee.bare = .member o name sp) (hname : name.name = "ToString")
    (hparts : ¬PartFails K site locals o) : ¬PartFails K site locals callee := by
  intro hfails
  have hfails := partFails_bare callee hfails
  rw [hcallee] at hfails
  obtain ⟨type', err, hvalue, -⟩ | ⟨x, hx, hpart⟩ := hfails.cases
  · rw [Source.value, Activation.sense_member ho, Sense.ofValue,
      if_neg fun h => by simp [hname] at h, if_pos ⟨hname, htype⟩] at hvalue
    cases hvalue
  · exact hparts (List.mem_singleton.mp hx ▸ hpart)

theorem text (hcallee : callee.bare = .member o name sp) (hname : name.name = "ToString")
    (hobject : ∀ T is m, Means T site locals .value o is m → isName m = false)
    (ih : Folds site locals o) {sp' : Span} : Folds site locals (.call callee [] sp') := by
  rintro T is p ⟨hm, hp⟩
  cases hm with
  | call hm hargs hcall =>
    cases hp
    cases hargs
    rw [List.append_nil]
    have hm := means_bare callee hm
    rw [hcallee] at hm
    cases hm with
    | member hm hname => exact absurd hname (by simp [hobject _ _ _ hm])
    | text hv hvoid =>
      obtain ⟨v, hf⟩ := ih _ _ _ hv
      have hvalue (K : Surroundings) : Source.value K site locals (.call callee [] sp') = some
          (.string, if v.type = .string then pure v else pure v >>= Source.apply K (some .toStr)) :=
        value_text (hf.computes K) hf.valued hcallee hname
      have parts (K : Surroundings) : ∀ x ∈ (Expr.call callee [] sp').operands,
          ¬PartFails K site locals x := by
        simpa [Expr.operands] using not_partFails_callee (hf.computes K) hf.valued hcallee hname
          (hf.parts K)
      cases hcall with
      | string _ hstring =>
        have htype := hf.type.symm.trans hstring
        have hcomputes (K : Surroundings) := (hvalue K).trans (by rw [if_pos htype, ← htype])
        exact ⟨v, hf.type, hf.constant, hf.valued, hf.pushes, hcomputes, fun K =>
          not_partFails (hcomputes K) (parts K)⟩
      | text _ _ hc => exact (hf.not_unknown hc).elim
      | textKnown _ hstring hc hw hjs =>
        obtain rfl := Option.some.inj (hf.constant.symm.trans hc)
        have hwtype := Opcode.evalUnary_computes (Flow.toStr_typed hf.valued) rfl true
        rw [hw] at hwtype
        have hwtype : Value.type _ = .string := hwtype
        refine ⟨_, .known hjs (hwtype ▸ by decide) (fun K => (hvalue K).trans ?_) parts _⟩
        rw [if_neg (hf.type ▸ hstring), pure_bind, Source.apply_known hw, hwtype]
    | methods hv _ htext _ =>
      obtain ⟨v, hf⟩ := ih _ _ _ hv
      exact (htext ⟨hname, hf.type ▸ hf.valued⟩).elim

end Folds

/-- The value of a constant expression is no mere name. -/
theorem IsConstant.not_name (h : IsConstant site locals e) :
    ∀ T is m, Means T site locals .value e is m → isName m = false := by
  induction h with
  | library h => 
    intro T is m hm
    obtain ⟨-, rfl⟩ := h.means hm
    rfl
  | length _ _ ih =>
    intro T is m hm
    cases hm with
    | member hm hname => exact absurd hname (by simp [ih _ _ _ hm])
    | _ => rfl
  | _ => 
    intro T is m hm
    cases hm <;> rfl

/-- Constant expressions that are accepted are folded. -/
theorem IsConstant.folds (h : IsConstant site locals e) : Folds site locals e := by
  induction h with
  | literal => exact .literal
  | library h hv => exact .library h hv
  | paren _ ih => exact ih.paren
  | unary hop _ ih => exact ih.unary hop
  | binary _ _ ihl ihr => exact ihl.binary ihr
  | conditional _ _ _ ihc ihy ihn => exact ihc.conditional ihy ihn
  | length h hname ih => exact .length hname h.not_name ih
  | text hcallee hname h ih => exact .text hcallee hname h.not_name ih

end Folding
end ClassScript
