import ClassScript.Proofs.Overload
import ClassScript.Proofs.Source.Expression

/-!
Instructions do what operators mean.

The compiler plans an operator as conversions of its operands and one instruction, and it takes types,
steps, overloads and names from tables and searches of its own. Each of these agrees with what is said
about values and about the tree. So an expression that comes to something in instructions stands for
just that (`Source.denote_of_sense`).
-/

namespace ClassScript.Source

open Compile (Use classAt nameMeaning thisMeaning memberMeaning placeOf unaryOp? stepOp one branchType?)

variable {checked : Bool} {op : BinaryOp} {l r s t type : ValueType} {x y : Int}

/-! ## Types -/

@[simp] theorem suits_eq : suits s t = s.convertsTo t := by
  cases s <;> cases t <;> rfl

@[simp] theorem isNumber_eq : isNumber type = type.isNumeric := by
  cases type <;> rfl

theorem common?_of_equality (hl : l ≠ .void) (h : l.equalityType? r = some t) :
    common? l r = some t := by
  rw [← h]
  cases l <;> cases r <;> first | rfl | exact absurd rfl hl

theorem common?_of_promotion (h : l.promotion? r = some t) : common? l r = some t := by
  rw [← h]
  cases l <;> cases r <;> first | rfl | cases h

theorem common?_of_branch (h : branchType? l r = some t) : common? l r = some t := by
  rw [← h]
  cases l <;> cases r <;> rfl

@[simp] theorem nearer_eq : nearer type s t = type.prefers s t := by
  simp only [nearer, ValueType.prefers, suits_eq]

/-! ## Conversions -/

def turned (checked : Bool) (op : Option Opcode) (v : Value) : Except EvalError Value :=
  op.elim (.ok v) fun op => op.evalUnary checked v

theorem convert_eq (checked : Bool) (v : Value) :
    convert s t v = turned checked (Conversion.widening? s t) v := by
  cases s <;> cases t <;> first | rfl | (cases v <;> rfl)

theorem textOf_eq (checked : Bool) (v : Value) :
    textOf type v = turned checked (if type = .string then none else some .toStr) v := by
  by_cases h : type = .string
  · simp only [textOf, if_pos h, turned, Option.elim_none]
  · simp only [textOf, if_neg h, turned, Option.elim_some]
    cases v <;> rfl

theorem lengthOf_eq (checked : Bool) (v : Value) :
    lengthOf v = Opcode.strLen.evalUnary checked v := by
  cases v <;> rfl

theorem join_eq (v w : Value) : join v w = Opcode.concat.evalBinary checked v w := by
  cases v <;> cases w <;> rfl

/-! ## Integers -/

/-- Only one quotient of numbers that fit does not fit itself. -/
theorem fitsSigned_tdiv {bits : Nat} (hx : fitsSigned bits x) (hy : y ≠ 0) :
    fitsSigned bits (x.tdiv y) ↔ ¬ (x = -signedLimit bits ∧ y = -1) := by
  have hpos : 0 < signedLimit bits := by
    rw [signedLimit, Int.ofNat_eq_natCast]
    exact_mod_cast Nat.two_pow_pos (bits - 1)
  rw [fitsSigned_iff] at hx ⊢
  have habs : (x.tdiv y).natAbs = x.natAbs / y.natAbs := Int.natAbs_tdiv x y
  have hle : (x.tdiv y).natAbs ≤ x.natAbs := habs ▸ Nat.div_le_self ..
  constructor
  · rintro ⟨-, hlt⟩ ⟨rfl, rfl⟩
    rw [Int.tdiv_neg, Int.tdiv_one] at hlt
    omega
  · intro hne
    by_cases hone : y.natAbs = 1
    · obtain rfl | rfl : y = 1 ∨ y = -1 := by omega
      · rwa [Int.tdiv_one]
      · rw [Int.tdiv_neg, Int.tdiv_one]
        omega
    · -- any other divisor leaves no more than half of the dividend
      have hhalf : x.natAbs / y.natAbs ≤ x.natAbs / 2 := Nat.div_le_div_left (by omega) (by omega)
      omega

theorem fitsSigned_tmod {bits : Nat} (hx : fitsSigned bits x) : fitsSigned bits (x.tmod y) := by
  rw [fitsSigned_iff] at hx ⊢
  have habs : (x.tmod y).natAbs = x.natAbs % y.natAbs := Int.natAbs_tmod x y
  have hle : (x.tmod y).natAbs ≤ x.natAbs := habs ▸ Nat.mod_le ..
  rcases Int.le_total 0 x with hsign | hsign
  · have := Int.tmod_nonneg y hsign
    omega
  · have hneg : (-x).tmod y = -x.tmod y := Int.neg_tmod x y
    have := Int.tmod_nonneg y (show 0 ≤ -x by omega)
    omega

def arithOf? : BinaryOp → Option Arith
  | .add => some .add
  | .sub => some .sub
  | .mul => some .mul
  | .div => some .div
  | .rem => some .rem
  | _ => none

def orderOf? : BinaryOp → Option Order
  | .less => some .lt
  | .lessEqual => some .le
  | .greater => some .gt
  | .greaterEqual => some .ge
  | _ => none

/-- An integer instruction fails exactly where there is no number to be had. -/
theorem integer_eq {bits : Nat} {a : Arith} (hop : arithOf? op = some a) (hx : fitsSigned bits x) :
    integer checked bits op x y = a.onBits checked bits x y := by
  have hwhole : whole op x y = a.onInt x y := by
    cases op <;> cases hop <;> rfl
  have hdivides : op = .div ∨ op = .rem ↔ a.isDivision = true := by
    cases op <;> cases hop <;> simp [Arith.isDivision]
  have hoverflows (hy : a.isDivision = true → y ≠ 0) : a.overflows checked bits x y = true ↔
      a.isDivision = true ∧ ¬ fitsSigned bits (x.tdiv y) ∨
        checked = true ∧ ¬ fitsSigned bits (a.onInt x y) := by
    by_cases hdiv : a.isDivision = true
    · have hquotient := fitsSigned_tdiv hx (hy hdiv)
      have hresult (hfits : fitsSigned bits (x.tdiv y)) : fitsSigned bits (a.onInt x y) := by
        cases a <;> try cases hdiv
        · exact hfits
        · exact fitsSigned_tmod hx
      simp only [Arith.overflows, hdiv, if_true, Bool.and_eq_true, beq_iff_eq, true_and]
      tauto
    · simp [Arith.overflows, hdiv]
  simp only [integer, Arith.onBits, hwhole, hdivides]
  by_cases hzero : a.isDivision = true ∧ y = 0
  · simp [hzero]
  · have hover := hoverflows fun hdiv hy => hzero ⟨hdiv, hy⟩
    simp only [hzero, if_false, Bool.and_eq_true, beq_iff_eq]
    by_cases hdiv : a.isDivision = true ∧ ¬ fitsSigned bits (x.tdiv y)
    · simp [hdiv, hover]
    · simp only [hover, hdiv, false_or, if_false]

/-! ## Numbers -/

variable {code : Opcode}

theorem type_of_numeric (h : op.numeric? type = some code) :
    type = .int ∨ type = .long ∨ type = .double := by
  cases type <;> simp [BinaryOp.numeric?] at h ⊢

theorem calculate_eq {a : Arith} (hop : arithOf? op = some a) (h : op.numeric? type = some code) :
    calculate checked op type = code.evalBinary checked := by
  obtain ⟨harith, hname⟩ : code.arith? = some (type, a) ∧ code = instruction type op := by
    cases op <;> cases hop <;> cases type <;> cases h <;> exact ⟨rfl, rfl⟩
  funext v w
  simp only [Opcode.evalBinary, harith]
  obtain rfl | rfl | rfl := type_of_numeric h <;> cases v <;> cases w <;>
    simp only [calculate, refuse, hname, List.map_cons, List.map_nil,
      integer_eq hop (fitsSigned_int32 _), integer_eq hop (fitsSigned_int64 _)]
  cases op <;> cases hop <;> rfl

theorem compare_eq {o : Order} (hop : orderOf? op = some o) (h : op.numeric? type = some code) :
    compare op type = code.evalBinary checked := by
  obtain ⟨harith, horder, hname⟩ : code.arith? = none ∧ code.order? = some (type, o) ∧
      code = instruction type op := by
    cases op <;> cases hop <;> cases type <;> cases h <;> exact ⟨rfl, rfl, rfl⟩
  have hint (x y : Int) : holds (· < ·) (· ≤ ·) op x y = o.onInt x y := by
    cases op <;> cases hop <;> rfl
  have hdouble (x y : Double) : holds Double.lt Double.le op x y = o.onDouble x y := by
    cases op <;> cases hop <;> rfl
  funext v w
  simp only [Opcode.evalBinary, harith, horder]
  obtain rfl | rfl | rfl := type_of_numeric h <;> cases v <;> cases w <;>
    simp only [compare, refuse, hname, hint, hdouble, List.map_cons, List.map_nil]

theorem same?_eq (v w : Value) :
    same? v w = if Opcode.comparable v w then some (v.equals w) else none := by
  cases v <;> cases w <;> simp [same?, Opcode.comparable, Value.equals, Value.type, Value.isVoid]

theorem equate_equal (checked : Bool) : equate .equal = Opcode.eq.evalBinary checked := by
  funext v w
  rw [equate, same?_eq]
  by_cases h : Opcode.comparable v w = true <;>
    simp [h, Opcode.evalBinary, Opcode.arith?, Opcode.order?, refuse, instruction]

theorem equate_notEqual (checked : Bool) : equate .notEqual = Opcode.ne.evalBinary checked := by
  funext v w
  rw [equate, same?_eq]
  by_cases h : Opcode.comparable v w = true <;>
    simp [h, Opcode.evalBinary, Opcode.arith?, Opcode.order?, refuse, instruction]

theorem next_eq {up : Bool} (h : type.isNumeric = true) (v : Value) :
    next checked up type v = (stepOp type up).evalBinary checked v (one type) := by
  have hunit : unit type = one type := by cases type <;> rfl
  obtain ⟨a, ha⟩ : ∃ a, arithOf? (if up then .add else .sub) = some a := by
    cases up <;> exact ⟨_, rfl⟩
  rw [next, hunit, calculate_eq ha]
  cases type <;> cases h <;> cases up <;> rfl

/-- The number of smallest value is the one that has none across zero. -/
theorem fitsSigned_neg32 (n : Int32) : fitsSigned 32 (-n.toInt) = (n != Int32.minValue) := by
  have hfits := fitsSigned32_iff.mp (fitsSigned_int32 n)
  have hmin : n = Int32.minValue ↔ n.toInt = -2147483648 := Int32.toInt_inj.symm
  rw [Bool.eq_iff_iff, fitsSigned32_iff, bne_iff_ne, ne_eq, hmin]
  omega

theorem fitsSigned_neg64 (n : Int64) : fitsSigned 64 (-n.toInt) = (n != Int64.minValue) := by
  have hfits := fitsSigned64_iff.mp (fitsSigned_int64 n)
  have hmin : n = Int64.minValue ↔ n.toInt = -9223372036854775808 := Int64.toInt_inj.symm
  rw [Bool.eq_iff_iff, fitsSigned64_iff, bne_iff_ne, ne_eq, hmin]
  omega

theorem negate_int {n : Int32} :
    negate checked .int (.int n) = Opcode.negI32.evalUnary checked (.int n) := by
  simp [negate, Opcode.evalUnary, fitsSigned_neg32, Int32.ofInt_neg]

theorem negate_long {n : Int64} :
    negate checked .long (.long n) = Opcode.negI64.evalUnary checked (.long n) := by
  simp [negate, Opcode.evalUnary, fitsSigned_neg64, Int64.ofInt_neg]

/-! ## Operators -/

/-- What the instructions of a plan do. -/
def Operation.ofPlan (checked : Bool) (plan : BinaryPlan) : Operation :=
  ⟨turned checked plan.left, turned checked plan.right, plan.op.evalBinary checked, plan.result⟩

theorem ofPlan_widening {code : Opcode} {result : ValueType} :
    Operation.ofPlan checked (.widening l r type code result) =
      ⟨convert l type, convert r type, code.evalBinary checked, result⟩ := by
  simp only [Operation.ofPlan, BinaryPlan.widening, Operation.mk.injEq, and_true]
  exact ⟨(funext (convert_eq checked)).symm, (funext (convert_eq checked)).symm⟩

theorem ofPlan_joining :
    Operation.ofPlan checked (.joining l r) = ⟨textOf l, textOf r, join, .string⟩ := by
  simp only [Operation.ofPlan, BinaryPlan.joining, Operation.mk.injEq, and_true]
  exact ⟨(funext (textOf_eq checked)).symm, (funext (textOf_eq checked)).symm, (funext₂ join_eq).symm⟩

theorem operator?_of_numeric (h : op.numeric? type = some code) :
    operator? checked op type =
      some (code.evalBinary checked, if op.isComparison then .bool else type) := by
  have hnumber : type.isNumeric = true := by
    obtain rfl | rfl | rfl := type_of_numeric h <;> rfl
  obtain ⟨a, ha⟩ | ⟨o, ho⟩ : (∃ a, arithOf? op = some a) ∨ ∃ o, orderOf? op = some o := by
    cases op <;> first
      | exact .inl ⟨_, rfl⟩
      | exact .inr ⟨_, rfl⟩
      | (cases type <;> cases h)
  · rw [← calculate_eq ha h]
    cases op <;> cases ha <;> simp [operator?, hnumber, BinaryOp.isComparison]
  · rw [← compare_eq ho h]
    cases op <;> cases ho <;> simp [operator?, hnumber, BinaryOp.isComparison]

/-- An operator that has a plan does what the instructions of the plan do. -/
theorem operation?_of_plan {plan : BinaryPlan} (h : op.plan? l r = some plan) :
    operation? checked op l r = some (.ofPlan checked plan) := by
  unfold BinaryOp.plan? at h
  split at h
  · cases h
  next hvoid =>
  have hl : l ≠ .void := by rintro rfl; exact hvoid rfl
  have hr : r ≠ .void := by rintro rfl; exact hvoid (by simp [ValueType.isVoid])
  split at h
  · cases h
  · cases h
  · obtain ⟨t, ht, rfl⟩ := Option.map_eq_some_iff.mp h
    simp [operation?, common?_of_equality hl ht, ofPlan_widening, operator?, equate_equal checked]
  · obtain ⟨t, ht, rfl⟩ := Option.map_eq_some_iff.mp h
    simp [operation?, common?_of_equality hl ht, ofPlan_widening, operator?, equate_notEqual checked]
  · split at h
    · next hjoin =>
      cases h
      rw [operation?, if_pos hjoin, if_neg (by simp [hl, hr]), ofPlan_joining]
    · next hjoin =>
      simp only [Option.bind_eq_bind, Option.bind_eq_some_iff] at h
      obtain ⟨t, ht, code, hcode, hp⟩ := h
      cases hp
      rw [operation?, if_neg hjoin, common?_of_promotion ht, ofPlan_widening]
      simp only [Option.bind_eq_bind, Option.bind_some, operator?_of_numeric hcode]

/-- An operator in front of its operand does what its instruction does. -/
theorem turn?_of_unaryOp {op : UnaryOp} {code : Option Opcode} (h : unaryOp? op type = some code) :
    turn? checked op type = some (turned checked code) := by
  cases op with
  | plus => cases type <;> cases h <;> rfl
  | not =>
    cases type <;> cases h
    refine congrArg some (funext fun v => ?_)
    cases v <;> rfl
  | neg =>
    obtain ⟨code, rfl, hnumber⟩ : ∃ c, code = some c ∧ isNumber type = true := by
      cases type <;> cases h <;> exact ⟨_, rfl, rfl⟩
    rw [turn?, if_pos hnumber]
    refine congrArg some (funext fun v => ?_)
    cases type <;> cases h <;> cases v <;> try rfl
    · exact negate_int
    · exact negate_long
  | increment => cases h
  | decrement => cases h

/-! ## Overloads -/

theorem leads_eq (args p q : List ValueType) : leads args p q = Overload.prefersSome args p q := by
  induction args generalizing p q with
  | nil => rfl
  | cons a as ih =>
    cases p with
    | nil => rfl
    | cons s ps =>
      cases q with
      | nil => rfl
      | cons t qs =>
        rw [Overload.prefersSome, ← ih, ← nearer_eq]
        rfl

theorem takes_eq (args p : List ValueType) :
    takes args p = (Overload.accepts p args && p.length == args.length) := by
  simp only [takes, Overload.accepts, suits_eq, Bool.and_comm]

theorem best?_of_resolve {args : List ValueType} {ps : List Overload.Params} {i : Nat}
    (h : Overload.resolve ps args = .ok i) : best? args ps = some i := by
  obtain ⟨p, hp, hbetter⟩ := Overload.better_of_resolve h
  have hable : (ps.zipIdx.filter fun c => takes args c.1) = Overload.applicable ps args := by
    simp only [Overload.applicable, List.filter_filter, takes_eq]
  have hbeats (p q : List ValueType) :
      (leads args p q && !leads args q p) = Overload.better args p q := by
    rw [Overload.better, leads_eq, leads_eq, Bool.and_comm]
  simp only [best?, hable, hbeats]
  cases hfind : (Overload.applicable ps args).find? _ with
  | none =>
    refine absurd ?_ (List.find?_eq_none.mp hfind _ hp)
    refine List.all_eq_true.mpr fun c hc => ?_
    by_cases heq : c.2 = i
    · simp [heq]
    · simp [hbetter c hc heq]
  | some c =>
    -- two candidates cannot each be better than the other one
    by_contra hne
    have hne : c.2 ≠ i := fun heq => hne (heq ▸ rfl)
    have hall := List.find?_some hfind
    have hworse := List.all_eq_true.mp hall _ hp
    have hbetter := hbetter c (List.mem_of_find?_eq_some hfind) hne
    simp [Overload.better_asymm hbetter, Ne.symm hne] at hworse

/-! ## Actions -/

variable {K : Surroundings}

theorem apply_eq (op : Option Opcode) : apply K op = fun v => .compute (turned K.checked op v) := by
  cases op <;> rfl

theorem widen_eq : widen K s t = become s t := by
  funext v
  rw [widen, apply_eq, become, convert_eq K.checked]

theorem combine_eq (plan : BinaryPlan) (a b : Action Store Value) :
    combine (.ofPlan K.checked plan) a b = operate K plan a b := by
  rw [operate, apply_eq, apply_eq]
  rfl

theorem advance_eq {place : Place} {up front : Bool} (h : place.type.isNumeric = true) :
    advance K place up front = count K place up front := by
  simp only [advance, count, next_eq h]

theorem hand_eq (items : List (ValueType × Action Store Value)) (params : List ValueType) :
    hand items params = pass K items params := by
  induction items generalizing params with
  | nil => rfl
  | cons item items ih =>
    cases params with
    | nil => rfl
    | cons param params => rw [hand, pass, ih, widen_eq]

/-! ## Names -/

@[simp] theorem answer?_fail {α : Type} (f : SemanticFault) (sp : Span) :
    answer? (Compile.fail f sp : Compiling α) = none := rfl

/-- What is read off the tree where something is found. -/
def Sense.denoted? : Sense → Option Denoted
  | .name (.localVar slot type) => some (.place (.localVar slot type))
  | .name (.field _ f) => some (.place (.field f))
  | .name (.constant v) => some (.value v.type (pure v))
  | .name (.methods (.script cls _) group) => some (.script cls group)
  | .name (.methods (.function c) group) => some (.functions c group)
  | .name (.type c) => some (.cls c)
  | .name (.space n) => some (.space n)
  | .name .this => some .this
  | .name _ => none
  | .value type a => some (.value type a)
  | .methods c type a group => some (.methods c type a group)
  | .text type a => some (.text type a)

variable {site : Site} {locals : LocalScope} {m : Meaning} {name : Ident} {sp : Span}

theorem outside?_of_outerMeaning (h : answer? (Compile.outerMeaning site name) = some m) :
    ∃ d, (Sense.name m).denoted? = some d ∧ outside? site name.name = some d := by
  unfold Compile.outerMeaning at h
  split at h
  · next c hc =>
    cases h
    exact ⟨_, rfl, by simp [outside?, hc]⟩
  next hc =>
  split at h
  · next n hn =>
    cases h
    exact ⟨_, rfl, by simp [outside?, hc, hn]⟩
  next hn =>
  split at h
  · next c hkeyword =>
    cases h
    refine ⟨_, rfl, ?_⟩
    simp only [Compile.keywordMeaning?, Option.bind_eq_bind, Option.bind_eq_some_iff] at hkeyword
    obtain ⟨type, htype, hfound⟩ := hkeyword
    split at hfound
    · cases hfound
    · next hvoid =>
      have hne : type ≠ .void := by rintro rfl; exact hvoid rfl
      simp [outside?, hc, hn, htype, Option.filter, hne, hfound]
  · cases h

theorem named?_of_nameMeaning (h : answer? (nameMeaning site locals name) = some m) :
    ∃ d, (Sense.name m).denoted? = some d ∧ named? site locals name.name = some d := by
  unfold nameMeaning at h
  split at h
  · next v hv =>
    cases h
    exact ⟨_, rfl, by simp [named?, hv]⟩
  next hv =>
  split at h
  · next f hf =>
    split at h
    · cases h
    · cases h
      exact ⟨_, rfl, by simp [named?, ownMember?, hv, hf]⟩
  next hf =>
  split at h
  · next hmethod =>
    cases h
    exact ⟨_, rfl, by simp [named?, ownMember?, hv, hf, hmethod]⟩
  · next hmethod =>
    obtain ⟨d, hd, hout⟩ := outside?_of_outerMeaning h
    exact ⟨d, hd, by simp [named?, ownMember?, hv, hf, hmethod, hout]⟩

theorem ownMember?_of_field {cls : Nat} {c : ClassSymbol} {f : FieldSymbol}
    (h : c.field? name.name = some f) : ownMember? cls c name.name = some (.place (.field f)) := by
  rw [ownMember?, h]

theorem ownMember?_of_method {cls : Nat} {c : ClassSymbol} (h : c.field? name.name = none)
    (hmethod : c.hasMethod name.name = true) :
    ownMember? cls c name.name = some (.script cls name.name) := by
  rw [ownMember?, h, if_pos hmethod]

theorem member_of_scriptMember {cls : Nat} (h : answer? (Compile.scriptMember site cls name) = some m) :
    ∃ d, (Sense.name m).denoted? = some d ∧
      ownMember? cls (classAt site cls) name.name = some d := by
  unfold Compile.scriptMember at h
  dsimp only at h
  split at h
  · next f hf =>
    unfold Compile.checkAccess at h
    split at h
    · cases h
    · split at h
      · cases h
        exact ⟨_, rfl, ownMember?_of_field hf⟩
      · cases h
  next hf =>
  split at h
  · next hmethod =>
    cases h
    exact ⟨_, rfl, ownMember?_of_method hf hmethod⟩
  · cases h

theorem member_of_thisMember (h : answer? (Compile.thisMember site name) = some m) :
    ∃ d, (Sense.name m).denoted? = some d ∧
      ownMember? site.cls site.owner name.name = some d := by
  unfold Compile.thisMember at h
  split at h
  · next f hf =>
    split at h
    · cases h
    · cases h
      exact ⟨_, rfl, ownMember?_of_field hf⟩
  next hf =>
  split at h
  · next hmethod =>
    cases h
    exact ⟨_, rfl, ownMember?_of_method hf hmethod⟩
  · cases h

theorem member_of_spaceMember {outer : String}
    (h : answer? (Compile.spaceMember site outer name) = some m) :
    ∃ d, (Sense.name m).denoted? = some d ∧
      (Denoted.space outer).member site name.name = some d := by
  unfold Compile.spaceMember at h
  dsimp only at h
  split at h
  · next c hc =>
    cases h
    exact ⟨_, rfl, by simp [Denoted.member, hc]⟩
  next hc =>
  split at h
  · next hspace =>
    cases h
    exact ⟨_, rfl, by simp [Denoted.member, hc, hspace]⟩
  · cases h

theorem member_of_libraryMember {c : NativeClass}
    (h : answer? (Compile.libraryMember c name) = some m) :
    ∃ d, (Sense.name m).denoted? = some d ∧
      (Denoted.cls (.native c)).member site name.name = some d := by
  unfold Compile.libraryMember at h
  split at h
  · next v hv =>
    cases h
    exact ⟨_, rfl, by simp [Denoted.member, hv]⟩
  next hv =>
  split at h
  · next hfunctions =>
    cases h
    refine ⟨_, rfl, ?_⟩
    simp_all [Denoted.member]
  · split at h <;> cases h

/-- A member of something named that has no value. -/
theorem member_of_memberMeaning {d : Denoted} (hvalue : (Sense.name m).value? = none)
    (hd : (Sense.name m).denoted? = some d) {m' : Meaning}
    (h : answer? (memberMeaning site m sp name) = some m') :
    ∃ d', (Sense.name m').denoted? = some d' ∧ d.member site name.name = some d' := by
  cases m with
  | localVar slot type => cases hvalue
  | field cls f => cases hvalue
  | constant v => cases hvalue
  | value p => cases hd
  | methods callee group => cases h
  | space outer =>
    cases hd
    exact member_of_spaceMember h
  | this =>
    cases hd
    exact member_of_thisMember h
  | type c =>
    cases hd
    cases c with
    | script i => exact member_of_scriptMember h
    | native c => exact member_of_libraryMember h

/-! ## Values, places and calls -/

variable {s : Sense} {d : Denoted} {items : List (ValueType × Action Store Value)}

theorem value?_of_denoted (hd : s.denoted? = some d) {x : ValueType × Action Store Value}
    (h : s.value? = some x) : d.value? = some x := by
  cases s with
  | name m => cases m <;> cases h <;> cases hd <;> rfl
  | value type a =>
    cases hd
    exact h
  | methods c type a group => cases h
  | text type a => cases h

theorem place?_of_denoted (hd : s.denoted? = some d) {p : Place}
    (h : s.place? site sp = some p) : d.place? = some p := by
  cases s with
  | name m =>
    cases m with
    | localVar slot type =>
      cases h
      cases hd
      rfl
    | field cls f =>
      simp only [Sense.place?, placeOf] at h
      split at h
      · cases h
        cases hd
        rfl
      · cases h
    | _ => cases h
  | _ => cases h

theorem ofValue_of_denoted {a : Action Store Value} {s' : Sense}
    (h : Sense.ofValue K site type a name = some s') :
    ∃ d', s'.denoted? = some d' ∧ Denoted.ofValue site type a name.name = some d' := by
  unfold Sense.ofValue at h
  unfold Denoted.ofValue
  split at h
  · next hlength =>
    cases h
    refine ⟨_, rfl, ?_⟩
    rw [if_pos hlength, apply_eq]
    simp only [turned, Option.elim_some, lengthOf_eq K.checked]
  next hlength =>
  split at h
  · next htext =>
    cases h
    exact ⟨_, rfl, by rw [if_neg hlength, if_pos htext]⟩
  · next htext =>
    obtain ⟨c, hc, rfl⟩ := Option.map_eq_some_iff.mp h
    exact ⟨_, rfl, by rw [if_neg hlength, if_neg htext, hc, Option.map_some]⟩

theorem member_of_denoted (hd : s.denoted? = some d) {s' : Sense}
    (h : s.member K site sp name = some s') :
    ∃ d', s'.denoted? = some d' ∧ d.member site name.name = some d' := by
  unfold Sense.member at h
  split at h
  · next type a hvalue =>
    obtain ⟨d', hd', hmember⟩ := ofValue_of_denoted h
    refine ⟨d', hd', ?_⟩
    have hd := value?_of_denoted hd hvalue
    cases d <;> cases hd <;> exact hmember
  · next hvalue =>
    cases s with
    | name m =>
      obtain ⟨m', hm', rfl⟩ := Option.map_eq_some_iff.mp h
      exact member_of_memberMeaning hvalue hd hm'
    | _ => cases h

theorem meant_of_chosen {α : Type} {candidates : List α} {params : α → List ValueType} {c : α}
    (h : chosen candidates params items = some c) : meant candidates params items = some c := by
  obtain ⟨i, hi, hc⟩ := Option.bind_eq_some_iff.mp h
  have hresolve : Overload.resolve (candidates.map params) (items.map (·.1)) = .ok i := by
    cases hr : Overload.resolve (candidates.map params) (items.map (·.1)) with
    | ok j =>
      rw [hr] at hi
      cases hi
      rfl
    | error e =>
      rw [hr] at hi
      cases hi
  rw [meant, best?_of_resolve hresolve]
  exact hc

theorem call_of_denoted (hd : s.denoted? = some d) {s' : Sense}
    (h : s.call K site items = some s') :
    ∃ d', s'.denoted? = some d' ∧ d.call K site items = some d' := by
  unfold Sense.call at h
  split at h
  · obtain ⟨⟨m, i⟩, hm, h⟩ := Option.bind_eq_some_iff.mp h
    cases h
    cases hd
    refine ⟨_, rfl, ?_⟩
    simp only [Denoted.call, meant_of_chosen hm, hand_eq (K := K), Option.bind_eq_bind,
      Option.bind_some]
  · obtain ⟨f, hf, h⟩ := Option.bind_eq_some_iff.mp h
    cases h
    cases hd
    refine ⟨_, rfl, ?_⟩
    simp only [Denoted.call, meant_of_chosen hf, hand_eq (K := K), Option.bind_eq_bind,
      Option.bind_some]
  · obtain ⟨f, hf, h⟩ := Option.bind_eq_some_iff.mp h
    cases h
    cases hd
    refine ⟨_, rfl, ?_⟩
    simp only [Denoted.call, meant_of_chosen hf, hand_eq (K := K), Option.bind_eq_bind,
      Option.bind_some]
  · next type a =>
    split at h
    · next hnone =>
      cases h
      cases hd
      refine ⟨_, rfl, ?_⟩
      rw [Denoted.call, if_pos hnone]
      by_cases htype : type = .string
      · simp only [htype, if_true, textOf, Action.compute_ok, bind_pure]
      · simp only [htype, if_false, apply_eq, textOf_eq K.checked]
    · cases h
  · cases h

/-! ## The walk -/

theorem isLogical_iff : op.isLogical = true ↔ op = .logicalAnd ∨ op = .logicalOr := by
  cases op <;> simp [BinaryOp.isLogical]

@[simp] theorem inside?_eq (op : AssignOp) : inside? op = op.binary? := by
  cases op <;> rfl

mutual

/-- What an expression comes to in instructions is what is read off its tree. -/
theorem denote_of_sense (bare : Bool) : ∀ (e : Expr) (s : Sense), sense K site locals bare e = some s →
    ∃ d, s.denoted? = some d ∧ denote K site locals bare e = some d
  | .literal lit _, s, h => by
    cases h
    exact ⟨_, rfl, by rw [denote]⟩
  | .ident name, s, h => by
    rw [sense] at h
    obtain ⟨m, hm, rfl⟩ := Option.map_eq_some_iff.mp h
    obtain ⟨d, hd, hnamed⟩ := named?_of_nameMeaning hm
    exact ⟨d, hd, by rw [denote, hnamed]⟩
  | .this span, s, h => by
    rw [sense] at h
    obtain ⟨m, hm, rfl⟩ := Option.map_eq_some_iff.mp h
    unfold thisMeaning at hm
    split at hm
    · cases hm
    · cases hm
      exact ⟨_, rfl, by rw [denote]⟩
  | .member object name _, s, h => by
    rw [sense] at h
    obtain ⟨o, ho, hmember⟩ := Option.bind_eq_some_iff.mp h
    obtain ⟨d, hd, hobject⟩ := denote_of_sense false object o ho
    obtain ⟨d', hd', hmember⟩ := member_of_denoted hd hmember
    exact ⟨d', hd', by rw [denote, hobject]; exact hmember⟩
  | .paren inner _, s, h => by
    rw [sense] at h
    rw [denote]
    cases bare with
    | true => exact denote_of_sense true inner s h
    | false =>
      obtain ⟨o, ho, h⟩ := Option.bind_eq_some_iff.mp h
      obtain ⟨⟨type, a⟩, hvalue, h⟩ := Option.bind_eq_some_iff.mp h
      cases h
      obtain ⟨d, hd, hinner⟩ := denote_of_sense false inner o ho
      refine ⟨_, rfl, ?_⟩
      simp [hinner, value?_of_denoted hd hvalue]
  | .binary op left right _, s, h => by
    simp only [sense, Option.bind_eq_bind, Option.bind_eq_some_iff, Prod.exists] at h
    obtain ⟨sl, hsl, l, a, hl, sr, hsr, r, b, hr, h⟩ := h
    obtain ⟨dl, hdl, hleft⟩ := denote_of_sense false left sl hsl
    obtain ⟨dr, hdr, hright⟩ := denote_of_sense false right sr hsr
    simp only [denote, Option.bind_eq_bind, hleft, hright, Option.bind_some,
      value?_of_denoted hdl hl, value?_of_denoted hdr hr, ← isLogical_iff]
    split at h
    · next hlogical =>
      rw [if_pos hlogical]
      split at h
      · next hbool =>
        cases h
        exact ⟨_, rfl, if_pos hbool⟩
      · cases h
    · next hlogical =>
      obtain ⟨plan, hplan, h⟩ := Option.bind_eq_some_iff.mp h
      cases h
      refine ⟨_, rfl, ?_⟩
      rw [if_neg hlogical, operation?_of_plan hplan, Option.bind_some, combine_eq]
      rfl
  | .unary op operand _, s, h => by
    rw [sense] at h
    rw [denote]
    split at h
    · next hcount =>
      rw [if_pos hcount]
      simp only [Option.bind_eq_bind, Option.bind_eq_some_iff] at h
      obtain ⟨so, hso, place, hplace, h⟩ := h
      obtain ⟨d, hd, hoperand⟩ := denote_of_sense true operand so hso
      split at h
      · next hnumber =>
        cases h
        refine ⟨_, rfl, ?_⟩
        simp [hoperand, place?_of_denoted hd hplace, hnumber, advance_eq hnumber, beq_eq_decide]
      · cases h
    · next hcount =>
      rw [if_neg hcount]
      simp only [Option.bind_eq_bind, Option.bind_eq_some_iff, Prod.exists] at h
      obtain ⟨so, hso, type, a, hvalue, code, hcode, h⟩ := h
      obtain ⟨d, hd, hoperand⟩ := denote_of_sense false operand so hso
      cases h
      refine ⟨_, rfl, ?_⟩
      simp [hoperand, value?_of_denoted hd hvalue, turn?_of_unaryOp hcode, apply_eq]
  | .post op operand _, s, h => by
    simp only [sense, Option.bind_eq_bind, Option.bind_eq_some_iff] at h
    obtain ⟨so, hso, place, hplace, h⟩ := h
    obtain ⟨d, hd, hoperand⟩ := denote_of_sense true operand so hso
    split at h
    · next hnumber =>
      cases h
      refine ⟨_, rfl, ?_⟩
      simp [denote, hoperand, place?_of_denoted hd hplace, hnumber, advance_eq hnumber, beq_eq_decide]
    · cases h
  | .assign op target value _, s, h => by
    simp only [sense, Option.bind_eq_bind, Option.bind_eq_some_iff, Prod.exists] at h
    obtain ⟨st, hst, place, hplace, sv, hsv, type, a, hvalue, h⟩ := h
    obtain ⟨dt, hdt, htarget⟩ := denote_of_sense true target st hst
    obtain ⟨dv, hdv, hright⟩ := denote_of_sense false value sv hsv
    simp only [denote, Option.bind_eq_bind, htarget, hright, Option.bind_some,
      place?_of_denoted hdt hplace, value?_of_denoted hdv hvalue, inside?_eq]
    cases hop : op.binary? with
    | none =>
      rw [hop] at h
      dsimp only at h ⊢
      split at h
      · next hsuits =>
        cases h
        refine ⟨_, rfl, ?_⟩
        rw [suits_eq, if_pos hsuits, widen_eq]
      · cases h
    | some binary =>
      rw [hop] at h
      obtain ⟨plan, hplan, h⟩ := Option.bind_eq_some_iff.mp h
      split at h
      · next hresult =>
        cases h
        refine ⟨_, rfl, ?_⟩
        simp only [operation?_of_plan hplan, Option.bind_some, combine_eq]
        exact if_pos hresult
      · cases h
  | .conditional condition yes no _, s, h => by
    simp only [sense, Option.bind_eq_bind, Option.bind_eq_some_iff, Prod.exists] at h
    obtain ⟨sc, hsc, c, a, hc, sy, hsy, y, a₁, hy, sn, hsn, n, a₂, hn, type, htype, h⟩ := h
    obtain ⟨dc, hdc, hcondition⟩ := denote_of_sense false condition sc hsc
    obtain ⟨dy, hdy, hyes⟩ := denote_of_sense false yes sy hsy
    obtain ⟨dn, hdn, hno⟩ := denote_of_sense false no sn hsn
    split at h
    · next hbool =>
      cases h
      refine ⟨_, rfl, ?_⟩
      simp [denote, hcondition, hyes, hno, value?_of_denoted hdc hc, value?_of_denoted hdy hy,
        value?_of_denoted hdn hn, common?_of_branch htype, hbool, widen_eq]
    · cases h
  | .call callee args _, s, h => by
    simp only [sense, Option.bind_eq_bind, Option.bind_eq_some_iff] at h
    obtain ⟨sc, hsc, items, hitems, h⟩ := h
    obtain ⟨dc, hdc, hcallee⟩ := denote_of_sense true callee sc hsc
    obtain ⟨d, hd, hcall⟩ := call_of_denoted hdc h
    refine ⟨d, hd, ?_⟩
    simp only [denote, Option.bind_eq_bind, hcallee, denoteAll_of_senses args items hitems,
      Option.bind_some, hcall]

theorem denoteAll_of_senses : ∀ (es : List Expr) (items : List (ValueType × Action Store Value)),
    senses K site locals es = some items → denoteAll K site locals es = some items
  | [], items, h => by
    rw [senses] at h
    rw [denoteAll, h]
  | e :: es, items, h => by
    simp only [senses, Option.bind_eq_bind, Option.bind_eq_some_iff] at h
    obtain ⟨s, hs, item, hitem, rest, hrest, h⟩ := h
    cases h
    obtain ⟨d, hd, he⟩ := denote_of_sense false e s hs
    simp only [denoteAll, Option.bind_eq_bind, he, Option.bind_some, value?_of_denoted hd hitem,
      denoteAll_of_senses es rest hrest]

end

/-- An expression that has a value in instructions has just that value. -/
theorem evaluate_of_value {e : Expr} {a : Action Store Value}
    (h : value K site locals e = some (type, a)) : evaluate K site locals e = some (type, a) := by
  obtain ⟨s, hs, hvalue⟩ := Option.bind_eq_some_iff.mp h
  obtain ⟨d, hd, he⟩ := denote_of_sense false e s hs
  rw [evaluate, he, Option.bind_some, value?_of_denoted hd hvalue]

end ClassScript.Source
