import ClassScript.Parsed

/-!
How deep a tree nests.

Every braced namespace, class body and statement is a level, and so is every expression but those
that a chain grows from: the left operand of an operator and the object of an access, a call or a
step. A parser that may go `depth` levels deeper gives parts of at most `depth` levels, since each
recursion of the grammar takes one, with a single exception. A namespace that is ended by a semicolon
reads its items at its own depth, so such namespaces can stand inside each other without end.
-/

namespace ClassScript

/-! ## Levels -/

namespace Expr

mutual

/-- The most levels on a way down from an expression, itself not counted. -/
def inner : Expr → Nat
  | literal .. | ident _ | this _ => 0
  | binary _ left right _ => max left.inner (right.inner + 1)
  | unary _ operand _ => operand.inner + 1
  | post _ operand _ => operand.inner
  | assign _ target value _ => max target.inner (value.inner + 1)
  | conditional condition yes no _ => max condition.inner (max (yes.inner + 1) (no.inner + 1))
  | call callee args _ => max callee.inner (levelsOf args)
  | member object _ _ => object.inner
  | paren e _ => e.inner + 1

def levelsOf : List Expr → Nat
  | [] => 0
  | e :: es => max (e.inner + 1) (levelsOf es)

end

/-- The most levels on a way down through an expression that is a level. -/
def levels (e : Expr) : Nat := e.inner + 1

end Expr

def Declarator.levels (v : Declarator) : Nat := (v.value.map Expr.levels).getD 0

/-- The most levels in one of several parts. -/
def deepest {α : Type} (levels : α → Nat) : List α → Nat
  | [] => 0
  | a :: as => max (levels a) (deepest levels as)

def ForInit.levels : ForInit → Nat
  | decl d => deepest Declarator.levels d.vars
  | exprs es => deepest Expr.levels es

namespace Stmt

mutual

def levels : Stmt → Nat
  | block stmts _ => levelsOf stmts + 1
  | decl d => deepest Declarator.levels d.vars + 1
  | expr e _ => e.levels + 1
  | ifElse condition yes none _ => max condition.levels yes.levels + 1
  | ifElse condition yes (some no) _ => max condition.levels (max yes.levels no.levels) + 1
  | whileLoop condition body _ | doLoop body condition _ => max condition.levels body.levels + 1
  | forLoop start condition update body _ =>
    max ((start.map ForInit.levels).getD 0) (max ((condition.map Expr.levels).getD 0)
      (max (deepest Expr.levels update) body.levels)) + 1
  | ret value _ => (value.map Expr.levels).getD 0 + 1
  | breakLoop _ | continueLoop _ | empty _ => 1

def levelsOf : List Stmt → Nat
  | [] => 0
  | s :: ss => max s.levels (levelsOf ss)

end

end Stmt

def Body.levels : Body → Nat
  | block stmts _ => Stmt.levelsOf stmts
  | arrow e => e.levels

def Member.levels : Member → Nat
  | field _ _ vars _ => deepest Declarator.levels vars
  | method _ _ _ _ body _ | constructor _ _ _ body _ => body.levels

/-- The body of a class is a level. -/
def ClassDecl.levels (c : ClassDecl) : Nat := deepest Member.levels c.members + 1

namespace Item

mutual

/-- The most levels on a way down through an item, where the body of a namespace without braces
counts as `unbraced` levels. -/
def levels (unbraced : Nat) : Item → Nat
  | scope _ _ items fileScoped _ => levelsOf unbraced items + if fileScoped then unbraced else 1
  | type decl => decl.levels

def levelsOf (unbraced : Nat) : List Item → Nat
  | [] => 0
  | item :: items => max (item.levels unbraced) (levelsOf unbraced items)

end

end Item

def Script.levels (unbraced : Nat) (s : Script) : Nat := Item.levelsOf unbraced s.items

/-! ## Bounds -/

theorem deepest_le {α : Type} {levels : α → Nat} {as : List α} {n : Nat} :
    deepest levels as ≤ n ↔ ∀ a ∈ as, levels a ≤ n := by
  induction as with
  | nil => simp [deepest]
  | cons a as ih => simp [deepest, Nat.max_le, ih]

theorem Expr.levelsOf_le {es : List Expr} {n : Nat} :
    Expr.levelsOf es ≤ n ↔ ∀ e ∈ es, e.levels ≤ n := by
  induction es with
  | nil => simp [Expr.levelsOf]
  | cons e es ih => simp [Expr.levelsOf, Expr.levels, Nat.max_le, ih]

theorem Stmt.levelsOf_le {ss : List Stmt} {n : Nat} :
    Stmt.levelsOf ss ≤ n ↔ ∀ s ∈ ss, s.levels ≤ n := by
  induction ss with
  | nil => simp [Stmt.levelsOf]
  | cons s ss ih => simp [Stmt.levelsOf, Nat.max_le, ih]

theorem Item.levelsOf_le {unbraced : Nat} {items : List Item} {n : Nat} :
    Item.levelsOf unbraced items ≤ n ↔ ∀ item ∈ items, item.levels unbraced ≤ n := by
  induction items with
  | nil => simp [Item.levelsOf]
  | cons item items ih => simp [Item.levelsOf, Nat.max_le, ih]

/-- What may be left out has few levels if what is there has. -/
theorem map_levels_le {α : Type} {levels : α → Nat} {a : Option α} {n : Nat}
    (h : ∀ b ∈ a, levels b ≤ n) : (a.map levels).getD 0 ≤ n := by
  cases a with
  | none => exact Nat.zero_le n
  | some b => exact h b rfl

namespace Grammar

/-! ## What parsers give -/

def Ensures {α : Type} (p : Parse α) (P : α → Prop) : Prop := ∀ s a s', p s = .ok a s' → P a

namespace Ensures

variable {α β : Type} {p : Parse α} {f : α → Parse β} {P P' : α → Prop} {Q : β → Prop}

theorem any (p : Parse α) : Ensures p fun _ => True := fun _ _ _ _ => trivial

theorem mono (h : Ensures p P) (hP : ∀ a, P a → P' a) : Ensures p P' :=
  fun s a s' hp => hP a (h s a s' hp)

theorem pure {a : α} (h : P a) : Ensures (Pure.pure a) P := by
  intro s b s' hp
  cases hp
  exact h

theorem fail (fault : SyntaxFault) (span : Span) : Ensures (Grammar.fail fault span) P := by
  intro s a s' h
  unfold Grammar.fail at h
  cases h

theorem failTooDeep : Ensures Grammar.failTooDeep P := by
  intro s a s' h
  unfold Grammar.failTooDeep at h
  cases h

theorem bind (hp : Ensures p P) (hf : ∀ a, P a → Ensures (f a) Q) : Ensures (p >>= f) Q := by
  intro s b s'' hrun
  simp only [Bind.bind, Parse.bind] at hrun
  split at hrun
  case h_1 a s' ha => exact hf a (hp s a s' ha) s' b s'' hrun
  all_goals cases hrun

/-- A part whose value does not matter. -/
theorem behind (hf : ∀ a, Ensures (f a) Q) : Ensures (p >>= f) Q := (any p).bind fun a _ => hf a

theorem ite {c : Prop} [Decidable c] {q : Parse α} (hp : c → Ensures p P)
    (hq : ¬ c → Ensures q P) : Ensures (if c then p else q) P := by
  by_cases hc : c
  · rw [if_pos hc]
    exact hp hc
  · rw [if_neg hc]
    exact hq hc

/-- A loop keeps what each of its rounds keeps. -/
theorem iterate {step : α → Parse (Option α)} {a : α} (ha : P a)
    (hstep : ∀ a, P a → Ensures (step a) fun r => ∀ b ∈ r, P b) : Ensures (iterate step a) P := by
  intro s b s' hrun
  unfold Grammar.iterate at hrun
  generalize s.bound + 1 = fuel at hrun
  induction fuel generalizing a s with
  | zero =>
    cases hrun
    exact ha
  | succ fuel ih =>
    unfold repeatFrom at hrun
    split at hrun
    case h_1 c s'' hc => exact ih (hstep a ha s _ s'' hc c rfl) s'' hrun
    case h_2 => cases hrun; exact ha
    all_goals cases hrun

theorem commaList (hp : Ensures p P) : Ensures (commaList p) fun as => ∀ a ∈ as, P a := by
  unfold Grammar.commaList
  refine hp.bind fun first hfirst => ?_
  refine bind (P := fun all => ∀ a ∈ all, P a)
    (iterate (by simpa using hfirst) fun done hdone => ?_)
    fun all hall => pure fun a ha => hall a (List.mem_reverse.mp ha)
  refine behind fun comma => ite (fun _ => hp.bind fun a ha => pure ?_) fun _ => pure (by simp)
  rintro _ ⟨⟩ b hb
  obtain rfl | hb := List.mem_cons.mp hb
  · exact ha
  · exact hdone b hb

theorem recovering {resume : Parse Unit} (hp : Ensures p P) :
    Ensures (recovering p resume) fun r => ∀ a ∈ r, P a := by
  intro s r s' hrun
  unfold Grammar.recovering at hrun
  split at hrun
  case h_1 a s'' ha =>
    cases hrun
    rintro _ ⟨⟩
    exact hp s a s' ha
  case h_2 =>
    split at hrun
    case h_1 => cases hrun; simp
    all_goals cases hrun
  case h_3 => cases hrun

/-- A round that adds what it can read to what it has. -/
theorem adds {resume : Parse Unit} {done : List α} {f : Option α → Parse (Option (List α))}
    (hp : Ensures p P) (hdone : ∀ a ∈ done, P a)
    (hsome : ∀ a, f (some a) = Pure.pure (some (a :: done)))
    (hnone : f none = Pure.pure (some done)) :
    Ensures (Grammar.recovering p resume >>= f) fun r => ∀ all ∈ r, ∀ a ∈ all, P a := by
  refine hp.recovering.bind fun r hr => ?_
  cases r with
  | some a =>
    rw [hsome]
    refine pure ?_
    rintro _ ⟨⟩ b hb
    obtain rfl | hb := List.mem_cons.mp hb
    · exact hr _ rfl
    · exact hdone b hb
  | none =>
    rw [hnone]
    refine pure ?_
    rintro _ ⟨⟩
    exact hdone

theorem unlessAt {stop : TokenKind} (hp : Ensures p P) :
    Ensures (unlessAt stop p) fun r => ∀ a ∈ r, P a := by
  unfold Grammar.unlessAt
  refine behind fun b => ite (fun _ => pure (by simp)) fun _ => hp.bind fun a ha => pure ?_
  rintro _ ⟨⟩
  exact ha

theorem deeper {depth : Nat} {p : Nat → Parse α} (h : ∀ d, depth = d + 1 → Ensures (p d) P) :
    Ensures (Grammar.deeper depth p) P := by
  cases depth with
  | zero => exact failTooDeep
  | succ d => exact h d rfl

end Ensures

/-! ## Expressions -/

section

variable {sub : Nat → Parse Expr} {n : Nat} (hsub : ∀ power, Ensures (sub power) (·.levels ≤ n))

theorem literal_inner : Ensures literal (·.inner ≤ n) := by
  unfold literal
  refine .behind fun t => .ite (fun _ => .behind fun _ => ?_) fun _ => .fail _ _
  extract_lets next
  have hnext (value : Literal) : Ensures (next value) (·.inner ≤ n) :=
    .pure (by simp [Expr.inner])
  split <;> exact .behind hnext

include hsub

theorem primary_inner : Ensures (primary sub) (·.inner ≤ n) := by
  unfold primary
  refine .behind fun t => ?_
  split
  · exact .behind fun _ => .pure (by simp [Expr.inner])
  · exact .behind fun _ => .pure (by simp [Expr.inner])
  · refine .behind fun _ => (hsub 0).bind fun e he => .behind fun _ => .behind fun _ => .pure ?_
    rwa [Expr.inner]
  · refine .behind fun _ => .ite (fun _ => .behind fun _ => .pure ?_) fun _ => literal_inner
    simp [Expr.inner]

theorem arguments_levels : Ensures (arguments sub) fun es => ∀ e ∈ es, e.levels ≤ n := by
  unfold arguments
  refine .behind fun _ => .behind fun empty => ?_
  extract_lets next
  have hnext (es : List Expr) (hes : ∀ e ∈ es, e.levels ≤ n) :
      Ensures (next es) fun es => ∀ e ∈ es, e.levels ≤ n := .behind fun _ => .pure hes
  exact .ite (fun _ => hnext [] (by simp)) fun _ => (hsub 0).commaList.bind hnext

theorem suffix_inner {e : Expr} (he : e.inner ≤ n) :
    Ensures (suffix? sub e) fun r => ∀ e' ∈ r, e'.inner ≤ n := by
  unfold suffix?
  refine .behind fun t => ?_
  split
  · refine .behind fun _ => .behind fun name => .pure ?_
    rintro _ ⟨⟩
    rwa [Expr.inner]
  · refine (arguments_levels hsub).bind fun args hargs => .behind fun _ => .pure ?_
    rintro _ ⟨⟩
    rw [Expr.inner]
    exact Nat.max_le.mpr ⟨he, Expr.levelsOf_le.mpr hargs⟩
  · split
    · refine .behind fun _ => .pure ?_
      rintro _ ⟨⟩
      rwa [Expr.inner]
    · exact .pure (by simp)

theorem suffixes_inner {e : Expr} (he : e.inner ≤ n) :
    Ensures (iterate (suffix? sub) e) (·.inner ≤ n) :=
  .iterate he fun _ he => suffix_inner hsub he

theorem operand_inner : Ensures (operand sub) (·.inner ≤ n) := by
  unfold operand
  refine .behind fun t => ?_
  split
  · exact (primary_inner hsub).bind fun e he => suffixes_inner hsub he
  · refine .behind fun next => .behind fun after => .ite (fun _ => ?_) fun _ => ?_
    · refine .behind fun _ => .behind fun number => .behind fun value => suffixes_inner hsub ?_
      simp [Expr.inner]
    · refine .behind fun _ => (hsub _).bind fun e he => .pure ?_
      rwa [Expr.inner]

theorem operator_inner {power : Nat} {e : Expr} (he : e.inner ≤ n) :
    Ensures (operator? sub power e) fun r => ∀ e' ∈ r, e'.inner ≤ n := by
  unfold operator?
  refine .behind fun t => ?_
  split
  · refine .ite (fun _ => .pure (by simp)) fun _ => .behind fun _ => ?_
    refine (hsub _).bind fun value hvalue => .pure ?_
    rintro _ ⟨⟩
    rw [Expr.inner]
    exact Nat.max_le.mpr ⟨he, hvalue⟩
  · refine .ite (fun _ => .pure (by simp)) fun _ => .behind fun _ => ?_
    refine (hsub _).bind fun right hright => .pure ?_
    rintro _ ⟨⟩
    rw [Expr.inner]
    exact Nat.max_le.mpr ⟨he, hright⟩
  · refine .ite (fun _ => .pure (by simp)) fun _ => .behind fun _ => ?_
    refine (hsub 0).bind fun yes hyes => .behind fun _ => (hsub _).bind fun no hno => .pure ?_
    rintro _ ⟨⟩
    rw [Expr.inner]
    exact Nat.max_le.mpr ⟨he, Nat.max_le.mpr ⟨hyes, hno⟩⟩

end

theorem expr_levels (depth power : Nat) : Ensures (expr depth power) (·.levels ≤ depth) := by
  induction depth generalizing power with
  | zero => exact .failTooDeep
  | succ depth ih =>
    refine Ensures.mono ((operand_inner ih).bind fun e he => .iterate he fun e he =>
      operator_inner ih he) fun e he => Nat.succ_le_succ he

/-! ## Statements -/

section

variable {sub : Parse Expr} {stmt : Parse Stmt} {n : Nat} (hsub : Ensures sub (·.levels ≤ n))
  (hstmt : Ensures stmt (·.levels ≤ n))

theorem block_levels (hstmt : Ensures stmt (·.levels ≤ n)) :
    Ensures (block stmt) fun b => Stmt.levelsOf b.1 ≤ n := by
  unfold block
  refine .behind fun _ => .bind (P := fun ss => ∀ s ∈ ss, s.levels ≤ n)
    (.iterate (by simp) fun done hdone => ?_) fun stmts hstmts => ?_
  · refine .behind fun _ => .behind fun _ => .ite (fun _ => .pure (by simp)) fun _ => ?_
    exact .adds hstmt hdone (fun _ => rfl) rfl
  refine .behind fun _ => .behind fun _ => .pure (Stmt.levelsOf_le.mpr fun s hs => ?_)
  exact hstmts s (List.mem_reverse.mp hs)

include hsub

theorem declarator_levels : Ensures (declarator sub) (·.levels ≤ n) := by
  unfold declarator
  refine .behind fun name => .behind fun given => ?_
  extract_lets next
  have hnext (value : Option Expr) (h : ∀ e ∈ value, e.levels ≤ n) :
      Ensures (next value) (·.levels ≤ n) := .behind fun _ => .pure (map_levels_le h)
  refine .ite (fun _ => ?_) fun _ => hnext none (by simp)
  refine .bind (P := fun r => ∀ e ∈ r, e.levels ≤ n) (hsub.bind fun e he => .pure ?_) hnext
  rintro _ ⟨⟩
  exact he

theorem varDecl_levels : Ensures (varDecl sub) fun d => deepest Declarator.levels d.vars ≤ n := by
  unfold varDecl
  refine .behind fun _ => .behind fun type => ?_
  exact (declarator_levels hsub).commaList.bind fun vars hvars =>
    .behind fun _ => .pure (deepest_le.mpr hvars)

theorem condition_levels : Ensures (condition sub) (·.levels ≤ n) := by
  unfold condition
  exact .behind fun _ => hsub.bind fun e he => .behind fun _ => .pure he

theorem forInit_levels : Ensures (forInit sub) (·.levels ≤ n) := by
  unfold forInit
  refine .behind fun declares => .ite (fun _ => ?_) fun _ => ?_
  · exact (varDecl_levels hsub).bind fun d hd => .pure hd
  · exact hsub.commaList.bind fun es hes => .pure (deepest_le.mpr hes)

theorem returnStmt_levels (start : Span) : Ensures (returnStmt sub start) (·.levels ≤ n + 1) := by
  unfold returnStmt
  refine hsub.unlessAt.bind fun value hvalue => .behind fun _ => .behind fun _ => .pure ?_
  exact Nat.succ_le_succ (map_levels_le hvalue)

include hstmt

theorem ifStmt_levels (start : Span) : Ensures (ifStmt sub stmt start) (·.levels ≤ n + 1) := by
  unfold ifStmt
  refine (condition_levels hsub).bind fun c hc => hstmt.bind fun yes hyes => .behind fun given => ?_
  extract_lets next
  have hnext (no : Option Stmt) (hno : ∀ s ∈ no, s.levels ≤ n) :
      Ensures (next no) (·.levels ≤ n + 1) := by
    refine .behind fun _ => .pure ?_
    cases no with
    | none => exact Nat.succ_le_succ (Nat.max_le.mpr ⟨hc, hyes⟩)
    | some s => exact Nat.succ_le_succ (Nat.max_le.mpr ⟨hc, Nat.max_le.mpr ⟨hyes, hno s rfl⟩⟩)
  refine .ite (fun _ => ?_) fun _ => hnext none (by simp)
  refine .bind (P := fun r => ∀ s ∈ r, s.levels ≤ n) (hstmt.bind fun no hno => .pure ?_) hnext
  rintro _ ⟨⟩
  exact hno

theorem whileStmt_levels (start : Span) :
    Ensures (whileStmt sub stmt start) (·.levels ≤ n + 1) := by
  unfold whileStmt
  refine (condition_levels hsub).bind fun c hc => hstmt.bind fun body hbody => .behind fun _ => ?_
  exact .pure (Nat.succ_le_succ (Nat.max_le.mpr ⟨hc, hbody⟩))

theorem doStmt_levels (start : Span) : Ensures (doStmt sub stmt start) (·.levels ≤ n + 1) := by
  unfold doStmt
  refine hstmt.bind fun body hbody => .behind fun _ => (condition_levels hsub).bind fun c hc => ?_
  exact .behind fun _ => .behind fun _ => .pure (Nat.succ_le_succ (Nat.max_le.mpr ⟨hc, hbody⟩))

theorem forStmt_levels (start : Span) : Ensures (forStmt sub stmt start) (·.levels ≤ n + 1) := by
  unfold forStmt
  refine .behind fun _ => (forInit_levels hsub).unlessAt.bind fun first hfirst => ?_
  refine .behind fun _ => hsub.unlessAt.bind fun c hc => .behind fun _ => ?_
  refine hsub.commaList.unlessAt.bind fun update hupdate => .behind fun _ => ?_
  refine hstmt.bind fun body hbody => .behind fun _ => .pure (Nat.succ_le_succ ?_)
  refine Nat.max_le.mpr ⟨map_levels_le hfirst, Nat.max_le.mpr ⟨map_levels_le hc,
    Nat.max_le.mpr ⟨deepest_le.mpr fun e he => ?_, hbody⟩⟩⟩
  cases update with
  | none => cases he
  | some es => exact hupdate es rfl e he

theorem statementIn_levels : Ensures (statementIn sub stmt) (·.levels ≤ n + 1) := by
  have hleaf {s : Stmt} (hs : s.levels = 1) : s.levels ≤ n + 1 := by omega
  unfold statementIn
  refine .behind fun t => ?_
  split
  · exact (block_levels hstmt).bind fun b hb => .pure (Nat.succ_le_succ hb)
  · exact .behind fun _ => .pure (hleaf rfl)
  · exact .behind fun _ => ifStmt_levels hsub hstmt _
  · exact .behind fun _ => whileStmt_levels hsub hstmt _
  · exact .behind fun _ => doStmt_levels hsub hstmt _
  · exact .behind fun _ => forStmt_levels hsub hstmt _
  · exact .behind fun _ => returnStmt_levels hsub _
  · exact .behind fun _ => .behind fun _ => .behind fun _ => .pure (hleaf rfl)
  · exact .behind fun _ => .behind fun _ => .behind fun _ => .pure (hleaf rfl)
  · refine .behind fun declares => .ite (fun _ => ?_) fun _ => ?_
    · exact (varDecl_levels hsub).bind fun d hd => .behind fun _ => .behind fun _ =>
        .pure (Nat.succ_le_succ hd)
    · exact hsub.bind fun e he => .behind fun _ => .behind fun _ => .pure (Nat.succ_le_succ he)

end

theorem statement_levels (depth : Nat) : Ensures (statement depth) (·.levels ≤ depth) := by
  induction depth with
  | zero => exact .failTooDeep
  | succ depth ih => exact statementIn_levels (expr_levels depth 0) ih

/-! ## Declarations -/

variable {depth : Nat}

theorem body_levels : Ensures (body depth) (·.levels ≤ depth) := by
  unfold body
  refine .behind fun arrow => .ite (fun _ => ?_) fun _ => .behind fun braces =>
    .ite (fun _ => ?_) fun _ => ?_
  · exact (expr_levels depth 0).bind fun e he => .behind fun _ => .pure he
  · exact (block_levels (statement_levels depth)).bind fun b hb => .pure hb
  · exact .behind fun t => .fail _ _

theorem member_levels {owner : String} : Ensures (member depth owner) (·.levels ≤ depth) := by
  unfold member
  refine .behind fun t => .behind fun m => .behind fun t => ?_
  refine .behind fun calls => .ite (fun _ => ?_) fun _ => ?_
  · refine .behind fun modifiers => .behind fun name => .behind fun ps => ?_
    exact body_levels.bind fun b hb => .behind fun _ => .pure hb
  refine .ite (fun _ => .fail _ _) fun _ => .behind fun calls =>
    .ite (fun _ => .fail _ _) fun _ => ?_
  refine .behind fun type => .behind fun calls => .ite (fun _ => ?_) fun _ => ?_
  · refine .behind fun modifiers => .behind fun name => .behind fun ps => ?_
    exact body_levels.bind fun b hb => .behind fun _ => .pure hb
  · refine .behind fun modifiers => ?_
    refine (declarator_levels (expr_levels depth 0)).commaList.bind fun vars hvars => ?_
    exact .behind fun _ => .behind fun _ => .pure (deepest_le.mpr hvars)

theorem members_levels {owner : String} :
    Ensures (members depth owner) fun ms => deepest Member.levels ms ≤ depth := by
  unfold members
  refine .bind (P := fun ms => ∀ m ∈ ms, m.levels ≤ depth)
    (.iterate (by simp) fun done hdone => ?_) fun all hall => ?_
  · refine .behind fun _ => .behind fun _ => .ite (fun _ => .pure (by simp)) fun _ => ?_
    exact .adds member_levels hdone (fun _ => rfl) rfl
  refine .pure (deepest_le.mpr fun m hm => ?_)
  exact hall m (List.mem_reverse.mp hm)

theorem classDecl_levels : Ensures (classDecl depth) (·.levels ≤ depth) := by
  unfold classDecl
  refine .behind fun _ => .behind fun _ => .behind fun modifiers => .behind fun t =>
    .ite (fun _ => ?_) fun _ => ?_
  · exact .ite (fun _ => .fail _ _) fun _ => .fail _ _
  · refine .behind fun _ => .behind fun name => .deeper fun d hd => ?_
    refine .behind fun _ => members_levels.bind fun ms hms => ?_
    refine .behind fun _ => .behind fun _ => .pure ?_
    rw [hd]
    exact Nat.succ_le_succ hms

section

variable {items : Nat → Bool → Parse (List Item)}
  (hitems : ∀ depth top, Ensures (items depth top) fun all => Item.levelsOf 0 all ≤ depth)

include hitems

theorem scopeDecl_levels : Ensures (scopeDecl depth items) fun r => r.2.levels 0 ≤ depth := by
  unfold scopeDecl
  refine .behind fun _ => .behind fun path => .behind fun semicolon =>
    .ite (fun _ => ?_) fun _ => ?_
  · refine .behind fun us => (hitems depth true).bind fun all hall => .behind fun _ => .pure ?_
    simpa [Item.levels] using hall
  · refine .deeper fun d hd => .behind fun _ => .behind fun us => ?_
    refine (hitems d false).bind fun all hall => .behind fun _ => .behind fun _ => .pure ?_
    simpa [Item.levels, hd] using hall

theorem itemRound_levels :
    Ensures (itemRound depth items) fun r => ∀ item ∈ r.1, item.levels 0 ≤ depth := by
  unfold itemRound
  refine .behind fun t => ?_
  split
  · refine (scopeDecl_levels hitems).recovering.bind fun r hr => ?_
    split
    · refine .pure ?_
      rintro _ ⟨⟩
      exact hr _ rfl
    · exact .pure (by simp)
  · exact .behind fun _ => .behind fun _ => .pure (by simp)
  · exact .behind fun _ => .behind fun _ => .pure (by simp)
  · refine classDecl_levels.recovering.bind fun r hr => ?_
    split
    · refine .pure ?_
      rintro _ ⟨⟩
      exact hr _ rfl
    · exact .pure (by simp)

end

theorem itemsFrom_levels (fuel : Nat) {top : Bool} {done : List Item}
    (hdone : ∀ item ∈ done, item.levels 0 ≤ depth) :
    Ensures (itemsFrom fuel depth top done) fun all => Item.levelsOf 0 all ≤ depth := by
  have ends {depth : Nat} {done : List Item} (h : ∀ item ∈ done, item.levels 0 ≤ depth) :
      Ensures (pure done.reverse) fun all => Item.levelsOf 0 all ≤ depth :=
    .pure (Item.levelsOf_le.mpr fun item hitem => h item (List.mem_reverse.mp hitem))
  induction fuel generalizing depth top done with
  | zero => exact ends hdone
  | succ fuel ih =>
    unfold itemsFrom
    refine .behind fun _ => .behind fun _ => .ite (fun _ => ends hdone) fun _ => ?_
    refine .bind (itemRound_levels fun depth top => ih (by simp)) fun r hr => ?_
    obtain ⟨item, more⟩ := r
    have hall : ∀ i ∈ item.toList ++ done, i.levels 0 ≤ depth := fun i hi =>
      (List.mem_append.mp hi).elim (fun h => hr i (Option.mem_toList.mp h)) (hdone i)
    exact .ite (fun _ => ih hall) fun _ => ends hall

theorem script_levels : Ensures script (·.levels 0 ≤ maxNesting) := by
  unfold script
  refine .behind fun _ => .behind fun us => .bind (P := fun all => Item.levelsOf 0 all ≤ maxNesting)
    (fun s => itemsFrom_levels _ (by simp) s) fun all hall => .behind fun _ => .pure hall

end Grammar

/-! ## Sources -/

/-- No way down a tree that was read has more than `Grammar.maxNesting` levels, when the bodies of
namespaces without braces are none. -/
theorem Parsed.nesting_bounded {source : List Char} {p : Parsed} (h : ofSource source = .ok p) :
    p.script.levels 0 ≤ Grammar.maxNesting := by
  obtain ⟨state, hscript, -⟩ := script_of_source h
  exact Grammar.script_levels _ p.script state hscript

/-- A namespace without braces in another, 65 deep. -/
def unbracedSource : List Char := (List.replicate 65 "namespace A;".toList).flatten

/-- With such bodies the bound does not hold. -/
theorem Parsed.nesting_bounded_unbraced : ∃ p, ofSource unbracedSource = .ok p ∧
    p.script.levels 0 ≤ Grammar.maxNesting ∧ p.script.levels 1 = 65 := by
  have hread : (ofSource unbracedSource).toOption.map (·.script.levels 1) = some 65 := by
    decide +kernel
  cases hp : ofSource unbracedSource with
  | error e =>
    rw [hp] at hread
    cases hread
  | ok p =>
    rw [hp] at hread
    exact ⟨p, rfl, nesting_bounded hp, Option.some.inj hread⟩

end ClassScript
