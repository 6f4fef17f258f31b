import ClassScript.Grammar.Declaration
import ClassScript.Proofs.Progress.Moves

/-!
Expressions, statements, declarations and items go forward.

Every parser takes a token where it succeeds, and so does every round of its loops but the last one.
What begins with a keyword, a brace or a type takes a token for it, and any other statement takes
those of its expression. A block reads on behind a faulty statement, of which something was taken or
skipped, as a closing brace would have ended the block.

A namespace takes its keyword before it reads its items, so these are read with fewer tokens to come,
and how many rounds that reading may have makes no difference as long as they are more than the tokens.
-/

namespace ClassScript.Grammar

/-! ## Literals -/

theorem integerLiteral_forward (negative : Bool) (t : Token) :
    Forward (integerLiteral negative t) fun _ => False := by
  intro n s
  unfold integerLiteral
  exact .ite (fun _ => .pure id) fun _ => .ite (fun _ => .pure id) fun _ => .fail

theorem realLiteral_forward (t : Token) : Forward (realLiteral t) fun _ => False := by
  intro n s
  unfold realLiteral
  split
  · exact .pure id
  · exact .fail

theorem literal_forward : Forward literal fun _ => True := by
  intro n s
  unfold literal
  refine .peek look_looks (.ite (fun hliteral => ?_) fun _ => .fail)
  refine .advance (fun heof => by simp [heof, TokenKind.isLiteral] at hliteral) fun _ s => ?_
  extract_lets next
  have hnext (value : Literal) : Forward (next value) fun _ => False := fun _ _ => .pure id
  split
  · exact (realLiteral_forward _ n s).bind fun value s => (hnext value n s).mono (by simp)
  · exact hnext _ n s
  · exact hnext _ n s
  · exact hnext _ n s
  · exact (integerLiteral_forward _ _ n s).bind fun value s => (hnext value n s).mono (by simp)

/-! ## Expressions -/

section

variable {sub : Nat → Parse Expr} (hsub : ∀ power, Forward (sub power) fun _ => True)
include hsub

theorem primary_forward : Forward (primary sub) fun _ => True := by
  intro n s
  unfold primary
  refine .peek look_looks ?_
  split
  · next hkind => exact .advance (by rw [hkind]; decide) fun _ _ => .pure id
  · next hkind => exact .advance (by rw [hkind]; decide) fun _ _ => .pure id
  · next hkind =>
    refine .advance (by rw [hkind]; decide) fun _ s => (hsub 0 n s).bind fun inner s => ?_
    exact (expect_forward (by decide) n s).bind fun _ s => .peek (spanFrom_looks _) (.pure (by simp))
  · refine .peek (lookAhead_looks 1) (.ite (fun htype => ?_) fun _ => literal_forward n s)
    exact .advance (fun heof => by simp [heof, TokenKind.isType, TokenKind.valueType?] at htype) fun _ _ => .pure id

theorem arguments_forward : Forward (arguments sub) fun _ => True := by
  intro n s
  unfold arguments
  refine (expect_forward (by decide) n s).bind fun _ s => .peek (at_looks _) (.join ?_)
  refine .bind (P := fun _ => False) (.ite (fun _ => .pure id) fun _ => ?_) fun args s => ?_
  · exact (commaList_forward (hsub 0) n s).mono (by simp)
  · exact (expect_forward (by decide) n s).bind fun _ s => .pure (by simp)

theorem suffix_forward (e : Expr) : Forward (suffix? sub e) (·.isSome) := by
  intro n s
  unfold suffix?
  refine .peek look_looks ?_
  split
  · next hkind =>
    refine .advance (by rw [hkind]; decide) fun _ s => ?_
    exact (identifier_forward n s).bind fun name s => .pure (by simp)
  · exact (arguments_forward hsub n s).bind fun args s => .peek (spanFrom_looks _) (.pure (by simp))
  · split
    · next op hop =>
      refine .advance (fun heof => ?_) fun _ _ => .pure id
      rw [heof] at hop
      cases hop
    · exact .pure (by simp)

theorem operand_forward : Forward (operand sub) fun _ => True := by
  intro n s
  unfold operand
  have hloop := iterate_forward (suffix_forward hsub)
  refine .peek look_looks ?_
  split
  · exact (primary_forward hsub n s).bind fun e s => (hloop e n s).mono (by simp)
  · next op hop =>
    have hne : s.current.kind ≠ .eof := fun heof => by
      rw [heof] at hop
      cases hop
    refine .peek (lookAhead_looks 1) (.peek (lookAhead_looks 2) (.ite (fun hnumber => ?_) fun _ => ?_))
    · refine .advance hne fun _ s => (advance_forward n s).bind fun number s => ?_
      refine (integerLiteral_forward _ _ n s).bind fun l s => (hloop _ n s).mono (by simp)
    · refine .advance hne fun _ s => (hsub _ n s).bind fun e s => .pure (by simp)

theorem operator_forward (power : Nat) (e : Expr) : Forward (operator? sub power e) (·.isSome) := by
  intro n s
  unfold operator?
  refine .peek look_looks ?_
  split
  · next op hop =>
    refine .ite (fun _ => .pure (by simp)) fun _ => .advance (fun heof => ?_) fun _ s => ?_
    · rw [heof] at hop
      cases hop
    · exact (hsub _ n s).bind fun value s => .pure (by simp)
  · next op _ hop =>
    refine .ite (fun _ => .pure (by simp)) fun _ => .advance (fun heof => ?_) fun _ s => ?_
    · rw [heof] at hop
      cases hop
    · exact (hsub _ n s).bind fun right s => .pure (by simp)
  · refine .ite (fun _ => .pure (by simp)) fun hquestion => .advance (fun heof => ?_) fun _ s => ?_
    · simp [heof] at hquestion
    · refine (hsub _ n s).bind fun yes s => (expect_forward (by decide) n s).bind fun _ s => ?_
      exact (hsub _ n s).bind fun no s => .pure (by simp)

theorem operators_forward (power : Nat) : Forward (operators sub power) fun _ => True := by
  intro n s
  unfold operators
  refine (operand_forward hsub n s).bind fun e s => ?_
  exact (iterate_forward (operator_forward hsub power) e n s).mono (by simp)

end

theorem expr_forward (depth power : Nat) : Forward (expr depth power) fun _ => True := by
  induction depth generalizing power with
  | zero => exact fun _ _ => .failTooDeep
  | succ depth ih => exact operators_forward ih power

/-! ## Names and types -/

def nameRound (done : List Ident) : Parse (Option (List Ident)) := do
  if ← eat .dot then
    let name ← identifier
    pure (some (name :: done))
  else pure none

theorem dottedPath_eq : dottedPath = (do
    let first ← identifier
    let all ← iterate nameRound [first]
    pure all.reverse) := rfl

theorem nameRound_forward (done : List Ident) : Forward (nameRound done) (·.isSome) := by
  intro n s
  unfold nameRound
  refine (eat_forward (by decide) n s).bind fun b s => .ite (fun hb => ?_) fun _ => .pure (by simp)
  exact (identifier_forward n s).bind fun name s => .pure (by simp)

theorem dottedPath_forward : Forward dottedPath fun _ => True := by
  intro n s
  rw [dottedPath_eq]
  refine (identifier_forward n s).bind fun first s => ?_
  exact (iterate_forward nameRound_forward _ n s).bind fun all s => .pure (by simp)

theorem typeExpr_forward (inferable : Bool) : Forward (typeExpr inferable) fun _ => True := by
  intro n s
  unfold typeExpr
  refine .peek look_looks ?_
  split
  · next type htype =>
    refine .advance (fun heof => ?_) fun _ _ => .pure id
    rw [heof] at htype
    cases htype
  · split
    · next hkind =>
      exact .ite (fun _ => .advance (by rw [hkind]; decide) fun _ _ => .pure id) fun _ => .fail
    · exact (dottedPath_forward n s).bind fun path s => .peek (spanFrom_looks _) (.pure (by simp))
    · exact .fail

theorem startsDecl_looks : ∃ value, Looks startsDecl value := ⟨_, fun _ => rfl, fun _ _ => rfl⟩

/-! ## Parts of statements -/

section

variable {α : Type} {sub : Parse Expr} (hsub : Forward sub fun _ => True)

theorem unlessAt_forward {stop : TokenKind} {p : Parse α} {P : α → Prop} (hp : Forward p P) :
    Forward (unlessAt stop p) fun _ => False := by
  intro n s
  unfold unlessAt
  refine .peek (at_looks _) (.ite (fun _ => .pure id) fun _ => ?_)
  exact (hp n s).bind fun a s => .pure (by simp)

include hsub

theorem declarator_forward : Forward (declarator sub) fun _ => True := by
  intro n s
  unfold declarator
  refine (identifier_forward n s).bind fun name s => (eat_forward (by decide) n s).bind fun b s => ?_
  extract_lets next
  have hnext (value : Option Expr) : Forward (next value) fun _ => False :=
    fun _ _ => .peek (spanFrom_looks _) (.pure id)
  refine .ite (fun _ => ?_) fun _ => (hnext none n s).mono (by simp)
  refine .bind (P := fun _ => False) ((hsub n s).bind fun e s => .pure (by simp)) fun value s => ?_
  exact (hnext value n s).mono (by simp)

theorem varDecl_forward : Forward (varDecl sub) fun _ => True := by
  intro n s
  unfold varDecl
  refine .peek look_looks ((typeExpr_forward true n s).bind fun type s => ?_)
  refine (commaList_forward (declarator_forward hsub) n s).bind fun vars s => ?_
  exact .peek (spanFrom_looks _) (.pure (by simp))

theorem condition_forward : Forward (condition sub) fun _ => True := by
  intro n s
  unfold condition
  refine (expect_forward (by decide) n s).bind fun _ s => (hsub n s).bind fun e s => ?_
  exact (expect_forward (by decide) n s).bind fun _ s => .pure (by simp)

theorem forInit_forward : Forward (forInit sub) fun _ => True := by
  intro n s
  unfold forInit
  obtain ⟨value, hvalue⟩ := startsDecl_looks
  refine .peek hvalue (.ite (fun _ => ?_) fun _ => ?_)
  · exact (varDecl_forward hsub n s).bind fun d s => .pure (by simp)
  · exact (commaList_forward hsub n s).bind fun es s => .pure (by simp)

end

/-! ## Statements -/

def statementRound (stmt : Parse Stmt) (done : List Stmt) : Parse (Option (List Stmt)) := do
  if (← at? .rightBrace) || (← atEnd) then pure none
  else do
    match ← recovering stmt resumeStatement with
    | some s => pure (some (s :: done))
    | none => pure (some done)

theorem block_eq (stmt : Parse Stmt) : block stmt = (do
    let start := (← expect .leftBrace).span
    let stmts ← iterate (statementRound stmt) []
    let _ ← expect .rightBrace
    pure (stmts.reverse, ← spanFrom start)) := rfl

/-- Where a list of parts in braces does not end, a search passes some token. -/
theorem passable_of_not_ended {s : State}
    (h : ¬ ((s.current.kind == TokenKind.rightBrace) || s.upcoming.isEmpty) = true) : s.Passable := by
  simpa [State.Passable, and_comm] using h

section

variable {sub : Parse Expr} {stmt : Parse Stmt} (hstmt : Forward stmt fun _ => True)

include hstmt in
theorem statementRound_forward (done : List Stmt) :
    Forward (statementRound stmt done) (·.isSome) := by
  intro n s
  unfold statementRound
  refine .peek (at_looks _) (.peek atEnd_looks (.ite (fun _ => .pure (by simp)) fun hgoes => ?_))
  refine (recovering_moves (hstmt n s) resumes_statement).bind fun r s' => ?_
  have hpassable := passable_of_not_ended hgoes
  split <;> exact .pure (by simp [hpassable])

include hstmt in
theorem block_forward : Forward (block stmt) fun _ => True := by
  intro n s
  rw [block_eq]
  refine (expect_forward (by decide) n s).bind fun start s => ?_
  refine (iterate_forward (statementRound_forward hstmt) _ n s).bind fun stmts s => ?_
  exact (expect_forward (by decide) n s).bind fun _ s => .peek (spanFrom_looks _) (.pure (by simp))

variable (hsub : Forward sub fun _ => True)

include hsub in
theorem returnStmt_forward (start : Span) : Forward (returnStmt sub start) fun _ => False := by
  intro n s
  unfold returnStmt
  refine (unlessAt_forward hsub n s).bind fun value s => ?_
  exact (expectSemicolon_forward n s).bind fun _ s => .peek (spanFrom_looks _) (.pure (by simp))

include hstmt hsub

theorem ifStmt_forward (start : Span) : Forward (ifStmt sub stmt start) fun _ => False := by
  intro n s
  unfold ifStmt
  refine (condition_forward hsub n s).bind fun c s => (hstmt n s).bind fun yes s => ?_
  refine (eat_forward (by decide) n s).bind fun b s => ?_
  extract_lets next
  have hnext (no : Option Stmt) : Forward (next no) fun _ => False :=
    fun _ _ => .peek (spanFrom_looks _) (.pure id)
  refine .ite (fun _ => ?_) fun _ => (hnext none n s).mono (by simp)
  refine .bind (P := fun _ => False) ((hstmt n s).bind fun no s => .pure (by simp)) fun no s => ?_
  exact (hnext no n s).mono (by simp)

theorem whileStmt_forward (start : Span) : Forward (whileStmt sub stmt start) fun _ => False := by
  intro n s
  unfold whileStmt
  refine (condition_forward hsub n s).bind fun c s => (hstmt n s).bind fun body s => ?_
  exact .peek (spanFrom_looks _) (.pure (by simp))

theorem doStmt_forward (start : Span) : Forward (doStmt sub stmt start) fun _ => False := by
  intro n s
  unfold doStmt
  refine (hstmt n s).bind fun body s => (expect_forward (by decide) n s).bind fun _ s => ?_
  refine (condition_forward hsub n s).bind fun c s => ?_
  exact (expectSemicolon_forward n s).bind fun _ s => .peek (spanFrom_looks _) (.pure (by simp))

theorem forStmt_forward (start : Span) : Forward (forStmt sub stmt start) fun _ => False := by
  intro n s
  unfold forStmt
  refine (expect_forward (by decide) n s).bind fun _ s => ?_
  refine (unlessAt_forward (forInit_forward hsub) n s).bind fun first s => ?_
  refine (expect_forward (by decide) n s).bind fun _ s => (unlessAt_forward hsub n s).bind fun c s => ?_
  refine (expect_forward (by decide) n s).bind fun _ s => ?_
  refine (unlessAt_forward (commaList_forward hsub) n s).bind fun update s => ?_
  refine (expect_forward (by decide) n s).bind fun _ s => (hstmt n s).bind fun body s => ?_
  exact .peek (spanFrom_looks _) (.pure (by simp))

theorem statementIn_forward : Forward (statementIn sub stmt) fun _ => True := by
  intro n s
  unfold statementIn
  refine .peek look_looks ?_
  split
  case h_1 => exact (block_forward hstmt n s).bind fun b s => .pure (by simp)
  case h_2 hkind => exact .advance (by rw [hkind]; decide) fun _ _ => .pure id
  case h_3 hkind => exact .advance (by rw [hkind]; decide) fun _ s => ifStmt_forward hstmt hsub _ n s
  case h_4 hkind => exact .advance (by rw [hkind]; decide) fun _ s => whileStmt_forward hstmt hsub _ n s
  case h_5 hkind => exact .advance (by rw [hkind]; decide) fun _ s => doStmt_forward hstmt hsub _ n s
  case h_6 hkind => exact .advance (by rw [hkind]; decide) fun _ s => forStmt_forward hstmt hsub _ n s
  case h_7 hkind => exact .advance (by rw [hkind]; decide) fun _ s => returnStmt_forward hsub _ n s
  case h_8 hkind | h_9 hkind =>
    refine .advance (by rw [hkind]; decide) fun _ s => ?_
    exact (expectSemicolon_forward n s).bind fun _ s => .peek (spanFrom_looks _) (.pure (by simp))
  case h_10 =>
    obtain ⟨value, hvalue⟩ := startsDecl_looks
    refine .peek hvalue (.ite (fun _ => ?_) fun _ => ?_)
    · refine (varDecl_forward hsub n s).bind fun d s => ?_
      exact (expectSemicolon_forward n s).bind fun _ s => .peek (spanFrom_looks _) (.pure (by simp))
    · refine (hsub n s).bind fun e s => ?_
      exact (expectSemicolon_forward n s).bind fun _ s => .peek (spanFrom_looks _) (.pure (by simp))

end

theorem statement_forward (depth : Nat) : Forward (statement depth) fun _ => True := by
  induction depth with
  | zero => exact fun _ _ => .failTooDeep
  | succ depth ih => exact statementIn_forward ih (expr_forward depth 0)

variable {n : Nat} {s : State}

/-! ## Members -/

theorem modifier_forward (m : ModifierList) : Forward (modifier? m) (·.isSome) := by
  intro n s
  obtain ⟨m, seen⟩ := m
  unfold modifier?
  refine .peek look_looks (.ite (fun _ => .pure (by simp)) fun hmodifier => ?_)
  refine .advance (fun heof => by simp [heof, TokenKind.isModifier] at hmodifier) fun _ s => ?_
  refine .ite (fun _ => .fail) fun _ => ?_
  split
  · exact .ite (fun _ => .fail) fun _ => .pure id
  · exact .pure id

theorem modifierList_forward : Forward modifierList fun _ => False :=
  fun n s => .peek look_looks (iterate_forward modifier_forward _ n s)

theorem allow_forward (target : Modified) (m : ModifierList) :
    Forward (allow target m) fun _ => False := by
  intro n s
  unfold allow
  split
  · exact .fail
  · exact .pure id

theorem param_forward : Forward param fun _ => True := by
  intro n s
  unfold param
  refine .peek look_looks ((typeExpr_forward false n s).bind fun type s => ?_)
  exact (identifier_forward n s).bind fun name s => .peek (spanFrom_looks _) (.pure (by simp))

theorem params_forward : Forward params fun _ => True := by
  intro n s
  unfold params
  refine (expect_forward (by decide) n s).bind fun _ s => ?_
  refine (unlessAt_forward (commaList_forward param_forward) n s).bind fun all s => ?_
  exact (expect_forward (by decide) n s).bind fun _ s => .pure (by simp)

theorem body_forward (depth : Nat) : Forward (body depth) fun _ => False := by
  intro n s
  unfold body
  refine (eat_forward (by decide) n s).bind fun b s => .ite (fun _ => ?_) fun _ => ?_
  · refine (expr_forward depth 0 n s).bind fun e s => ?_
    exact (expectSemicolon_forward n s).bind fun _ s => .pure (by simp)
  · refine .peek (at_looks _) (.ite (fun _ => ?_) fun _ => .peek look_looks .fail)
    exact (block_forward (statement_forward depth) n s).bind fun b s => .pure (by simp)

theorem startsCall_looks : ∃ value, Looks startsCall value := ⟨_, fun _ => rfl, fun _ _ => rfl⟩

theorem member_forward (depth : Nat) (owner : String) : Forward (member depth owner) fun _ => True := by
  intro n s
  unfold member
  obtain ⟨starts, hstarts⟩ := startsCall_looks
  refine .peek look_looks ((modifierList_forward n s).bind fun m s => ?_)
  refine .peek look_looks (.peek hstarts (.ite (fun _ => ?_) fun _ => .ite (fun _ => .fail) fun _ => ?_))
  · refine (allow_forward _ m n s).bind fun modifiers s => (identifier_forward n s).bind fun name s => ?_
    refine (params_forward n s).bind fun ps s => (body_forward depth n s).bind fun b s => ?_
    exact .peek (spanFrom_looks _) (.pure (by simp))
  · refine .peek hstarts (.ite (fun _ => .fail) fun _ => ?_)
    refine (typeExpr_forward false n s).bind fun type s => .peek hstarts (.ite (fun _ => ?_) fun _ => ?_)
    · refine (allow_forward _ m n s).bind fun modifiers s => ?_
      refine (identifier_forward n s).bind fun name s => (params_forward n s).bind fun ps s => ?_
      exact (body_forward depth n s).bind fun b s => .peek (spanFrom_looks _) (.pure (by simp))
    · refine (allow_forward _ m n s).bind fun modifiers s => ?_
      refine (commaList_forward (declarator_forward (expr_forward depth 0)) n s).bind fun vars s => ?_
      exact (expectSemicolon_forward n s).bind fun _ s => .peek (spanFrom_looks _) (.pure (by simp))

def memberRound (depth : Nat) (owner : String) (done : List Member) :
    Parse (Option (List Member)) := do
  if (← at? .rightBrace) || (← atEnd) then pure none
  else do
    match ← recovering (member depth owner) resumeMember with
    | some m => pure (some (m :: done))
    | none => pure (some done)

theorem members_eq (depth : Nat) (owner : String) : members depth owner = (do
    let all ← iterate (memberRound depth owner) []
    pure all.reverse) := rfl

theorem memberRound_forward (depth : Nat) (owner : String) (done : List Member) :
    Forward (memberRound depth owner done) (·.isSome) := by
  intro n s
  unfold memberRound
  refine .peek (at_looks _) (.peek atEnd_looks (.ite (fun _ => .pure (by simp)) fun hgoes => ?_))
  refine (recovering_moves (member_forward depth owner n s) resumes_member).bind fun r s' => ?_
  have hpassable := passable_of_not_ended hgoes
  split <;> exact .pure (by simp [hpassable])

theorem members_forward (depth : Nat) (owner : String) :
    Forward (members depth owner) fun _ => False := by
  intro n s
  rw [members_eq]
  exact (iterate_forward (memberRound_forward depth owner) _ n s).bind fun all s => .pure (by simp)

/-! ## Classes and usings -/

theorem MovesFrom.deeper {α : Type} {depth : Nat} {p q : Nat → Parse α} {P : α → Prop}
    (h : ∀ depth, MovesFrom n s (p depth) (q depth) P) :
    MovesFrom n s (Grammar.deeper depth p) (Grammar.deeper depth q) P := by
  cases depth with
  | zero => exact .failTooDeep
  | succ depth => exact h depth

theorem classDecl_forward (depth : Nat) : Forward (classDecl depth) fun _ => True := by
  intro n s
  unfold classDecl
  refine .peek look_looks ((modifierList_forward n s).bind fun m s => ?_)
  refine (allow_forward _ m n s).bind fun modifiers s => .peek look_looks ?_
  refine .ite (fun _ => .ite (fun _ => .fail) fun _ => .fail) fun hkind => ?_
  have hclass : s.current.kind = .kwClass := not_not.mp hkind
  refine .advance (by rw [hclass]; decide) fun _ s => (identifier_forward n s).bind fun name s => ?_
  refine .deeper fun depth => (expect_forward (by decide) n s).bind fun _ s => ?_
  refine (members_forward depth name.name n s).bind fun all s => ?_
  exact (expect_forward (by decide) n s).bind fun _ s => .peek (spanFrom_looks _) (.pure (by simp))

theorem usingDirective_forward : Forward usingDirective fun _ => True := by
  intro n s
  unfold usingDirective
  refine (expect_forward (by decide) n s).bind fun start s => (dottedPath_forward n s).bind fun path s => ?_
  exact (expect_forward (by decide) n s).bind fun _ s => .peek (spanFrom_looks _) (.pure (by simp))

def usingRound (done : List UsingDirective) : Parse (Option (List UsingDirective)) := do
  if ← at? .kwUsing then do
    match ← recovering usingDirective resumeStatement with
    | some u => pure (some (u :: done))
    | none => pure (some done)
  else pure none

theorem usings_eq : usings = (do
    let all ← iterate usingRound []
    pure all.reverse) := rfl

/-- In front of a keyword a search passes some token. -/
theorem State.Sound.passable {k : TokenKind} (hs : s.Sound) (hkind : s.current.kind = k)
    (heof : k ≠ .eof) (hbrace : k ≠ .rightBrace) : s.Passable := by
  subst hkind
  exact ⟨hs.upcoming_ne_nil heof, hbrace⟩

theorem usingRound_forward (done : List UsingDirective) : Forward (usingRound done) (·.isSome) := by
  intro n s hs
  unfold usingRound
  refine MovesFrom.peek (at_looks _) (.ite (fun husing => ?_) fun _ => .pure (by simp)) hs
  have hpassable := hs.passable (eq_of_beq husing) (by decide) (by decide)
  refine (recovering_moves (usingDirective_forward n s) resumes_statement).bind fun r s' => ?_
  split <;> exact .pure (by simp [hpassable])

theorem usings_forward : Forward usings fun _ => False := by
  intro n s
  rw [usings_eq]
  exact (iterate_forward usingRound_forward _ n s).bind fun all s => .pure (by simp)

/-! ## Items -/

section

variable {items items' : Nat → Bool → Parse (List Item)}

/-- A namespace takes a token before it reads its items. -/
theorem scopeDecl_moves (depth : Nat)
    (hitems : ∀ depth top s', s'.upcoming.length < s.upcoming.length →
      MovesFrom n s' (items depth top) (items' depth top) fun _ => False) :
    MovesFrom n s (scopeDecl depth items) (scopeDecl depth items') fun _ => True := by
  unfold scopeDecl
  refine (expect_forward (by decide) n s).bindBehind fun start s₁ ts₁ hgives₁ htakes => ?_
  have hlength₁ := hgives₁.length
  have hpos := List.length_pos_of_ne_nil (htakes trivial)
  refine (dottedPath_forward n s₁).bindBehind fun path s₂ ts₂ hgives₂ _ => ?_
  have hlength₂ := hgives₂.length
  refine (eat_forward (by decide) n s₂).bindBehind fun b s₃ ts₃ hgives₃ _ => ?_
  have hlength₃ := hgives₃.length
  refine .ite (fun _ => ?_) fun _ => .deeper fun depth => ?_
  · refine (usings_forward n s₃).bindBehind fun us s₄ ts₄ hgives₄ _ => ?_
    have hlength₄ := hgives₄.length
    exact (hitems depth true s₄ (by omega)).bind fun all s => .peek (spanFrom_looks _) (.pure (by simp))
  · refine (expect_forward (by decide) n s₃).bindBehind fun _ s₄ ts₄ hgives₄ _ => ?_
    have hlength₄ := hgives₄.length
    refine (usings_forward n s₄).bindBehind fun us s₅ ts₅ hgives₅ _ => ?_
    have hlength₅ := hgives₅.length
    refine (hitems depth false s₅ (by omega)).bind fun all s => ?_
    exact (expect_forward (by decide) n s).bind fun _ s => .peek (spanFrom_looks _) (.pure (by simp))

/-- A round of items takes a token, where the items have not come to their end. -/
theorem itemRound_moves (depth : Nat) (hne : s.upcoming ≠ [])
    (hitems : ∀ depth top s', s'.upcoming.length < s.upcoming.length →
      MovesFrom n s' (items depth top) (items' depth top) fun _ => False) :
    MovesFrom n s (itemRound depth items) (itemRound depth items') fun _ => True := by
  unfold itemRound
  refine .peek look_looks ?_
  split
  · next hkind =>
    refine (recovering_moves (scopeDecl_moves depth hitems) resumes_member).bind fun r s' => ?_
    have hpassable : s.Passable := ⟨hne, by rw [hkind]; decide⟩
    split <;> exact .pure (by simp [hpassable])
  · next hkind =>
    refine .report fun s' hgives => (skipTo_moves resumes_statement).bind fun _ s'' => .pure ?_
    have hpassable : s.Passable := ⟨hne, by rw [hkind]; decide⟩
    simp [hgives.passable hpassable]
  · next hkind =>
    exact .advance (by rw [hkind]; decide) fun t s => .report fun s' _ => .pure (by simp)
  · next hbrace =>
    refine (recovering_moves (classDecl_forward depth n s) resumes_member).bind fun r s' => ?_
    have hpassable : s.Passable := ⟨hne, hbrace⟩
    split <;> exact .pure (by simp [hpassable])

end

end ClassScript.Grammar
