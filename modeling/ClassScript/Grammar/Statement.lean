import ClassScript.Grammar.Expression

/-!
Types, statements and blocks.

`statement depth` may go `depth` levels deeper; a block takes no level of its own.
-/

namespace ClassScript.Grammar

/-- Names with points between them. -/
def dottedPath : Parse (List Ident) := do
  let first ← identifier
  let all ← iterate (fun (done : List Ident) => do
    if ← eat .dot then
      let name ← identifier
      pure (some (name :: done))
    else pure none) [first]
  pure all.reverse

/-- A type; `var` is one only where `inferable`. -/
def typeExpr (inferable : Bool) : Parse TypeExpr := do
  let t ← look
  match t.kind.valueType? with
  | some type => do
    let _ ← advance
    pure ⟨.keyword type, t.span⟩
  | none =>
    match t.kind with
    | .kwVar =>
      if inferable then do
        let _ ← advance
        pure ⟨.inferred, t.span⟩
      else fail .varOutsideLocal t.span
    | .identifier => do
      let path ← dottedPath
      pure ⟨.named path, ← spanFrom t.span⟩
    | _ => fail (.expectedType t.describe) t.span

/-- Whether these are a dotted name behind its first part, and then another name. -/
def pathThenName : List Token → Bool
  | a :: b :: rest =>
    if a.kind = .dot ∧ b.kind = .identifier then pathThenName rest else a.kind = .identifier
  | [a] => a.kind = .identifier
  | [] => false

/-- Whether a declaration of variables comes: a type and then a name. The name of a keyword type is
enough, unless a member is taken from it. -/
def startsDecl : Parse Bool := fun s =>
  let kind := s.current.kind
  let next := (s.ahead 1).kind
  .ok (if kind.isType then next ≠ .dot
    else if kind = .kwVar then next = .identifier
    else kind = .identifier ∧ pathThenName s.upcoming.tail) s

section

variable (sub : Parse Expr)

/-- A name and its initializer. -/
def declarator : Parse Declarator := do
  let name ← identifier
  let value ← if ← eat .equal then (do pure (some (← sub))) else pure none
  pure ⟨name, value, ← spanFrom name.span⟩

/-- A type and its declarators, without the semicolon. -/
def varDecl : Parse VarDecl := do
  let start := (← look).span
  let type ← typeExpr true
  let vars ← commaList (declarator sub)
  pure ⟨type, vars, ← spanFrom start⟩

/-- An expression in parentheses. -/
def condition : Parse Expr := do
  let _ ← expect .leftParen
  let e ← sub
  let _ ← expect .rightParen
  pure e

/-- Nothing if `stop` comes, else what `p` reads. -/
def unlessAt {α : Type} (stop : TokenKind) (p : Parse α) : Parse (Option α) := do
  if ← at? stop then pure none else do pure (some (← p))

variable (stmt : Parse Stmt)

/-- Statements in braces; behind a faulty one the next is looked for. -/
def block : Parse (List Stmt × Span) := do
  let start := (← expect .leftBrace).span
  let stmts ← iterate (fun (done : List Stmt) => do
    if (← at? .rightBrace) || (← atEnd) then pure none
    else do
      match ← recovering stmt resumeStatement with
      | some s => pure (some (s :: done))
      | none => pure (some done)) []
  let _ ← expect .rightBrace
  pure (stmts.reverse, ← spanFrom start)

def ifStmt (start : Span) : Parse Stmt := do
  let c ← condition sub
  let yes ← stmt
  let no ← if ← eat .kwElse then (do pure (some (← stmt))) else pure none
  pure (.ifElse c yes no (← spanFrom start))

def whileStmt (start : Span) : Parse Stmt := do
  let c ← condition sub
  let body ← stmt
  pure (.whileLoop c body (← spanFrom start))

def doStmt (start : Span) : Parse Stmt := do
  let body ← stmt
  let _ ← expect .kwWhile
  let c ← condition sub
  expectSemicolon
  pure (.doLoop body c (← spanFrom start))

/-- The first clause of a `for`. -/
def forInit : Parse ForInit := do
  if ← startsDecl then pure (.decl (← varDecl sub)) else pure (.exprs (← commaList sub))

def forStmt (start : Span) : Parse Stmt := do
  let _ ← expect .leftParen
  let first ← unlessAt .semicolon (forInit sub)
  let _ ← expect .semicolon
  let c ← unlessAt .semicolon sub
  let _ ← expect .semicolon
  let update ← unlessAt .rightParen (commaList sub)
  let _ ← expect .rightParen
  let body ← stmt
  pure (.forLoop first c (update.getD []) body (← spanFrom start))

def returnStmt (start : Span) : Parse Stmt := do
  let value ← unlessAt .semicolon sub
  expectSemicolon
  pure (.ret value (← spanFrom start))

/-- A statement, given how to read the expressions and statements in it. -/
def statementIn : Parse Stmt := do
  let t ← look
  match t.kind with
  | .leftBrace => do
    let (stmts, span) ← block stmt
    pure (.block stmts span)
  | .semicolon => do
    let _ ← advance
    pure (.empty t.span)
  | .kwIf => do
    let _ ← advance
    ifStmt sub stmt t.span
  | .kwWhile => do
    let _ ← advance
    whileStmt sub stmt t.span
  | .kwDo => do
    let _ ← advance
    doStmt sub stmt t.span
  | .kwFor => do
    let _ ← advance
    forStmt sub stmt t.span
  | .kwReturn => do
    let _ ← advance
    returnStmt sub t.span
  | .kwBreak => do
    let _ ← advance
    expectSemicolon
    pure (.breakLoop (← spanFrom t.span))
  | .kwContinue => do
    let _ ← advance
    expectSemicolon
    pure (.continueLoop (← spanFrom t.span))
  | _ =>
    if ← startsDecl then do
      let d ← varDecl sub
      expectSemicolon
      pure (.decl ⟨d.type, d.vars, ← spanFrom d.span⟩)
    else do
      let e ← sub
      expectSemicolon
      pure (.expr e (← spanFrom t.span))

end

def statement : Nat → Parse Stmt
  | 0 => failTooDeep
  | depth + 1 => statementIn (expr depth 0) (statement depth)

end ClassScript.Grammar
