import ClassScript.Double.Decimal
import ClassScript.Grammar.State
import ClassScript.SignedRange

/-!
Expressions.

`expr depth power` reads an expression whose operators bind at least with `power`, and may go
`depth` levels deeper. Chains of operators and of accesses are loops, so only parentheses, arguments,
right operands and branches take a level.
-/

namespace ClassScript.Grammar

/-! ## Literals -/

/-- The integer that a literal denotes: an `int` if it fits and has no suffix, else a `long`. -/
def integerLiteral (negative : Bool) (t : Token) : Parse Literal :=
  let digits := t.lexeme.toList.filter Char.isDigit
  let size := Int.ofNat (Double.digitsValue digits)
  let n := if negative then -size else size
  if t.kind ≠ .longLiteral ∧ fitsSigned 32 n then pure (.int (Int32.ofInt n))
  else if fitsSigned 64 n then pure (.long (Int64.ofInt n))
  else fail .integerTooLarge t.span

/-- The number that a real literal denotes, its suffix aside. -/
def realLiteral (t : Token) : Parse Literal :=
  match Double.parse? (t.lexeme.toList.filter fun c => c ≠ 'd' ∧ c ≠ 'D') with
  | some d => pure (.double d)
  | none => fail (.invalidReal t.lexeme) t.span

def literal : Parse Expr := do
  let t ← look
  if t.kind.isLiteral then
    let _ ← advance
    let value ← match t.kind with
      | .doubleLiteral => realLiteral t
      | .stringLiteral => pure (.string t.lexeme)
      | .kwTrue => pure (.bool true)
      | .kwFalse => pure (.bool false)
      | _ => integerLiteral false t
    pure (.literal value t.span)
  else fail (.expectedExpression t.describe) t.span

/-! ## Operands -/

section

-- `sub` reads an operand one level deeper, with the power its operators need.
variable (sub : Nat → Parse Expr)

/-- A name, `this`, a parenthesis or a literal. The name of a type other than `void` may stand for
its class where a member is taken from it. -/
def primary : Parse Expr := do
  let t ← look
  match t.kind with
  | .kwThis => do
    let _ ← advance
    pure (.this t.span)
  | .identifier => do
    let _ ← advance
    pure (.ident ⟨t.lexeme, t.span⟩)
  | .leftParen => do
    let _ ← advance
    let inner ← sub 0
    let _ ← expect .rightParen
    pure (.paren inner (← spanFrom t.span))
  | kind =>
    if kind.isType ∧ kind ≠ .kwVoid ∧ (← lookAhead 1) = .dot then do
      let _ ← advance
      pure (.ident ⟨t.lexeme, t.span⟩)
    else literal

/-- Arguments in parentheses. -/
def arguments : Parse (List Expr) := do
  let _ ← expect .leftParen
  let args ← if ← at? .rightParen then pure [] else commaList (sub 0)
  let _ ← expect .rightParen
  pure args

/-- One access, call or step behind an operand. -/
def suffix? (e : Expr) : Parse (Option Expr) := do
  let t ← look
  match t.kind with
  | .dot => do
    let _ ← advance
    let name ← identifier
    pure (some (.member e name (e.span.merge name.span)))
  | .leftParen => do
    let args ← arguments sub
    pure (some (.call e args (← spanFrom e.span)))
  | kind =>
    match PostfixOp.ofToken? kind with
    | some op => do
      let _ ← advance
      pure (some (.post op e (e.span.merge t.span)))
    | none => pure none

/-- Operators in front, or an operand with what follows it. A minus right before an integer belongs
to the number, so that the least number can be written. -/
def operand : Parse Expr := do
  let t ← look
  match UnaryOp.ofToken? t.kind with
  | none => do
    let e ← primary sub
    iterate (suffix? sub) e
  | some op => do
    let next ← lookAhead 1
    if op = .neg ∧ (next = .intLiteral ∨ next = .longLiteral) ∧ (← lookAhead 2) ≠ .dot then do
      let _ ← advance
      let number ← advance
      let value ← integerLiteral true number
      iterate (suffix? sub) (.literal value (t.span.merge number.span))
    else do
      let _ ← advance
      let e ← sub UnaryOp.power
      pure (.unary op e (t.span.merge e.span))

/-! ## Operators -/

/-- One operator that binds at least with `power`, and its right side. -/
def operator? (power : Nat) (e : Expr) : Parse (Option Expr) := do
  let t ← look
  match AssignOp.ofToken? t.kind, BinaryOp.ofToken? t.kind with
  | some op, _ =>
    if AssignOp.power.1 < power then pure none
    else do
      let _ ← advance
      let value ← sub AssignOp.power.2
      pure (some (.assign op e value (e.span.merge value.span)))
  | none, some op =>
    if op.power.1 < power then pure none
    else do
      let _ ← advance
      let right ← sub op.power.2
      pure (some (.binary op e right (e.span.merge right.span)))
  | none, none =>
    if t.kind ≠ .question ∨ conditionalPower.1 < power then pure none
    else do
      let _ ← advance
      let yes ← sub 0
      let _ ← expect .colon
      let no ← sub conditionalPower.2
      pure (some (.conditional e yes no (e.span.merge no.span)))

def operators (power : Nat) : Parse Expr := do
  let e ← operand sub
  iterate (operator? sub power) e

end

def expr : Nat → Nat → Parse Expr
  | 0, _ => failTooDeep
  | depth + 1, power => operators (expr depth) power

end ClassScript.Grammar
