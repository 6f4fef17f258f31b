import ClassScript.Compile.Call
import ClassScript.Compile.Plan
import ClassScript.Tree

/-!
Compiling expressions, in one walk over the tree.

Operands are pushed from left to right. Where an operand turns out to need a conversion only after
more code was written, the conversion is inserted behind it; an operator on constants takes the code
of its operands back and pushes the result. The walk counts how deep it is and refuses to go beyond
a limit; a chain of binary operators is one level, however long it is.
-/

namespace ClassScript.Compile

/-! ## Depth -/

/-- Levels of expressions inside each other. -/
def maxDepth : Nat := 64

/-- Goes some levels deeper. -/
def enter {α : Type} (depth levels : Nat) (span : Span) (k : Nat → Compiling α) : Compiling α :=
  if maxDepth < depth + levels then fail .tooComplex span else k (depth + levels)

/-- The levels an expression takes as a value: one, and one more for the object of a member. -/
def valueLevels : Expr → Nat
  | .member .. => 2
  | _ => 1

/-- The levels an expression takes as the object of a member. -/
def objectLevels : Expr → Nat
  | .ident _ | .this _ => 0
  | _ => 1

/-- What an expression is compiled for. -/
inductive Use where
  | value
  /-- Its value is not wanted. -/
  | discarded
  /-- The parentheses around a name do not count. -/
  | bare
deriving DecidableEq

/-- Pushes the value of the expression `e`; `k` finds its meaning at a depth. -/
def asValue (site : Site) (depth : Nat) (e : Expr) (k : Nat → Compiling Meaning) :
    Compiling Pushed := do
  let m ← enter depth (valueLevels e) e.span k
  materialize site m e.span

/-- The meaning of the expression `e` as the object of a member. -/
def asObject (depth : Nat) (e : Expr) (k : Nat → Compiling Meaning) : Compiling Meaning :=
  enter depth (objectLevels e) e.span k

/-- The meaning of the expression `e` as a name, in parentheses or not. -/
def asName (depth : Nat) (e : Expr) (other : Compiling Meaning) (k : Nat → Compiling Meaning) :
    Compiling Meaning :=
  match e.bare with
  | .ident _ => k depth
  | .member _ _ span => enter depth 1 span k
  | _ => other

/-- The place that the expression `e` names. -/
def asPlace (site : Site) (depth : Nat) (e : Expr) (k : Nat → Compiling Meaning) :
    Compiling Place := do
  let m ← asName depth e (fail .invalidTarget e.bare.span) k
  placeOf site m e.bare.span

/-! ## Operators, once their operands are pushed -/

/-- Applies an operator to two operands. The code of the left one ends at `stop`. -/
def applyBinary (op : BinaryOp) (left : Pushed) (stop : Nat) (right : Pushed) (span : Span) :
    Compiling Pushed := do
  match op.plan? left.type right.type with
  | none => fail (.binaryOperands op.spelling left.type right.type) span
  | some plan =>
    let here ← offset
    let right ← convertAt right plan.right plan.operand here span
    let left ← convertAt left plan.left plan.operand stop span
    if plan.divides op && right.constant.any (·.isIntegerZero) then
      fail .constantDivisionByZero span
    else
      match left.constant, right.constant with
      | some l, some r =>
        let v ← fold (plan.op.evalBinary true l r) span
        replace left.start v
      | _, _ =>
        emit plan.op
        pure (.unknown plan.result left.start)

/-- Begins `&&` or `||` behind its left operand: the right one is passed over if the left one
decides. -/
def beginLogical (op : BinaryOp) : Compiling Nat := do
  emit .dup
  let label ← jump (if op = .logicalAnd then .jumpIfFalse else .jumpIfTrue)
  emit .pop
  pure label

/-- The value of a logical operator on constants. -/
def logicalValue (op : BinaryOp) (l r : Bool) : Bool := if op = .logicalAnd then l && r else l || r

/-- Ends `&&` or `||` behind its right operand. -/
def endLogical (op : BinaryOp) (left : Pushed) (label : Nat) (right : Pushed) (span : Span) :
    Compiling Pushed := do
  land label
  if left.type ≠ .bool ∨ right.type ≠ .bool then
    fail (.binaryOperands op.spelling left.type right.type) span
  else
    match left.constant, right.constant with
    | some (.bool l), some (.bool r) => replace left.start (.bool (logicalValue op l r))
    | _, _ => pure (.unknown .bool left.start)

/-- The instruction of an operator in front of an operand; none if there is nothing to do. -/
def unaryOp? (op : UnaryOp) (type : ValueType) : Option (Option Opcode) :=
  match op, type with
  | .plus, .int | .plus, .long | .plus, .double => some none
  | .neg, .int => some (some .negI32)
  | .neg, .long => some (some .negI64)
  | .neg, .double => some (some .negF64)
  | .not, .bool => some (some .not)
  | _, _ => none

/-- Applies an operator to the operand behind it. -/
def applyUnary (op : UnaryOp) (p : Pushed) (span : Span) : Compiling Pushed := do
  match unaryOp? op p.type with
  | none => fail (.unaryOperand op.spelling p.type) span
  | some none => pure p
  | some (some code) =>
    match p.constant with
    | some v =>
      let v ← fold (code.evalUnary true v) span
      replace p.start v
    | none =>
      emit code
      pure (.unknown p.type p.start)

/-- What an increment adds. -/
def one : ValueType → Value
  | .long => .long 1
  | .double => .double (.ofInt 1)
  | _ => .int 1

/-- The instruction that adds or subtracts it. -/
def stepOp (type : ValueType) (up : Bool) : Opcode :=
  match type, up with
  | .long, true => .addI64
  | .long, false => .subI64
  | .double, true => .addF64
  | .double, false => .subF64
  | _, true => .addI32
  | _, false => .subI32

/-- The type of an expression that stores a value: none if its value is not wanted. -/
def storedType (use : Use) (type : ValueType) : ValueType :=
  if use = .discarded then .void else type

/-- Counts a place up or down. In front of the place, the new value is kept, behind it the old. -/
def countPlace (place : Place) (up front : Bool) (use : Use) (span : Span) : Compiling Pushed := do
  let type := place.type
  if !type.isNumeric then
    fail (.unaryOperand (if up then "++" else "--") type) span
  else
    let start ← offset
    load place
    if !front && use != .discarded then emit .dup
    emitValue (one type)
    emit (stepOp type up)
    if front && use != .discarded then emit .dup
    store place
    pure (.unknown (storedType use type) start)

/-- Applies the operator of a compound assignment to the value of the place, whose code ends at
`stop`, and to the operand behind it. The result must have the type of the place. -/
def applyCompound (op : AssignOp) (binary : BinaryOp) (type : ValueType) (stop : Nat)
    (right : Pushed) (span : Span) : Compiling Unit := do
  match binary.plan? type right.type with
  | none => fail (.binaryOperands op.spelling type right.type) span
  | some plan =>
    if plan.result ≠ type then fail (.typeMismatch plan.result type) span
    else
      let here ← offset
      let right ← convertAt right plan.right plan.operand here span
      match plan.left with
      | some widen => edit (·.insert stop widen)
      | none => pure ()
      if plan.divides binary && right.constant.any (·.isIntegerZero) then
        fail .constantDivisionByZero span
      else emit plan.op

/-- Ends an assignment, which began at `start`: the value on top goes into the place. -/
def endAssign (place : Place) (use : Use) (start : Nat) : Compiling Pushed := do
  if use != .discarded then emit .dup
  store place
  pure (.unknown (storedType use place.type) start)

/-- The type of a conditional: that of the branch to which the other one converts. -/
def branchType? (yes no : ValueType) : Option ValueType :=
  let type :=
    if yes = no then some yes
    else if no.convertsTo yes then some yes
    else if yes.convertsTo no then some no
    else none
  type.filter (!·.isVoid)

/-- Lays down a branch with its conversion. -/
def layBranch (code : Code) (p : Pushed) (type : ValueType) : Compiling Unit := do
  edit (·.bytes code)
  match Conversion.widening? p.type type with
  | some op => emit op
  | none => pure ()

/-- Ends a conditional whose branches have been compiled and cut out. `toElse` is the jump behind
the condition. -/
def endConditional (start : Nat) (condition : Pushed) (toElse : Nat) (yes : Pushed)
    (yesCode : Code) (no : Pushed) (noCode : Code) (span : Span) : Compiling Pushed := do
  match branchType? yes.type no.type with
  | none => fail (.conditionalMismatch yes.type no.type) span
  | some type =>
    match condition.constant, yes.constant, no.constant with
    | some c, some a, some b =>
      match (if c = .bool true then a else b).convert? type with
      | some v => replace start v
      | none => fail (.conditionalMismatch yes.type no.type) span
    | _, _, _ =>
      layBranch yesCode yes type
      let toEnd ← jump .jump
      land toElse
      layBranch noCode no type
      land toEnd
      pure (.unknown type start)

/-- The name of what is called, as messages show it. -/
def calleeText (e : Expr) : String :=
  match e.path? with
  | some path => dottedText path
  | none => "expression"

def notInvocable {α : Type} (e : Expr) : Compiling α := fail (.notInvocable (calleeText e)) e.span

/-! ## The walk -/

mutual

/-- What an expression means; whatever is no mere name is pushed. -/
def meaning (site : Site) (locals : LocalScope) (depth : Nat) (use : Use) : Expr → Compiling Meaning
  | .literal lit _ => do
    let p ← push lit.value
    pure (.value p)
  | .ident name => nameMeaning site locals name
  | .this span => thisMeaning site span
  | .member object name _ => do
    let m ← asObject depth object fun d => meaning site locals d .value object
    memberMeaning site m object.span name
  | .paren inner _ =>
    if use = .bare then meaning site locals depth .bare inner
    else do
      let p ← asValue site depth inner fun d => meaning site locals d .value inner
      pure (.value p)
  | .binary op left right span => do
    let l ←
      match left with
      | .binary .. => do
        let m ← meaning site locals depth .value left
        materialize site m left.span
      | _ => asValue site depth left fun d => meaning site locals d .value left
    if op.isLogical then
      let label ← beginLogical op
      let r ← asValue site depth right fun d => meaning site locals d .value right
      let p ← endLogical op l label r span
      pure (.value p)
    else
      let stop ← offset
      let r ← asValue site depth right fun d => meaning site locals d .value right
      let p ← applyBinary op l stop r span
      pure (.value p)
  | .unary op operand span =>
    if op = .increment ∨ op = .decrement then do
      let place ← asPlace site depth operand fun d => meaning site locals d .bare operand
      let p ← countPlace place (op == .increment) true use span
      pure (.value p)
    else do
      let p ← asValue site depth operand fun d => meaning site locals d .value operand
      let p ← applyUnary op p span
      pure (.value p)
  | .post op operand span => do
    let place ← asPlace site depth operand fun d => meaning site locals d .bare operand
    let p ← countPlace place (op == .increment) false use span
    pure (.value p)
  | .assign op target value span => do
    let place ← asPlace site depth target fun d => meaning site locals d .bare target
    let start ← offset
    match op.binary? with
    | none =>
      let v ← asValue site depth value fun d => meaning site locals d .value value
      discard (coerce v place.type value.span)
    | some binary =>
      load place
      let stop ← offset
      let v ← asValue site depth value fun d => meaning site locals d .value value
      applyCompound op binary place.type stop v span
    let p ← endAssign place use start
    pure (.value p)
  | .conditional condition yes no span => do
    let start ← offset
    let c ← asValue site depth condition fun d => meaning site locals d .value condition
    let c ← coerce c .bool condition.span
    let toElse ← jump .jumpIfFalse
    let branch ← offset
    let a ← asValue site depth yes fun d => meaning site locals d .value yes
    let yesCode ← cut branch
    let b ← asValue site depth no fun d => meaning site locals d .value no
    let noCode ← cut branch
    let p ← endConditional start c toElse a yesCode b noCode span
    pure (.value p)
  | .call callee args span => do
    let start ← offset
    let m ← asName depth callee (notInvocable callee.bare)
      fun d => meaning site locals d .bare callee
    match m with
    | .methods target name =>
      let args ← arguments site locals depth args
      let p ← call site start target name args span
      pure (.value p)
    | _ => notInvocable callee.bare

/-- Pushes the arguments of a call. -/
def arguments (site : Site) (locals : LocalScope) (depth : Nat) :
    List Expr → Compiling (List Argument)
  | [] => pure []
  | e :: es => do
    let p ← asValue site depth e fun d => meaning site locals d .value e
    let stop ← offset
    let rest ← arguments site locals depth es
    pure (⟨p, stop, e.span⟩ :: rest)

end

/-- Parentheses around a name do not count; around a value they leave the value. -/
theorem meaning_paren {site : Site} {locals : LocalScope} {depth : Nat} {use : Use} {inner : Expr}
    {span : Span} :
    meaning site locals depth use (.paren inner span) =
      if use = .bare then meaning site locals depth .bare inner
      else (do
        let p ← asValue site depth inner fun d => meaning site locals d .value inner
        pure (.value p)) := by
  simp only [meaning]

/-- The left operand of a binary operator. A chain of operators is one level. -/
def leftOperand (site : Site) (locals : LocalScope) (depth : Nat) (left : Expr) : Compiling Pushed :=
  match left with
  | .binary .. => do
    let m ← meaning site locals depth .value left
    materialize site m left.span
  | _ => asValue site depth left fun d => meaning site locals d .value left

theorem meaning_binary {site : Site} {locals : LocalScope} {depth : Nat} {use : Use} {op : BinaryOp}
    {left right : Expr} {sp : Span} : meaning site locals depth use (.binary op left right sp) = (do
      let l ← leftOperand site locals depth left
      if op.isLogical then
        let label ← beginLogical op
        let r ← asValue site depth right fun d => meaning site locals d .value right
        let p ← endLogical op l label r sp
        pure (.value p)
      else
        let stop ← offset
        let r ← asValue site depth right fun d => meaning site locals d .value right
        let p ← applyBinary op l stop r sp
        pure (.value p)) := by
  cases left <;> simp only [meaning, leftOperand, bind_assoc]

/-! ## Expressions in statements -/

/-- Pushes the value of an expression. -/
def value (site : Site) (locals : LocalScope) (e : Expr) : Compiling Pushed :=
  asValue site 0 e fun d => meaning site locals d .value e

/-- Pushes the value of an expression in another type. -/
def valueOf (site : Site) (locals : LocalScope) (e : Expr) (type : ValueType) :
    Compiling Pushed := do
  let p ← value site locals e
  coerce p type e.span

/-- Expressions that do something and so can be statements. -/
def isEffect : Expr → Bool
  | .assign .. | .post .. | .call .. => true
  | .unary op _ _ => op == .increment || op == .decrement
  | _ => false

/-- Compiles an expression that stands as a statement, and leaves nothing pushed. -/
def effect (site : Site) (locals : LocalScope) (e : Expr) : Compiling Unit := do
  if isEffect e then
    let m ← meaning site locals 0 .discarded e
    let p ← materialize site m e.span
    if !p.type.isVoid then emit .pop
  else fail .invalidStatement e.span

end ClassScript.Compile
