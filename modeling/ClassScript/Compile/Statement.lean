import ClassScript.Compile.Expression
import ClassScript.Diagnostic

/-!
Compiling statements.

Every statement is told whether it can be reached and answers whether its end can be. The answers
give the warning about unreachable code and the check for missing returns, and a release leaves the
code of unreachable statements out. An error ends the statement it is in; the next one is compiled
all the same.
-/

namespace ClassScript

/-- A method as far as it is compiled. -/
structure BodyState where
  code : CodeState
  locals : LocalScope
  /-- The last report first. -/
  reports : List Diagnostic

abbrev Writing (α : Type) : Type := StateM BodyState α

namespace Compile

/-! ## Inside a body -/

def report (d : Diagnostic) : Writing Unit := modify fun
  | ⟨code, locals, reports⟩ => ⟨code, locals, d :: reports⟩

/-- Compiles an expression with the locals in scope; an error is reported. -/
def attempt {α : Type} (f : LocalScope → Compiling α) : Writing (Option α) := modifyGet fun
  | ⟨code, locals, reports⟩ =>
    match (ExceptT.run (f locals)).run code with
    | (.ok a, code) => (some a, ⟨code, locals, reports⟩)
    | (.error e, code) => (none, ⟨code, locals, e.diagnostic :: reports⟩)

def editCode (f : Emitter → Emitter) : Writing Unit := modify fun
  | ⟨⟨emitter, imports⟩, locals, reports⟩ => ⟨⟨f emitter, imports⟩, locals, reports⟩

def editLocals (f : LocalScope → LocalScope) : Writing Unit := modify fun
  | ⟨code, locals, reports⟩ => ⟨code, f locals, reports⟩

def codeOffset : Writing Nat := do
  let s ← get
  pure s.code.emitter.offset

/-- Changes the code and keeps an answer. -/
def withCode {α : Type} (f : Emitter → α × Emitter) : Writing α := modifyGet fun
  | ⟨⟨emitter, imports⟩, locals, reports⟩ =>
    let (a, emitter) := f emitter
    (a, ⟨⟨emitter, imports⟩, locals, reports⟩)

def openJump (op : Opcode) : Writing Nat := withCode (·.emitJump op)

/-- Brings a local variable into scope and stores the value on top into it. -/
def declareLocal (name : Ident) (type : ValueType) : Writing Unit := modify fun
  | ⟨⟨emitter, imports⟩, locals, reports⟩ =>
    match locals.conflict? name.name name.span with
    | some e => ⟨⟨emitter, imports⟩, locals, e.diagnostic :: reports⟩
    | none =>
      let (slot, locals) := locals.add name.name type
      ⟨⟨emitter.emitWith .setLocal slot, imports⟩, locals, reports⟩

/-! ## Reachability -/

mutual

/-- Where the warning about a statement goes: to the statement, or into a block. Empty statements
give none. -/
def firstSpan? : Stmt → Option Span
  | .empty _ => none
  | .block stmts _ => firstSpanOf? stmts
  | s => some s.span

def firstSpanOf? : List Stmt → Option Span
  | [] => none
  | s :: ss => firstSpan? s <|> firstSpanOf? ss

end

def unreachableCode (span : Span) : Diagnostic :=
  ⟨.warning, "QC0162", "unreachable code detected", span, false⟩

/-- Compiles the statement `s` inside another one; `k` compiles it. The warning goes to a statement
that cannot be reached although what is around it can be. -/
def nested (site : Site) (reachable parent : Bool) (s : Stmt) (k : Writing Bool) :
    Writing Bool := do
  if parent && !reachable then
    match firstSpan? s with
    | some span => report (unreachableCode span)
    | none => pure ()
  let start ← codeOffset
  let ends ← k
  if !reachable && site.release then editCode (·.truncate start)
  pure ends

/-! ## Parts of statements -/

/-- Compiles a condition. The answer is its value, if it is known, and where its code begins. -/
def condition (site : Site) (e : Expr) : Writing (Option Bool × Nat) := do
  let start ← codeOffset
  let p ← attempt fun locals => valueOf site locals e .bool
  match p with
  | some ⟨_, some (.bool b), _⟩ => pure (some b, start)
  | _ => pure (none, start)

/-- Compiles expressions that are wanted for their effects. -/
def effects (site : Site) : List Expr → Writing Unit
  | [] => pure ()
  | e :: es => do
    discard (attempt fun locals => effect site locals e)
    effects site es

/-- Pushes the first value of a local variable and tells its type. `declared` is its type unless it
is taken from the value. -/
def localValue (site : Site) (declared : Option ValueType) (v : Declarator) (locals : LocalScope) :
    Compiling ValueType := do
  match declared, v.value with
  | some type, some e =>
    discard (valueOf site locals e type)
    pure type
  | some type, none =>
    emitValue type.default
    pure type
  | none, some e =>
    let p ← value site locals e
    if p.type.isVoid then fail .voidInferred v.span else pure p.type
  | none, none => fail .uninitializedInferred v.span

/-- Declares local variables, one after the other. -/
def declarators (site : Site) (declared : Option ValueType) : List Declarator → Writing Unit
  | [] => pure ()
  | v :: vs => do
    match ← attempt (localValue site declared v) with
    | some type => declareLocal v.name type
    | none => pure ()
    declarators site declared vs

/-- The declared type of local variables; none if it is taken from their value. -/
def declaredType (site : Site) (d : VarDecl) : Except SemanticError (Option ValueType) :=
  if d.type.kind = .inferred then
    if 1 < d.vars.length then .error ⟨.unsupported .severalInferred, d.span⟩ else .ok none
  else
    match site.symbols.resolveType site.owner d.type with
    | .error e => .error e
    | .ok type =>
      if type.isVoid then .error ⟨.unsupported .voidLocal, d.type.span⟩ else .ok (some type)

def varDecl (site : Site) (d : VarDecl) : Writing Unit :=
  match declaredType site d with
  | .error e => report e.diagnostic
  | .ok declared => declarators site declared d.vars

/-- A return, with the value that is returned. -/
def returnValue (site : Site) (value : Option Expr) (span : Span) : Writing Unit := do
  match value with
  | some e =>
    if site.returns.isVoid then
      report (SemanticError.mk (.voidReturnsValue site.display) span).diagnostic
    else
      match ← attempt fun locals => valueOf site locals e site.returns with
      | some _ => editCode (·.emit .ret)
      | none => pure ()
  | none =>
    if site.returns.isVoid then editCode (·.emit .retVoid)
    else report (SemanticError.mk (.missingReturnValue site.returns) span).diagnostic

/-- A jump out of a loop or to its next round; false from `f` means that there is no loop. -/
def loopJump (f : Emitter → Bool × Emitter) (span : Span) : Writing Unit := do
  if !(← withCode f) then report (SemanticError.mk .noEnclosingLoop span).diagnostic

def forStart (site : Site) : Option ForInit → Writing Unit
  | some (.decl d) => varDecl site d
  | some (.exprs es) => effects site es
  | none => pure ()

/-! ## Statements -/

mutual

/-- Compiles a statement. The answer is whether its end can be reached. -/
def statement (site : Site) (reachable : Bool) : Stmt → Writing Bool
  | .block stmts _ => do
    editLocals (·.open_)
    let ends ← statements site reachable reachable false stmts
    editLocals (·.close)
    pure ends
  | .decl d => do
    varDecl site d
    pure reachable
  | .expr e _ => do
    discard (attempt fun locals => effect site locals e)
    pure reachable
  | .ifElse cond yes no _ => do
    let (known, _) ← condition site cond
    let toElse ← openJump .jumpIfFalse
    let live := reachable && known != some false
    let yesEnds ← nested site live reachable yes (statement site live yes)
    let elseLive := reachable && known != some true
    match no with
    | none =>
      editCode (·.land toElse)
      pure (yesEnds || elseLive)
    | some no =>
      let toEnd ← if yesEnds then some <$> openJump .jump else pure none
      editCode (·.land toElse)
      let noEnds ← nested site elseLive reachable no (statement site elseLive no)
      match toEnd with
      | some label => editCode (·.land label)
      | none => pure ()
      pure (yesEnds || noEnds)
  | .whileLoop cond body _ => do
    let (known, start) ← condition site cond
    let exit ←
      if known = some true then do
        editCode (·.truncate start)
        pure none
      else some <$> openJump .jumpIfFalse
    editCode (·.enterLoop (some start))
    let live := reachable && known != some false
    discard (nested site live reachable body (statement site live body))
    editCode (·.emitLoop start)
    match exit with
    | some label => editCode (·.land label)
    | none => pure ()
    let loop ← withCode (·.exitLoop)
    pure (reachable && (known != some true || loop.hasBreak))
  | .doLoop body cond _ => do
    let start ← codeOffset
    editCode (·.enterLoop none)
    let ends ← nested site reachable reachable body (statement site reachable body)
    editCode (·.landContinues)
    let (known, conditionStart) ← condition site cond
    match known with
    | some true =>
      editCode (·.truncate conditionStart)
      editCode (·.emitLoop start)
    | some false => editCode (·.truncate conditionStart)
    | none =>
      let exit ← openJump .jumpIfFalse
      editCode (·.emitLoop start)
      editCode (·.land exit)
    let loop ← withCode (·.exitLoop)
    pure (loop.hasBreak || (known != some true && (ends || loop.hasContinue)))
  | .forLoop first cond update body _ => do
    editLocals (·.open_)
    forStart site first
    let start ← codeOffset
    let known ←
      match cond with
      | none => pure (some true)
      | some e => do
        let (known, conditionStart) ← condition site e
        if known = some true then editCode (·.truncate conditionStart)
        pure known
    let exit ← if known = some true then pure none else some <$> openJump .jumpIfFalse
    editCode (·.enterLoop none)
    let live := reachable && known != some false
    discard (nested site live reachable body (statement site live body))
    editCode (·.landContinues)
    effects site update
    editCode (·.emitLoop start)
    match exit with
    | some label => editCode (·.land label)
    | none => pure ()
    let loop ← withCode (·.exitLoop)
    editLocals (·.close)
    pure (reachable && (known != some true || loop.hasBreak))
  | .ret value span => do
    returnValue site value span
    pure false
  | .breakLoop span => do
    loopJump (·.emitBreak reachable) span
    pure false
  | .continueLoop span => do
    loopJump (·.emitContinue reachable) span
    pure false
  | .empty _ => pure reachable

/-- Compiles the statements of a block. `live` tells whether the next one can be reached, `warned`
whether the block was warned about. -/
def statements (site : Site) (reachable live warned : Bool) : List Stmt → Writing Bool
  | [] => pure live
  | s :: ss => do
    let parent := reachable && !warned
    let ends ← nested site live parent s (statement site live s)
    let warned := warned || (!live && parent && (firstSpan? s).isSome)
    statements site reachable ends warned ss

end

theorem statement_empty {site : Site} {reachable : Bool} {span : Span} :
    statement site reachable (.empty span) = pure reachable := by
  simp only [statement]

end Compile
end ClassScript
