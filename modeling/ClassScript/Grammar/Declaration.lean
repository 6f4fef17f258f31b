import ClassScript.Grammar.Statement

/-!
Usings, namespaces, classes and their members, and whole scripts.
-/

namespace ClassScript.Grammar

/-! ## Modifiers -/

/-- What modifiers stand before. -/
inductive Modified where
  | type
  | field
  | method
  | constructor
deriving DecidableEq

/-- Whether a modifier may not stand there: only fields are `readonly`, and no constructor is
`static`. -/
def Modified.refuses : Modified → TokenKind → Bool
  | .type, .kwReadonly | .method, .kwReadonly => true
  | .constructor, .kwReadonly | .constructor, .kwStatic => true
  | _, _ => false

/-- The access level that a modifier names. -/
def visibilityOf? : TokenKind → Option Visibility
  | .kwPublic => some .pub
  | .kwPrivate => some .priv
  | .kwProtected => some .prot
  | .kwInternal => some .internal
  | _ => none

/-- Modifiers as far as they were read, and their tokens, the last first. -/
abbrev ModifierList := Modifiers × List Token

def modifier? : ModifierList → Parse (Option ModifierList) := fun (m, seen) => do
  let t ← look
  if !t.kind.isModifier then pure none
  else do
    let _ ← advance
    if seen.any (·.kind == t.kind) then fail (.duplicateModifier t.kind) t.span
    else
      let span := m.span.merge t.span
      match visibilityOf? t.kind with
      | some v =>
        if m.visibility.isSome then fail .severalAccessModifiers t.span
        else pure (some (⟨some v, m.isStatic, m.isReadonly, span⟩, t :: seen))
      | none =>
        pure (some (⟨m.visibility, m.isStatic || t.kind == .kwStatic,
          m.isReadonly || t.kind != .kwStatic, span⟩, t :: seen))

/-- Modifiers in any order, each once and with one access level at most. -/
def modifierList : Parse ModifierList := do
  let start := (← look).span
  iterate modifier? (⟨none, false, false, .point start.line start.col⟩, [])

/-- The modifiers, if all of them may stand there. -/
def allow (target : Modified) (m : ModifierList) : Parse Modifiers :=
  match m.2.reverse.find? fun t => target.refuses t.kind with
  | some t => fail (.invalidModifier t.kind) t.span
  | none => pure m.1

/-! ## Members -/

def param : Parse Param := do
  let start := (← look).span
  let type ← typeExpr false
  let name ← identifier
  pure ⟨type, name, ← spanFrom start⟩

def params : Parse (List Param) := do
  let _ ← expect .leftParen
  let all ← unlessAt .rightParen (commaList param)
  let _ ← expect .rightParen
  pure (all.getD [])

/-- A block, or an arrow with an expression, up to `depth` levels deep. -/
def body (depth : Nat) : Parse Body := do
  if ← eat .arrow then do
    let e ← expr depth 0
    expectSemicolon
    pure (.arrow e)
  else if ← at? .leftBrace then do
    let (stmts, span) ← block (statement depth)
    pure (.block stmts span)
  else do
    let t ← look
    fail (.expectedToken "'\x7b' or '=>'" t.describe) t.span

/-- Whether a name with an opening parenthesis comes. -/
def startsCall : Parse Bool := fun s =>
  .ok (s.current.kind == .identifier && (s.ahead 1).kind == .leftParen) s

/-- A member of the class `owner`. The name of the class before a parenthesis starts a constructor,
another name there is a method without a type. -/
def member (depth : Nat) (owner : String) : Parse Member := do
  let start := (← look).span
  let m ← modifierList
  let t ← look
  if t.lexeme == owner && (← startsCall) then do
    let modifiers ← allow .constructor m
    let name ← identifier
    let ps ← params
    let b ← body depth
    pure (.constructor modifiers name ps b (← spanFrom start))
  else if !(t.kind.isType || t.kind == .kwVar || t.kind == .identifier) then
    fail (.invalidMember t.describe) t.span
  else if ← startsCall then fail .missingReturnType t.span
  else do
    let type ← typeExpr false
    if ← startsCall then do
      let modifiers ← allow .method m
      let name ← identifier
      let ps ← params
      let b ← body depth
      pure (.method modifiers type name ps b (← spanFrom start))
    else do
      let modifiers ← allow .field m
      let vars ← commaList (declarator (expr depth 0))
      expectSemicolon
      pure (.field modifiers type vars (← spanFrom start))

/-- Members up to the closing brace. -/
def members (depth : Nat) (owner : String) : Parse (List Member) := do
  let all ← iterate (fun (done : List Member) => do
    if (← at? .rightBrace) || (← atEnd) then pure none
    else do
      match ← recovering (member depth owner) resumeMember with
      | some m => pure (some (m :: done))
      | none => pure (some done)) []
  pure all.reverse

/-! ## Classes and namespaces -/

/-- What `p` reads one level deeper. -/
def deeper {α : Type} (depth : Nat) (p : Nat → Parse α) : Parse α :=
  match depth with
  | 0 => failTooDeep
  | depth + 1 => p depth

def classDecl (depth : Nat) : Parse ClassDecl := do
  let start := (← look).span
  let modifiers ← allow .type (← modifierList)
  let t ← look
  if t.kind ≠ .kwClass then
    if modifiers.visibility.isSome ∨ modifiers.isStatic then
      fail (.expectedClass t.describe) t.span
    else fail .expectedDeclaration t.span
  else do
    let _ ← advance
    let name ← identifier
    deeper depth fun depth => do
      let _ ← expect .leftBrace
      let all ← members depth name.name
      let _ ← expect .rightBrace
      pure ⟨modifiers, name, all, ← spanFrom start⟩

def usingDirective : Parse UsingDirective := do
  let start := (← expect .kwUsing).span
  let path ← dottedPath
  let _ ← expect .semicolon
  pure ⟨path, ← spanFrom start⟩

/-- The usings at the head of a file or namespace. -/
def usings : Parse (List UsingDirective) := do
  let all ← iterate (fun (done : List UsingDirective) => do
    if ← at? .kwUsing then do
      match ← recovering usingDirective resumeStatement with
      | some u => pure (some (u :: done))
      | none => pure (some done)
    else pure none) []
  pure all.reverse

/-- A namespace, given how to read its items at a depth, up to the end of the file or to a closing
brace. One that is ended by a semicolon takes the rest of the file and no level. -/
def scopeDecl (depth : Nat) (items : Nat → Bool → Parse (List Item)) : Parse (Bool × Item) := do
  let start := (← expect .kwNamespace).span
  let path ← dottedPath
  if ← eat .semicolon then do
    let us ← usings
    let all ← items depth true
    pure (true, .scope path us all true (← spanFrom start))
  else
    deeper depth fun depth => do
      let _ ← expect .leftBrace
      let us ← usings
      let all ← items depth false
      let _ ← expect .rightBrace
      pure (false, .scope path us all false (← spanFrom start))

/-- One round of reading items: the item, if it was none but a mistake nothing, and whether more may
follow. -/
def itemRound (depth : Nat) (items : Nat → Bool → Parse (List Item)) :
    Parse (Option Item × Bool) := do
  let t ← look
  match t.kind with
  | .kwNamespace => do
    match ← recovering (scopeDecl depth items) resumeMember with
    | some (closes, item) => pure (some item, !closes)
    | none => pure (none, true)
  | .kwUsing => do
    report ⟨.lateUsing, t.span⟩
    resumeStatement
    pure (none, true)
  | .rightBrace => do
    let _ ← advance
    report ⟨.expectedDeclaration, t.span⟩
    pure (none, true)
  | _ => do
    match ← recovering (classDecl depth) resumeMember with
    | some decl => pure (some (.type decl), true)
    | none => pure (none, true)

/-- Items up to the end of the file or, unless `top`, a closing brace, behind those in `done`, of
which the last comes first. Each round takes a token, which `fuel` counts. -/
def itemsFrom : Nat → Nat → Bool → List Item → Parse (List Item)
  | 0, _, _, done => pure done.reverse
  | fuel + 1, depth, top, done => do
    if (← atEnd) || (!top && (← at? .rightBrace)) then pure done.reverse
    else do
      let (item, more) ← itemRound depth fun depth top => itemsFrom fuel depth top []
      let done := item.toList ++ done
      if more then itemsFrom fuel depth top done else pure done.reverse

def script : Parse Script := do
  let start := (← look).span
  let us ← usings
  let all ← fun s => itemsFrom (s.bound + 1) maxNesting true [] s
  pure ⟨us, all, ← spanFrom start⟩

end ClassScript.Grammar
