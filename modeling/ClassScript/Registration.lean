import ClassScript.Symbols

/-!
Registration: the symbols of a script, before any code is looked at.

Namespaces come first, so that every using can be checked, then all classes, so that members can
name any of them, then the members of each class in source order. A declaration with an error is
reported and left out.
-/

namespace ClassScript

structure Registration where
  symbols : Symbols
  diagnostics : List Diagnostic

namespace Registration

/-! ## Namespaces and usings -/

mutual

/-- The full names of the namespaces an item declares, with those around them. -/
def spaces (outer : List String) : Item → List String
  | .type _ => []
  | .scope path _ items _ _ =>
    let inner := outer ++ path.map (·.name)
    (List.range inner.length).map (fun n => dotted (inner.take (n + 1))) ++ spacesOf inner items

def spacesOf (outer : List String) : List Item → List String
  | [] => []
  | item :: items => spaces outer item ++ spacesOf outer items

end

mutual

/-- The usings inside an item, in source order. -/
def usings : Item → List UsingDirective
  | .type _ => []
  | .scope _ own items _ _ => own ++ usingsOf items

def usingsOf : List Item → List UsingDirective
  | [] => []
  | item :: items => usings item ++ usingsOf items

end

/-- A using that comes with the options and names nothing. -/
def unknownGlobalUsing (name : String) : Diagnostic where
  severity := .warning
  code := "QC8019"
  message := "the global using '" ++ name ++ "' names no known namespace and is ignored"
  span := {}

/-- A using that names no namespace. -/
def usingError? (s : Symbols) (u : UsingDirective) : Option SemanticError :=
  let name := dottedText u.path
  if s.isNamespace name then none else some ⟨.unknownType name, u.span⟩

/-! ## Members -/

/-- The members of a class as far as they are declared, and the reports on them, the last first. -/
structure Members where
  fields : Array FieldSymbol
  methods : Array MethodSymbol
  fieldNames : Std.HashSet String
  methodNames : Std.HashSet String
  /-- Instance slots given out so far. -/
  instanceCount : Nat
  /-- Static slots of the module given out so far. -/
  staticCount : Nat
  reports : List SemanticError

namespace Members

def start (staticCount : Nat) : Members := ⟨#[], #[], ∅, ∅, 0, staticCount, []⟩

def report (m : Members) (fault : SemanticFault) (span : Span) : Members :=
  { m with reports := ⟨fault, span⟩ :: m.reports }

def reportAll (m : Members) (errors : List SemanticError) : Members :=
  { m with reports := errors.reverse ++ m.reports }

def addField (m : Members) (f : FieldSymbol) : Members :=
  match m with
  | ⟨fields, methods, fieldNames, methodNames, instances, statics, reports⟩ =>
    let fields := fields.push f
    let fieldNames := fieldNames.insert f.name
    if f.isStatic then ⟨fields, methods, fieldNames, methodNames, instances, statics + 1, reports⟩
    else ⟨fields, methods, fieldNames, methodNames, instances + 1, statics, reports⟩

def addMethod (m : Members) (f : MethodSymbol) : Members :=
  match m with
  | ⟨fields, methods, fieldNames, methodNames, instances, statics, reports⟩ =>
    let methodNames := if f.isInvocable then methodNames.insert f.name else methodNames
    ⟨fields, methods.push f, fieldNames, methodNames, instances, statics, reports⟩

/-- A method of this kind, name and parameter types is declared. -/
def hasSignature (m : Members) (kind : MethodKind) (name : String) (params : List ValueType) :
    Bool :=
  m.methods.any fun f => f.kind == kind && f.name == name && f.params == params

end Members

/-- Slots of one kind that there can be. -/
def maxSlots : Nat := 65535

/-- What is wrong with declaring a field of this name, beside its type. -/
def fieldFault? (c : ClassSymbol) (m : Members) (isStatic : Bool) (v : Declarator) :
    Option SemanticError :=
  let name := v.name.name
  if name == c.name.simple then some ⟨.memberNamedLikeType name, v.name.span⟩
  else if m.fieldNames.contains name || m.methodNames.contains name then
    some ⟨.duplicateDefinition c.name.text name, v.name.span⟩
  else if isStatic then
    if m.staticCount < maxSlots then none
    else some ⟨.unsupported (.tooMany "static fields"), v.span⟩
  else if m.instanceCount < maxSlots then none
  else some ⟨.unsupported .tooManyFields, v.span⟩

/-- Declares one of the names of a field declaration. -/
def declarator (c : ClassSymbol) (mods : Modifiers) (type : ValueType) (m : Members)
    (v : Declarator) : Members :=
  match fieldFault? c m mods.isStatic v with
  | some e => m.report e.fault e.span
  | none =>
    m.addField {
      name := v.name.name
      type := type
      visibility := mods.visibility.getD .priv
      isStatic := mods.isStatic
      isReadonly := mods.isReadonly
      slot := if mods.isStatic then m.staticCount else m.instanceCount
      value := v.value
      span := v.name.span }

def field (s : Symbols) (c : ClassSymbol) (m : Members) (mods : Modifiers) (type : TypeExpr)
    (vars : List Declarator) (span : Span) : Members :=
  match s.resolveType c type with
  | .error e => m.report e.fault e.span
  | .ok t =>
    if t.isVoid then m.report (.voidField c.name.text) type.span
    else if c.isStatic && !mods.isStatic then m.report (.instanceInStaticClass c.name.text) span
    else vars.foldl (declarator c mods t) m

/-- The type of a parameter. -/
def paramType (s : Symbols) (c : ClassSymbol) (p : Param) : Except SemanticError ValueType :=
  match s.resolveType c p.type with
  | .ok t => if t.isVoid then .error ⟨.unsupported .voidParameter, p.type.span⟩ else .ok t
  | .error e => .error e

/-- The types of parameters, or all that is wrong with them. -/
def paramTypes (s : Symbols) (c : ClassSymbol) : List Param →
    Except (List SemanticError) (List ValueType)
  | [] => .ok []
  | p :: ps =>
    match paramType s c p, paramTypes s c ps with
    | .ok t, .ok ts => .ok (t :: ts)
    | .ok _, .error es => .error es
    | .error e, .ok _ => .error [e]
    | .error e, .error es => .error (e :: es)

/-- What is wrong with declaring a method of this signature. -/
def methodFault? (c : ClassSymbol) (m : Members) (isStatic : Bool) (name : String)
    (params : List ValueType) : Option SemanticFault :=
  if c.isStatic && !isStatic then some (.instanceInStaticClass c.name.text)
  else if name == c.name.simple then some (.memberNamedLikeType name)
  else if m.fieldNames.contains name then some (.duplicateDefinition c.name.text name)
  else if m.hasSignature .method name params then some (.duplicateMember c.name.text name)
  else none

def method (s : Symbols) (c : ClassSymbol) (m : Members) (mods : Modifiers) (returns : TypeExpr)
    (name : Ident) (params : List Param) (body : Body) (span : Span) : Members :=
  match paramTypes s c params, s.resolveType c returns with
  | .error es, .error e => (m.reportAll es).report e.fault e.span
  | .error es, .ok _ => m.reportAll es
  | .ok _, .error e => m.report e.fault e.span
  | .ok ts, .ok t =>
    match methodFault? c m mods.isStatic name.name ts with
    | some fault => m.report fault name.span
    | none =>
      m.addMethod {
        name := name.name
        kind := .method
        visibility := mods.visibility.getD .priv
        isStatic := mods.isStatic
        params := ts
        returns := t
        source := .declared params body span
        span := name.span }

/-- The name of constructors and of static initializers in a module. -/
def constructorName : String := ".ctor"
def initializerName : String := ".cctor"

/-- What is wrong with declaring a constructor with these parameters. -/
def constructorFault? (c : ClassSymbol) (m : Members) (isStatic : Bool)
    (params : List ValueType) : Option SemanticFault :=
  if isStatic then some (.unsupported .staticConstructor)
  else if c.isStatic then some (.instanceInStaticClass c.name.text)
  else if m.hasSignature .constructor constructorName params then
    some (.duplicateMember c.name.text c.name.simple)
  else none

def constructor (s : Symbols) (c : ClassSymbol) (m : Members) (mods : Modifiers) (name : Ident)
    (params : List Param) (body : Body) (span : Span) : Members :=
  match paramTypes s c params with
  | .error es => m.reportAll es
  | .ok ts =>
    match constructorFault? c m mods.isStatic ts with
    | some fault => m.report fault name.span
    | none =>
      m.addMethod {
        name := constructorName
        kind := .constructor
        visibility := mods.visibility.getD .priv
        isStatic := false
        params := ts
        returns := .void
        source := .declared params body span
        span := name.span }

def member (s : Symbols) (c : ClassSymbol) (m : Members) : Member → Members
  | .field mods type vars span => field s c m mods type vars span
  | .method mods returns name params body span => method s c m mods returns name params body span
  | .constructor mods name params body span => constructor s c m mods name params body span

/-- A method that no declaration spells. -/
def impliedMethod (name : String) (kind : MethodKind) (visibility : Visibility) (isStatic : Bool)
    (span : Span) : MethodSymbol :=
  ⟨name, kind, visibility, isStatic, [], .void, .implied, span⟩

/-- Adds what a class has without declaring it: a constructor, unless it is static or has one, and
the initializer of its static fields, if one of them has a value. -/
def withImplied (c : ClassSymbol) (m : Members) : Members :=
  let span := c.decl.name.span
  let m :=
    if c.isStatic || m.methods.any (·.kind == .constructor) then m
    else m.addMethod (impliedMethod constructorName .constructor .pub false span)
  if m.fields.any fun f => f.isStatic && f.value.isSome then
    m.addMethod (impliedMethod initializerName .typeInitializer .priv true span)
  else m

/-- The members of a class. -/
def members (s : Symbols) (c : ClassSymbol) : Members :=
  withImplied c (c.decl.members.foldl (member s c) (.start s.staticCount))

/-! ## Classes -/

/-- The namespace of a class as messages show it. -/
def spaceText (path : List String) : String :=
  if path.isEmpty then "<global namespace>" else dotted path

/-- A class of which no member is declared yet. -/
def classSymbol (p : PlacedClass) : ClassSymbol where
  name := ⟨p.decl.name.name, p.space.map (·.name)⟩
  visibility := p.decl.modifiers.visibility.getD .internal
  isStatic := p.decl.modifiers.isStatic
  usings := p.usings.map fun u => dottedText u.path
  decl := p.decl
  fields := #[]
  methods := #[]

/-- Why a class cannot be added: its name is taken. -/
def classError? (s : Symbols) (c : ClassSymbol) : Option SemanticError :=
  if s.places.contains c.name.text then
    some ⟨.duplicateType (spaceText c.name.namespacePath) c.name.simple, c.decl.name.span⟩
  else none

def addClass (s : Symbols) (c : ClassSymbol) : Symbols :=
  match s with
  | ⟨libraries, namespaces, globalUsings, classes, places, statics⟩ =>
    let places := places.insert c.name.text classes.size
    ⟨libraries, namespaces, globalUsings, classes.push c, places, statics⟩

/-- Adds all classes; the reports come the last first. -/
def addClasses (s : Symbols) (placed : List PlacedClass) : Symbols × List SemanticError :=
  placed.foldl (fun (s, reports) p =>
    let c := classSymbol p
    match classError? s c with
    | some e => (s, e :: reports)
    | none => (addClass s c, reports)) (s, [])

/-- Declares the members of the class at a place. -/
def addMembers (s : Symbols) (reports : List SemanticError) (i : Nat) :
    Symbols × List SemanticError :=
  let c := s.classes.getD i default
  let m := members s c
  match s with
  | ⟨libraries, namespaces, globalUsings, classes, places, _⟩ =>
    (⟨libraries, namespaces, globalUsings,
      classes.setIfInBounds i { c with fields := m.fields, methods := m.methods }, places,
      m.staticCount⟩, m.reports ++ reports)

/-- The symbols of a script, in an environment of libraries and usings. -/
def ofScript (libraries : List Library) (globalUsings : List String) (script : Script) :
    Registration :=
  let s := Symbols.start libraries
  let s := { s with namespaces := s.namespaces.insertMany (spacesOf [] script.items) }
  let (known, unknown) := globalUsings.partition s.isNamespace
  let s := { s with globalUsings := known.eraseDups }
  let bad := (script.usings ++ usingsOf script.items).filterMap (usingError? s)
  let (s, reports) := addClasses s script.classes
  let (s, reports) := (List.range s.classes.size).foldl
    (fun (s, reports) i => addMembers s reports i) (s, reports)
  ⟨s, unknown.map unknownGlobalUsing ++ (bad ++ reports.reverse).map (·.diagnostic)⟩

end Registration
end ClassScript
