import ClassScript.Compile.Statement
import ClassScript.Registration

/-!
Compiling all methods of a script.

The methods of a module share one pool of constants and one table of imports. Initializers of fields
are compiled once for a class: those of instance fields run at the start of every constructor, those
of static fields are the code of the initializer that runs when the module is loaded. Neither can
use the receiver.
-/

namespace ClassScript

/-- What all methods of a module share, and all reports so far, the last one first. -/
structure ModuleState where
  pool : Pool
  imports : ImportTable
  reports : List Diagnostic

namespace ModuleState

def start : ModuleState := ⟨.empty, .empty, []⟩

end ModuleState

/-- A compiled body. -/
structure CompiledBody where
  code : Code
  frameSize : Nat

namespace Compile

/-- The state in which the code of a method is begun. -/
def beginMethod (m : ModuleState) : BodyState :=
  match m with
  | ⟨pool, imports, reports⟩ => ⟨⟨.start pool, imports⟩, .start, reports⟩

/-- Finishes a method. Code that is too large is reported at `span`. -/
def finishMethod (site : Site) (span : Span) (s : BodyState) : CompiledBody × ModuleState :=
  let m : ModuleState := ⟨s.code.emitter.pool, s.code.imports, s.reports⟩
  match s.code.emitter.finish? with
  | some code => (⟨code, s.locals.frameSize⟩, m)
  | none =>
    let e : SemanticError := ⟨.unsupported (.codeTooLarge site.display), span⟩
    (⟨#[], s.locals.frameSize⟩, { m with reports := e.diagnostic :: m.reports })

/-- Compiles a method: `write` writes its code. -/
def writeMethod (site : Site) (span : Span) (write : Writing Unit) (m : ModuleState) :
    CompiledBody × ModuleState :=
  finishMethod site span (write.run (beginMethod m)).2

/-! ## Bodies -/

/-- Parameters take the first slots. -/
def declareParams : List Param → List ValueType → Writing Unit
  | p :: ps, t :: ts => do
    modify fun
      | ⟨code, locals, reports⟩ =>
        match locals.conflict? p.name.name p.name.span with
        | some e => ⟨code, locals, e.diagnostic :: reports⟩
        | none => ⟨code, (locals.add p.name.name t).2, reports⟩
    declareParams ps ts
  | _, _ => pure ()

/-- Compiles the body of a method. A return that is missing is reported at `span`. -/
def body (site : Site) (span : Span) : Body → Writing Unit
  | .block stmts blockSpan => do
    if ← statement site true (.block stmts blockSpan) then
      if site.returns.isVoid then editCode (·.emit .retVoid)
      else report (SemanticError.mk (.notAllPathsReturn site.display) span).diagnostic
  | .arrow e => do
    if site.returns.isVoid then
      match ← attempt fun locals => effect site locals e with
      | some () => editCode (·.emit .retVoid)
      | none => pure ()
    else
      match ← attempt fun locals => valueOf site locals e site.returns with
      | some _ => editCode (·.emit .ret)
      | none => pure ()

/-- The code that stores the values of fields, in the order of their declaration. -/
def initializers (site : Site) (store : Opcode) : List FieldSymbol → Writing Unit
  | [] => pure ()
  | f :: fs => do
    match f.value with
    | some e =>
      match ← attempt fun locals => valueOf site locals e f.type with
      | some _ => editCode (·.emitWith store f.slot)
      | none => pure ()
    | none => pure ()
    initializers site store fs

/-! ## Classes -/

/-- The place of a class, without a method. -/
structure ClassSite where
  symbols : Symbols
  release : Bool
  cls : Nat
  owner : ClassSymbol

/-- The surroundings of the initializers of instance fields or of static ones. -/
def initializerSite (c : ClassSite) (isStatic : Bool) : Site where
  symbols := c.symbols
  release := c.release
  cls := c.cls
  owner := c.owner
  kind := if isStatic then .typeInitializer else .constructor
  isStatic := true
  display := c.owner.name.text ++ "." ++ c.owner.name.simple ++ "()"
  returns := .void

/-- The code of the initializers of instance fields or of static ones. -/
def initializerCode (c : ClassSite) (isStatic : Bool) (m : ModuleState) : Code × ModuleState :=
  let fields := c.owner.fields.toList.filter (·.isStatic == isStatic)
  let store : Opcode := if isStatic then .setStatic else .setField
  let site := initializerSite c isStatic
  let (b, m) := writeMethod site c.owner.decl.name.span (initializers site store fields) m
  (b.code, m)

def methodSite (c : ClassSite) (f : MethodSymbol) : Site where
  symbols := c.symbols
  release := c.release
  cls := c.cls
  owner := c.owner
  kind := f.kind
  isStatic := f.isStatic
  display := c.owner.display f
  returns := f.returns

/-- The code of a method, behind a given beginning. -/
def methodCode (site : Site) (f : MethodSymbol) (prologue : Code) : Writing Unit :=
  match f.source with
  | .declared params b _ => do
    declareParams params f.params
    editCode (·.bytes prologue)
    body site f.span b
  | .implied => do
    editCode (·.bytes prologue)
    editCode (·.emit .retVoid)

/-- Where a method is reported as too large. -/
def methodSpan (f : MethodSymbol) : Span :=
  match f.source with
  | .declared _ _ span => span
  | .implied => f.span

/-- Compiles a method. -/
def method (c : ClassSite) (instanceCode staticCode : Code) (f : MethodSymbol) (m : ModuleState) :
    MethodImage × ModuleState :=
  let prologue := match f.kind with
    | .constructor => instanceCode
    | .typeInitializer => staticCode
    | .method => #[]
  let site := methodSite c f
  let (b, m) := writeMethod site (methodSpan f) (methodCode site f prologue) m
  (⟨f.name, f.kind, f.visibility, f.isStatic, f.params, f.returns, UInt16.ofNat b.frameSize,
    b.code⟩, m)

def fieldImage (f : FieldSymbol) : FieldImage :=
  ⟨f.name, f.type, f.visibility, f.isStatic, f.isReadonly, UInt16.ofNat f.slot⟩

/-- Compiles things one after the other. -/
def inOrder {α β : Type} (f : α → ModuleState → β × ModuleState) :
    List α → ModuleState → List β × ModuleState
  | [], m => ([], m)
  | a :: as, m =>
    let (b, m) := f a m
    let (bs, m) := inOrder f as m
    (b :: bs, m)

/-- Compiles a class. -/
def classImage (c : ClassSite) (m : ModuleState) : ClassImage × ModuleState :=
  let (instanceCode, m) := initializerCode c false m
  let (staticCode, m) := initializerCode c true m
  let (methods, m) := inOrder (method c instanceCode staticCode) c.owner.methods.toList m
  (⟨c.owner.name.text, c.owner.visibility, c.owner.fields.map fieldImage, methods.toArray⟩, m)

end Compile

/-! ## Modules -/

/-- What compiling gives: an image, unless a diagnostic prevents it. -/
structure Compilation where
  image : Option Image
  diagnostics : List Diagnostic

/-- Compiles a script against libraries. -/
def Compilation.ofScript (name : String) (options : Options) (libraries : List Library)
    (script : Script) : Compilation :=
  let r := Registration.ofScript libraries options.usings script
  let sites := r.symbols.classes.toList.zipIdx.map fun (c, i) =>
    (⟨r.symbols, options.release, i, c⟩ : Compile.ClassSite)
  let (classes, m) := Compile.inOrder Compile.classImage sites .start
  let found := r.diagnostics ++ m.reports.reverse
  let found := if options.warningsAsErrors then found.map Diagnostic.promote else found
  if Diagnostic.anyBlocking found then ⟨none, found⟩
  else
    ⟨some ⟨name, options.checked, options.release, libraries.map (·.name), m.pool.entries,
      m.imports.imports, classes.toArray⟩, found⟩

end ClassScript
