import ClassScript.Compile.Site

/-!
What names mean inside a method.

A simple name is looked up among the locals, the fields and the methods of the class, then as a
class, a namespace, and a keyword that stands for a library class. A member is looked up on what its
object means. Code is written only when a value is asked for, or when one is stored in the place that
is meant.
-/

namespace ClassScript

/-- Where the overloads of a call are. -/
inductive Callee where
  /-- Methods of a class of the script. `onThis` tells that they were named without the class, so
  that they may be called on the receiver of the caller. -/
  | script (cls : Nat) (onThis : Bool)
  | function (cls : NativeClass)
  /-- Methods of the library class for the type of a value that is pushed already. -/
  | method (cls : NativeClass) (receiver : Pushed)
  /-- The text of a value that is pushed already. -/
  | toText (receiver : Pushed)

inductive Meaning where
  | localVar (slot : Nat) (type : ValueType)
  | field (cls : Nat) (field : FieldSymbol)
  | constant (value : Value)
  | methods (callee : Callee) (name : String)
  | type (cls : ClassRef)
  | space (name : String)
  /-- A value that is pushed already. -/
  | value (pushed : Pushed)
  | this

/-- A place that values can be stored in. -/
inductive Place where
  | localVar (slot : Nat) (type : ValueType)
  | field (field : FieldSymbol)

def Place.type : Place → ValueType
  | localVar _ type => type
  | field f => f.type

namespace Compile

/-- The class at a place of the script. -/
def classAt (site : Site) (i : Nat) : ClassSymbol := site.symbols.classes.getD i default

/-- Members of other classes have to be public or internal. -/
def checkAccess (site : Site) (owner : Nat) (visibility : Visibility) (name : String) (span : Span) :
    Compiling Unit :=
  if owner ≠ site.cls ∧ visibility.isOwnClassOnly then fail (.inaccessible name) span
  else pure ()

/-- What `this` means. -/
def thisMeaning (site : Site) (span : Span) : Compiling Meaning :=
  if site.isStatic then fail (.instanceFromStatic "this") span else pure .this

/-- The library class of a type that a keyword names. -/
def keywordMeaning? (site : Site) (name : String) : Option NativeClass := do
  let type ← ValueType.ofName? name
  if type.isVoid then none else site.symbols.keywordClass? type

/-- What a name means that is neither a local nor a member. -/
def outerMeaning (site : Site) (name : Ident) : Compiling Meaning :=
  match site.symbols.lookupClass? site.owner name.name with
  | some c => pure (.type c)
  | none =>
    match site.symbols.lookupNamespace? site.owner name.name with
    | some n => pure (.space n)
    | none =>
      match keywordMeaning? site name.name with
      | some c => pure (.type (.native c))
      | none => fail (.unknownName name.name) name.span

/-- What a simple name means. -/
def nameMeaning (site : Site) (locals : LocalScope) (name : Ident) : Compiling Meaning :=
  match locals.find? name.name with
  | some v => pure (.localVar v.slot v.type)
  | none =>
    match site.owner.field? name.name with
    | some f =>
      if !f.isStatic && site.isStatic then
        fail (.instanceFromStatic (site.owner.name.text ++ "." ++ name.name)) name.span
      else pure (.field site.cls f)
    | none =>
      if site.owner.hasMethod name.name then
        pure (.methods (.script site.cls true) name.name)
      else outerMeaning site name

/-! ## Values -/

/-- The instruction that reads what is stored in a field. -/
def loadOp (f : FieldSymbol) : Opcode := if f.isStatic then .getStatic else .getField

/-- Pushes the value of what a name means, if it is a value. -/
def materialize (site : Site) (m : Meaning) (span : Span) : Compiling Pushed := do
  let start ← offset
  match m with
  | .localVar slot type =>
    emitWith .getLocal slot
    pure (.unknown type start)
  | .field _ f =>
    emitWith (loadOp f) f.slot
    pure (.unknown f.type start)
  | .constant v => push v
  | .value p => pure p
  | .methods _ name => fail (.methodAsValue name) span
  | .type c => fail (.typeAsValue (site.symbols.className c)) span
  | .space name => fail (.namespaceAsValue name) span
  | .this => fail (.unsupported .thisAsValue) span

/-! ## Members -/

/-- A member of a namespace. -/
def spaceMember (site : Site) (space : String) (name : Ident) : Compiling Meaning :=
  let full := space ++ "." ++ name.name
  match site.symbols.findClass? full with
  | some c => pure (.type c)
  | none =>
    if site.symbols.isNamespace full then pure (.space full)
    else fail (.unknownType full) name.span

/-- A member of a class of the script. -/
def scriptMember (site : Site) (cls : Nat) (name : Ident) : Compiling Meaning := do
  let c := classAt site cls
  match c.field? name.name with
  | some f =>
    let full := c.name.text ++ "." ++ name.name
    checkAccess site cls f.visibility full name.span
    if f.isStatic then pure (.field cls f) else fail (.instanceFromStatic full) name.span
  | none =>
    if c.hasMethod name.name then pure (.methods (.script cls false) name.name)
    else fail (.unknownMember c.name.text name.name) name.span

/-- A member of a library class. -/
def libraryMember (c : NativeClass) (name : Ident) : Compiling Meaning :=
  match c.constant? name.name with
  | some v => pure (.constant v)
  | none =>
    if !(c.functionsNamed name.name).isEmpty then pure (.methods (.function c) name.name)
    else if !(c.methodsNamed name.name).isEmpty then
      fail (.instanceFromStatic (c.name ++ "." ++ name.name)) name.span
    else fail (.unknownMember c.name name.name) name.span

/-- A member of the receiver. -/
def thisMember (site : Site) (name : Ident) : Compiling Meaning :=
  match site.owner.field? name.name with
  | some f =>
    if f.isStatic then fail (.unsupported (.staticThroughThis name.name)) name.span
    else pure (.field site.cls f)
  | none =>
    if site.owner.hasMethod name.name then pure (.methods (.script site.cls true) name.name)
    else fail (.unknownMember site.owner.name.text name.name) name.span

/-- The number of characters of a string that is pushed. -/
def lengthOf (p : Pushed) (span : Span) : Compiling Meaning := do
  match p.constant with
  | some v =>
    let n ← fold (Opcode.strLen.evalUnary true v) span
    let p ← replace p.start n
    pure (.value p)
  | none =>
    emit .strLen
    pure (.value (.unknown .int p.start))

/-- A member of a value that is pushed. -/
def valueMember (site : Site) (p : Pushed) (name : Ident) : Compiling Meaning :=
  if p.type = .string ∧ name.name = "Length" then lengthOf p name.span
  else if name.name = "ToString" ∧ !p.type.isVoid then
    pure (.methods (.toText p) name.name)
  else
    match site.symbols.keywordClass? p.type with
    | some c =>
      if (c.methodsNamed name.name).isEmpty then
        fail (.unknownMember p.type.name name.name) name.span
      else pure (.methods (.method c p) name.name)
    | none => fail (.unknownMember p.type.name name.name) name.span

/-- A member of whatever its object means. -/
def memberMeaning (site : Site) (object : Meaning) (objectSpan : Span) (name : Ident) :
    Compiling Meaning := do
  match object with
  | .space n => spaceMember site n name
  | .type (.script i) => scriptMember site i name
  | .type (.native c) => libraryMember c name
  | .this => thisMember site name
  | .methods _ group => fail (.methodAsValue group) objectSpan
  | .localVar .. | .field .. | .constant _ | .value _ =>
    let p ← materialize site object objectSpan
    valueMember site p name

/-! ## Places -/

/-- A readonly field is stored to only by its own class: by a constructor if it belongs to the
instance, by the initializer of static fields if it is static. -/
def isWritable (site : Site) (cls : Nat) (f : FieldSymbol) : Bool :=
  !f.isReadonly ||
    (cls == site.cls && site.kind == if f.isStatic then .typeInitializer else .constructor)

/-- What a target means, if it is a place. -/
def placeOf (site : Site) (m : Meaning) (span : Span) : Compiling Place :=
  match m with
  | .localVar slot type => pure (.localVar slot type)
  | .field cls f =>
    if isWritable site cls f then pure (.field f) else fail .readonlyAssignment span
  | _ => fail .invalidTarget span

/-- Pushes what is stored in a place. -/
def load : Place → Compiling Unit
  | .localVar slot _ => emitWith .getLocal slot
  | .field f => emitWith (loadOp f) f.slot

/-- The instruction that stores into a field. -/
def storeOp (f : FieldSymbol) : Opcode := if f.isStatic then .setStatic else .setField

/-- Pops a value into a place. -/
def store : Place → Compiling Unit
  | .localVar slot _ => emitWith .setLocal slot
  | .field f => emitWith (storeOp f) f.slot

end Compile
end ClassScript
