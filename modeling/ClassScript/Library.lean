import ClassScript.Identity
import ClassScript.Image
import ClassScript.Native
import ClassScript.Text.Search
import Std.Data.HashMap

/-!
Libraries: named sets of namespaces and classes whose functions scripts can call.

A library is built from descriptions of its classes. Describing a class again continues it.
-/

namespace ClassScript

/-! ## Names -/

/-- A dotted name: a simple name inside a path of namespaces. -/
structure QualifiedName where
  simple : String
  namespacePath : List String := []
deriving DecidableEq, Inhabited

/-- Segments joined by points. -/
def dotted (path : List String) : String := ".".intercalate path

namespace QualifiedName

/-- The text of a name: every namespace segment with a point behind it, then the simple name. -/
def text (n : QualifiedName) : String := String.join (n.namespacePath.map (· ++ ".")) ++ n.simple

/-- The name a dotted text spells. Empty segments are dropped; a text without a segment gives the
empty name. -/
def ofText (s : String) : QualifiedName :=
  let parts := (Text.splitOn '.' s.toList).filter (!·.isEmpty) |>.map String.ofList
  ⟨parts.getLastD "", parts.dropLast⟩

/-- The name of something directly inside the namespace or class `n`. -/
def child (n : QualifiedName) (name : String) : QualifiedName :=
  ⟨name, n.namespacePath ++ [n.simple]⟩

def isGlobal (n : QualifiedName) : Bool := n.namespacePath.isEmpty

end QualifiedName

/-! ## Functions and classes -/

structure NativeFunction where
  /-- The full name of the class it belongs to. -/
  owner : String
  name : String
  /-- The declared parameters, without the receiver of an instance method. -/
  params : List ValueType
  returns : ValueType
  /-- Called on a value, which is passed as the first argument. -/
  isInstance : Bool
  identity : Identity
  body : Native Unit

namespace NativeFunction

def fullName (f : NativeFunction) : String := f.owner ++ "." ++ f.name

def signature (f : NativeFunction) : String := signatureText f.fullName f.params

/-- The number of arguments that are passed. -/
def arity (f : NativeFunction) : Nat := f.params.length + if f.isInstance then 1 else 0

/-- The identity of a function of the class `owner`. -/
def staticIdentity (owner name : String) (params : List ValueType) : Identity :=
  .ofFunction (owner ++ "." ++ name) (params.map (·.identity))

/-- The identity of an instance method of the class `owner`. -/
def instanceIdentity (owner name : String) (params : List ValueType) : Identity :=
  .ofMethod (.ofName owner) name (params.map (·.identity))

end NativeFunction

structure NativeClass where
  /-- The full name. -/
  name : String
  /-- The type whose values the class stands for. -/
  keyword : Option ValueType
  functions : List NativeFunction
  constants : List (String × Value)

namespace NativeClass

/-- The static functions of one name. -/
def functionsNamed (c : NativeClass) (name : String) : List NativeFunction :=
  c.functions.filter fun f => !f.isInstance && f.name == name

/-- The instance methods of one name. -/
def methodsNamed (c : NativeClass) (name : String) : List NativeFunction :=
  c.functions.filter fun f => f.isInstance && f.name == name

def constant? (c : NativeClass) (name : String) : Option Value := c.constants.lookup name

end NativeClass

/-! ## Descriptions -/

structure FunctionSpec where
  name : String
  params : List ValueType
  returns : ValueType
  isInstance : Bool
  body : Native Unit

/-- A function that is called on the class. -/
def FunctionSpec.static (name : String) (params : List ValueType) (returns : ValueType)
    (body : Native Unit) : FunctionSpec := ⟨name, params, returns, false, body⟩

/-- A function that is called on a value of the class's type. -/
def FunctionSpec.method (name : String) (params : List ValueType) (returns : ValueType)
    (body : Native Unit) : FunctionSpec := ⟨name, params, returns, true, body⟩

def FunctionSpec.build (s : FunctionSpec) (owner : String) : NativeFunction :=
  let identity :=
    if s.isInstance then NativeFunction.instanceIdentity owner s.name s.params
    else NativeFunction.staticIdentity owner s.name s.params
  ⟨owner, s.name, s.params, s.returns, s.isInstance, identity, s.body⟩

structure ClassSpec where
  space : String
  name : String
  keyword : Option ValueType
  constants : List (String × Value)
  functions : List FunctionSpec

/-- The full name of the class that is described. -/
def ClassSpec.fullName (s : ClassSpec) : String :=
  if s.space.isEmpty then s.name else ((QualifiedName.ofText s.space).child s.name).text

/-! ## Libraries -/

structure Library where
  name : String
  namespaces : List String
  classes : List NativeClass
  /-- Every identity with the function that was registered under it last. -/
  index : Std.HashMap Identity NativeFunction

namespace Library

def empty (name : String) : Library := ⟨name, [], [], ∅⟩

/-- A namespace and the namespaces around it, outermost first. -/
def spaces (space : String) : List String :=
  let segments := ((Text.splitOn '.' space.toList).filter (!·.isEmpty)).map String.ofList
  (List.range segments.length).map fun i => dotted (segments.take (i + 1))

/-- Declares a namespace and those around it. -/
def addNamespace (l : Library) (space : String) : Library :=
  let namespaces := (spaces space).foldl
    (fun known s => if known.contains s then known else known ++ [s]) l.namespaces
  { l with namespaces := namespaces }

/-- Adds what is described to a class. -/
def extendClass (s : ClassSpec) (functions : List NativeFunction) (c : NativeClass) :
    NativeClass :=
  ⟨c.name, s.keyword <|> c.keyword, c.functions ++ functions, c.constants ++ s.constants⟩

/-- Registers a class, or more of it. -/
def addClass (l : Library) (s : ClassSpec) : Library :=
  let l := l.addNamespace s.space
  let name := s.fullName
  let functions := s.functions.map (·.build name)
  let classes :=
    if l.classes.any (·.name == name) then
      l.classes.map fun c => if c.name == name then extendClass s functions c else c
    else l.classes ++ [extendClass s functions ⟨name, none, [], []⟩]
  { l with
    classes := classes
    index := functions.foldl (fun index f => index.insert f.identity f) l.index }

/-- A library with the given namespaces, and then the given classes. -/
def build (name : String) (namespaces : List String) (specs : List ClassSpec) : Library :=
  specs.foldl addClass (namespaces.foldl addNamespace (empty name))

def provides (l : Library) (space : String) : Bool := l.namespaces.contains space

def findClass? (l : Library) (name : String) : Option NativeClass :=
  l.classes.find? (·.name == name)

/-- The class that stands for the values of a type. -/
def keywordClass? (l : Library) (t : ValueType) : Option NativeClass :=
  l.classes.find? (·.keyword == some t)

def findFunction? (l : Library) (i : Identity) : Option NativeFunction := l.index[i]?

end Library

/-- The libraries that can be referred to, in the order in which they were added. -/
structure Catalog where
  libraries : List Library

namespace Catalog

def empty : Catalog := ⟨[]⟩

def find? (c : Catalog) (name : String) : Option Library := c.libraries.find? (·.name == name)

/-- Adds a library. One of the same name is replaced and keeps its place. -/
def add (c : Catalog) (l : Library) : Catalog :=
  if (c.find? l.name).isSome then
    ⟨c.libraries.map fun k => if k.name == l.name then l else k⟩
  else ⟨c.libraries ++ [l]⟩

def names (c : Catalog) : List String := c.libraries.map (·.name)

end Catalog
end ClassScript
