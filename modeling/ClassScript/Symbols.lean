import ClassScript.Library
import ClassScript.Options
import ClassScript.SemanticError
import ClassScript.Tree
import Std.Data.HashSet

/-!
What names mean: the classes of a script with their members, the classes of the referenced
libraries, and the namespaces of both.

A class of the script hides a library class of the same full name. A name written inside a class is
looked up in the namespaces around the class, innermost first; a name without points is then looked
up in the usings in scope.
-/

namespace ClassScript

/-! ## Members and classes -/

structure FieldSymbol where
  name : String
  type : ValueType
  visibility : Visibility
  isStatic : Bool
  isReadonly : Bool
  /-- A slot of the module for a static field, of the instance for any other. -/
  slot : Nat
  value : Option Expr
  span : Span
deriving Inhabited

/-- Where the code of a method comes from. -/
inductive MethodSource where
  | declared (params : List Param) (body : Body) (span : Span)
  /-- The constructor of a class that declares none, or the initializer of static fields. -/
  | implied
deriving Inhabited

structure MethodSymbol where
  name : String
  kind : MethodKind
  visibility : Visibility
  isStatic : Bool
  params : List ValueType
  returns : ValueType
  source : MethodSource
  span : Span
deriving Inhabited

def MethodSymbol.isInvocable (m : MethodSymbol) : Bool := m.kind == .method

structure ClassSymbol where
  name : QualifiedName
  visibility : Visibility
  isStatic : Bool
  /-- Namespaces imported around the declaration, outermost first. -/
  usings : List String
  decl : ClassDecl
  fields : Array FieldSymbol
  methods : Array MethodSymbol
deriving Inhabited

namespace ClassSymbol

def field? (c : ClassSymbol) (name : String) : Option FieldSymbol := c.fields.find? (·.name == name)

/-- The invocable methods of one name, with their places. -/
def methodsNamed (c : ClassSymbol) (name : String) : List (MethodSymbol × Nat) :=
  c.methods.toList.zipIdx.filter fun (m, _) => m.isInvocable && m.name == name

def hasMethod (c : ClassSymbol) (name : String) : Bool :=
  c.methods.any fun m => m.isInvocable && m.name == name

def hasMember (c : ClassSymbol) (name : String) : Bool := (c.field? name).isSome || c.hasMethod name

/-- A method as messages show it; a constructor has the name of its class. -/
def display (c : ClassSymbol) (m : MethodSymbol) : String :=
  let name := if m.isInvocable then m.name else c.name.simple
  c.name.text ++ "." ++ signatureText name m.params

def instanceFieldCount (c : ClassSymbol) : Nat := c.fields.countP (!·.isStatic)

end ClassSymbol

/-- A class that a name means. -/
inductive ClassRef where
  | script (index : Nat)
  | native (cls : NativeClass)

structure Symbols where
  libraries : List Library
  namespaces : Std.HashSet String
  /-- Namespaces in scope everywhere. -/
  globalUsings : List String
  classes : Array ClassSymbol
  /-- Where the class of a full name is. -/
  places : Std.HashMap String Nat
  /-- Static slots given out so far. -/
  staticCount : Nat

namespace Symbols

/-- The symbols of a script that declares nothing. -/
def start (libraries : List Library) : Symbols where
  libraries := libraries
  namespaces := libraries.foldl (fun known l => known.insertMany l.namespaces) ∅
  globalUsings := []
  classes := #[]
  places := ∅
  staticCount := 0

/-! ## Lookup -/

def isNamespace (s : Symbols) (name : String) : Bool := s.namespaces.contains name

/-- The class of a full name. -/
def findClass? (s : Symbols) (name : String) : Option ClassRef :=
  match s.places[name]? with
  | some i => some (.script i)
  | none => (s.libraries.findSome? (·.findClass? name)).map .native

/-- The library class that stands for the values of a type. -/
def keywordClass? (s : Symbols) (t : ValueType) : Option NativeClass :=
  s.libraries.findSome? (·.keywordClass? t)

/-- A name inside a namespace. -/
def qualify (space : List String) (name : String) : String :=
  if space.isEmpty then name else dotted space ++ "." ++ name

/-- A name inside each of the namespaces around a class, innermost first. -/
def candidates (c : ClassSymbol) (name : String) : List String :=
  let space := c.name.namespacePath
  (List.range (space.length + 1)).reverse.map fun n => qualify (space.take n) name

/-- The class that a name means inside the class `c`. -/
def lookupClass? (s : Symbols) (c : ClassSymbol) (name : String) : Option ClassRef :=
  match (candidates c name).findSome? s.findClass? with
  | some found => some found
  | none =>
    if name.contains '.' then none
    else (c.usings ++ s.globalUsings).findSome? fun u => s.findClass? (u ++ "." ++ name)

/-- The namespace that a name means inside the class `c`. -/
def lookupNamespace? (s : Symbols) (c : ClassSymbol) (name : String) : Option String :=
  (candidates c name).find? s.isNamespace

/-- The type that a type expression inside the class `c` means. -/
def resolveType (s : Symbols) (c : ClassSymbol) (t : TypeExpr) : Except SemanticError ValueType :=
  match t.kind with
  | .keyword type => .ok type
  | .inferred => .error ⟨.unsupported .varElsewhere, t.span⟩
  | .named path =>
    let name := dottedText path
    match s.lookupClass? c name with
    | none => .error ⟨.unknownType name, t.span⟩
    | some (.native ⟨_, some keyword, _, _⟩) => .ok keyword
    | some _ => .error ⟨.unsupported (.classAsType name), t.span⟩

def className (s : Symbols) : ClassRef → String
  | .script i => (s.classes.getD i default).name.text
  | .native c => c.name

end Symbols
end ClassScript
