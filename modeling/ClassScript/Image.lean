import ClassScript.Code
import ClassScript.Identity
import ClassScript.Pool
import ClassScript.Visibility

/-!
Module images: what compiling a script gives, and what is loaded and run.
-/

namespace ClassScript

inductive MethodKind where
  | method
  | constructor
  /-- Runs the initializers of static fields, once, when the module is loaded. -/
  | typeInitializer
deriving DecidableEq, Repr, Inhabited

namespace MethodKind

def tag : MethodKind → UInt8
  | method => 0
  | constructor => 1
  | typeInitializer => 2

def all : List MethodKind := [method, constructor, typeInitializer]

def ofTag? (tag : UInt8) : Option MethodKind := all.find? (·.tag == tag)

@[simp] theorem ofTag?_tag (k : MethodKind) : ofTag? k.tag = some k := by cases k <;> rfl

theorem tag_of_ofTag? {b : UInt8} {k : MethodKind} (h : ofTag? b = some k) : k.tag = b := by
  have := List.find?_some h
  simpa using this

end MethodKind

/-- Names and parameter types as signatures show them. -/
def signatureText (name : String) (params : List ValueType) : String :=
  name ++ "(" ++ ValueType.listText params ++ ")"

/-- A library function that a module calls. -/
structure NativeImport where
  identity : Identity
  name : String
  /-- What is passed, the receiver of an instance method first. -/
  params : List ValueType
  returns : ValueType
deriving DecidableEq, Inhabited

structure FieldImage where
  name : String
  type : ValueType
  visibility : Visibility
  isStatic : Bool
  isReadonly : Bool
  /-- A slot of the instance or, for a static field, of the module. -/
  slot : UInt16
deriving DecidableEq, Inhabited

structure MethodImage where
  name : String
  kind : MethodKind
  visibility : Visibility
  isStatic : Bool
  params : List ValueType
  returns : ValueType
  /-- The size of the frame, parameters included. -/
  locals : UInt16
  code : Code
deriving DecidableEq, Inhabited

def MethodImage.signature (m : MethodImage) : String := signatureText m.name m.params

structure ClassImage where
  name : String
  visibility : Visibility
  fields : Array FieldImage
  methods : Array MethodImage
deriving DecidableEq, Inhabited

namespace ClassImage

def instanceFields (c : ClassImage) : List FieldImage := c.fields.toList.filter (!·.isStatic)

/-- The method that runs when the module is loaded. -/
def typeInitializer? (c : ClassImage) : Option Nat :=
  c.methods.findIdx? (·.kind == .typeInitializer)

end ClassImage

structure Image where
  name : String
  /-- Integer arithmetic fails where it would wrap. -/
  checked : Bool
  /-- Compiled without the code that cannot run. -/
  release : Bool
  /-- The libraries that imports are looked up in. -/
  references : List String
  constants : Array Constant
  imports : Array NativeImport
  classes : Array ClassImage
deriving DecidableEq, Inhabited

namespace Image

def findClass? (m : Image) (name : String) : Option Nat := m.classes.findIdx? (·.name == name)

/-- The number of static slots of the module. -/
def staticCount (m : Image) : Nat :=
  m.classes.foldl (fun n c => n + c.fields.countP (·.isStatic)) 0

end Image

/-- Why bytes are no image. -/
inductive ImageError where
  | badMagic
  | unsupportedVersion (version : Nat)
  | truncated (offset : Nat)
  | invalidTag (what : String) (tag : UInt8) (offset : Nat)
  | invalidString (offset : Nat)
  | trailingBytes (count : Nat)
  | invalidCode (method : String) (offset : Nat) (detail : String)
deriving DecidableEq, Repr, Inhabited

def ImageError.message : ImageError → String
  | badMagic => "not a module image (bad magic)"
  | unsupportedVersion v => s!"unsupported image format version {v}"
  | truncated o => s!"image truncated at offset {o}"
  | invalidTag what tag o => "invalid " ++ what ++ s!" tag {tag} at offset {o}"
  | invalidString o => s!"invalid UTF-8 string at offset {o}"
  | trailingBytes n => s!"{n} trailing bytes after image"
  | invalidCode m o d => "invalid code in " ++ m ++ s!" at offset {o}: " ++ d

end ClassScript
