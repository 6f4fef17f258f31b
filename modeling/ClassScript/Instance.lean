import ClassScript.LoadedModule

/-!
Instances of the classes of a module, and calls of their methods from outside.

An instance is made by the public constructor without parameters. Public instance methods are found
by name and exact signature. Everything that runs changes the instance and the module it belongs to,
also when it ends with a fault.
-/

namespace ClassScript

/-- The parameter types and the result type that a method is bound by. -/
structure CallSignature where
  params : List ValueType
  returns : ValueType
deriving DecidableEq, Inhabited

namespace CallSignature

def text (s : CallSignature) : String :=
  "(" ++ ValueType.listText s.params ++ ") -> " ++ s.returns.name

/-- A method of this name with the signature, as it is declared. -/
def describe (s : CallSignature) (name : String) : String :=
  s.returns.name ++ " " ++ name ++ "(" ++ ValueType.listText s.params ++ ")"

end CallSignature

structure Instance where
  /-- The place of its class in the module. -/
  cls : Nat
  fields : Array Value
deriving DecidableEq, Inhabited

/-- Why there is no instance, or no method to call. -/
inductive BindError where
  | typeNotFound (type module : String)
  /-- There is no constructor to call, or it ended with a fault. -/
  | construction (type : String) (cause : Option Fault)
  | methodNotFound (type signature : String)
deriving DecidableEq, Inhabited

def BindError.message : BindError → String
  | typeNotFound t m => "type '" ++ t ++ "' was not found in module '" ++ m ++ "'"
  | construction t _ => "could not construct '" ++ t ++ "' through '.ctor()'"
  | methodNotFound t s => "'" ++ t ++ "' has no public instance method '" ++ s ++ "'"

/-- Why a call gives no value. -/
inductive CallError where
  | fault (f : Fault)
  | arguments (method : String) (expected found : List ValueType)
deriving DecidableEq, Inhabited

def CallError.message : CallError → String
  | fault f => f.message
  | arguments m e f => "'" ++ m ++ "' takes (" ++ ValueType.listText e ++ "), called with (" ++
      ValueType.listText f ++ ")"

/-- The answer to a call, with the module and the instance after it. -/
structure Answer (α : Type) where
  result : α
  module : LoadedModule
  receiver : Instance

namespace Instance

/-- The class of an instance. -/
def image? (m : LoadedModule) (i : Instance) : Option ClassImage := m.image.classes[i.cls]?

def typeName (m : LoadedModule) (i : Instance) : String := ((i.image? m).map (·.name)).getD ""

/-- The value of an instance field. -/
def fieldValue? (m : LoadedModule) (i : Instance) (name : String) : Option Value := do
  let c ← i.image? m
  let f ← c.instanceFields.find? (·.name == name)
  i.fields[f.slot.toNat]?

/-! ## Running methods -/

/-- Runs a method of the class of an instance. -/
def run (fuel : Nat) (m : LoadedModule) (i : Instance) (method : Nat) (args : List Value) :
    Option (Answer (Except Fault Value)) :=
  match Machine.call m.program fuel i.cls method args (m.machine (some i.fields)) with
  | none => none
  | some ⟨result, machine⟩ =>
    some ⟨result, m.after machine, ⟨i.cls, machine.fields.getD #[]⟩⟩

/-! ## Making instances -/

/-- The constructor that instances are made by. -/
def constructor? (c : ClassImage) : Option Nat :=
  c.methods.findIdx? fun f =>
    f.kind == .constructor && f.visibility.isPublic && f.params.isEmpty

/-- An instance of a class before its constructor ran. -/
def unmade (cls : Nat) (c : ClassImage) : Instance :=
  ⟨cls, LoadedModule.defaultSlots c.instanceFields.length c.instanceFields⟩

/-- Makes an instance. Whether it succeeds or not, the module is changed by what ran. -/
def create (fuel : Nat) (m : LoadedModule) (type : String) :
    Option (Except BindError Instance × LoadedModule) :=
  match m.image.findClass? type with
  | none => some (.error (.typeNotFound type m.name), m)
  | some cls =>
    let c := m.image.classes.getD cls default
    match constructor? c with
    | none => some (.error (.construction type none), m)
    | some method =>
      match run fuel m (unmade cls c) method [] with
      | none => none
      | some ⟨.ok _, m, i⟩ => some (.ok i, m)
      | some ⟨.error f, m, _⟩ => some (.error (.construction type (some f)), m)

/-! ## Calling methods -/

/-- A method can be called from outside by this name and signature. -/
def isBindable (name : String) (s : CallSignature) (f : MethodImage) : Bool :=
  f.kind == .method && !f.isStatic && f.visibility.isPublic && f.name == name &&
    f.params == s.params && f.returns == s.returns

/-- The place of the method of a name and signature. -/
def bind (m : LoadedModule) (i : Instance) (name : String) (s : CallSignature) :
    Except BindError Nat :=
  match (i.image? m).bind fun c => c.methods.findIdx? (isBindable name s) with
  | some method => .ok method
  | none => .error (.methodNotFound (i.typeName m) (s.describe name))

/-- The method at a place of the class of an instance, as messages show it. -/
def methodText (m : LoadedModule) (i : Instance) (method : Nat) : String :=
  (((i.image? m).bind fun c => c.methods[method]?).map (·.signature)).getD ""

/-- Calls a bound method. The arguments must be of the very types it was bound by. -/
def invoke (fuel : Nat) (m : LoadedModule) (i : Instance) (method : Nat) (s : CallSignature)
    (args : List Value) : Option (Answer (Except CallError Value)) :=
  if args.map (·.type) = s.params then
    (run fuel m i method args).map fun a =>
      ⟨a.result.mapError .fault, a.module, a.receiver⟩
  else some ⟨.error (.arguments (methodText m i method) s.params (args.map (·.type))), m, i⟩

/-- The result of a call, if it has the type it is expected to have. -/
def typedResult (m : LoadedModule) (i : Instance) (method : Nat) (expected : ValueType) :
    Except Fault Value → Except CallError Value
  | .error f => .error (.fault f)
  | .ok v =>
    if v.type = expected then .ok v
    else
      .error (.fault (.invalidCode 0 (.resultType (methodText m i method) v.type expected)))

/-- Calls a bound method whose argument types are known, and checks the type of the result. -/
def invokeTyped (fuel : Nat) (m : LoadedModule) (i : Instance) (method : Nat)
    (returns : ValueType) (args : List Value) : Option (Answer (Except CallError Value)) :=
  (run fuel m i method args).map fun a =>
    ⟨typedResult m i method returns a.result, a.module, a.receiver⟩

end Instance
end ClassScript
