import ClassScript.Diagnostic
import ClassScript.Image.Decode
import ClassScript.Library
import ClassScript.Machine

/-!
Loaded modules.

Loading decodes an image, finds the libraries it refers to and the function of every import, gives
the static fields their first values, and runs the initializers of the classes in their order. A
module keeps its static slots and its output from one run to the next.
-/

namespace ClassScript

structure LoadedModule where
  program : Program
  /-- The image that was loaded. -/
  bytes : List UInt8
  libraries : List Library
  statics : Array Value
  sink : Sink
  /-- What was reported while the module was compiled. -/
  warnings : List Diagnostic

/-- Why an image cannot be loaded. -/
inductive LoadError where
  | image (e : ImageError)
  | missingReference (name : String)
  | unresolvedImport (name : String)
  | importMismatch (name : String)
  /-- An initializer of static fields fails. -/
  | initializer (f : Fault)
deriving DecidableEq, Inhabited

def LoadError.message : LoadError → String
  | image e => e.message
  | missingReference n => "referenced library '" ++ n ++ "' is not available"
  | unresolvedImport n =>
    "native import '" ++ n ++ "' is not provided by any referenced library"
  | importMismatch n => "native import '" ++ n ++ "' does not match its library signature"
  | initializer f => f.message

namespace LoadedModule

/-! ## Binding -/

/-- An import declares what the function takes and gives. The type of a receiver is not compared. -/
def matchesImport (f : NativeFunction) (i : NativeImport) : Bool :=
  f.arity == i.params.length && i.params.drop (if f.isInstance then 1 else 0) == f.params &&
    f.returns == i.returns

/-- The body of the function that an import names: the first library that has it decides. -/
def bindImport (libraries : List Library) (i : NativeImport) : Except LoadError (Native Unit) :=
  match libraries.findSome? (·.findFunction? i.identity) with
  | none => .error (.unresolvedImport i.name)
  | some f => if matchesImport f i then .ok f.body else .error (.importMismatch i.name)

def findLibrary (catalog : Catalog) (name : String) : Except LoadError Library :=
  match catalog.find? name with
  | some l => .ok l
  | none => .error (.missingReference name)

/-! ## Fields -/

/-- Slots that hold the default values of fields. -/
def defaultSlots (count : Nat) (fields : List FieldImage) : Array Value :=
  fields.foldl (fun slots f => slots.setIfInBounds f.slot.toNat f.type.default)
    (Array.replicate count .void)

/-- The static slots of a module before any initializer ran. -/
def firstStatics (m : Image) : Array Value :=
  defaultSlots m.staticCount (m.classes.toList.flatMap fun c => c.fields.toList.filter (·.isStatic))

/-! ## Running -/

/-- The machine on which a method of the module is run, with the fields of a receiver. -/
def machine (m : LoadedModule) (fields : Option (Array Value)) : Machine :=
  .idle fields m.statics m.sink

/-- The module after a run. -/
def after (m : LoadedModule) (machine : Machine) : LoadedModule :=
  match m with
  | ⟨program, bytes, libraries, _, _, warnings⟩ =>
    ⟨program, bytes, libraries, machine.statics, machine.sink, warnings⟩

/-- Runs initializers, given by the places of their class and method. None is no answer within the
number of instructions that each of them may take. -/
def runInitializers (fuel : Nat) : List (Nat × Nat) → LoadedModule →
    Option (Except LoadError LoadedModule)
  | [], m => some (.ok m)
  | (cls, method) :: rest, m =>
    match Machine.call m.program fuel cls method [] (m.machine none) with
    | none => none
    | some ⟨.error f, _⟩ => some (.error (.initializer f))
    | some ⟨.ok _, machine⟩ => runInitializers fuel rest (m.after machine)

/-- The initializers of a module, in the order in which they run. -/
def initializers (m : Image) : List (Nat × Nat) :=
  m.classes.toList.zipIdx.filterMap fun (c, i) => c.typeInitializer?.map fun j => (i, j)

/-- A decoded image with its imports bound, before any initializer ran. -/
def bind (image : Image) (bytes : List UInt8) (catalog : Catalog) :
    Except LoadError LoadedModule := do
  let libraries ← image.references.mapM (findLibrary catalog)
  let natives ← image.imports.toList.mapM (bindImport libraries)
  pure ⟨⟨image, natives.toArray⟩, bytes, libraries, firstStatics image, .empty, []⟩

/-- Loads an image. Each initializer may take so many instructions; none is no answer by then. -/
def load (fuel : Nat) (bytes : List UInt8) (catalog : Catalog) :
    Option (Except LoadError LoadedModule) :=
  match Image.decode bytes with
  | .error e => some (.error (.image e))
  | .ok image =>
    match bind image bytes catalog with
    | .error e => some (.error e)
    | .ok m => runInitializers fuel (initializers image) m

def image (m : LoadedModule) : Image := m.program.image

def name (m : LoadedModule) : String := m.image.name

def withWarnings (m : LoadedModule) (warnings : List Diagnostic) : LoadedModule :=
  { m with warnings := warnings }

/-- Output goes to another sink from now on. -/
def withSink (m : LoadedModule) (sink : Sink) : LoadedModule :=
  match m with
  | ⟨program, bytes, libraries, statics, _, warnings⟩ =>
    ⟨program, bytes, libraries, statics, sink, warnings⟩

end LoadedModule
end ClassScript
