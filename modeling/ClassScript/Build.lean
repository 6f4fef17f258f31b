import ClassScript.Compile.Module
import ClassScript.Image.Encode
import ClassScript.LoadedModule
import ClassScript.ModuleName
import ClassScript.Parsed

/-!
From source text to a loaded module.

What surrounds a source is settled by a policy: the name of the module, the libraries it refers to,
and the options. The standard policy brings a list of namespaces into scope and refers to the
standard libraries; whatever a caller adds comes in front of them.
-/

namespace ClassScript

/-! ## Policies -/

/-- What a source is compiled with. -/
structure Settings where
  moduleName : ModuleName
  references : List String
  options : Options
deriving DecidableEq

/-- A caller's changes to the standard policy. -/
structure Policy where
  namespaces : List String := []
  references : List String := []
  /-- The options instead of the standard ones. -/
  options : Option Options := none
deriving DecidableEq, Inhabited

namespace Policy

def defaultNamespaces : List String := [
  "System", "System.IO", "System.Net", "System.Linq", "System.Text",
  "System.Text.RegularExpressions", "System.Collections.Generic"]

def defaultReferences : List String := ["System.Runtime", "System.Net.Primitives", "System.Linq"]

def allNamespaces (p : Policy) : List String := p.namespaces ++ defaultNamespaces

def allReferences (p : Policy) : List String := p.references ++ defaultReferences

/-- The options with all namespaces in scope, behind the usings they have. -/
def allOptions (p : Policy) : Options :=
  let options := p.options.getD {}
  { options with usings := options.usings ++ p.allNamespaces }

def settings (p : Policy) (moduleName : ModuleName) : Settings :=
  ⟨moduleName, p.allReferences, p.allOptions⟩

end Policy

/-! ## Failures -/

inductive BuildError where
  | invalidPolicy (e : InvalidModuleName)
  /-- The source has no tree. -/
  | parse (e : SyntaxError)
  /-- What was reported prevents a module. -/
  | emit (diagnostics : List Diagnostic)
deriving DecidableEq

def BuildError.message : BuildError → String
  | invalidPolicy e => e.message
  | parse e => "source could not be parsed: " ++ e.message
  | emit ds => s!"emit failed with {(ds.filter Diagnostic.isBlocking).length} error(s)"

namespace Build

/-- The report on an image that cannot be written or loaded. -/
def imageFailure (message : String) : Diagnostic := ⟨.error, "QC9001", message, {}, false⟩

/-- The libraries of distinct names that a catalog has, and the errors for those it has not. -/
def resolveReferences (catalog : Catalog) (names : List String) :
    List Library × List SemanticError :=
  let names := names.eraseDups
  (names.filterMap catalog.find?,
    (names.filter fun n => (catalog.find? n).isNone).map fun n => ⟨.missingReference n, {}⟩)

/-- The bytes of an image, unless a diagnostic prevents it, and all that was reported. -/
def generate (s : Settings) (catalog : Catalog) (tree : Parsed) : List UInt8 × List Diagnostic :=
  let syntactic := tree.errors.map (·.diagnostic)
  if Diagnostic.anyBlocking syntactic then ([], syntactic)
  else
    let (libraries, missing) := resolveReferences catalog s.references
    let c := Compilation.ofScript s.moduleName.text s.options libraries tree.script
    let found := syntactic ++ missing.map (·.diagnostic) ++ c.diagnostics
    match c.image with
    | none => ([], found)
    | some image =>
      if Diagnostic.anyBlocking found then ([], found)
      else
        match image.encode with
        | .ok bytes => (bytes, found)
        | .error e => ([], found ++ [imageFailure e.message])

/-- Compiles and loads a tree. Each initializer may take so many instructions. -/
def emit (fuel : Nat) (s : Settings) (catalog : Catalog) (tree : Parsed) :
    Option (Except BuildError LoadedModule) :=
  let (bytes, found) := generate s catalog tree
  if Diagnostic.anyBlocking found then some (.error (.emit found))
  else
    match LoadedModule.load fuel bytes catalog with
    | none => none
    | some (.ok m) => some (.ok (m.withWarnings found))
    | some (.error e) => some (.error (.emit [imageFailure e.message]))

/-- Compiles and loads a source. -/
def ofSource (fuel : Nat) (s : Settings) (catalog : Catalog) (source : List Char) :
    Option (Except BuildError LoadedModule) :=
  match Parsed.ofSource source with
  | .error e => some (.error (.parse e))
  | .ok tree => emit fuel s catalog tree

end Build
end ClassScript
