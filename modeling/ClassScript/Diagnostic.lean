import ClassScript.Span

/-!
Reported problems, in the order in which they were found.
-/

namespace ClassScript

inductive Severity where
  | info
  | warning
  | error
deriving DecidableEq, Repr, Inhabited

def Severity.name : Severity → String
  | info => "info"
  | warning => "warning"
  | error => "error"

structure Diagnostic where
  severity : Severity
  code : String
  message : String
  span : Span
  /-- A warning that a policy made an error. -/
  promoted : Bool := false
deriving DecidableEq, Inhabited

namespace Diagnostic

/-- Blocking diagnostics prevent a module. -/
def isBlocking (d : Diagnostic) : Bool := d.severity == .error || d.promoted

/-- A warning becomes an error and keeps its code. -/
def promote (d : Diagnostic) : Diagnostic :=
  if d.severity = .warning then { d with severity := .error, promoted := true } else d

def text (d : Diagnostic) : String :=
  d.span.text ++ " " ++ d.severity.name ++ " " ++ d.code ++ ": " ++ d.message

/-- One diagnostic per line. -/
def listText (ds : List Diagnostic) : String := "\n".intercalate (ds.map text)

def anyBlocking (ds : List Diagnostic) : Bool := ds.any isBlocking

end Diagnostic
end ClassScript
