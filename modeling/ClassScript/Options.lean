/-!
Options of one compilation.
-/

namespace ClassScript

structure Options where
  /-- Integer arithmetic fails where it would wrap. -/
  checked : Bool := true
  /-- Code that cannot run is left out. -/
  release : Bool := true
  /-- Namespaces in scope everywhere. -/
  usings : List String := []
  /-- Warnings prevent a module. -/
  warningsAsErrors : Bool := false
deriving DecidableEq, Inhabited

end ClassScript
