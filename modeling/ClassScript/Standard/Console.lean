import ClassScript.Library

/-!
Text output.
-/

namespace ClassScript.Standard

/-- The types of values that can be printed. -/
def printable : List ValueType := [.string, .int, .long, .double, .bool]

def consoleClass : ClassSpec where
  space := "System"
  name := "Console"
  keyword := none
  constants := []
  functions :=
    .static "WriteLine" [] .void (Native.write "\n") ::
      printable.flatMap fun type => [
        .static "WriteLine" [type] .void (do Native.write ((← Native.any 0).text ++ "\n")),
        .static "Write" [type] .void (do Native.write (← Native.any 0).text)]

end ClassScript.Standard
