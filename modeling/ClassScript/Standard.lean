import ClassScript.Standard.Console
import ClassScript.Standard.Convert
import ClassScript.Standard.Math
import ClassScript.Standard.Regex
import ClassScript.Standard.Text
import ClassScript.Standard.Web

/-!
The standard libraries.
-/

namespace ClassScript.Standard

def runtimeLibrary (engine : PatternEngine) : Library :=
  ((Library.build "System.Runtime" [] [
    consoleClass, mathClass, stringClass, convertClass, intClass, longClass, doubleClass,
    boolClass, pathClass, regexClass engine]).addNamespace "System.Text").addNamespace
    "System.Collections.Generic"

def netLibrary : Library := Library.build "System.Net.Primitives" [] [webClass]

def sequenceLibrary : Library := Library.build "System.Linq" [] [enumerableClass]

/-- The standard libraries, in the order in which they are referred to. -/
def catalog (engine : PatternEngine) : Catalog := ⟨[runtimeLibrary engine, netLibrary, sequenceLibrary]⟩

end ClassScript.Standard
