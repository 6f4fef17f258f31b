import ClassScript.Library

/-!
Regular expressions. What a text means as a pattern is decided by an engine that the library does not
know. A malformed pattern is read before the text, so it is what a call fails with.
-/

namespace ClassScript.Standard

/-- What the library asks of an engine for regular expressions. -/
structure PatternEngine where
  Pattern : Type
  /-- The pattern that a text spells, or what the engine says about a text that is no pattern. -/
  compile : String → Except String Pattern
  isMatch : Pattern → String → Bool
  /-- The first match in a text. -/
  find? : Pattern → String → Option String
  /-- A text with every match replaced by what a replacement text stands for there. -/
  replaceAll : Pattern → (text replacement : String) → String
  /-- A text that spells a pattern which matches nothing but the text it was made from. -/
  escape : String → String

/-- The pattern that a text spells. -/
def PatternEngine.pattern (engine : PatternEngine) (text : String) : Except NativeError engine.Pattern :=
  match engine.compile text with
  | .ok p => .ok p
  | .error said => .error (.invalidArgument ("invalid pattern '" ++ text ++ "': " ++ said))

def regexClass (engine : PatternEngine) : ClassSpec where
  space := "System.Text.RegularExpressions"
  name := "Regex"
  keyword := none
  constants := []
  functions := [
    .static "IsMatch" [.string, .string] .bool (do
      let p ← engine.pattern (← Native.string 1)
      let text ← Native.string 0
      Native.give (.bool (engine.isMatch p text))),
    .static "Replace" [.string, .string, .string] .string (do
      let p ← engine.pattern (← Native.string 1)
      let text ← Native.string 0
      let replacement ← Native.string 2
      Native.give (.string (engine.replaceAll p text replacement))),
    .static "Match" [.string, .string] .string (do
      let p ← engine.pattern (← Native.string 1)
      let text ← Native.string 0
      Native.give (.string ((engine.find? p text).getD ""))),
    .static "Escape" [.string] .string (do
      Native.give (.string (engine.escape (← Native.string 0))))]

end ClassScript.Standard
