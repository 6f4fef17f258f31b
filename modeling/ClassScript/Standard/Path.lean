import ClassScript.Library

/-!
File paths, with a slash between directories.
-/

namespace ClassScript.Standard.Path

/-- Joins two paths; a second path that starts at the root replaces the first. -/
def combine (first second : List Char) : List Char :=
  if second.head? = some '/' ∨ first = [] then second
  else if second = [] then first
  else if first.getLast? = some '/' then first ++ second
  else first ++ '/' :: second

/-- A text split at its last `sep`: what stands before it, if there is one, and what behind. -/
def splitLast (sep : Char) : List Char → Option (List Char) × List Char
  | [] => (none, [])
  | c :: cs =>
    match splitLast sep cs with
    | (some before, after) => (some (c :: before), after)
    | (none, after) => if c = sep then (some [], after) else (none, c :: after)

/-- What stands behind the last slash. -/
def fileName (path : List Char) : List Char := (splitLast '/' path).2

/-- The end of the file name from its last point on, unless nothing stands behind the point. -/
def extension (path : List Char) : List Char :=
  match splitLast '.' (fileName path) with
  | (some _, ext) => if ext = [] then [] else '.' :: ext
  | (none, _) => []

/-- The file name up to its last point. -/
def stem (path : List Char) : List Char :=
  match splitLast '.' (fileName path) with
  | (some before, _) => before
  | (none, all) => all

/-- What stands before the last slash; the root for what is right below it. -/
def directoryName (path : List Char) : List Char :=
  match splitLast '/' path with
  | (some [], after) => if after = [] then [] else ['/']
  | (some before, _) => before
  | (none, _) => []

end Path

open ClassScript.Standard.Path

/-- A function of one text. -/
def ofText (name : String) (f : List Char → List Char) : FunctionSpec :=
  .static name [.string] .string (do Native.giveChars (f (← Native.chars 0)))

/-- All arguments joined, from left to right. -/
def combineAll : Native Unit := do
  let n ← Native.count
  let parts ← (List.range n).mapM Native.chars
  Native.giveChars (parts.foldl combine [])

def pathClass : ClassSpec where
  space := "System.IO"
  name := "Path"
  keyword := none
  constants := []
  functions := [
    .static "Combine" [.string, .string] .string combineAll,
    .static "Combine" [.string, .string, .string] .string combineAll,
    ofText "GetFileName" fileName,
    ofText "GetExtension" extension,
    ofText "GetFileNameWithoutExtension" stem,
    ofText "GetDirectoryName" directoryName,
    .static "HasExtension" [.string] .bool (do
      Native.give (.bool (extension (← Native.chars 0) ≠ [])))]

end ClassScript.Standard
