import ClassScript.CharSet

/-!
Values of character properties, and the way their names are compared.

Names are compared loosely: the case of letters, spaces, underscores and hyphens do not count, nor
does `is` at the start. Characters outside of the first 128 do not count either.
-/

namespace ClassScript.Unicode

/-- The characters of a name that count, in lower case. -/
def significant (name : List Char) : List Char :=
  (name.filter fun c => c.toNat < 128 && c != ' ' && c != '_' && c != '-').map Char.toLower

/-- A name as it is compared. The short name of a category that starts with `is` keeps it. -/
def looseName (name : List Char) : String :=
  match name with
  | i :: s :: rest =>
    if (i == 'i' || i == 'I') && (s == 's' || s == 'S') then
      let key := String.ofList (significant rest)
      if key == "c" then "isc" else key
    else String.ofList (significant name)
  | _ => String.ofList (significant name)

/-- A value of a property: its name, its other names as they are compared, and its characters. -/
structure Value where
  name : String
  aliases : List String
  text : String

/-- Whether a name, as it is compared, is one of these. -/
def isNamed (name : String) (aliases : List String) (key : String) : Bool :=
  looseName name.toList == key || aliases.contains key

def Value.set (v : Value) : CharSet := .ofText v.text

/-- The value of a name, as it is compared. -/
def findValue? (values : List Value) (key : String) : Option Value :=
  values.find? fun v => isNamed v.name v.aliases key

end ClassScript.Unicode
