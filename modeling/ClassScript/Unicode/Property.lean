import ClassScript.Unicode.Binary
import ClassScript.Unicode.Category
import ClassScript.Unicode.Script
import ClassScript.Unicode.Segmentation

/-!
Sets of characters by the name of a property, or of a property and its value. The properties are
those of edition 16.
-/

namespace ClassScript.Unicode

/-! ## Categories -/

/-- Categories that join others. -/
def categoryGroups : List (String × List String × List String) := [
  ("Cased_Letter", ["lc"], ["Uppercase_Letter", "Lowercase_Letter", "Titlecase_Letter"]),
  ("Letter", ["l"],
    ["Uppercase_Letter", "Lowercase_Letter", "Titlecase_Letter", "Modifier_Letter",
      "Other_Letter"]),
  ("Mark", ["m", "combiningmark"], ["Nonspacing_Mark", "Spacing_Mark", "Enclosing_Mark"]),
  ("Number", ["n"], ["Decimal_Number", "Letter_Number", "Other_Number"]),
  ("Punctuation", ["p", "punct"],
    ["Connector_Punctuation", "Dash_Punctuation", "Open_Punctuation", "Close_Punctuation",
      "Initial_Punctuation", "Final_Punctuation", "Other_Punctuation"]),
  ("Symbol", ["s"], ["Math_Symbol", "Currency_Symbol", "Modifier_Symbol", "Other_Symbol"]),
  ("Separator", ["z"], ["Space_Separator", "Line_Separator", "Paragraph_Separator"])]

/-- The characters of a category, by its own name. -/
def categorySet (name : String) : CharSet :=
  match categories.find? (·.name == name) with
  | some v => v.set
  | none => .empty

/-- The characters that no category has. -/
def unassigned : CharSet := (CharSet.unions (categories.map (·.set))).complement

/-- Control characters, the like, and what is unassigned. The surrogates, which are among them, join
the ranges around. -/
def otherCategories : CharSet :=
  .unions (⟨[(0xd800, 0xdfff)]⟩ :: unassigned ::
    ["Control", "Format", "Private_Use"].map categorySet)

/-- The characters of a category, a group of categories or a range of all characters, by a name as
it is compared. -/
def category? (key : String) : Option CharSet :=
  if key = "any" then some .full
  else if key = "ascii" then some (.ofRanges [(0, 127)])
  else if key = "assigned" then some unassigned.complement
  else if isNamed "Unassigned" ["cn"] key then some unassigned
  else if isNamed "Other" ["c"] key then some otherCategories
  else
    match findValue? categories key with
    | some v => some v.set
    | none =>
      (categoryGroups.find? fun (name, aliases, _) => isNamed name aliases key).map
        fun (_, _, parts) => .unions (parts.map categorySet)

/-! ## Binary properties -/

/-- A property that follows from others: the categories, groups and properties it joins, those it
leaves out, and the characters that come and go besides. -/
structure Derived where
  name : String
  aliases : List String
  joined : List String
  omitted : List String
  also : String
  apart : String

def derivedProperties : List Derived := [
  ⟨"Alphabetic", ["alpha"],
    ["Letter", "Letter_Number", "Other_Lowercase", "Other_Uppercase", "Other_Alphabetic"], [],
    "", ""⟩,
  ⟨"Lowercase", ["lower"], ["Lowercase_Letter", "Other_Lowercase"], [], "", ""⟩,
  ⟨"Uppercase", ["upper"], ["Uppercase_Letter", "Other_Uppercase"], [], "", ""⟩,
  ⟨"Cased", [], ["Cased_Letter", "Other_Lowercase", "Other_Uppercase"], [], "", ""⟩,
  ⟨"Case_Ignorable", ["ci"],
    ["Nonspacing_Mark", "Enclosing_Mark", "Format", "Modifier_Letter", "Modifier_Symbol"], [],
    "BnagalaEuaBBraSdaFsaJXjbkacaDGBbaCkacaGvagala", ""⟩,
  ⟨"Math", [], ["Math_Symbol", "Other_Math"], [], "", ""⟩,
  ⟨"ID_Start", ["ids"], ["Letter", "Letter_Number", "Other_ID_Start"],
    ["Pattern_Syntax", "Pattern_White_Space"], "", ""⟩,
  ⟨"ID_Continue", ["idc"],
    ["Letter", "Letter_Number", "Other_ID_Start", "Nonspacing_Mark", "Spacing_Mark",
      "Decimal_Number", "Connector_Punctuation", "Other_ID_Continue"],
    ["Pattern_Syntax", "Pattern_White_Space"], "", ""⟩,
  ⟨"XID_Start", ["xids"], ["Letter", "Letter_Number", "Other_ID_Start"],
    ["Pattern_Syntax", "Pattern_White_Space"], "",
    "BIgaEBoaExaMVvbCZEffPqbEmabababababababaLbb"⟩,
  ⟨"XID_Continue", ["xidc"],
    ["Letter", "Letter_Number", "Other_ID_Start", "Nonspacing_Mark", "Spacing_Mark",
      "Decimal_Number", "Connector_Punctuation", "Other_ID_Continue"],
    ["Pattern_Syntax", "Pattern_White_Space"], "", "BIgaRCibCZEffPqbEmabababababababa"⟩,
  ⟨"Grapheme_Extend", ["grext"], ["Nonspacing_Mark", "Enclosing_Mark", "Other_Grapheme_Extend"], [],
    "", ""⟩,
  ⟨"Grapheme_Base", ["grbase"], ["Any"],
    ["Other", "Line_Separator", "Paragraph_Separator", "Nonspacing_Mark", "Enclosing_Mark",
      "Other_Grapheme_Extend"],
    "", ""⟩]

/-- The characters of a category, a group of them or a property, by its own name. -/
def partSet (name : String) : CharSet :=
  match binaryProperties.find? (·.name == name) with
  | some v => v.set
  | none => (category? (looseName name.toList)).getD .empty

def Derived.set (d : Derived) : CharSet :=
  let joined := CharSet.unions (.ofText d.also :: d.joined.map partSet)
  let omitted := CharSet.unions (.ofText d.apart :: d.omitted.map partSet)
  joined.diff omitted

/-- The characters that have a property, by a name as it is compared. -/
def binary? (key : String) : Option CharSet :=
  match findValue? binaryProperties key with
  | some v => some v.set
  | none => (derivedProperties.find? fun d => isNamed d.name d.aliases key).map (·.set)

/-! ## Properties with values -/

/-- The characters assigned in an edition or before. -/
def age? (key : String) : Option CharSet :=
  (ages.findIdx? fun v => isNamed v.name v.aliases key).map fun i =>
    .unions ((ages.take (i + 1)).map (·.set))

/-- The characters with a value of a property, both by names as they are compared. -/
def valued? (property value : String) : Option CharSet :=
  let from_ (values : List Value) : Option CharSet := (findValue? values value).map (·.set)
  if isNamed "General_Category" ["gc"] property then category? value
  else if isNamed "Script" ["sc"] property then from_ scripts
  else if isNamed "Script_Extensions" ["scx"] property then from_ scriptExtensions
  else if isNamed "Age" [] property then age? value
  else if isNamed "Grapheme_Cluster_Break" ["gcb"] property then from_ graphemeBreaks
  else if isNamed "Word_Break" ["wb"] property then from_ wordBreaks
  else if isNamed "Sentence_Break" ["sb"] property then from_ sentenceBreaks
  else none

/-- The characters that one name stands for: those that have a property, those of a category, or
those of a script. -/
def named? (key : String) : Option CharSet :=
  binary? key <|> category? key <|> (findValue? scripts key).map (·.set)

/-! ## Common sets -/

/-- The set with this name; empty if there is none. -/
def setOf (name : String) : CharSet := (named? (looseName name.toList)).getD .empty

/-- Decimal digits of all scripts. -/
def digits : CharSet := setOf "Decimal_Number"

/-- Blanks. -/
def spaces : CharSet := setOf "White_Space"

/-- Characters that words are made of. -/
def wordChars : CharSet :=
  .unions (["Alphabetic", "Mark", "Decimal_Number", "Connector_Punctuation", "Join_Control"].map
    setOf)

end ClassScript.Unicode
