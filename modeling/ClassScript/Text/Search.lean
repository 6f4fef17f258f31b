/-!
White space, in the sense of the Unicode property, and search and replacement in texts. Positions count
characters.
-/

namespace ClassScript.Text

/-- The characters with the white space property. -/
def isBlank (c : Char) : Bool :=
  let n := c.toNat
  (9 ≤ n && n ≤ 13) || n == 0x20 || n == 0x85 || n == 0xa0 || n == 0x1680 ||
    (0x2000 ≤ n && n ≤ 0x200a) || n == 0x2028 || n == 0x2029 || n == 0x202f || n == 0x205f ||
    n == 0x3000

/-- The text without the part at its end that satisfies `p`. -/
def dropTrailing (p : Char → Bool) (cs : List Char) : List Char :=
  (cs.reverse.dropWhile p).reverse

def trim (cs : List Char) : List Char := dropTrailing isBlank (cs.dropWhile isBlank)

/-- The position of the first occurrence of `needle`, counted from `i`. -/
def findFrom (needle : List Char) : List Char → Nat → Option Nat
  | [], i => if needle.isEmpty then some i else none
  | c :: cs, i =>
    if needle.isPrefixOf (c :: cs) then some i else findFrom needle cs (i + 1)

/-- The position of the first occurrence. -/
def find? (needle text : List Char) : Option Nat := findFrom needle text 0

/-- The text with every occurrence of a non-empty `needle` replaced, from left to right and
without overlap. `skip` characters are still part of the last occurrence. -/
def replaceFrom (needle put : List Char) : List Char → Nat → List Char
  | [], _ => []
  | _ :: cs, skip + 1 => replaceFrom needle put cs skip
  | c :: cs, 0 =>
    if needle.isPrefixOf (c :: cs) then put ++ replaceFrom needle put cs (needle.length - 1)
    else c :: replaceFrom needle put cs 0

def replaceAll (needle put text : List Char) : List Char := replaceFrom needle put text 0

/-- The pieces of a text between separators; there is always at least one. -/
def splitOn (sep : Char) : List Char → List (List Char)
  | [] => [[]]
  | c :: cs =>
    if c = sep then [] :: splitOn sep cs
    else
      match splitOn sep cs with
      | [] => [[c]]
      | piece :: pieces => (c :: piece) :: pieces

end ClassScript.Text
