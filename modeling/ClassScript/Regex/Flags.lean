import ClassScript.Text.Search
import ClassScript.Unicode.CaseFolding

/-!
Flags of a pattern: what they are, the letters that set them, and what they do to blanks and to
sets.
-/

namespace ClassScript.Regex

structure Flags where
  fold : Bool
  multiLine : Bool
  dotAll : Bool
  lazyFirst : Bool
  unicode : Bool
  verbose : Bool
  anyLineEnd : Bool
deriving DecidableEq, Inhabited

namespace Flags

/-- What holds unless a pattern says otherwise. -/
def initial : Flags := ⟨false, false, false, false, true, false, false⟩

/-- Sets or clears the flag with this letter. -/
def set? (f : Flags) (letter : Char) (on : Bool) : Option Flags :=
  match letter with
  | 'i' => some { f with fold := on }
  | 'm' => some { f with multiLine := on }
  | 's' => some { f with dotAll := on }
  | 'U' => some { f with lazyFirst := on }
  | 'u' => some { f with unicode := on }
  | 'x' => some { f with verbose := on }
  | 'R' => some { f with anyLineEnd := on }
  | _ => none

/-- Letters, each at most once, up to a colon or a parenthesis, and then the flags, that character
and the rest. A minus, at most one and not the last, clears what follows. -/
def letters? (f : Flags) (on : Bool) (seen : List Char) :
    List Char → Option (Flags × Char × List Char)
  | [] => none
  | c :: rest =>
    if c = ':' ∨ c = ')' then
      if seen.head? = some '-' then none else some (f, c, rest)
    else if seen.contains c then none
    else if c = '-' then letters? f false (c :: seen) rest
    else
      match f.set? c on with
      | some f => letters? f on (c :: seen) rest
      | none => none

/-! ## Blanks -/

/-- The pattern behind blanks and comments. A comment goes from a number sign to the end of the
line. -/
def skipFrom (inComment : Bool) : List Char → List Char
  | [] => []
  | c :: rest =>
    if inComment then skipFrom (c != '\n') rest
    else if Text.isBlank c then skipFrom false rest
    else if c = '#' then skipFrom true rest
    else c :: rest

theorem length_skipFrom_le (inComment : Bool) (cs : List Char) :
    (skipFrom inComment cs).length ≤ cs.length := by
  induction cs generalizing inComment with
  | nil => simp [skipFrom]
  | cons c rest ih =>
    have := ih (c != '\n')
    have := ih false
    have := ih true
    simp only [skipFrom, List.length_cons]
    split
    · omega
    split
    · omega
    split
    · omega
    · simp

/-- The pattern behind the blanks and comments that a verbose pattern may hold. -/
def skip (f : Flags) (cs : List Char) : List Char := if f.verbose then skipFrom false cs else cs

theorem length_skip_le (f : Flags) (cs : List Char) : (f.skip cs).length ≤ cs.length := by
  unfold skip
  split
  · exact length_skipFrom_le false cs
  · exact Nat.le_refl _

/-- The next character that is no blank and opens no comment; `default` if there is none. -/
def peekFrom (inComment : Bool) (default : Option Char) : List Char → Option Char
  | [] => default
  | c :: cs =>
    if Text.isBlank c then peekFrom inComment default cs
    else if !inComment && c == '#' then peekFrom true default cs
    else some c

/-- The next character. In a verbose pattern it is the next one that is no blank; a number sign
before it is passed over, but not the comment that this sign opens. -/
def peek? (f : Flags) (cs : List Char) : Option Char :=
  if f.verbose then peekFrom false cs.head? cs else cs.head?

/-! ## Sets -/

/-- The set with the characters that differ in case from a member, where case does not count. -/
def withVariants (f : Flags) (s : CharSet) : CharSet :=
  if !f.fold then s
  else if f.unicode then Unicode.withCaseVariants s
  else Unicode.withLetterVariants s

/-- The set that was written, or its complement. Where characters are the first 128 alone, no set
goes beyond them, so there is no complement. -/
def finish? (f : Flags) (negated : Bool) (s : CharSet) : Option CharSet :=
  let s := f.withVariants s
  let s := if negated then s.complement else s
  if !f.unicode && !s.isAscii then none else some s

end Flags
end ClassScript.Regex
