import ClassScript.Grammar.Declaration
import ClassScript.Token.Lexer

/-!
From source text to a syntax tree.
-/

namespace ClassScript

/-- A tree, and the mistakes that were found and passed over on the way to it. -/
structure Parsed where
  script : Script
  errors : List SyntaxError

/-- The state in which a parser finds a list of tokens. -/
def Grammar.State.ofTokens (tokens : List Token) : Grammar.State :=
  let upcoming := tokens.filter fun t => t.kind ≠ .eof
  ⟨none, upcoming, tokens.getLastD default, [], upcoming.length⟩

/-- The state in which the parser finds the tokens of a source. Text that is no token was reported by
the lexer, and the grammar never sees it. -/
def Grammar.State.ofSource (source : List Char) : Grammar.State :=
  .ofTokens ((Lexer.run source).1.filter fun t => t.kind ≠ .error)

/-- Reads a source, unless it is larger than places can address. Only nesting that is too deep leaves
no tree. Lexical errors come first, each kind in source order. -/
def Parsed.ofSource (source : List Char) : Except SyntaxError Parsed :=
  let size := Lexer.bytes source
  if UInt32.size ≤ size then .error ⟨.sourceTooLarge size, default⟩
  else
    let (tokens, lexical) := Lexer.run source
    match Grammar.script (.ofTokens (tokens.filter fun t => t.kind ≠ .error)) with
    | .ok tree state => .ok ⟨tree, lexical ++ state.reports.reverse⟩
    | .error e _ => .error e
    | .tooDeep e => .error e

namespace Parsed

theorem ofSource_of_large {source : List Char} (h : UInt32.size ≤ Lexer.bytes source) :
    ofSource source = .error ⟨.sourceTooLarge (Lexer.bytes source), default⟩ := if_pos h

theorem ofSource_of_small {source : List Char} (h : Lexer.bytes source < UInt32.size) :
    ofSource source = match Grammar.script (.ofSource source) with
      | .ok tree state => .ok ⟨tree, (Lexer.run source).2 ++ state.reports.reverse⟩
      | .error e _ => .error e
      | .tooDeep e => .error e := if_neg (Nat.not_le_of_lt h)

/-- Every tree comes from a run of the grammar. -/
theorem script_of_source {source : List Char} {p : Parsed} (h : ofSource source = .ok p) :
    ∃ state, Grammar.script (.ofSource source) = .ok p.script state ∧
      p.errors = (Lexer.run source).2 ++ state.reports.reverse := by
  obtain hsmall | hlarge := Nat.lt_or_ge (Lexer.bytes source) UInt32.size
  · rw [ofSource_of_small hsmall] at h
    split at h
    case h_1 tree state hscript =>
      cases h
      exact ⟨state, hscript, rfl⟩
    all_goals cases h
  · rw [ofSource_of_large hlarge] at h
    cases h

end Parsed

end ClassScript
