/-!
Places in a source text.

Lines and columns count from one, columns and lengths in bytes. A region on several lines keeps
the start of the first and the sum of the lengths.
-/

namespace ClassScript

structure Span where
  line : UInt32 := 0
  col : UInt32 := 0
  len : UInt32 := 0
deriving DecidableEq, Inhabited, Repr

namespace Span

/-- A place without extent. -/
def point (line col : UInt32) : Span := ⟨line, col, 0⟩

def isEmpty (s : Span) : Bool := s.len == 0

/-- `s` starts before `t`. -/
def before (s t : Span) : Bool := s.line < t.line || (s.line == t.line && s.col < t.col)

/-- The region from the earlier start; on one line it reaches the later end. -/
def merge (s t : Span) : Span :=
  let (a, b) := if t.before s then (t, s) else (s, t)
  if a.line = b.line then ⟨a.line, a.col, max (a.col + a.len) (b.col + b.len) - a.col⟩
  else ⟨a.line, a.col, a.len + b.len⟩

/-- The place a region ends at, on its line. -/
def endPoint (s : Span) : Span := point s.line (s.col + s.len)

def text (s : Span) : String := s!"({s.line},{s.col})"

end Span
end ClassScript
