import ClassScript.Token

/-!
Operators, their spellings and how tightly they bind.

A power pair tells which operands an operator takes: it applies to a left side read so far if its
left power is at least the one asked for, and its right side is read with its right power. So an
operator whose right power is the larger one groups to the left.
-/

namespace ClassScript

inductive BinaryOp where
  | logicalOr
  | logicalAnd
  | equal
  | notEqual
  | less
  | lessEqual
  | greater
  | greaterEqual
  | add
  | sub
  | mul
  | div
  | rem
deriving DecidableEq, Repr, Inhabited

namespace BinaryOp

def power : BinaryOp → Nat × Nat
  | logicalOr => (5, 6)
  | logicalAnd => (7, 8)
  | equal | notEqual => (9, 10)
  | less | lessEqual | greater | greaterEqual => (11, 12)
  | add | sub => (13, 14)
  | mul | div | rem => (15, 16)

def ofToken? : TokenKind → Option BinaryOp
  | .pipePipe => some logicalOr
  | .ampAmp => some logicalAnd
  | .equalEqual => some equal
  | .bangEqual => some notEqual
  | .less => some less
  | .lessEqual => some lessEqual
  | .greater => some greater
  | .greaterEqual => some greaterEqual
  | .plus => some add
  | .minus => some sub
  | .star => some mul
  | .slash => some div
  | .percent => some rem
  | _ => none

def isComparison : BinaryOp → Bool
  | equal | notEqual | less | lessEqual | greater | greaterEqual => true
  | _ => false

def isLogical : BinaryOp → Bool
  | logicalOr | logicalAnd => true
  | _ => false

def spelling : BinaryOp → String
  | logicalOr => "||"
  | logicalAnd => "&&"
  | equal => "=="
  | notEqual => "!="
  | less => "<"
  | lessEqual => "<="
  | greater => ">"
  | greaterEqual => ">="
  | add => "+"
  | sub => "-"
  | mul => "*"
  | div => "/"
  | rem => "%"

end BinaryOp

/-- Operators in front of their operand. -/
inductive UnaryOp where
  | neg
  | plus
  | not
  | increment
  | decrement
deriving DecidableEq, Repr, Inhabited

namespace UnaryOp

/-- The power an operand is read with: more than any binary operator has. -/
def power : Nat := 17

def ofToken? : TokenKind → Option UnaryOp
  | .minus => some neg
  | .plus => some plus
  | .bang => some not
  | .plusPlus => some increment
  | .minusMinus => some decrement
  | _ => none

def spelling : UnaryOp → String
  | neg => "-"
  | plus => "+"
  | not => "!"
  | increment => "++"
  | decrement => "--"

end UnaryOp

/-- Operators behind their operand. -/
inductive PostfixOp where
  | increment
  | decrement
deriving DecidableEq, Repr, Inhabited

namespace PostfixOp

def ofToken? : TokenKind → Option PostfixOp
  | .plusPlus => some increment
  | .minusMinus => some decrement
  | _ => none

def spelling : PostfixOp → String
  | increment => "++"
  | decrement => "--"

end PostfixOp

inductive AssignOp where
  | assign
  | addAssign
  | subAssign
  | mulAssign
  | divAssign
  | remAssign
deriving DecidableEq, Repr, Inhabited

namespace AssignOp

/-- Assignments bind least and group to the right. -/
def power : Nat × Nat := (1, 1)

def ofToken? : TokenKind → Option AssignOp
  | .equal => some assign
  | .plusEqual => some addAssign
  | .minusEqual => some subAssign
  | .starEqual => some mulAssign
  | .slashEqual => some divAssign
  | .percentEqual => some remAssign
  | _ => none

def spelling : AssignOp → String
  | assign => "="
  | addAssign => "+="
  | subAssign => "-="
  | mulAssign => "*="
  | divAssign => "/="
  | remAssign => "%="

/-- The operator that a compound assignment applies. -/
def binary? : AssignOp → Option BinaryOp
  | assign => none
  | addAssign => some .add
  | subAssign => some .sub
  | mulAssign => some .mul
  | divAssign => some .div
  | remAssign => some .rem

end AssignOp

/-- `?:` stands between assignments and `||` and groups to the right. -/
def conditionalPower : Nat × Nat := (3, 3)

end ClassScript
