import ClassScript.Opcode

/-!
Method code: bytes, the instruction that starts at a byte, and the listing.
-/

namespace ClassScript

/-- The code of one method. -/
abbrev Code := Array UInt8

/-- A sixteen-bit operand as its two bytes, high byte first. -/
def operandBytes (n : UInt16) : List UInt8 := [(n >>> 8).toUInt8, n.toUInt8]

/-- Two bytes as an operand. -/
def operandOf (high low : UInt8) : Nat := high.toNat * 256 + low.toNat

/-- Lower-case hexadecimal digits of a byte. -/
def hexByte (b : UInt8) : String :=
  String.ofList [Nat.digitChar (b.toNat / 16), Nat.digitChar (b.toNat % 16)]

namespace Code

/-- The operand that starts at `offset`. -/
def operandAt? (code : Code) (offset : Nat) : Option Nat :=
  match code[offset]?, code[offset + 1]? with
  | some high, some low => some (operandOf high low)
  | _, _ => none

/-- What stands at an offset of a method's code. An opcode without operands has zeros there. -/
structure Instruction where
  op : Opcode
  first : Nat := 0
  second : Nat := 0
deriving DecidableEq, Repr

/-- Why no instruction starts at an offset inside the code. -/
inductive DecodeError where
  | unknownOpcode (byte : UInt8)
  | operandsTruncated (op : Opcode)
deriving DecidableEq, Repr

/-- The instruction that starts with `byte` at `offset`. -/
def instructionAt (code : Code) (offset : Nat) (byte : UInt8) : Except DecodeError Instruction :=
  match Opcode.ofByte? byte with
  | none => .error (.unknownOpcode byte)
  | some op =>
    match op.operandCount with
    | 0 => .ok ⟨op, 0, 0⟩
    | 1 =>
      match code.operandAt? (offset + 1) with
      | some a => .ok ⟨op, a, 0⟩
      | none => .error (.operandsTruncated op)
    | _ =>
      match code.operandAt? (offset + 1), code.operandAt? (offset + 3) with
      | some a, some b => .ok ⟨op, a, b⟩
      | _, _ => .error (.operandsTruncated op)

/-- Offsets are listed with at least four digits. -/
def offsetText (n : Nat) : String :=
  let cs := Nat.toDigits 10 n
  String.ofList (List.replicate (4 - cs.length) '0' ++ cs)

/-- The operands of `op` at `offset` as the listing shows them. -/
def operandTexts (code : Code) (op : Opcode) (offset : Nat) : List String :=
  (List.range op.operandCount).map fun i =>
    match code.operandAt? (offset + 1 + 2 * i) with
    | some n => toString n
    | none => "<truncated>"

/-- One line per instruction from `offset` on; a byte that is no opcode takes a line of its own. -/
def listingFrom (code : Code) (offset : Nat) : List String :=
  if h : offset < code.size then
    match Opcode.ofByte? code[offset] with
    | none => (offsetText offset ++ " <invalid 0x" ++ hexByte code[offset] ++ ">") ::
        listingFrom code (offset + 1)
    | some op =>
      " ".intercalate (offsetText offset :: op.name :: operandTexts code op offset) ::
        listingFrom code (offset + op.width)
  else []
termination_by code.size - offset
decreasing_by
  · omega
  · have := op.width_pos; omega

def listing (code : Code) : List String := listingFrom code 0

end Code
end ClassScript
