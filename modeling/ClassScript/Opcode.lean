/-!
The instruction set of the stack machine.

An instruction is one byte and the operands its opcode takes, two bytes each, high byte first.
Operations on two values pop the right one first.
-/

namespace ClassScript

inductive Opcode where
  /-- Push a constant; the operand is its place in the pool. -/
  | constant
  | pushTrue
  | pushFalse
  | pop
  | dup
  /-- Read a local slot. -/
  | getLocal
  /-- Pop into a local slot. -/
  | setLocal
  /-- Read a field of the receiver. -/
  | getField
  /-- Pop into a field of the receiver. -/
  | setField
  /-- Read a static slot of the module. -/
  | getStatic
  /-- Pop into a static slot of the module. -/
  | setStatic
  | addI32
  | subI32
  | mulI32
  | divI32
  | modI32
  | negI32
  | addI64
  | subI64
  | mulI64
  | divI64
  | modI64
  | negI64
  | addF64
  | subF64
  | mulF64
  | divF64
  | modF64
  | negF64
  /-- Join two strings. -/
  | concat
  /-- Replace a value by its text. -/
  | toStr
  /-- Replace a string by its number of characters. -/
  | strLen
  | i32ToI64
  | i32ToF64
  | i64ToF64
  /-- Equality of two values of one type. -/
  | eq
  | ne
  | ltI32
  | leI32
  | gtI32
  | geI32
  | ltI64
  | leI64
  | gtI64
  | geI64
  | ltF64
  | leF64
  | gtF64
  | geF64
  | not
  /-- Go forward, counted from the end of the instruction. -/
  | jump
  /-- Pop a condition and go forward if it is false. -/
  | jumpIfFalse
  /-- Pop a condition and go forward if it is true. -/
  | jumpIfTrue
  /-- Go back, counted from the end of the instruction. -/
  | loop
  /-- Call a method of the module, by class and method. -/
  | call
  /-- Call an imported library function. -/
  | callNative
  | ret
  | retVoid
deriving DecidableEq, Repr, Hashable, Inhabited

namespace Opcode

/-- All opcodes, in the order of their bytes. -/
def all : Array Opcode := #[
    .constant, .pushTrue, .pushFalse, .pop, .dup, .getLocal, .setLocal, .getField, .setField,
    .getStatic, .setStatic, .addI32, .subI32, .mulI32, .divI32, .modI32, .negI32, .addI64,
    .subI64, .mulI64, .divI64, .modI64, .negI64, .addF64, .subF64, .mulF64, .divF64, .modF64,
    .negF64, .concat, .toStr, .strLen, .i32ToI64, .i32ToF64, .i64ToF64, .eq, .ne, .ltI32, .leI32,
    .gtI32, .geI32, .ltI64, .leI64, .gtI64, .geI64, .ltF64, .leF64, .gtF64, .geF64, .not, .jump,
    .jumpIfFalse, .jumpIfTrue, .loop, .call, .callNative, .ret, .retVoid]

def byte (op : Opcode) : UInt8 := UInt8.ofNat op.ctorIdx

def ofByte? (b : UInt8) : Option Opcode := all[b.toNat]?

/-- The name of the opcode in listings and messages. -/
def name : Opcode → String
  | constant => "CONSTANT"
  | pushTrue => "PUSH_TRUE"
  | pushFalse => "PUSH_FALSE"
  | pop => "POP"
  | dup => "DUP"
  | getLocal => "GET_LOCAL"
  | setLocal => "SET_LOCAL"
  | getField => "GET_FIELD"
  | setField => "SET_FIELD"
  | getStatic => "GET_STATIC"
  | setStatic => "SET_STATIC"
  | addI32 => "ADD_I32"
  | subI32 => "SUB_I32"
  | mulI32 => "MUL_I32"
  | divI32 => "DIV_I32"
  | modI32 => "MOD_I32"
  | negI32 => "NEG_I32"
  | addI64 => "ADD_I64"
  | subI64 => "SUB_I64"
  | mulI64 => "MUL_I64"
  | divI64 => "DIV_I64"
  | modI64 => "MOD_I64"
  | negI64 => "NEG_I64"
  | addF64 => "ADD_F64"
  | subF64 => "SUB_F64"
  | mulF64 => "MUL_F64"
  | divF64 => "DIV_F64"
  | modF64 => "MOD_F64"
  | negF64 => "NEG_F64"
  | concat => "CONCAT"
  | toStr => "TO_STR"
  | strLen => "STR_LEN"
  | i32ToI64 => "I32_TO_I64"
  | i32ToF64 => "I32_TO_F64"
  | i64ToF64 => "I64_TO_F64"
  | eq => "EQ"
  | ne => "NE"
  | ltI32 => "LT_I32"
  | leI32 => "LE_I32"
  | gtI32 => "GT_I32"
  | geI32 => "GE_I32"
  | ltI64 => "LT_I64"
  | leI64 => "LE_I64"
  | gtI64 => "GT_I64"
  | geI64 => "GE_I64"
  | ltF64 => "LT_F64"
  | leF64 => "LE_F64"
  | gtF64 => "GT_F64"
  | geF64 => "GE_F64"
  | not => "NOT"
  | jump => "JUMP"
  | jumpIfFalse => "JUMP_IF_FALSE"
  | jumpIfTrue => "JUMP_IF_TRUE"
  | loop => "LOOP"
  | call => "CALL"
  | callNative => "CALL_NATIVE"
  | ret => "RETURN"
  | retVoid => "RETURN_VOID"

/-- The number of two-byte operands. -/
def operandCount : Opcode → Nat
  | constant | getLocal | setLocal | getField | setField | getStatic | setStatic | jump |
    jumpIfFalse | jumpIfTrue | loop | callNative => 1
  | call => 2
  | _ => 0

/-- The size of an instruction with this opcode. -/
def width (op : Opcode) : Nat := 1 + 2 * op.operandCount

def isJump : Opcode → Bool
  | jump | jumpIfFalse | jumpIfTrue | loop => true
  | _ => false

/-- Opcodes that replace the top of the stack by a function of it. -/
def isUnary : Opcode → Bool
  | negI32 | negI64 | negF64 | not | i32ToI64 | i32ToF64 | i64ToF64 | toStr | strLen => true
  | _ => false

@[simp] theorem ofByte?_byte (op : Opcode) : ofByte? op.byte = some op := by cases op <;> rfl

theorem byte_all : ∀ i : Fin all.size, (all[i]).byte.toNat = i := by decide

theorem byte_of_ofByte? {b : UInt8} {op : Opcode} (h : ofByte? b = some op) : op.byte = b := by
  obtain ⟨hb, rfl⟩ := Array.getElem?_eq_some_iff.mp h
  exact UInt8.toNat_inj.mp (byte_all ⟨b.toNat, hb⟩)

theorem width_pos (op : Opcode) : 0 < op.width := by simp only [width]; omega

end Opcode
end ClassScript
