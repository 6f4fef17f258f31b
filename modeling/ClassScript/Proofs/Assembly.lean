import ClassScript.Emitter

/-!
Code as a list of instructions.

`Asm.bytes` spells instructions as the emitter does: an operand that is too large is cut down to the
largest one, and `Fits` tells that none is. Spelled instructions that fit are decoded again at the
offset at which they stand, so offsets of instructions are sums of widths.
-/

namespace ClassScript

namespace Code

/-- The two bytes of an operand; one that is too large becomes the largest. -/
def spelled (n : Nat) : List UInt8 := operandBytes (UInt16.ofNat (min n Emitter.maxOperand))

@[simp] theorem length_spelled (n : Nat) : (spelled n).length = 2 := rfl

theorem operandOf_spelled {n : Nat} (h : n ≤ Emitter.maxOperand) :
    ∃ high low, spelled n = [high, low] ∧ operandOf high low = n := by
  refine ⟨_, _, rfl, ?_⟩
  have hn : (UInt16.ofNat (min n Emitter.maxOperand)).toNat = n := by
    rw [Nat.min_eq_left h, UInt16.toNat_ofNat']
    exact Nat.mod_eq_of_lt (by simp only [Emitter.maxOperand] at h; omega)
  have h8 : 2 ^ (UInt16.toNat 8 % 16) = 256 := rfl
  simp only [operandOf, UInt16.toNat_toUInt8, UInt16.toNat_shiftRight, hn,
    Nat.shiftRight_eq_div_pow, h8]
  simp only [Emitter.maxOperand] at h
  omega

namespace Instruction

def plain (op : Opcode) : Instruction := ⟨op, 0, 0⟩

def unary (op : Opcode) (n : Nat) : Instruction := ⟨op, n, 0⟩

def width (i : Instruction) : Nat := i.op.width

theorem width_pos (i : Instruction) : 0 < i.width := i.op.width_pos

@[simp] theorem width_plain (op : Opcode) : (plain op).width = op.width := rfl

@[simp] theorem width_unary (op : Opcode) (n : Nat) : (unary op n).width = op.width := rfl

@[simp] theorem width_jump : Opcode.width .jump = 3 := rfl

@[simp] theorem width_jumpIfFalse : Opcode.width .jumpIfFalse = 3 := rfl

@[simp] theorem width_jumpIfTrue : Opcode.width .jumpIfTrue = 3 := rfl

@[simp] theorem width_loop : Opcode.width .loop = 3 := rfl

def operands (i : Instruction) : List UInt8 :=
  match i.op.operandCount with
  | 0 => []
  | 1 => spelled i.first
  | _ => spelled i.first ++ spelled i.second

def bytes (i : Instruction) : List UInt8 := i.op.byte :: i.operands

/-- The operands are those that the opcode takes, and none is too large. -/
structure Fits (i : Instruction) : Prop where
  first : i.first ≤ Emitter.maxOperand
  second : i.second ≤ Emitter.maxOperand
  first_eq : i.op.operandCount = 0 → i.first = 0
  second_eq : i.op.operandCount < 2 → i.second = 0

theorem operandCount_le (op : Opcode) : op.operandCount ≤ 2 := by cases op <;> decide

@[simp] theorem length_bytes (i : Instruction) : i.bytes.length = i.width := by
  have := operandCount_le i.op
  simp only [bytes, operands, width, Opcode.width, List.length_cons]
  split <;> simp_all <;> omega

end Instruction

theorem getElem?_of_toList {code : Code} (before after : List UInt8) {b : UInt8}
    (h : code.toList = before ++ b :: after) : code[before.length]? = some b := by
  rw [← Array.getElem?_toList, h]
  simp

theorem operandAt?_of_toList {code : Code} (before after : List UInt8) {n : Nat}
    (hn : n ≤ Emitter.maxOperand) (h : code.toList = before ++ (spelled n ++ after)) :
    code.operandAt? before.length = some n := by
  obtain ⟨high, low, hs, hv⟩ := operandOf_spelled hn
  rw [hs] at h
  have h1 : code[before.length]? = some high := getElem?_of_toList _ (low :: after) h
  have h2 : code[before.length + 1]? = some low := by
    have : code[(before ++ [high]).length]? = some low :=
      getElem?_of_toList _ after (by simpa using h)
    simpa using this
  simp [operandAt?, h1, h2, hv]

/-- Bytes that spell an instruction are decoded to it. -/
theorem instructionAt_of_toList {code : Code} (before after : List UInt8) {i : Instruction}
    (hi : i.Fits) (h : code.toList = before ++ (i.bytes ++ after)) :
    code.instructionAt before.length i.op.byte = .ok i := by
  obtain ⟨op, a, b⟩ := i
  obtain ⟨ha, hb, ha0, hb0⟩ := hi
  have := Instruction.operandCount_le op
  simp only [Instruction.bytes, Instruction.operands] at h ha hb ha0 hb0
  simp only [instructionAt, Opcode.ofByte?_byte]
  obtain hc | hc | hc : op.operandCount = 0 ∨ op.operandCount = 1 ∨ op.operandCount = 2 := by
    omega
  · simp [hc, ha0 hc, hb0 (by omega)]
  · simp only [hc] at h
    have h1 : code.operandAt? (before ++ [op.byte]).length = some a :=
      operandAt?_of_toList _ after ha (by simpa using h)
    simp only [List.length_append, List.length_singleton] at h1
    simp [hc, h1, hb0 (by omega)]
  · simp only [hc] at h
    have h1 : code.operandAt? (before ++ [op.byte]).length = some a :=
      operandAt?_of_toList _ (spelled b ++ after) ha (by simpa using h)
    have h2 : code.operandAt? (before ++ [op.byte] ++ spelled a).length = some b :=
      operandAt?_of_toList _ after hb (by simpa using h)
    simp only [List.length_append, List.length_singleton, length_spelled] at h1 h2
    simp [hc, h1, h2]

end Code

/-! ## Lists of instructions -/

abbrev Asm := List Code.Instruction

namespace Asm

open Code (Instruction)

def bytes (is : Asm) : List UInt8 := is.flatMap Instruction.bytes

def size : Asm → Nat
  | [] => 0
  | i :: is => i.width + size is

def Fits (is : Asm) : Prop := ∀ i ∈ is, i.Fits

@[simp] theorem bytes_nil : bytes [] = [] := rfl

@[simp] theorem bytes_cons (i : Instruction) (is : Asm) : bytes (i :: is) = i.bytes ++ bytes is :=
  rfl

@[simp] theorem bytes_append (is js : Asm) : bytes (is ++ js) = bytes is ++ bytes js :=
  List.flatMap_append

@[simp] theorem size_nil : size [] = 0 := rfl

@[simp] theorem size_cons (i : Instruction) (is : Asm) : size (i :: is) = i.width + size is := rfl

@[simp] theorem size_append (is js : Asm) : size (is ++ js) = size is + size js := by
  induction is with
  | nil => simp
  | cons i is ih => simp [ih]; omega

@[simp] theorem length_bytes (is : Asm) : (bytes is).length = size is := by
  induction is with
  | nil => rfl
  | cons i is ih => simp [ih]

@[simp] theorem fits_nil : Fits [] := by simp [Fits]

@[simp] theorem fits_cons (i : Instruction) (is : Asm) : Fits (i :: is) ↔ i.Fits ∧ Fits is := by
  simp [Fits]

@[simp] theorem fits_append (is js : Asm) : Fits (is ++ js) ↔ Fits is ∧ Fits js := by
  simp [Fits, or_imp, forall_and]

end Asm
end ClassScript
