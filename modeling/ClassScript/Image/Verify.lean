import ClassScript.Image

/-!
Verification of method code.

Code is accepted if it is a sequence of whole instructions whose operands name things that exist,
and if every jump leads to the start of an instruction or to the end of the code.
-/

namespace ClassScript.Verify

/-- What is wrong with a method's code. -/
inductive Defect where
  | smallFrame
  | unknownOpcode (byte : UInt8)
  | truncated (op : Opcode)
  | outOfRange (op : Opcode) (what : String) (value : Nat)
  | fieldInStatic (op : Opcode)
  | loopBeforeStart
  | badTarget (target : Nat)
deriving DecidableEq, Repr

def Defect.text : Defect → String
  | smallFrame => "frame smaller than its parameters"
  | unknownOpcode b => "unknown opcode 0x" ++ hexByte b
  | truncated op => op.name ++ " operands truncated"
  | outOfRange op what v => op.name ++ " " ++ what ++ s!" {v} out of range"
  | fieldInStatic op => op.name ++ " in a static method"
  | loopBeforeStart => "loop before method start"
  | badTarget t => s!"jump to {t} is not an instruction"

/-- A defect, and the offset of the instruction that has it. -/
structure Complaint where
  offset : Nat
  defect : Defect
deriving DecidableEq, Repr

/-- What operands of one method are checked against. -/
structure Bounds where
  image : Image
  /-- Static slots of the module. -/
  statics : Nat
  /-- Instance slots of the class. -/
  fields : Nat
  isStatic : Bool
  locals : Nat

/-- The operands of one instruction name things that exist. -/
def operandDefect? (b : Bounds) (i : Code.Instruction) : Option Defect :=
  let inRange (value limit : Nat) (what : String) : Option Defect :=
    if value < limit then none else some (.outOfRange i.op what value)
  match i.op with
  | .constant => inRange i.first b.image.constants.size "constant"
  | .getLocal | .setLocal => inRange i.first b.locals "local"
  | .getField | .setField =>
    if b.isStatic then some (.fieldInStatic i.op) else inRange i.first b.fields "field"
  | .getStatic | .setStatic => inRange i.first b.statics "static"
  | .call =>
    match b.image.classes[i.first]? with
    | none => some (.outOfRange i.op "class" i.first)
    | some c => inRange i.second c.methods.size "method"
  | .callNative => inRange i.first b.image.imports.size "import"
  | _ => none

/-- Where a jump that ends at offset `after` leads, if the instruction is one; `none` inside is a
place before the start. -/
def target? (i : Code.Instruction) (after : Nat) : Option (Option Nat) :=
  match i.op with
  | .jump | .jumpIfFalse | .jumpIfTrue => some (some (after + i.first))
  | .loop => some (if i.first ≤ after then some (after - i.first) else none)
  | _ => none

/-- What a walk over the code has found: for every offset whether an instruction starts there, and
where the jumps are and lead to, the last one first. -/
structure Walk where
  starts : Array Bool
  jumps : List (Nat × Nat)

/-- Walks over the instructions from `offset` on. -/
def walkFrom (b : Bounds) (code : Code) (offset : Nat) (starts : Array Bool)
    (jumps : List (Nat × Nat)) : Except Complaint Walk :=
  if h : offset < code.size then
    match code.instructionAt offset code[offset] with
    | .error (.unknownOpcode byte) => .error ⟨offset, .unknownOpcode byte⟩
    | .error (.operandsTruncated op) => .error ⟨offset, .truncated op⟩
    | .ok i =>
      let after := offset + i.op.width
      match operandDefect? b i with
      | some d => .error ⟨offset, d⟩
      | none =>
        let starts := starts.setIfInBounds offset true
        match target? i after with
        | none => walkFrom b code after starts jumps
        | some none => .error ⟨offset, .loopBeforeStart⟩
        | some (some t) => walkFrom b code after starts ((offset, t) :: jumps)
  else .ok ⟨starts.setIfInBounds code.size true, jumps⟩
termination_by code.size - offset
decreasing_by
  all_goals
    have := i.op.width_pos
    omega

/-- The first complaint about a method's code. -/
def complaint? (b : Bounds) (params : Nat) (code : Code) : Option Complaint :=
  if b.locals < params then some ⟨0, .smallFrame⟩
  else
    match walkFrom b code 0 (Array.replicate (code.size + 1) false) [] with
    | .error c => some c
    | .ok w =>
      (w.jumps.reverse.find? fun (_, t) => !w.starts.getD t false).map fun (at_, t) =>
        ⟨at_, .badTarget t⟩

/-- The verdict on one method of a class. -/
def method (m : Image) (statics : Nat) (c : ClassImage) (fields : Nat) (f : MethodImage) :
    Except ImageError Unit :=
  match complaint? ⟨m, statics, fields, f.isStatic, f.locals.toNat⟩ f.params.length f.code with
  | some e => .error (.invalidCode (c.name ++ "." ++ f.signature) e.offset e.defect.text)
  | none => .ok ()

/-- The verdict on a module: the first method with a defect decides. -/
def image (m : Image) : Except ImageError Unit :=
  let statics := m.staticCount
  m.classes.toList.forM fun c =>
    let fields := c.instanceFields.length
    c.methods.toList.forM fun f => method m statics c fields f

end ClassScript.Verify
