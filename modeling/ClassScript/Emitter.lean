import ClassScript.Code
import ClassScript.Pool

/-!
Building the code of one method.

Jumps forward are written with a distance to be filled in and known by their label, the offset of
that distance. Distances count from the end of the jump, so a piece of code that is cut out can be
laid down anywhere else. Labels of `break` and `continue` wait in the loop they belong to, and move
or go with the code around them.
-/

namespace ClassScript

/-- A loop around the code being built. -/
structure Loop where
  /-- Where `continue` jumps back to; a loop without one has its continuations filled in later. -/
  target : Option Nat
  continues : List Nat
  breaks : List Nat
  hasBreak : Bool
  hasContinue : Bool
deriving DecidableEq, Inhabited

/-- A loop without any jump out of it. -/
def Loop.start (target : Option Nat) : Loop := ⟨target, [], [], false, false⟩

structure Emitter where
  code : Code
  pool : Pool
  /-- The loops around the end of the code, the innermost first. -/
  loops : List Loop
  /-- A distance or an index did not fit an operand. Code with this mark is of no use. -/
  oversized : Bool

namespace Emitter

/-- Code is begun over the pool of the module. -/
def start (pool : Pool) : Emitter := ⟨#[], pool, [], false⟩

def offset (e : Emitter) : Nat := e.code.size

/-! ## Writing -/

def bytes (e : Emitter) (bs : Array UInt8) : Emitter :=
  match e with
  | ⟨code, pool, loops, big⟩ => ⟨code ++ bs, pool, loops, big⟩

def byte (e : Emitter) (b : UInt8) : Emitter :=
  match e with
  | ⟨code, pool, loops, big⟩ => ⟨code.push b, pool, loops, big⟩

def emit (e : Emitter) (op : Opcode) : Emitter := e.byte op.byte

/-- The largest operand. -/
def maxOperand : Nat := 65535

/-- Writes an operand; one that does not fit marks the code. -/
def operand (e : Emitter) (n : Nat) : Emitter :=
  match e with
  | ⟨code, pool, loops, big⟩ =>
    let v := UInt16.ofNat (min n maxOperand)
    ⟨(code.push (v >>> 8).toUInt8).push v.toUInt8, pool, loops, big || maxOperand < n⟩

/-- An instruction with one operand. -/
def emitWith (e : Emitter) (op : Opcode) (n : Nat) : Emitter := (e.emit op).operand n

def emitConstant (e : Emitter) (c : Constant) : Emitter :=
  match e with
  | ⟨code, pool, loops, big⟩ =>
    let (i, pool) := pool.add c
    (⟨code, pool, loops, big⟩ : Emitter).emitWith .constant i

/-- Pushes a known value; `void` pushes nothing. -/
def emitValue (e : Emitter) (v : Value) : Emitter :=
  match v with
  | .bool true => e.emit .pushTrue
  | .bool false => e.emit .pushFalse
  | v =>
    match Constant.ofValue? v with
    | some c => e.emitConstant c
    | none => e

def emitCall (e : Emitter) (cls method : Nat) : Emitter :=
  ((e.emit .call).operand cls).operand method

/-! ## Surgery -/

/-- Drops the code from `offset` on, and the labels in it. -/
def truncate (e : Emitter) (offset : Nat) : Emitter :=
  match e with
  | ⟨code, pool, loops, big⟩ =>
    let kept (labels : List Nat) := labels.filter (· < offset)
    ⟨code.shrink offset, pool,
      loops.map fun l => { l with continues := kept l.continues, breaks := kept l.breaks }, big⟩

/-- Inserts an instruction without operands at an earlier offset. -/
def insert (e : Emitter) (offset : Nat) (op : Opcode) : Emitter :=
  match e with
  | ⟨code, pool, loops, big⟩ =>
    let moved (labels : List Nat) := labels.map fun l => if offset ≤ l then l + 1 else l
    ⟨code.take offset ++ #[op.byte] ++ code.drop offset, pool,
      loops.map fun l => { l with continues := moved l.continues, breaks := moved l.breaks }, big⟩

/-- Cuts the code from `offset` on out. Labels stay as they are. -/
def cut (e : Emitter) (offset : Nat) : Code × Emitter :=
  match e with
  | ⟨code, pool, loops, big⟩ => (code.drop offset, ⟨code.shrink offset, pool, loops, big⟩)

/-! ## Jumps -/

/-- Overwrites the operand at `offset`. -/
def overwrite (e : Emitter) (offset n : Nat) : Emitter :=
  match e with
  | ⟨code, pool, loops, big⟩ =>
    let v := UInt16.ofNat (min n maxOperand)
    ⟨(code.setIfInBounds offset (v >>> 8).toUInt8).setIfInBounds (offset + 1) v.toUInt8,
      pool, loops, big || maxOperand < n⟩

/-- A jump forward whose distance is still open, and its label. -/
def emitJump (e : Emitter) (op : Opcode) : Nat × Emitter :=
  let e := e.emit op
  (e.offset, (e.byte 0xff).byte 0xff)

/-- Lets a jump lead to the end of the code. -/
def land (e : Emitter) (label : Nat) : Emitter := e.overwrite label (e.offset - label - 2)

/-- A jump back to `target`. -/
def emitLoop (e : Emitter) (target : Nat) : Emitter :=
  let e := e.emit .loop
  e.operand (e.offset + 2 - target)

/-! ## Loops -/

def enterLoop (e : Emitter) (target : Option Nat) : Emitter :=
  match e with
  | ⟨code, pool, loops, big⟩ => ⟨code, pool, Loop.start target :: loops, big⟩

/-- The loop that is left, and the code with its breaks leading to the end. -/
def exitLoop (e : Emitter) : Loop × Emitter :=
  match e with
  | ⟨code, pool, l :: loops, big⟩ =>
    (l, l.breaks.foldl land ⟨code, pool, loops, big⟩)
  | ⟨code, pool, [], big⟩ => (.start none, ⟨code, pool, [], big⟩)

/-- Changes the innermost loop. -/
def inLoop (e : Emitter) (f : Loop → Loop) : Emitter :=
  match e with
  | ⟨code, pool, l :: loops, big⟩ => ⟨code, pool, f l :: loops, big⟩
  | ⟨code, pool, [], big⟩ => ⟨code, pool, [], big⟩

/-- A jump out of the innermost loop. Without a loop nothing is written, and the answer is false. -/
def emitBreak (e : Emitter) (reachable : Bool) : Bool × Emitter :=
  if e.loops.isEmpty then (false, e)
  else
    let (label, e) := e.emitJump .jump
    (true, e.inLoop fun l =>
      { l with breaks := l.breaks ++ [label], hasBreak := l.hasBreak || reachable })

/-- A jump to the next round of the innermost loop, with an answer as for a break. -/
def emitContinue (e : Emitter) (reachable : Bool) : Bool × Emitter :=
  match e.loops with
  | [] => (false, e)
  | l :: _ =>
    let e := e.inLoop fun l => { l with hasContinue := l.hasContinue || reachable }
    match l.target with
    | some target => (true, e.emitLoop target)
    | none =>
      let (label, e) := e.emitJump .jump
      (true, e.inLoop fun l => { l with continues := l.continues ++ [label] })

/-- Lets the open continuations of the innermost loop lead to the end of the code. -/
def landContinues (e : Emitter) : Emitter :=
  match e with
  | ⟨code, pool, l :: loops, big⟩ =>
    l.continues.foldl land ⟨code, pool, { l with continues := [] } :: loops, big⟩
  | ⟨code, pool, [], big⟩ => ⟨code, pool, [], big⟩

/-- The finished code, unless something in it did not fit. -/
def finish? (e : Emitter) : Option Code := if e.oversized then none else some e.code

end Emitter
end ClassScript
