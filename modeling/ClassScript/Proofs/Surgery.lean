import ClassScript.Proofs.Emission
import ClassScript.Proofs.Execution.Protection

/-!
Labels and jumps in code that is still being built.

A label is an offset of the code, while a jump only tells how far it leads. Code that is dropped takes
its labels with it, and an instruction that is inserted moves the labels behind it, but no distance.
`Labelled code labels is` tells that the code is spelled by the instructions `is` and that the labels
are those of different jumps among them. Every operation of the emitter keeps it, so after any sequence
of operations the labels that wait in the loops are the operands of jumps, and what surgery does to the
jumps of the code follows from what it does to the list of instructions.
-/

namespace ClassScript

open Code (Instruction)
open Layout (Spells)
open Emitter (maxOperand)

/-! ## Instructions at offsets -/

/-- Where an offset is to be found after a byte was inserted at `p`. -/
def moved (p o : Nat) : Nat := if p ≤ o then o + 1 else o

theorem moved_of_lt {p o : Nat} (h : o < p) : moved p o = o := if_neg (Nat.not_le.mpr h)

theorem moved_of_le {p o : Nat} (h : p ≤ o) : moved p o = o + 1 := if_pos h

theorem moved_injective (p : Nat) : Function.Injective (moved p) := by
  intro a b hab
  simp only [moved] at hab
  split at hab <;> split at hab <;> omega

namespace Asm

def HasAt (is : Asm) (o : Nat) (i : Instruction) : Prop :=
  ∃ front back, is = front ++ i :: back ∧ o = front.size

variable {is as bs front back : Asm} {i j k : Instruction} {o : Nat}

theorem hasAt_append :
    HasAt (as ++ bs) o i ↔ HasAt as o i ∨ ∃ q, HasAt bs q i ∧ o = as.size + q := by
  constructor
  · rintro ⟨front, back, h, rfl⟩
    obtain ⟨mid, rfl, hmid⟩ | ⟨mid, rfl, hmid⟩ := List.append_eq_append_iff.mp h
    · exact .inr ⟨size mid, ⟨mid, back, hmid, rfl⟩, size_append as mid⟩
    · cases mid with
      | nil => exact .inr ⟨0, ⟨[], back, hmid.symm, rfl⟩, by simp⟩
      | cons j mid =>
        obtain ⟨rfl, -⟩ := List.cons.inj hmid
        exact .inl ⟨front, mid, rfl, rfl⟩
  · rintro (⟨front, back, rfl, rfl⟩ | ⟨q, ⟨front, back, rfl, rfl⟩, rfl⟩)
    · exact ⟨front, back ++ bs, by simp, rfl⟩
    · exact ⟨as ++ front, back, by simp, by simp⟩

theorem hasAt_cons :
    HasAt (j :: is) o i ↔ o = 0 ∧ i = j ∨ ∃ q, HasAt is q i ∧ o = j.width + q := by
  have single : HasAt [j] o i ↔ o = 0 ∧ i = j := by
    constructor
    · rintro ⟨front, back, h, rfl⟩
      cases front with
      | nil => exact ⟨rfl, (List.cons.inj h).1.symm⟩
      | cons k front => simp at h
    · rintro ⟨rfl, rfl⟩
      exact ⟨[], [], rfl, rfl⟩
  rw [← List.singleton_append, hasAt_append, single, size_cons, size_nil, Nat.add_zero]

namespace HasAt

theorem le_size (h : HasAt is o i) : o + i.width ≤ is.size := by
  obtain ⟨front, back, rfl, rfl⟩ := h
  simp only [size_append, size_cons]
  omega

theorem append (h : HasAt as o i) (bs : Asm) : HasAt (as ++ bs) o i := hasAt_append.mpr (.inl h)

/-- What stands in front of the end of `front` stands in `front`. -/
theorem before (h : HasAt (front ++ back) o i) (ho : o < front.size) : HasAt front o i := by
  obtain h | ⟨q, -, rfl⟩ := hasAt_append.mp h
  · exact h
  · omega

/-- All bytes of an instruction are on the same side of a place between instructions. -/
theorem side (h : HasAt (front ++ back) o i) {d : Nat} (hd : d < i.width) :
    front.size ≤ o + d ↔ front.size ≤ o := by
  obtain hfront | ⟨q, -, rfl⟩ := hasAt_append.mp h
  · have := hfront.le_size
    omega
  · omega

theorem moved_add (h : HasAt (front ++ back) o i) {d : Nat} (hd : d < i.width) :
    moved front.size (o + d) = moved front.size o + d := by
  simp only [moved, h.side hd]
  split <;> omega

/-- An instruction that is put between two pieces of code moves the second one. -/
theorem insert (h : HasAt (front ++ back) o i) (j : Instruction) :
    HasAt (front ++ j :: back) (if front.size ≤ o then o + j.width else o) i := by
  obtain h | ⟨q, hq, rfl⟩ := hasAt_append.mp h
  · have := h.le_size
    have := i.width_pos
    rw [if_neg (by omega)]
    exact h.append _
  · rw [if_pos (by omega)]
    exact hasAt_append.mpr (.inr ⟨j.width + q, hasAt_cons.mpr (.inr ⟨q, hq, rfl⟩), by omega⟩)

theorem insert_plain (h : HasAt (front ++ back) o i) {op : Opcode} (hop : op.operandCount = 0) :
    HasAt (front ++ .plain op :: back) (moved front.size o) i := by
  simpa only [moved, Instruction.width_plain, Opcode.width, hop] using h.insert (.plain op)

/-- An instruction takes the place of another one that is as wide. -/
theorem replace (h : HasAt (front ++ i :: back) o k) (hw : j.width = i.width) :
    HasAt (front ++ j :: back) o k ∨ k = i ∧ HasAt (front ++ j :: back) o j := by
  obtain h | ⟨q, hq, rfl⟩ := hasAt_append.mp h
  · exact .inl (h.append _)
  · obtain ⟨rfl, rfl⟩ | ⟨r, hr, rfl⟩ := hasAt_cons.mp hq
    · exact .inr ⟨rfl, front, back, rfl, by simp⟩
    · have hrest : HasAt (j :: back) (i.width + r) k := hasAt_cons.mpr (.inr ⟨r, hr, by rw [hw]⟩)
      exact .inl (hasAt_append.mpr (.inr ⟨_, hrest, rfl⟩))

end HasAt
end Asm

namespace Code

/-- An instruction stands at an offset of the code, behind whole instructions and in front of such. -/
def HasAt (code : Code) (o : Nat) (i : Instruction) : Prop :=
  ∃ is : Asm, Spells code is ∧ is.HasAt o i

/-- The jump that stands at `o` leads to `t`. -/
def Jumps (code : Code) (o t : Nat) : Prop :=
  ∃ i, code.HasAt o i ∧ Verify.target? i (o + i.width) = some (some t)

variable {code code' : Code} {is js : Asm} {i : Instruction} {o n : Nat} {op : Opcode}

/-- The instructions of the code are those that it is spelled by. -/
theorem HasAt.of_spells (h : code.HasAt o i) (hs : Spells code is) : is.HasAt o i := by
  obtain ⟨js, hjs, h⟩ := h
  rwa [hs.unique hjs]

theorem HasAt.operandAt? (h : code.HasAt o (.unary op n)) (hop : op.operandCount = 1) :
    code.operandAt? (o + 1) = some n := by
  obtain ⟨_, ⟨hcode, hfits⟩, front, back, rfl, rfl⟩ := h
  have hn : n ≤ maxOperand := (hfits (.unary op n) (by simp)).first
  have hbytes : code.toList = (front.bytes ++ [op.byte]) ++ (spelled n ++ Asm.bytes back) := by
    simpa [Wrote.unary_bytes hop] using hcode
  simpa using operandAt?_of_toList _ _ hn hbytes

end Code

theorem Layout.Spells.append {code code' : Code} {is js : Asm} (h : Spells code is) (hjs : js.Fits)
    (hcode : code'.toList = code.toList ++ js.bytes) : Spells code' (is ++ js) :=
  ⟨by rw [hcode, h.1, Asm.bytes_append], (Asm.fits_append is js).mpr ⟨h.2, hjs⟩⟩

theorem Layout.Spells.size {code : Code} {is : Asm} (h : Spells code is) : code.size = is.size := by
  rw [← Array.length_toList, h.1, Asm.length_bytes]

/-! ## Labels -/

def Loop.labels (l : Loop) : List Nat := l.breaks ++ l.continues

def Emitter.labels (e : Emitter) : List Nat := e.loops.flatMap Loop.labels

/-- The code is spelled by the instructions, and the labels are those of different jumps in it. -/
structure Labelled (code : Code) (labels : List Nat) (is : Asm) : Prop where
  spells : Spells code is
  jumps : ∀ label ∈ labels, ∃ o n, is.HasAt o (.unary .jump n) ∧ label = o + 1
  distinct : labels.Nodup

namespace Labelled

variable {code code' : Code} {labels labels' : List Nat} {is js : Asm} {op : Opcode}

theorem start : Labelled #[] [] [] := ⟨⟨rfl, by simp⟩, by simp, List.nodup_nil⟩

/-- An operand of a jump is inside the code. -/
theorem bounded (h : Labelled code labels is) {label : Nat} (hl : label ∈ labels) :
    label + 2 ≤ code.size := by
  obtain ⟨o, n, ho, rfl⟩ := h.jumps label hl
  have := ho.le_size
  simp only [Instruction.width_unary, Instruction.width_jump] at this
  rw [h.spells.size]
  omega

/-- Labels may be forgotten, and their order does not matter. -/
theorem subperm (h : Labelled code labels is) (hsub : labels'.Subperm labels) :
    Labelled code labels' is where
  spells := h.spells
  jumps label hl := h.jumps label (hsub.subset hl)
  distinct := by
    obtain ⟨kept, hperm, hkept⟩ := hsub
    exact hperm.nodup (hkept.nodup h.distinct)

/-- Instructions are written behind the code. -/
theorem append (h : Labelled code labels is) (hjs : js.Fits)
    (hcode : code'.toList = code.toList ++ js.bytes) : Labelled code' labels (is ++ js) where
  spells := h.spells.append hjs hcode
  jumps label hl := by
    obtain ⟨o, n, ho, rfl⟩ := h.jumps label hl
    exact ⟨o, n, ho.append js, rfl⟩
  distinct := h.distinct

/-- An instruction with one operand is written; an operand that is too large is cut down. -/
theorem append_unary (h : Labelled code labels is) (op : Opcode) (hop : op.operandCount = 1) (n : Nat)
    (hcode : code'.toList = code.toList ++ op.byte :: Code.spelled n) :
    Labelled code' labels (is ++ [.unary op (min n maxOperand)]) := by
  refine h.append ?_ ?_
  · simp [Wrote.unary_fits hop (Nat.min_le_right n maxOperand)]
  · simp [hcode, Wrote.unary_bytes hop, Code.spelled]

/-- A jump is written whose label waits. -/
theorem append_jump (h : Labelled code labels is)
    (hcode : code'.toList = code.toList ++ Opcode.byte .jump :: Code.spelled maxOperand) :
    Labelled code' ((code.size + 1) :: labels) (is ++ [.unary .jump maxOperand]) where
  spells := (h.append_unary .jump rfl maxOperand hcode).spells
  jumps label hl := by
    obtain rfl | hl := List.mem_cons.mp hl
    · exact ⟨is.size, maxOperand, ⟨is, [], rfl, rfl⟩, by rw [h.spells.size]⟩
    · exact (h.append_unary .jump rfl maxOperand hcode).jumps label hl
  distinct := by
    refine List.nodup_cons.mpr ⟨fun hl => ?_, h.distinct⟩
    have := h.bounded hl
    omega

/-- The operand of an instruction is written over. -/
theorem overwrite {front back : Asm} {m n : Nat}
    (h : Labelled code labels (front ++ .unary op m :: back)) (hop : op.operandCount = 1)
    (hcode : code'.toList = front.bytes ++ (op.byte :: Code.spelled n) ++ Asm.bytes back) :
    Labelled code' labels (front ++ .unary op (min n maxOperand) :: back) where
  spells := by
    refine ⟨by simp [hcode, Wrote.unary_bytes hop, Code.spelled], ?_⟩
    have hfits := h.spells.2
    simp only [Asm.fits_append, Asm.fits_cons] at hfits ⊢
    exact ⟨hfits.1, Wrote.unary_fits hop (Nat.min_le_right n maxOperand), hfits.2.2⟩
  jumps label hl := by
    obtain ⟨o, k, ho, rfl⟩ := h.jumps label hl
    -- the instruction that is written over may be the jump itself: it stays one
    obtain ho | ⟨heq, ho⟩ := ho.replace (j := .unary op (min n maxOperand)) rfl
    · exact ⟨o, k, ho, rfl⟩
    · obtain ⟨rfl, -⟩ := Instruction.mk.inj heq
      exact ⟨o, _, ho, rfl⟩
  distinct := h.distinct

/-- The code behind `front` is dropped, and the labels in it. -/
theorem truncate {front back : Asm} (h : Labelled code labels (front ++ back))
    (hcode : code'.toList = code.toList.take front.size) :
    Labelled code' (labels.filter (· < front.size)) front where
  spells := by
    have hfits := (Asm.fits_append front back).mp h.spells.2
    refine ⟨?_, hfits.1⟩
    rw [hcode, h.spells.1, Asm.bytes_append, ← Asm.length_bytes, List.take_left]
  jumps label hl := by
    obtain ⟨hl, hlt⟩ := List.mem_filter.mp hl
    obtain ⟨o, n, ho, rfl⟩ := h.jumps label hl
    have hlt : o + 1 < front.size := of_decide_eq_true hlt
    exact ⟨o, n, ho.before (by omega), rfl⟩
  distinct := h.distinct.filter _

/-- An instruction without operands is put between two pieces of code. -/
theorem insert {front back : Asm} (h : Labelled code labels (front ++ back))
    (hop : op.operandCount = 0) (hcode : code'.toList =
      code.toList.take front.size ++ [op.byte] ++ code.toList.drop front.size) :
    Labelled code' (labels.map (moved front.size)) (front ++ .plain op :: back) where
  spells := by
    have hfits := (Asm.fits_append front back).mp h.spells.2
    refine ⟨?_, by simp [hfits, Wrote.plain_fits]⟩
    rw [hcode, h.spells.1, Asm.bytes_append, ← Asm.length_bytes, List.take_left, List.drop_left]
    simp [Wrote.plain_bytes hop]
  jumps label hl := by
    obtain ⟨before, hbefore, rfl⟩ := List.mem_map.mp hl
    obtain ⟨o, n, ho, rfl⟩ := h.jumps before hbefore
    refine ⟨moved front.size o, n, ho.insert_plain hop, ?_⟩
    exact ho.moved_add (d := 1) (by simp)
  distinct := h.distinct.map (moved_injective front.size)

end Labelled

/-! ## Operations -/

namespace Emitter

variable {e : Emitter} {labels : List Nat} {is : Asm}

inductive Operation where
  | emit (op : Opcode)
  | emitWith (op : Opcode) (n : Nat)
  | emitConstant (c : Constant)
  | emitValue (v : Value)
  | emitCall (cls method : Nat)
  | emitJump (op : Opcode)
  | land (label : Nat)
  | emitLoop (target : Nat)
  | enterLoop (target : Option Nat)
  | exitLoop
  | emitBreak (reachable : Bool)
  | emitContinue (reachable : Bool)
  | landContinues
  | truncate (offset : Nat)
  | insert (offset : Nat) (op : Opcode)

namespace Operation

def perform (e : Emitter) : Operation → Emitter
  | emit op => e.emit op
  | emitWith op n => e.emitWith op n
  | emitConstant c => e.emitConstant c
  | emitValue v => e.emitValue v
  | emitCall cls method => e.emitCall cls method
  | emitJump op => (e.emitJump op).2
  | land label => e.land label
  | emitLoop target => e.emitLoop target
  | enterLoop target => e.enterLoop target
  | exitLoop => e.exitLoop.2
  | emitBreak reachable => (e.emitBreak reachable).2
  | emitContinue reachable => (e.emitContinue reachable).2
  | landContinues => e.landContinues
  | truncate offset => e.truncate offset
  | insert offset op => e.insert offset op

/-- Opcodes are written with the operands that they take, what is landed is an operand, and surgery is
done between instructions. -/
def Permitted (e : Emitter) : Operation → Prop
  | emit op => op.operandCount = 0
  | emitWith op _ | emitJump op => op.operandCount = 1
  | land label => ∃ o i, e.code.HasAt o i ∧ i.op.operandCount = 1 ∧ label = o + 1
  | truncate offset => e.code.IsBoundary offset
  | insert offset op => e.code.IsBoundary offset ∧ op.operandCount = 0
  | _ => True

end Operation

inductive Reached (pool : Pool) : Emitter → Prop
  | start : Reached pool (.start pool)
  | step {e : Emitter} (h : Reached pool e) (o : Operation) (hp : o.Permitted e) :
      Reached pool (o.perform e)

/-! ## What is written -/

theorem toList_emit (e : Emitter) (op : Opcode) :
    (e.emit op).code.toList = e.code.toList ++ [op.byte] := by
  simp [emit, byte]

theorem toList_operand (e : Emitter) (n : Nat) :
    (e.operand n).code.toList = e.code.toList ++ Code.spelled n := by
  simp [operand, Code.spelled, operandBytes]

theorem toList_emitWith (e : Emitter) (op : Opcode) (n : Nat) :
    (e.emitWith op n).code.toList = e.code.toList ++ op.byte :: Code.spelled n := by
  simp [emitWith, toList_operand, toList_emit]

theorem toList_emitJump (e : Emitter) (op : Opcode) :
    (e.emitJump op).2.code.toList = e.code.toList ++ op.byte :: Code.spelled maxOperand := by
  have hopen : Code.spelled maxOperand = [0xff, 0xff] := by decide
  simp [emitJump, byte, toList_emit, hopen]

theorem emitJump_label (e : Emitter) (op : Opcode) : (e.emitJump op).1 = e.code.size + 1 := by
  simp [emitJump, emit, byte, offset]

theorem toList_emitLoop (e : Emitter) (target : Nat) : ∃ n,
    (e.emitLoop target).code.toList = e.code.toList ++ Opcode.byte .loop :: Code.spelled n := by
  refine ⟨(e.emit .loop).offset + 2 - target, ?_⟩
  simp [emitLoop, toList_operand, toList_emit]

/-- Landing a label writes over the operand there. -/
theorem toList_land {front back : Asm} {op : Opcode} {m : Nat} (hop : op.operandCount = 1)
    (h : e.code.toList = Asm.bytes (front ++ .unary op m :: back)) : ∃ n,
    (e.land (front.size + 1)).code.toList =
      front.bytes ++ (op.byte :: Code.spelled n) ++ Asm.bytes back := by
  refine ⟨e.offset - (front.size + 1) - 2, ?_⟩
  have hcode : e.code.toList = (front.bytes ++ [op.byte]) ++ (Code.spelled m ++ Asm.bytes back) := by
    simpa [Wrote.unary_bytes hop] using h
  simp only [land, overwrite]
  rw [Wrote.set_at hcode (by simp)]
  simp [Code.spelled, operandBytes]

theorem land_loops (e : Emitter) (label : Nat) : (e.land label).loops = e.loops := rfl

theorem foldl_land_loops (ls : List Nat) (e : Emitter) : (ls.foldl land e).loops = e.loops := by
  induction ls generalizing e with
  | nil => rfl
  | cons l ls ih => rw [List.foldl_cons, ih, land_loops]

/-! ## What operations keep -/

theorem labelled_land (h : Labelled e.code labels is) {label o : Nat} {i : Instruction}
    (hi : is.HasAt o i) (hop : i.op.operandCount = 1) (hl : label = o + 1) :
    ∃ js, Labelled (e.land label).code labels js := by
  obtain ⟨front, back, rfl, rfl⟩ := hi
  subst hl
  obtain ⟨op, m, second⟩ := i
  have hfits : Instruction.Fits ⟨op, m, second⟩ := h.spells.2 _ (by simp)
  obtain rfl : second = 0 := hfits.second_eq (hop ▸ Nat.one_lt_two)
  obtain ⟨n, hcode⟩ := toList_land hop h.spells.1
  exact ⟨_, h.overwrite hop hcode⟩

/-- Labels are landed one after the other. -/
theorem labelled_foldl_land (h : Labelled e.code labels is) {ls : List Nat} (hls : ls ⊆ labels) :
    ∃ js, Labelled (ls.foldl land e).code labels js := by
  -- all labels stay in place, those that are landed too, so the next one is that of a jump as well
  induction ls generalizing e is with
  | nil => exact ⟨is, h⟩
  | cons l ls ih =>
    obtain ⟨hl, hrest⟩ := List.cons_subset.mp hls
    obtain ⟨o, n, ho, hlabel⟩ := h.jumps l hl
    obtain ⟨js, hjs⟩ := labelled_land h ho rfl hlabel
    exact ih hjs hrest

theorem labelled_emit (h : Labelled e.code e.labels is) {op : Opcode} (hop : op.operandCount = 0) :
    ∃ js, Labelled (e.emit op).code (e.emit op).labels js := by
  refine ⟨is ++ [.plain op], h.append (by simp [Wrote.plain_fits]) ?_⟩
  simp [toList_emit, Wrote.plain_bytes hop]

theorem labelled_emitConstant (h : Labelled e.code e.labels is) (c : Constant) :
    ∃ js, Labelled (e.emitConstant c).code (e.emitConstant c).labels js :=
  ⟨_, h.append_unary .constant rfl (e.pool.add c).1 (toList_emitWith _ _ _)⟩

theorem labelled_emitValue (h : Labelled e.code e.labels is) (v : Value) :
    ∃ js, Labelled (e.emitValue v).code (e.emitValue v).labels js := by
  unfold emitValue
  split
  · exact labelled_emit h rfl
  · exact labelled_emit h rfl
  · split
    · exact labelled_emitConstant h _
    · exact ⟨is, h⟩

theorem labelled_emitCall (h : Labelled e.code e.labels is) (cls method : Nat) :
    ∃ js, Labelled (e.emitCall cls method).code (e.emitCall cls method).labels js := by
  have hfits : Instruction.Fits ⟨.call, min cls maxOperand, min method maxOperand⟩ :=
    ⟨Nat.min_le_right _ _, Nat.min_le_right _ _, by simp [Opcode.operandCount],
      by simp [Opcode.operandCount]⟩
  refine ⟨is ++ [_], h.append ((Asm.fits_cons _ _).mpr ⟨hfits, Asm.fits_nil⟩) ?_⟩
  · simp [emitCall, toList_operand, toList_emit, Instruction.bytes, Instruction.operands,
      Opcode.operandCount, Code.spelled]

theorem labelled_emitLoop (h : Labelled e.code labels is) (target : Nat) :
    ∃ js, Labelled (e.emitLoop target).code labels js := by
  obtain ⟨n, hcode⟩ := toList_emitLoop e target
  exact ⟨_, h.append_unary .loop rfl n hcode⟩

/-- A jump is written, and its label put to those of the innermost loop. -/
theorem labelled_inLoop {l : Loop} {ls : List Loop} (h : Labelled e.code e.labels is)
    (hloops : e.loops = l :: ls) {f : Loop → Loop}
    (hf : (f l).labels.Perm ((e.emitJump .jump).1 :: l.labels)) :
    ∃ js, Labelled ((e.emitJump .jump).2.inLoop f).code ((e.emitJump .jump).2.inLoop f).labels
      js := by
  have hjump := h.append_jump (toList_emitJump e .jump)
  obtain ⟨code, pool, loops, big⟩ := e
  obtain rfl : loops = l :: ls := hloops
  rw [emitJump_label] at hf
  refine ⟨_, hjump.subperm (List.Perm.subperm ?_)⟩
  exact hf.append_right _

theorem labelled_emitBreak (h : Labelled e.code e.labels is) (reachable : Bool) :
    ∃ js, Labelled (e.emitBreak reachable).2.code (e.emitBreak reachable).2.labels js := by
  unfold emitBreak
  split
  · exact ⟨is, h⟩
  · next hsome =>
    obtain ⟨l, ls, hloops⟩ := List.exists_cons_of_ne_nil (by simpa using hsome)
    refine labelled_inLoop h hloops ?_
    simp only [Loop.labels, List.append_assoc, List.singleton_append]
    exact List.perm_middle

theorem labelled_emitContinue (h : Labelled e.code e.labels is) (reachable : Bool) :
    ∃ js, Labelled (e.emitContinue reachable).2.code (e.emitContinue reachable).2.labels js := by
  unfold emitContinue
  obtain ⟨code, pool, loops, big⟩ := e
  cases loops with
  | nil => exact ⟨is, h⟩
  | cons l ls =>
    obtain ⟨target, continues, breaks, hasBreak, hasContinue⟩ := l
    cases target with
    | some target => exact labelled_emitLoop h target
    | none =>
      let noted : Emitter :=
        ⟨code, pool, ⟨none, continues, breaks, hasBreak, hasContinue || reachable⟩ :: ls, big⟩
      refine labelled_inLoop (e := noted) h rfl ?_
      simp only [Loop.labels, ← List.append_assoc]
      exact List.perm_append_singleton _ _

theorem labelled_exitLoop (h : Labelled e.code e.labels is) :
    ∃ js, Labelled e.exitLoop.2.code e.exitLoop.2.labels js := by
  obtain ⟨code, pool, loops, big⟩ := e
  cases loops with
  | nil => exact ⟨is, h⟩
  | cons l ls =>
    have hbreaks : l.breaks ⊆ labels ⟨code, pool, l :: ls, big⟩ := fun x hx => by
      simp [labels, Loop.labels, hx]
    obtain ⟨js, hjs⟩ := labelled_foldl_land (e := ⟨code, pool, ls, big⟩) h hbreaks
    refine ⟨js, hjs.subperm (List.Sublist.subperm ?_)⟩
    simp only [labels, exitLoop, foldl_land_loops, List.flatMap_cons]
    exact List.sublist_append_right _ _

theorem labelled_landContinues (h : Labelled e.code e.labels is) :
    ∃ js, Labelled e.landContinues.code e.landContinues.labels js := by
  obtain ⟨code, pool, loops, big⟩ := e
  cases loops with
  | nil => exact ⟨is, h⟩
  | cons l ls =>
    have hcontinues : l.continues ⊆ labels ⟨code, pool, l :: ls, big⟩ := fun x hx => by
      simp [labels, Loop.labels, hx]
    obtain ⟨js, hjs⟩ :=
      labelled_foldl_land (e := ⟨code, pool, { l with continues := [] } :: ls, big⟩) h hcontinues
    refine ⟨js, hjs.subperm (List.Sublist.subperm ?_)⟩
    simp only [labels, landContinues, foldl_land_loops, List.flatMap_cons, Loop.labels,
      List.append_nil]
    exact (List.sublist_append_left _ _).append_right _

theorem labels_truncate (e : Emitter) (offset : Nat) :
    (e.truncate offset).labels = e.labels.filter (· < offset) := by
  simp [labels, truncate, List.flatMap_map, List.filter_flatMap, Loop.labels]

theorem labels_insert (e : Emitter) (offset : Nat) (op : Opcode) :
    (e.insert offset op).labels = e.labels.map (moved offset) := by
  simp only [labels, insert, List.flatMap_map, List.map_flatMap, Loop.labels, List.map_append]
  rfl

theorem labelled_truncate {front back : Asm} (h : Labelled e.code e.labels (front ++ back)) :
    Labelled (e.truncate front.size).code (e.truncate front.size).labels front := by
  rw [labels_truncate]
  exact h.truncate (by simp [truncate])

theorem labelled_insert {front back : Asm} (h : Labelled e.code e.labels (front ++ back)) {op : Opcode}
    (hop : op.operandCount = 0) :
    Labelled (e.insert front.size op).code (e.insert front.size op).labels
      (front ++ .plain op :: back) := by
  rw [labels_insert]
  refine h.insert hop ?_
  simp only [insert, Array.toList_append, Wrote.toList_take, Wrote.toList_drop]

/-- An operation keeps code labelled. -/
theorem labelled_perform (h : Labelled e.code e.labels is) (o : Operation) (hp : o.Permitted e) :
    ∃ js, Labelled (o.perform e).code (o.perform e).labels js := by
  cases o with
  | emit op => exact labelled_emit h hp
  | emitWith op n => exact ⟨_, h.append_unary op hp n (toList_emitWith e op n)⟩
  | emitConstant c => exact labelled_emitConstant h c
  | emitValue v => exact labelled_emitValue h v
  | emitCall cls method => exact labelled_emitCall h cls method
  | emitJump op => exact ⟨_, h.append_unary op hp maxOperand (toList_emitJump e op)⟩
  | land label =>
    obtain ⟨o, i, hi, hop, hl⟩ := hp
    exact labelled_land h (hi.of_spells h.spells) hop hl
  | emitLoop target => exact labelled_emitLoop h target
  | enterLoop target => exact ⟨is, h⟩
  | exitLoop => exact labelled_exitLoop h
  | emitBreak reachable => exact labelled_emitBreak h reachable
  | emitContinue reachable => exact labelled_emitContinue h reachable
  | landContinues => exact labelled_landContinues h
  | truncate offset =>
    obtain ⟨front, back, hs, rfl⟩ := hp
    exact ⟨front, labelled_truncate (h.spells.unique hs ▸ h)⟩
  | insert offset op =>
    obtain ⟨⟨front, back, hs, rfl⟩, hop⟩ := hp
    exact ⟨_, labelled_insert (h.spells.unique hs ▸ h) hop⟩

/-- After every sequence of operations the code is labelled. -/
theorem Reached.labelled {pool : Pool} (h : Reached pool e) : ∃ is, Labelled e.code e.labels is := by
  induction h with
  | start => exact ⟨[], .start⟩
  | step _ o hp ih =>
    obtain ⟨is, his⟩ := ih
    exact labelled_perform his o hp

/-! ## What surgery does to jumps -/

structure Truncates (e : Emitter) (cut : Nat) : Prop where
  size : (e.truncate cut).code.size = cut
  /-- The labels that remain are those of the jumps that do. -/
  labels : ∀ label, label ∈ (e.truncate cut).labels ↔ label ∈ e.labels ∧ label + 2 ≤ cut
  instructions : ∀ o i, o < cut → e.code.HasAt o i → (e.truncate cut).code.HasAt o i
  jumps : ∀ o t, o < cut → t ≤ cut → e.code.Jumps o t → (e.truncate cut).code.Jumps o t

structure Inserts (e : Emitter) (place : Nat) (op : Opcode) : Prop where
  /-- A label is the one of the same jump as before. -/
  labels : ∀ o, o + 1 ∈ e.labels → moved place o + 1 ∈ (e.insert place op).labels
  inserted : (e.insert place op).code.HasAt place (.plain op)
  instructions : ∀ o i, e.code.HasAt o i → (e.insert place op).code.HasAt (moved place o) i
  jumps : ∀ o t, (o < place ↔ t < place) → e.code.Jumps o t →
    (e.insert place op).code.Jumps (moved place o) (moved place t)
  entering : ∀ o, o < place → e.code.Jumps o place → (e.insert place op).code.Jumps o place

/-- What is known of the labels of an emitter, whatever was done to its code. -/
structure KeepsLabels (e : Emitter) : Prop where
  operands : ∀ label ∈ e.labels, ∃ o n, e.code.HasAt o (.unary .jump n) ∧ label = o + 1 ∧
    e.code.operandAt? label = some n
  distinct : e.labels.Nodup
  truncate : ∀ cut, e.code.IsBoundary cut → e.Truncates cut
  insert : ∀ place op, e.code.IsBoundary place → op.operandCount = 0 → e.Inserts place op

theorem Truncates.of_labelled {front back : Asm} (h : Labelled e.code e.labels (front ++ back)) :
    e.Truncates front.size := by
  have hafter := labelled_truncate h
  have hkept (o : Nat) (i : Instruction) (ho : o < front.size) (hi : e.code.HasAt o i) :
      (e.truncate front.size).code.HasAt o i :=
    ⟨front, hafter.spells, (hi.of_spells h.spells).before ho⟩
  refine ⟨hafter.spells.size, fun label => ?_, hkept, ?_⟩
  · rw [labels_truncate, List.mem_filter, decide_eq_true_iff]
    refine and_congr_right fun hl => ?_
    obtain ⟨o, n, ho, rfl⟩ := h.jumps label hl
    have hfirst := ho.side (d := 1) (by simp)
    have hlast := ho.side (d := 2) (by simp)
    omega
  · rintro o t ho - ⟨i, hi, htarget⟩
    exact ⟨i, hkept o i ho hi, htarget⟩

theorem Inserts.of_labelled {front back : Asm} {op : Opcode}
    (h : Labelled e.code e.labels (front ++ back)) (hop : op.operandCount = 0) :
    e.Inserts front.size op := by
  have hafter := labelled_insert h hop
  have hkept (o : Nat) (i : Instruction) (hi : e.code.HasAt o i) :
      (e.insert front.size op).code.HasAt (moved front.size o) i :=
    ⟨_, hafter.spells, (hi.of_spells h.spells).insert_plain hop⟩
  refine ⟨fun o hl => ?_, ⟨_, hafter.spells, front, back, rfl, rfl⟩, hkept, ?_, ?_⟩
  · obtain ⟨p, n, hp, heq⟩ := h.jumps _ hl
    obtain rfl : o = p := Nat.succ.inj heq
    rw [labels_insert, ← hp.moved_add (d := 1) (by simp)]
    exact List.mem_map_of_mem hl
  · rintro o t hside ⟨i, hi, htarget⟩
    refine ⟨i, hkept o i hi, ?_⟩
    by_cases ho : o < front.size
    · rwa [moved_of_lt ho, moved_of_lt (hside.mp ho)]
    · have ht : ¬ t < front.size := fun ht => ho (hside.mpr ht)
      rw [moved_of_le (Nat.not_lt.mp ho), moved_of_le (Nat.not_lt.mp ht)]
      have hmoved := Flow.target?_move 1 htarget
      rwa [show o + 1 + i.width = 1 + (o + i.width) by omega, Nat.add_comm t 1]
  · rintro o ho ⟨i, hi, htarget⟩
    have hi := hkept o i hi
    rw [moved_of_lt ho] at hi
    exact ⟨i, hi, htarget⟩

/-- Labels survive: after every sequence of operations they are the operands of different jumps, and
surgery leaves the jumps of the code where they lead to. -/
theorem labels_survive {pool : Pool} (h : Reached pool e) : e.KeepsLabels := by
  obtain ⟨is, his⟩ := h.labelled
  refine ⟨fun label hl => ?_, his.distinct, ?_, ?_⟩
  · obtain ⟨o, n, ho, rfl⟩ := his.jumps label hl
    have hjump : e.code.HasAt o (.unary .jump n) := ⟨is, his.spells, ho⟩
    exact ⟨o, n, hjump, rfl, hjump.operandAt? rfl⟩
  · rintro cut ⟨front, back, hs, rfl⟩
    exact .of_labelled (his.spells.unique hs ▸ his)
  · rintro place op ⟨front, back, hs, rfl⟩ hop
    exact .of_labelled (his.spells.unique hs ▸ his) hop

/-- Something is inserted in front of a `break`. -/
theorem labels_survive_break :
    let written := (((start .empty).enterLoop none).emitBreak true).2.emit .pop
    let e := written.insert 0 .pushTrue
    Reached .empty e ∧ e.labels = [2] ∧ e.KeepsLabels := by
  intro written e
  have hloop : Reached .empty ((start .empty).enterLoop none) := .step .start (.enterLoop none) trivial
  have hbreak := hloop.step (.emitBreak true) trivial
  have hpop : Reached .empty written := hbreak.step (.emit .pop) rfl
  have hjump : (Instruction.unary .jump maxOperand).Fits := Wrote.unary_fits rfl (Nat.le_refl _)
  have hfits : Asm.Fits [.unary .jump maxOperand, .plain .pop] := by simp [hjump, Wrote.plain_fits]
  have hplace : written.code.IsBoundary 0 :=
    ⟨[], [.unary .jump maxOperand, .plain .pop], ⟨rfl, hfits⟩, rfl⟩
  have hreached : Reached .empty e := hpop.step (.insert 0 .pushTrue) ⟨hplace, rfl⟩
  exact ⟨hreached, rfl, labels_survive hreached⟩

end Emitter
end ClassScript
