import ClassScript.Proofs.Release.Expression
import Mathlib.Logic.Relation

/-!
Drafts of code, with operands in full.

An operand that does not fit is cut off and marks the emitter, and nothing takes the mark away again.
A draft keeps every operand as it is meant, in the code that stands and in each piece of code that was
taken out on the way: dropped, cut out or written over. Each operation of the emitter is a step from
one draft to the next, and no step loses an operand. So the mark of an emitter tells that some operand
does not fit, in the code that stands or in what was taken out, and the constants of its pool are those
that one or the other refers to.
-/

namespace ClassScript

open Emitter (maxOperand)

/-! ## Operands -/

inductive Operand where
  /-- How far a jump leads. -/
  | distance (n : Nat)
  /-- Stands in a jump whose end is still open. -/
  | gap
  /-- A constant, and its place in the pool. -/
  | constant (c : Constant) (i : Nat)
  /-- A slot, or the place of a class, a method or a function. -/
  | place (n : Nat)

def Operand.number : Operand → Nat
  | distance n => n
  | gap => maxOperand
  | constant _ i => i
  | place n => n

/-- A byte of code: on its own, or half of an operand. -/
inductive Cell where
  | byte (b : UInt8)
  | high (o : Operand)
  | low (o : Operand)

namespace Cell

def spelled : Cell → UInt8
  | byte b => b
  | high o => (UInt16.ofNat (min o.number maxOperand) >>> 8).toUInt8
  | low o => (UInt16.ofNat (min o.number maxOperand)).toUInt8

def operand? : Cell → Option Operand
  | high o => some o
  | byte _ | low _ => none

def operands (cells : List Cell) : List Operand := cells.filterMap operand?

def instruction (op : Opcode) (o : Operand) : List Cell := [byte op.byte, high o, low o]

/-- Writes an operand over what stands at `label`. -/
def put (cells : List Cell) (label : Nat) (o : Operand) : List Cell :=
  (cells.set label (high o)).set (label + 1) (low o)

def beneath (cells : List Cell) (label : Nat) : List Cell := (cells.drop label).take 2

variable {cells : List Cell} {o p : Operand}

@[simp] theorem operands_nil : operands [] = [] := rfl

@[simp] theorem operands_byte (b : UInt8) : operands (byte b :: cells) = operands cells := rfl

@[simp] theorem operands_high : operands (high o :: cells) = o :: operands cells := rfl

@[simp] theorem operands_low : operands (low o :: cells) = operands cells := rfl

@[simp] theorem operands_append (cells cells' : List Cell) :
    operands (cells ++ cells') = operands cells ++ operands cells' := List.filterMap_append

@[simp] theorem operands_instruction (op : Opcode) : operands (instruction op o) = [o] := rfl

theorem operands_bytes (bs : List UInt8) : operands (bs.map byte) = [] := by
  simp [operands, operand?, List.filterMap_map, Function.comp_def]

/-- Cut in two, a piece of code has the same operands. -/
theorem mem_operands_cut (n : Nat) :
    p ∈ operands cells ↔ p ∈ operands (cells.take n) ∨ p ∈ operands (cells.drop n) := by
  rw [← List.mem_append, ← operands_append, List.take_append_drop]

/-- An operand that is put in the code stands there, next to all that is not beneath it. -/
theorem mem_operands_put (label : Nat) :
    p ∈ operands (put cells label o) ∨ p ∈ operands (beneath cells label) ↔
      p ∈ operands cells ∨ p = o ∧ label < cells.length := by
  induction label generalizing cells with
  | zero =>
    rcases cells with _ | ⟨x, _ | ⟨y, cells⟩⟩
    · simp [put, beneath]
    · cases x <;> simp [put, beneath, or_comm]
    · cases x <;> cases y <;> simp [put, beneath] <;> tauto
  | succ label ih =>
    cases cells with
    | nil => simp [put, beneath]
    | cons x cells =>
      have hput : put (x :: cells) (label + 1) o = x :: put cells label o := rfl
      have hbeneath : beneath (x :: cells) (label + 1) = beneath cells label := rfl
      rw [hput, hbeneath, List.length_cons, Nat.add_lt_add_iff_right]
      cases x with
      | byte | low => exact ih
      | high q => rw [operands_high, operands_high, List.mem_cons, List.mem_cons, or_assoc, ih, or_assoc]

theorem map_spelled_put (label : Nat) : (put cells label o).map spelled =
    ((cells.map spelled).set label (high o).spelled).set (label + 1) (low o).spelled := by
  simp [put, List.map_set]

end Cell

/-! ## Drafts -/

structure Draft where
  emitter : Emitter
  /-- The code that stands. -/
  cells : List Cell
  /-- Pieces of code that were taken out: dropped, cut out or written over. -/
  removed : List (List Cell)

namespace Draft

def start (pool : Pool) : Draft := ⟨.start pool, [], []⟩

def standing (d : Draft) : List Operand := Cell.operands d.cells

/-- The operands of what was taken out. -/
def lost (d : Draft) : List Operand := d.removed.flatMap Cell.operands

def written (d : Draft) : List Operand := d.standing ++ d.lost

/-- An operation of the emitter. A slot, or the place of anything but a constant, is known to fit. -/
inductive Step (d : Draft) : Draft → Prop
  /-- Code that is finished is laid down in front of all other. -/
  | prologue (code : Code) (h : d.cells = []) :
    Step d ⟨d.emitter.bytes code, code.toList.map .byte, d.removed⟩
  | byte (b : UInt8) : Step d ⟨d.emitter.byte b, d.cells ++ [.byte b], d.removed⟩
  | operand {n : Nat} (h : n ≤ maxOperand) :
    Step d ⟨d.emitter.operand n, d.cells ++ [.high (.place n), .low (.place n)], d.removed⟩
  | constant (c : Constant) : Step d ⟨d.emitter.emitConstant c,
      d.cells ++ Cell.instruction .constant (.constant c (d.emitter.pool.add c).1), d.removed⟩
  | jump (op : Opcode) :
    Step d ⟨(d.emitter.emitJump op).2, d.cells ++ Cell.instruction op .gap, d.removed⟩
  | loop (target : Nat) : Step d ⟨d.emitter.emitLoop target,
      d.cells ++ Cell.instruction .loop (.distance (d.emitter.offset + 3 - target)), d.removed⟩
  | land (label : Nat) : Step d ⟨d.emitter.land label,
      Cell.put d.cells label (.distance (d.emitter.offset - label - 2)),
      Cell.beneath d.cells label :: d.removed⟩
  | truncate (o : Nat) :
    Step d ⟨d.emitter.truncate o, d.cells.take o, d.cells.drop o :: d.removed⟩
  | cut (o : Nat) : Step d ⟨(d.emitter.cut o).2, d.cells.take o, d.cells.drop o :: d.removed⟩
  /-- A piece that was cut out is laid down again. -/
  | lay {code : Code} {piece : List Cell} (h : piece ∈ d.removed)
    (hcode : code.toList = piece.map Cell.spelled) :
    Step d ⟨d.emitter.bytes code, d.cells ++ piece, d.removed⟩
  | insert (o : Nat) (op : Opcode) : Step d ⟨d.emitter.insert o op,
      d.cells.take o ++ [.byte op.byte] ++ d.cells.drop o, d.removed⟩
  /-- Only the loops around the code change. -/
  | loops (ls : List Loop) : Step d ⟨⟨d.emitter.code, d.emitter.pool, ls, d.emitter.oversized⟩,
      d.cells, d.removed⟩

abbrev Steps : Draft → Draft → Prop := Relation.ReflTransGen Step

variable {d d' : Draft} {base : Pool}

theorem removed_subset (h : d.Steps d') : d.removed ⊆ d'.removed := by
  induction h with
  | refl => exact fun _ => id
  | tail _ hstep ih =>
    refine fun piece hpiece => ?_
    have := ih hpiece
    cases hstep <;> first | exact this | exact List.mem_cons_of_mem _ this

def Spells (d : Draft) : Prop := d.emitter.code.toList = d.cells.map Cell.spelled

theorem spells_start (pool : Pool) : (start pool).Spells := rfl

theorem Spells.offset (h : d.Spells) : d.emitter.offset = d.cells.length := by
  rw [Emitter.offset, ← Array.length_toList, h, List.length_map]

/-- One draft becomes another as the operands `new` are written. -/
structure Writes (d : Draft) (new : List Operand) (d' : Draft) : Prop where
  spells : d'.Spells
  written : ∀ o, o ∈ d'.written ↔ o ∈ d.written ∨ o ∈ new
  mark : d'.emitter.oversized = true ↔
    d.emitter.oversized = true ∨ ∃ o ∈ new, maxOperand < o.number
  pool : d'.emitter.pool = d.emitter.pool ∧ (∀ c i, .constant c i ∉ new) ∨
    ∃ c, d'.emitter.pool = (d.emitter.pool.add c).2 ∧ new = [.constant c (d.emitter.pool.add c).1]
  places : ∀ n, .place n ∈ new → n ≤ maxOperand

/-- Nothing new is written, and what is taken out still counts. -/
theorem Writes.nothing (hspells : d'.Spells) (hwritten : ∀ o, o ∈ d'.written ↔ o ∈ d.written)
    (hmark : d'.emitter.oversized = d.emitter.oversized) (hpool : d'.emitter.pool = d.emitter.pool) :
    d.Writes [] d' where
  spells := hspells
  written o := by simp [hwritten]
  mark := by simp [hmark]
  pool := .inl ⟨hpool, by simp⟩
  places := by simp

theorem Writes.one {o : Operand} (hspells : d'.Spells)
    (hwritten : ∀ p, p ∈ d'.written ↔ p ∈ d.written ∨ p = o)
    (hmark : d'.emitter.oversized = (d.emitter.oversized || decide (maxOperand < o.number)))
    (hpool : d'.emitter.pool = d.emitter.pool) (hconstant : ∀ c i, o ≠ .constant c i)
    (hplace : ∀ n, o = .place n → n ≤ maxOperand) : d.Writes [o] d' where
  spells := hspells
  written p := by simp [hwritten]
  mark := by simp [hmark]
  pool := .inl ⟨hpool, fun c i h => hconstant c i (List.mem_singleton.mp h).symm⟩
  places n h := hplace n (List.mem_singleton.mp h).symm

/-- An operand behind the code that stands. -/
theorem mem_written_append {e : Emitter} {o : Operand} (cells : List Cell) :
    o ∈ written ⟨e, d.cells ++ cells, d.removed⟩ ↔ o ∈ d.written ∨ o ∈ Cell.operands cells := by
  simp only [written, standing, lost, Cell.operands_append, List.mem_append]
  tauto

theorem mem_written_cut {e : Emitter} {o : Operand} (n : Nat) :
    o ∈ written ⟨e, d.cells.take n, d.cells.drop n :: d.removed⟩ ↔ o ∈ d.written := by
  simp only [written, standing, lost, List.flatMap_cons, List.mem_append]
  rw [← or_assoc, ← Cell.mem_operands_cut]

theorem mem_written_land {e : Emitter} {o p : Operand} (label : Nat) :
    p ∈ written ⟨e, Cell.put d.cells label o, Cell.beneath d.cells label :: d.removed⟩ ↔
      p ∈ d.written ∨ p = o ∧ label < d.cells.length := by
  simp only [written, standing, lost, List.flatMap_cons, List.mem_append]
  rw [← or_assoc, Cell.mem_operands_put]
  tauto

/-- Code behind the code that stands, none of the operands of which is new. -/
theorem Spells.laid (h : d.Spells) {e : Emitter} {piece : List Cell}
    (hcode : e.code.toList = d.emitter.code.toList ++ piece.map Cell.spelled)
    (hpiece : ∀ o ∈ Cell.operands piece, o ∈ d.written)
    (hmark : e.oversized = d.emitter.oversized) (hpool : e.pool = d.emitter.pool) :
    d.Writes [] ⟨e, d.cells ++ piece, d.removed⟩ := by
  refine .nothing ?_ (fun o => ?_) hmark hpool
  · rw [Spells, hcode, h, List.map_append]
  · rw [mem_written_append]
    exact or_iff_left_of_imp (hpiece o)

/-- Code behind the code that stands, with one operand. -/
theorem Spells.laidOne (h : d.Spells) {e : Emitter} {piece : List Cell} {o : Operand}
    (hcode : e.code.toList = d.emitter.code.toList ++ piece.map Cell.spelled)
    (hpiece : Cell.operands piece = [o])
    (hmark : e.oversized = (d.emitter.oversized || decide (maxOperand < o.number)))
    (hpool : e.pool = d.emitter.pool) (hconstant : ∀ c i, o ≠ .constant c i)
    (hplace : ∀ n, o = .place n → n ≤ maxOperand) :
    d.Writes [o] ⟨e, d.cells ++ piece, d.removed⟩ := by
  refine .one ?_ (fun p => ?_) hmark hpool hconstant hplace
  · rw [Spells, hcode, h, List.map_append]
  · rw [mem_written_append, hpiece, List.mem_singleton]

/-- Code behind a place is taken out. -/
theorem Spells.dropped (h : d.Spells) {e : Emitter} {n : Nat}
    (hcode : e.code.toList = d.emitter.code.toList.take n)
    (hmark : e.oversized = d.emitter.oversized) (hpool : e.pool = d.emitter.pool) :
    d.Writes [] ⟨e, d.cells.take n, d.cells.drop n :: d.removed⟩ := by
  refine .nothing ?_ (fun o => mem_written_cut n) hmark hpool
  rw [Spells, hcode, h, List.map_take]

theorem Spells.constant (h : d.Spells) (c : Constant) :
    d.Writes [.constant c (d.emitter.pool.add c).1] ⟨d.emitter.emitConstant c,
      d.cells ++ Cell.instruction .constant (.constant c (d.emitter.pool.add c).1), d.removed⟩ where
  spells := by
    unfold Spells at h ⊢
    simp [Emitter.emitConstant, Emitter.emitWith, Emitter.emit, Emitter.byte, Emitter.operand, h,
      Cell.instruction, Cell.spelled, Operand.number]
  written p := by rw [mem_written_append, Cell.operands_instruction]
  mark := by
    simp [Emitter.emitConstant, Emitter.emitWith, Emitter.emit, Emitter.byte, Emitter.operand,
      Operand.number]
  pool := .inr ⟨c, rfl, rfl⟩
  places := by simp

theorem Spells.loop (h : d.Spells) (target : Nat) :
    d.Writes [.distance (d.emitter.offset + 3 - target)] ⟨d.emitter.emitLoop target,
      d.cells ++ Cell.instruction .loop (.distance (d.emitter.offset + 3 - target)), d.removed⟩ := by
  have hdistance : (d.emitter.emit .loop).offset + 2 - target = d.emitter.offset + 3 - target := by
    simp [Emitter.offset, Emitter.emit, Emitter.byte]
  refine h.laidOne ?_ rfl ?_ rfl (by simp) (by simp)
  · simp only [Emitter.emitLoop, hdistance]
    simp [Emitter.emit, Emitter.byte, Emitter.operand, Cell.instruction, Cell.spelled, Operand.number]
  · simp only [Emitter.emitLoop, hdistance]
    rfl

/-- The end of a jump is written over. Behind the code nothing is, and the distance is zero. -/
theorem Spells.land (h : d.Spells) (label : Nat) : ∃ new, d.Writes new ⟨d.emitter.land label,
    Cell.put d.cells label (.distance (d.emitter.offset - label - 2)),
    Cell.beneath d.cells label :: d.removed⟩ := by
  have hspells : Spells ⟨d.emitter.land label,
      Cell.put d.cells label (.distance (d.emitter.offset - label - 2)),
      Cell.beneath d.cells label :: d.removed⟩ := by
    have hcode : d.emitter.code.toList = d.cells.map Cell.spelled := h
    simp only [Spells, Emitter.land, Emitter.overwrite, Cell.map_spelled_put, ← hcode]
    simp [Emitter.offset, Cell.spelled, Operand.number]
  by_cases hlabel : label < d.cells.length
  · refine ⟨[.distance (d.emitter.offset - label - 2)],
      .one hspells (fun p => ?_) rfl rfl (by simp) (by simp)⟩
    rw [mem_written_land]
    simp only [hlabel, and_true]
  · have hzero : d.emitter.offset - label - 2 = 0 := by
      have := h.offset
      omega
    refine ⟨[], .nothing hspells (fun p => ?_) ?_ rfl⟩
    · rw [mem_written_land]
      simp only [hlabel, and_false, or_false]
    · simp [Emitter.land, Emitter.overwrite, hzero]

theorem Spells.insert (h : d.Spells) (n : Nat) (op : Opcode) : d.Writes [] ⟨d.emitter.insert n op,
    d.cells.take n ++ [.byte op.byte] ++ d.cells.drop n, d.removed⟩ := by
  refine .nothing ?_ (fun o => ?_) rfl rfl
  · have hcode : d.emitter.code.toList = d.cells.map Cell.spelled := h
    simp only [Spells, Emitter.insert, Array.toList_append, Wrote.toList_take, Wrote.toList_drop, hcode]
    simp [List.map_take, List.map_drop, Cell.spelled]
  · simp only [written, standing, lost, Cell.operands_append, List.mem_append, Cell.operands_byte,
      Cell.operands_nil, List.not_mem_nil, or_false, ← Cell.mem_operands_cut]

/-- What a step writes. -/
theorem Step.writes (hstep : d.Step d') (h : d.Spells) : ∃ new, d.Writes new d' := by
  cases hstep with
  | prologue front hnil =>
    have hempty : d.emitter.code.toList = [] := by rw [h, hnil, List.map_nil]
    have hlaid : d.Writes [] ⟨d.emitter.bytes front, d.cells ++ front.toList.map .byte, d.removed⟩ :=
      h.laid (by simp [Emitter.bytes, Function.comp_def, Cell.spelled])
        (by simp [Cell.operands_bytes]) rfl rfl
    exact ⟨[], by rwa [hnil, List.nil_append] at hlaid⟩
  | byte b => exact ⟨[], h.laid (by simp [Emitter.byte, Cell.spelled]) (by simp) rfl rfl⟩
  | @operand n hn =>
    refine ⟨[.place n], h.laidOne ?_ rfl rfl rfl (by simp) fun m hm => ?_⟩
    · simp [Emitter.operand, Cell.spelled, Operand.number]
    · cases hm
      exact hn
  | constant c => exact ⟨_, h.constant c⟩
  | jump op =>
    have hgap : (Cell.high .gap).spelled = 0xff ∧ (Cell.low .gap).spelled = 0xff := ⟨rfl, rfl⟩
    refine ⟨[.gap], h.laidOne ?_ rfl ?_ rfl (by simp) (by simp)⟩
    · simp [Emitter.emitJump, Emitter.emit, Emitter.byte, Cell.instruction, hgap,
        show (Cell.byte op.byte).spelled = op.byte from rfl]
    · simp [Emitter.emitJump, Emitter.emit, Emitter.byte, Operand.number]
  | loop target => exact ⟨_, h.loop target⟩
  | land label => exact h.land label
  | truncate n => exact ⟨[], h.dropped (by simp [Emitter.truncate]) rfl rfl⟩
  | cut n => exact ⟨[], h.dropped (by simp [Emitter.cut]) rfl rfl⟩
  | @lay front piece hpiece hcode =>
    refine ⟨[], h.laid (by simp [Emitter.bytes, hcode]) (fun o ho => ?_) rfl rfl⟩
    exact List.mem_append_right _ (List.mem_flatMap.mpr ⟨piece, hpiece, ho⟩)
  | insert n op => exact ⟨[], h.insert n op⟩
  | loops ls => exact ⟨[], .nothing h (fun o => .rfl) rfl rfl⟩

theorem Spells.steps (h : d.Spells) (hsteps : d.Steps d') : d'.Spells := by
  induction hsteps with
  | refl => exact h
  | tail _ hstep ih =>
    obtain ⟨new, hw⟩ := hstep.writes ih
    exact hw.spells

/-! ## Accounts -/

/-- A draft over the pool `base` accounts for the mark and for the constants of its emitter. -/
structure Accounts (base : Pool) (d : Draft) : Prop where
  spells : d.Spells
  mark : d.emitter.oversized = true ↔ ∃ o ∈ d.written, maxOperand < o.number
  constants : ∀ c i, .constant c i ∈ d.written → d.emitter.pool.entries[i]? = some c
  referred : ∀ c ∈ d.emitter.pool.entries.toList,
    c ∈ base.entries.toList ∨ ∃ i, .constant c i ∈ d.written
  places : ∀ n, .place n ∈ d.written → n ≤ maxOperand
  sound : d.emitter.pool.Sound
  distinct : d.emitter.pool.Distinct

theorem accounts_start {pool : Pool} (hsound : pool.Sound) (hdistinct : pool.Distinct) :
    (start pool).Accounts pool where
  spells := spells_start pool
  mark := by simp [start, Emitter.start, written, standing, lost]
  constants := by simp [start, written, standing, lost]
  referred c hc := .inl hc
  places := by simp [start, written, standing, lost]
  sound := hsound
  distinct := hdistinct

theorem Accounts.writes {new : List Operand} (h : d.Accounts base) (hw : d.Writes new d') :
    d'.Accounts base := by
  have hmark : d'.emitter.oversized = true ↔ ∃ o ∈ d'.written, maxOperand < o.number := by
    rw [hw.mark, h.mark]
    simp only [hw.written, or_and_right, exists_or]
  have hplaces (n : Nat) (hn : .place n ∈ d'.written) : n ≤ maxOperand :=
    ((hw.written _).mp hn).elim (h.places n) (hw.places n)
  obtain ⟨hpool, hnone⟩ | ⟨c, hpool, rfl⟩ := hw.pool
  · refine ⟨hw.spells, hmark, fun c i hc => ?_, fun c hc => ?_, hplaces, hpool ▸ h.sound, hpool ▸ h.distinct⟩
    · rw [hpool]
      exact h.constants c i (((hw.written _).mp hc).resolve_right (hnone c i))
    · rw [hpool] at hc
      exact (h.referred c hc).imp_right (Exists.imp fun i hi => (hw.written _).mpr (.inl hi))
  · obtain ⟨hsound, hplace, hgrew⟩ := Pool.add_spec h.sound c
    refine ⟨hw.spells, hmark, fun k i hk => ?_, fun k hk => ?_, hplaces, hpool ▸ hsound,
      hpool ▸ h.distinct.add c⟩
    · rw [hpool]
      obtain hold | hnew := (hw.written _).mp hk
      · exact getElem?_of_isPrefix hgrew (h.constants k i hold)
      · cases List.mem_singleton.mp hnew
        exact hplace
    · rw [hpool] at hk
      obtain hold | rfl := Pool.mem_add hk
      · exact (h.referred k hold).imp_right (Exists.imp fun i hi => (hw.written _).mpr (.inl hi))
      · exact .inr ⟨_, (hw.written _).mpr (.inr (List.mem_singleton.mpr rfl))⟩

theorem Accounts.steps (h : d.Accounts base) (hsteps : d.Steps d') : d'.Accounts base := by
  induction hsteps with
  | refl => exact h
  | tail _ hstep ih =>
    obtain ⟨new, hw⟩ := hstep.writes ih.spells
    exact ih.writes hw

end Draft
end ClassScript
