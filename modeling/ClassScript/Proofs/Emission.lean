import ClassScript.Proofs.Assembly
import ClassScript.Proofs.Interning
import ClassScript.Proofs.Returns

/-!
What writing code does to the state of the compiler.

`Wrote libraries s t is` tells that from `s` to `t` the instructions `is` were added to the code,
whatever was inserted, cut out and laid down again on the way, while the loops around the code are as
they were and the tables of the module have only grown. Every operation of the emitter that an
expression uses has one lemma about it.
-/

namespace ClassScript

open Code (Instruction)

/-! ## Tables -/

/-- A function of one of the libraries, with the type of the value that it is called on. -/
def Callable (libraries : List Library) (f : NativeFunction) (receiver : Option ValueType) : Prop :=
  ∃ l ∈ libraries, ∃ c ∈ l.classes, f ∈ c.functions ∧ f.isInstance = receiver.isSome ∧
    ∀ t, receiver = some t → c.keyword = some t

/-- Every function that has a place is at it, and all imports are functions of the libraries. -/
structure ImportTable.Sound (libraries : List Library) (t : ImportTable) : Prop where
  places : ∀ (id : Identity) (i : Nat), t.places[id]? = some i →
    ∃ imp, t.imports[i]? = some imp ∧ imp.identity = id
  callable : ∀ imp ∈ t.imports.toList, ∃ f r, Callable libraries f r ∧ imp = importOf f r

theorem ImportTable.sound_empty (libraries : List Library) : ImportTable.empty.Sound libraries where
  places := placed_empty
  callable := by simp [ImportTable.empty]

theorem ImportTable.add_spec {libraries : List Library} {t t' : ImportTable} {i : Nat}
    {f : NativeFunction} {r : Option ValueType} (ht : t.Sound libraries)
    (hf : Callable libraries f r) (h : t.add f r = (some i, t')) :
    t'.Sound libraries ∧ (∃ imp, t'.imports[i]? = some imp ∧ imp.identity = f.identity) ∧
      t.imports.toList <+: t'.imports.toList := by
  have hplaces : t.Placed := ht.places
  obtain rfl : (t.add f r).2 = t' := congrArg Prod.snd h
  refine ⟨⟨hplaces.add f r, fun imp himp => ?_⟩, hplaces.of_add (congrArg Prod.fst h),
    t.prefix_add f r⟩
  obtain hold | rfl := t.mem_add himp
  · exact ht.callable imp hold
  · exact ⟨f, r, hf, rfl⟩

/-! ## States -/

/-- The tables are sound, and the open jumps of the loops stand in the code. -/
structure CodeState.Sound (libraries : List Library) (s : CodeState) : Prop where
  pool : s.emitter.pool.Sound
  imports : s.imports.Sound libraries
  labels : ∀ l ∈ s.emitter.loops, ∀ x ∈ l.continues ++ l.breaks, x + 2 ≤ s.emitter.code.size

structure CodeState.Grew (s t : CodeState) : Prop where
  constants : s.emitter.pool.entries.toList <+: t.emitter.pool.entries.toList
  imports : s.imports.imports.toList <+: t.imports.imports.toList

structure Tables where
  constants : Array Constant
  imports : Array NativeImport

/-- Code that pushes a known value; nothing stands for no value. -/
inductive Pushes (T : Tables) : Value → Asm → Prop
  | void : Pushes T .void []
  | yes : Pushes T (.bool true) [.plain .pushTrue]
  | no : Pushes T (.bool false) [.plain .pushFalse]
  | constant {i : Nat} {c : Constant} (h : T.constants[i]? = some c) :
      Pushes T c.value [.unary .constant i]

/-- The tables of a state are the beginning of those of the module. -/
structure CodeState.Within (s : CodeState) (T : Tables) : Prop where
  constants : s.emitter.pool.entries.toList <+: T.constants.toList
  imports : s.imports.imports.toList <+: T.imports.toList

theorem CodeState.Grew.within {s t : CodeState} (h : s.Grew t) {T : Tables} (ht : t.Within T) :
    s.Within T := ⟨h.constants.trans ht.constants, h.imports.trans ht.imports⟩

theorem CodeState.Grew.refl (s : CodeState) : s.Grew s := ⟨List.prefix_rfl, List.prefix_rfl⟩

theorem CodeState.Grew.trans {s t u : CodeState} (h : s.Grew t) (h' : t.Grew u) : s.Grew u :=
  ⟨h.constants.trans h'.constants, h.imports.trans h'.imports⟩

/-- From `s` to `t` these instructions were added to the code. -/
structure Wrote (libraries : List Library) (s t : CodeState) (is : Asm) : Prop where
  code : t.emitter.code.toList = s.emitter.code.toList ++ is.bytes
  loops : t.emitter.loops = s.emitter.loops
  grew : s.Grew t
  fits : t.emitter.oversized = false → s.emitter.oversized = false ∧ is.Fits
  sound : t.Sound libraries

namespace Wrote

variable {libraries : List Library} {s t u : CodeState} {is js : Asm}

theorem refl (h : s.Sound libraries) : Wrote libraries s s [] :=
  ⟨by simp, rfl, .refl s, fun h => ⟨h, by simp⟩, h⟩

theorem trans (h : Wrote libraries s t is) (h' : Wrote libraries t u js) :
    Wrote libraries s u (is ++ js) where
  code := by simp [h'.code, h.code]
  loops := h'.loops.trans h.loops
  grew := h.grew.trans h'.grew
  fits hu := by
    obtain ⟨ht, hj⟩ := h'.fits hu
    obtain ⟨hs, hi⟩ := h.fits ht
    exact ⟨hs, Asm.fits_append _ _ |>.mpr ⟨hi, hj⟩⟩
  sound := h'.sound

theorem offset (h : Wrote libraries s t is) : t.emitter.offset = s.emitter.offset + is.size := by
  have := congrArg List.length h.code
  simpa [Emitter.offset] using this

/-- The labels of the loops stand in front of what was written. -/
theorem labels (h : Wrote libraries s t is) (hs : s.Sound libraries) :
    ∀ l ∈ t.emitter.loops, ∀ x ∈ l.continues ++ l.breaks, x + 2 ≤ s.emitter.code.size := by
  rw [h.loops]
  exact hs.labels

/-! ## Appending -/

/-- Adding the bytes of instructions. -/
theorem append {e : Emitter} (hs : s.Sound libraries) (is : Asm)
    (hcode : e.code.toList = s.emitter.code.toList ++ is.bytes)
    (hloops : e.loops = s.emitter.loops) (hpool : e.pool = s.emitter.pool)
    (hbig : e.oversized = false → s.emitter.oversized = false ∧ is.Fits) :
    Wrote libraries s ⟨e, s.imports⟩ is where
  code := hcode
  loops := hloops
  grew := ⟨by simp [hpool], List.prefix_rfl⟩
  fits := hbig
  sound := by
    refine ⟨by simpa [hpool] using hs.pool, hs.imports, ?_⟩
    intro l hl x hx
    simp only [hloops] at hl
    have hlen := congrArg List.length hcode
    have := hs.labels l hl x hx
    simp only [Array.length_toList, List.length_append, Asm.length_bytes] at hlen ⊢
    omega

theorem plain_fits {op : Opcode} : (Instruction.plain op).Fits :=
  ⟨Nat.zero_le _, Nat.zero_le _, fun _ => rfl, fun _ => rfl⟩

theorem plain_bytes {op : Opcode} (h : op.operandCount = 0) :
    (Instruction.plain op).bytes = [op.byte] := by
  simp [Instruction.bytes, Instruction.operands, Instruction.plain, h]

theorem unary_bytes {op : Opcode} (h : op.operandCount = 1) (n : Nat) :
    (Instruction.unary op n).bytes = op.byte :: Code.spelled n := by
  simp [Instruction.bytes, Instruction.operands, Instruction.unary, h]

theorem unary_fits {op : Opcode} (h : op.operandCount = 1) {n : Nat} (hn : n ≤ Emitter.maxOperand) :
    (Instruction.unary op n).Fits :=
  ⟨hn, Nat.zero_le _, fun h0 => by simp [Instruction.unary, h] at h0, fun _ => rfl⟩

theorem emit (hs : s.Sound libraries) (op : Opcode) (h : op.operandCount = 0) :
    Wrote libraries s ⟨s.emitter.emit op, s.imports⟩ [.plain op] := by
  obtain ⟨⟨code, pool, loops, big⟩, imports⟩ := s
  refine append hs _ ?_ rfl rfl fun hb => ⟨hb, by simp [plain_fits]⟩
  simp [Emitter.emit, Emitter.byte, plain_bytes h]

theorem emitWith (hs : s.Sound libraries) (op : Opcode) (h : op.operandCount = 1) (n : Nat) :
    Wrote libraries s ⟨s.emitter.emitWith op n, s.imports⟩ [.unary op n] := by
  obtain ⟨⟨code, pool, loops, big⟩, imports⟩ := s
  refine append hs _ ?_ rfl rfl ?_
  · simp [Emitter.emitWith, Emitter.emit, Emitter.byte, Emitter.operand, unary_bytes h,
      Code.spelled, operandBytes]
  · intro hb
    simp only [Emitter.emitWith, Emitter.emit, Emitter.byte, Emitter.operand, Bool.or_eq_false_iff,
      decide_eq_false_iff_not, Nat.not_lt] at hb
    exact ⟨hb.1, by simp [unary_fits h hb.2]⟩

theorem emitCall (hs : s.Sound libraries) (c m : Nat) :
    Wrote libraries s ⟨s.emitter.emitCall c m, s.imports⟩ [⟨.call, c, m⟩] := by
  obtain ⟨⟨code, pool, loops, big⟩, imports⟩ := s
  refine append hs _ ?_ rfl rfl ?_
  · simp [Emitter.emitCall, Emitter.emit, Emitter.byte, Emitter.operand, Instruction.bytes,
      Instruction.operands, Opcode.operandCount, Code.spelled, operandBytes]
  · intro hb
    simp only [Emitter.emitCall, Emitter.emit, Emitter.byte, Emitter.operand, Bool.or_eq_false_iff,
      decide_eq_false_iff_not, Nat.not_lt] at hb
    refine ⟨hb.1.1, ?_⟩
    simp only [Asm.fits_cons, Asm.fits_nil, and_true]
    exact ⟨hb.1.2, hb.2, by simp [Opcode.operandCount], by simp [Opcode.operandCount]⟩

theorem emitConstant (hs : s.Sound libraries) (c : Constant) :
    ∃ i, Wrote libraries s ⟨s.emitter.emitConstant c, s.imports⟩ [.unary .constant i] ∧
      (s.emitter.emitConstant c).pool.entries[i]? = some c := by
  obtain ⟨⟨code, pool, loops, big⟩, imports⟩ := s
  obtain ⟨hp, hi, hpre⟩ := Pool.add_spec hs.pool c
  refine ⟨(pool.add c).1, ?_, hi⟩
  -- the pool grows first; the rest is an instruction with an operand
  have hs' : CodeState.Sound libraries ⟨⟨code, (pool.add c).2, loops, big⟩, imports⟩ :=
    ⟨hp, hs.imports, hs.labels⟩
  have h := emitWith hs' .constant rfl (pool.add c).1
  exact ⟨h.code, h.loops, ⟨hpre, List.prefix_rfl⟩, h.fits, h.sound⟩

theorem emitValue (hs : s.Sound libraries) (v : Value) :
    ∃ is, Wrote libraries s ⟨s.emitter.emitValue v, s.imports⟩ is ∧
      ∀ T, CodeState.Within ⟨s.emitter.emitValue v, s.imports⟩ T → Pushes T v is := by
  have known (c : Constant) (hv : s.emitter.emitValue c.value = s.emitter.emitConstant c) :
      ∃ is, Wrote libraries s ⟨s.emitter.emitValue c.value, s.imports⟩ is ∧
        ∀ T, CodeState.Within ⟨s.emitter.emitValue c.value, s.imports⟩ T → Pushes T c.value is := by
    obtain ⟨i, hw, hi⟩ := emitConstant hs c
    rw [hv]
    exact ⟨_, hw, fun T hT => .constant (getElem?_of_isPrefix hT.constants hi)⟩
  match v with
  | .void => exact ⟨[], refl hs, fun _ _ => .void⟩
  | .bool true => exact ⟨_, emit hs .pushTrue rfl, fun _ _ => .yes⟩
  | .bool false => exact ⟨_, emit hs .pushFalse rfl, fun _ _ => .no⟩
  | .int n => exact known (.int n) rfl
  | .long n => exact known (.long n) rfl
  | .double d => exact known (.double d) rfl
  | .string t => exact known (.string t) rfl

/-- Code that was cut out is laid down again. -/
theorem bytes (hs : s.Sound libraries) {is : Asm} {code : Code} (hcode : code.toList = is.bytes)
    (hfits : s.emitter.oversized = false → is.Fits) :
    Wrote libraries s ⟨s.emitter.bytes code, s.imports⟩ is := by
  obtain ⟨⟨code', pool, loops, big⟩, imports⟩ := s
  exact append hs _ (by simp [Emitter.bytes, hcode]) rfl rfl fun hb => ⟨hb, hfits hb⟩

/-! ## Surgery -/

theorem toList_shrink (a : Code) (n : Nat) : (a.shrink n).toList = a.toList.take n := by
  simp

theorem toList_take (a : Code) (n : Nat) : (a.take n).toList = a.toList.take n := by
  simp

theorem toList_drop (a : Code) (n : Nat) : (a.drop n).toList = a.toList.drop n := by
  simp [List.take_of_length_le]

/-- Code that was written is dropped again. -/
theorem truncate (hs : s.Sound libraries) (h : Wrote libraries s t is) :
    Wrote libraries s ⟨t.emitter.truncate s.emitter.offset, t.imports⟩ [] := by
  have hlabels := h.labels hs
  obtain ⟨⟨code, pool, loops, big⟩, imports⟩ := t
  have hkept : ∀ l ∈ loops,
      ({ l with
        continues := l.continues.filter (· < s.emitter.offset)
        breaks := l.breaks.filter (· < s.emitter.offset) } : Loop) = l := by
    intro l hl
    have hx := hlabels l hl
    have keep : ∀ xs : List Nat, (∀ x ∈ xs, x ∈ l.continues ++ l.breaks) →
        xs.filter (· < s.emitter.offset) = xs := by
      intro xs hxs
      rw [List.filter_eq_self]
      intro x hx'
      have := hx x (hxs x hx')
      exact decide_eq_true (by simp only [Emitter.offset]; omega)
    rw [keep l.continues (by simp +contextual), keep l.breaks (by simp +contextual)]
  have hloops : (loops.map fun l : Loop => { l with
      continues := l.continues.filter (· < s.emitter.offset)
      breaks := l.breaks.filter (· < s.emitter.offset) }) = loops := by
    rw [List.map_congr_left hkept, List.map_id']
  have hcode : (code.shrink s.emitter.offset).toList = s.emitter.code.toList := by
    rw [toList_shrink, h.code, Emitter.offset, ← Array.length_toList, List.take_left]
  refine ⟨by simpa [Emitter.truncate] using hcode, hloops.trans h.loops,
    ⟨h.grew.constants, h.grew.imports⟩, fun hb => ⟨(h.fits hb).1, by simp⟩,
    h.sound.pool, h.sound.imports, ?_⟩
  intro l hl x hx
  simp only [Emitter.truncate, hloops] at hl
  have hsize := congrArg List.length hcode
  simp only [Array.length_toList] at hsize
  simp only [Emitter.truncate, hsize]
  exact hlabels l hl x hx

/-- An instruction is inserted between two pieces of code that were written. -/
theorem insert (hs : s.Sound libraries) (h : Wrote libraries s t (is ++ js)) {stop : Nat}
    (hstop : stop = s.emitter.offset + is.size) {op : Opcode} (hop : op.operandCount = 0) :
    Wrote libraries s ⟨t.emitter.insert stop op, t.imports⟩ (is ++ .plain op :: js) := by
  have hlabels := h.labels hs
  obtain ⟨⟨code, pool, loops, big⟩, imports⟩ := t
  have hloops : (loops.map fun l : Loop => { l with
      continues := l.continues.map fun x => if stop ≤ x then x + 1 else x
      breaks := l.breaks.map fun x => if stop ≤ x then x + 1 else x }) = loops := by
    rw [List.map_congr_left (g := id), List.map_id]
    intro l hl
    have hx := hlabels l hl
    have keep : ∀ xs : List Nat, (∀ x ∈ xs, x ∈ l.continues ++ l.breaks) →
        (xs.map fun x => if stop ≤ x then x + 1 else x) = xs := by
      intro xs hxs
      rw [List.map_congr_left (g := id), List.map_id]
      intro x hx'
      have := hx x (hxs x hx')
      simp only [Emitter.offset] at hstop
      rw [if_neg (by omega), id]
    rw [keep l.continues (by simp +contextual), keep l.breaks (by simp +contextual), id]
  have hlen : (s.emitter.code.toList ++ is.bytes).length = stop := by
    simp [hstop, Emitter.offset]
  have hcode : (code.take stop ++ #[op.byte] ++ code.drop stop).toList =
      s.emitter.code.toList ++ (is ++ .plain op :: js).bytes := by
    have hc := h.code
    simp only [Asm.bytes_append, ← List.append_assoc] at hc
    rw [Array.toList_append, Array.toList_append, toList_take, toList_drop, hc,
      List.take_left' hlen, List.drop_left' hlen]
    simp [plain_bytes hop]
  refine ⟨hcode, hloops.trans h.loops, ⟨h.grew.constants, h.grew.imports⟩, ?_,
    h.sound.pool, h.sound.imports, ?_⟩
  · intro hb
    obtain ⟨hsb, hf⟩ := h.fits hb
    simp only [Asm.fits_append, Asm.fits_cons] at hf ⊢
    exact ⟨hsb, hf.1, plain_fits, hf.2⟩
  · intro l hl x hx
    simp only [Emitter.insert, hloops] at hl
    have hsize := congrArg List.length hcode
    have := hlabels l hl x hx
    simp only [Array.length_toList, List.length_append, Asm.length_bytes] at hsize
    simp only [Emitter.insert, Array.size_append] at hsize ⊢
    omega

/-- Code that was written is cut out. -/
theorem cut (hs : s.Sound libraries) (h : Wrote libraries s t is) :
    (t.emitter.cut s.emitter.offset).1.toList = is.bytes ∧
      ((t.emitter.cut s.emitter.offset).2.oversized = false → is.Fits) ∧
      Wrote libraries s ⟨(t.emitter.cut s.emitter.offset).2, t.imports⟩ [] := by
  have hlabels := h.labels hs
  obtain ⟨⟨code, pool, loops, big⟩, imports⟩ := t
  have hcode : (code.shrink s.emitter.offset).toList = s.emitter.code.toList := by
    rw [toList_shrink, h.code, Emitter.offset, ← Array.length_toList, List.take_left]
  refine ⟨?_, fun hb => (h.fits hb).2, by simpa [Emitter.cut] using hcode, h.loops,
    ⟨h.grew.constants, h.grew.imports⟩, fun hb => ⟨(h.fits hb).1, by simp⟩, h.sound.pool, h.sound.imports, ?_⟩
  · rw [Emitter.cut, toList_drop, h.code, Emitter.offset, ← Array.length_toList,
      List.drop_left]
  · intro l hl x hx
    have hsize := congrArg List.length hcode
    simp only [Array.length_toList] at hsize
    simp only [Emitter.cut, hsize]
    exact hlabels l hl x hx

/-! ## Jumps -/

/-- A jump whose distance is still open, as it stands in the code. -/
def openJump (op : Opcode) : Instruction := .unary op Emitter.maxOperand

@[simp] theorem width_openJump (op : Opcode) : (openJump op).width = op.width := rfl

theorem emitJump (hs : s.Sound libraries) (op : Opcode) (h : op.operandCount = 1) :
    Wrote libraries s ⟨(s.emitter.emitJump op).2, s.imports⟩ [openJump op] ∧
      (s.emitter.emitJump op).1 = s.emitter.offset + 1 := by
  obtain ⟨⟨code, pool, loops, big⟩, imports⟩ := s
  refine ⟨append hs _ ?_ rfl rfl fun hb => ⟨hb, ?_⟩, ?_⟩
  · simp only [Emitter.emitJump, Emitter.emit, Emitter.byte, Array.toList_push, openJump,
      Asm.bytes_cons, unary_bytes h, Asm.bytes_nil]
    simp only [List.append_assoc, List.append_nil]
    rfl
  · simp [openJump, unary_fits h]
  · simp [Emitter.emitJump, Emitter.emit, Emitter.byte, Emitter.offset]

theorem set_at {as bs : List UInt8} {x y x' y' : UInt8} {code : Code} {n : Nat}
    (h : code.toList = as ++ (x :: y :: bs)) (hn : n = as.length) :
    ((code.setIfInBounds n x').setIfInBounds (n + 1) y').toList = as ++ (x' :: y' :: bs) := by
  subst hn
  simp [h]

theorem oversized_of_land {e : Emitter} {label : Nat} (h : (e.land label).oversized = false) :
    e.oversized = false := by
  simp only [Emitter.land, Emitter.overwrite, Bool.or_eq_false_iff] at h
  exact h.1

/-- A jump that is landed leads to the end of the code. -/
theorem land_code {e : Emitter} {before after : List UInt8} {op : Opcode}
    (hop : op.operandCount = 1)
    (h : e.code.toList = before ++ ((openJump op).bytes ++ after)) {label : Nat}
    (hlabel : label = before.length + 1) :
    (e.land label).code.toList = before ++ ((Instruction.unary op after.length).bytes ++ after) ∧
      (e.land label).oversized = (e.oversized || decide (Emitter.maxOperand < after.length)) := by
  obtain ⟨code, pool, loops, big⟩ := e
  have hlength := congrArg List.length h
  have hdist : (⟨code, pool, loops, big⟩ : Emitter).offset - label - 2 = after.length := by
    simp only [Array.length_toList, List.length_append, openJump, unary_bytes hop,
      List.length_cons, Code.length_spelled] at hlength
    simp only [Emitter.offset]
    omega
  have hcode : code.toList = (before ++ [op.byte]) ++ (Code.spelled Emitter.maxOperand ++ after) := by
    simpa [openJump, unary_bytes hop] using h
  constructor
  · simp only [Emitter.land, hdist, Emitter.overwrite]
    rw [set_at hcode (by simp [hlabel])]
    simp [unary_bytes hop, Code.spelled, operandBytes]
  · simp only [Emitter.land, hdist, Emitter.overwrite]

theorem land_size (e : Emitter) (label : Nat) : (e.land label).code.size = e.code.size := by
  simp [Emitter.land, Emitter.overwrite]

/-- An open jump that was written leads to the end of the code. -/
theorem land {op : Opcode} (hop : op.operandCount = 1)
    (h : Wrote libraries s t (is ++ openJump op :: js)) {label : Nat}
    (hlabel : label = s.emitter.offset + is.size + 1) :
    Wrote libraries s ⟨t.emitter.land label, t.imports⟩ (is ++ .unary op js.size :: js) := by
  have hwritten : t.emitter.code.toList = (s.emitter.code.toList ++ is.bytes) ++
      ((openJump op).bytes ++ js.bytes) := by simpa using h.code
  have hplace : label = (s.emitter.code.toList ++ is.bytes).length + 1 := by
    simp [hlabel, Emitter.offset]
  obtain ⟨hcode, hbig⟩ := land_code hop hwritten hplace
  refine ⟨by simpa using hcode, h.loops, ⟨h.grew.constants, h.grew.imports⟩, ?_, h.sound.pool,
    h.sound.imports, ?_⟩
  · intro hb
    rw [hbig, Bool.or_eq_false_iff] at hb
    obtain ⟨hsb, hf⟩ := h.fits hb.1
    simp only [Asm.fits_append, Asm.fits_cons] at hf ⊢
    refine ⟨hsb, hf.1, unary_fits hop ?_, hf.2.2⟩
    simpa using hb.2
  · intro l hl x hx
    rw [land_size]
    exact h.sound.labels l hl x hx

end Wrote
end ClassScript
