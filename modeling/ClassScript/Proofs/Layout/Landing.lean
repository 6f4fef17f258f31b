import ClassScript.Proofs.Emission
import ClassScript.Proofs.Layout.Statement

/-!
Jumps out of loops wait for their distances.

`Put libraries s t F x` tells that from `s` to `t` the pieces `F` were added to the code, and that
the innermost loop knows where their open jumps stand. Where a loop ends its jumps are landed, which
makes instructions of them all, and the loops around it are as they were.
-/

namespace ClassScript.Layout

open Code (Instruction)
open Fragment

/-! ## Pieces as they wait -/

/-- A piece as it stands at an offset of the code inside a loop with this start, if it has one. -/
def Piece.written (target : Option Nat) (o : Nat) : Piece → Instruction
  | .op i => i
  | .leave => Wrote.openJump .jump
  | .again =>
    match target with
    | none => Wrote.openJump .jump
    | some start => .unary .loop (o + 3 - start)

@[simp] theorem Piece.width_written (target : Option Nat) (o : Nat) (x : Piece) :
    (x.written target o).width = x.width := by
  cases x with
  | op i => rfl
  | leave => rfl
  | again => cases target <;> rfl

def Piece.isLeave : Piece → Bool
  | .leave => true
  | _ => false

def Piece.isAgain : Piece → Bool
  | .again => true
  | _ => false

namespace Fragment

def OneWay (F : Fragment) : Prop := ∀ z ∈ F, z.isAgain = false

@[simp] theorem oneWay_nil : OneWay [] := by simp [OneWay]

@[simp] theorem oneWay_cons (x : Piece) (F : Fragment) :
    OneWay (x :: F) ↔ x.isAgain = false ∧ OneWay F := by
  simp [OneWay]

@[simp] theorem oneWay_append (F G : Fragment) : OneWay (F ++ G) ↔ OneWay F ∧ OneWay G := by
  simp [OneWay, or_imp, forall_and]

@[simp] theorem oneWay_ops (is : Asm) : OneWay (ops is) := by simp [OneWay, ops, Piece.isAgain]

@[simp] theorem isAgain_op (i : Instruction) : Piece.isAgain (.op i) = false := rfl

def written (target : Option Nat) : Nat → Fragment → Asm
  | _, [] => []
  | o, x :: F => x.written target o :: written target (o + x.width) F

@[simp] theorem size_written (target : Option Nat) (o : Nat) (F : Fragment) :
    (written target o F).size = size F := by
  induction F generalizing o with
  | nil => rfl
  | cons x F ih => simp [written, ih]

theorem written_append (target : Option Nat) (o : Nat) (F G : Fragment) :
    written target o (F ++ G) = written target o F ++ written target (o + size F) G := by
  induction F generalizing o with
  | nil => rfl
  | cons x F ih => simp [written, ih, Nat.add_assoc]

@[simp] theorem written_ops (target : Option Nat) (o : Nat) (is : Asm) :
    written target o (ops is) = is := by
  induction is generalizing o with
  | nil => rfl
  | cons i is ih => simp [written, ih, Piece.written]

def labels (kind : Piece → Bool) : Nat → Fragment → List Nat
  | _, [] => []
  | o, x :: F => (if kind x then [o + 1] else []) ++ labels kind (o + x.width) F

theorem labels_append (kind : Piece → Bool) (o : Nat) (F G : Fragment) :
    labels kind o (F ++ G) = labels kind o F ++ labels kind (o + size F) G := by
  induction F generalizing o with
  | nil => rfl
  | cons x F ih => simp [labels, ih, Nat.add_assoc]

theorem labels_bound {kind : Piece → Bool} (hkind : ∀ i, kind (.op i) = false) {o : Nat}
    {F : Fragment} : ∀ l ∈ labels kind o F, o < l ∧ l + 2 ≤ o + size F := by
  induction F generalizing o with
  | nil => simp [labels]
  | cons x F ih =>
    intro l hl
    simp only [labels, List.mem_append] at hl
    rcases hl with hl | hl
    · split at hl
      · next hx =>
        have : x.width = 3 := by
          cases x with
          | op i => simp [hkind] at hx
          | leave | again => rfl
        simp only [List.mem_singleton] at hl
        simp only [size_cons]
        omega
      · simp at hl
    · have := ih l hl
      simp only [size_cons]
      omega

/-- The pieces of one kind have become jumps to the end. -/
def settled (kind : Piece → Bool) : Fragment → Fragment
  | [] => []
  | x :: F => (if kind x then .op (.unary .jump (size F)) else x) :: settled kind F

theorem forward_eq (F : Fragment) : forward F = settled Piece.isAgain F := by
  induction F with
  | nil => rfl
  | cons x F ih => cases x <;> simp [forward, settled, ih, Piece.isAgain]

theorem closed_eq (start o : Nat) (F : Fragment) :
    closed o F = written (some start) (start + o) (settled Piece.isLeave F) := by
  induction F generalizing o with
  | nil => rfl
  | cons x F ih =>
    cases x with
    | op i => simp [closed, settled, written, Piece.isLeave, Piece.written, ih, Piece.width,
        Nat.add_assoc]
    | leave => simp [closed, settled, written, Piece.isLeave, Piece.written, ih, Piece.width,
        Nat.add_assoc, Instruction.unary, Instruction.width, Opcode.width, Opcode.operandCount]
    | again =>
      simp [closed, settled, written, Piece.isLeave, Piece.written, ih, Piece.width, Nat.add_assoc]

end Fragment

/-- Landing all open jumps of one kind settles them. -/
theorem land_all (kind : Piece → Bool) (target : Option Nat)
    (hkind : ∀ x o, kind x = true → x.written target o = Wrote.openJump .jump)
    (F : Fragment) (e : Emitter) (before : List UInt8)
    (h : e.code.toList = before ++ (written target before.length F).bytes) :
    let r := (labels kind before.length F).foldl Emitter.land e
    r.code.toList = before ++ (written target before.length (settled kind F)).bytes ∧
      r.pool = e.pool ∧ r.loops = e.loops ∧
      (r.oversized = false → e.oversized = false ∧ ((written target before.length F).Fits →
        (written target before.length (settled kind F)).Fits)) := by
  induction F generalizing e before with
  | nil => exact ⟨h, rfl, rfl, fun hb => ⟨hb, id⟩⟩
  | cons x F ih =>
    by_cases hx : kind x = true
    · have hw := hkind x before.length hx
      have hwidth : x.width = 3 := by
        have := Piece.width_written target before.length x
        rw [hw] at this
        exact this.symm
      simp only [written, hw, Asm.bytes_cons] at h
      obtain ⟨hcode, hbig⟩ := Wrote.land_code rfl h rfl
      have hjump : ((Instruction.unary .jump (size F)).bytes).length = 3 := rfl
      obtain ⟨hc, hp, hl, hf⟩ := ih (e.land (before.length + 1))
        (before ++ (Instruction.unary .jump (size F)).bytes)
        (by simpa [hwidth, hjump] using hcode)
      simp only [List.length_append, hjump] at hc hp hl hf
      have hfold : (labels kind before.length (x :: F)).foldl Emitter.land e =
          (labels kind (before.length + 3) F).foldl Emitter.land (e.land (before.length + 1)) := by
        simp [labels, hx, hwidth]
      rw [hfold]
      refine ⟨?_, hp, hl, fun hb => ?_⟩
      · rw [hc]
        simp [settled, hx, written, Piece.written, Piece.width, Instruction.unary,
          Instruction.width, Opcode.width, Opcode.operandCount]
      · obtain ⟨hb', hfits⟩ := hf hb
        rw [hbig, Bool.or_eq_false_iff] at hb'
        refine ⟨hb'.1, fun hF => ?_⟩
        simp only [written, Asm.fits_cons, hwidth] at hF
        have hsmall : size F ≤ Emitter.maxOperand := by simpa using hb'.2
        have := hfits hF.2
        simp only [settled, hx, written, Piece.written, Asm.fits_cons]
        exact ⟨Wrote.unary_fits rfl hsmall, this⟩
    · simp only [written, Asm.bytes_cons] at h
      have hlen : (x.written target before.length).bytes.length = x.width := by simp
      obtain ⟨hc, hp, hl, hf⟩ := ih e (before ++ (x.written target before.length).bytes)
        (by simpa [hlen] using h)
      simp only [List.length_append, hlen] at hc hp hl hf
      have hfold : (labels kind before.length (x :: F)).foldl Emitter.land e =
          (labels kind (before.length + x.width) F).foldl Emitter.land e := by
        simp [labels, hx]
      rw [hfold]
      refine ⟨?_, hp, hl, fun hb => ?_⟩
      · rw [hc]
        simp [settled, hx, written]
      · obtain ⟨hb', hfits⟩ := hf hb
        refine ⟨hb', fun hF => ?_⟩
        simp only [written, Asm.fits_cons] at hF
        simp only [settled, hx, written, Bool.false_eq_true, ↓reduceIte, Asm.fits_cons]
        exact ⟨hF.1, hfits hF.2⟩

/-! ## Pieces in the code -/

/-- The innermost loop with the labels of pieces that were added at an offset. -/
def Loop.marked (o : Nat) (F : Fragment) (x : Exits) (l : Loop) : Loop :=
  ⟨l.target, l.continues ++ (if l.target = none then labels Piece.isAgain o F else []),
    l.breaks ++ labels Piece.isLeave o F, l.hasBreak || x.breaks, l.hasContinue || x.continues⟩

def marked (o : Nat) (F : Fragment) (x : Exits) : List Loop → List Loop
  | [] => []
  | l :: ls => Loop.marked o F x l :: ls

/-- Where the innermost loop begins, if its jumps to the next round lead back. -/
def target (s : CodeState) : Option Nat := s.emitter.loops.head?.bind (·.target)

/-- From `s` to `t` these pieces were added to the code. -/
structure Put (libraries : List Library) (s t : CodeState) (F : Fragment) (x : Exits) : Prop where
  code : t.emitter.code.toList =
    s.emitter.code.toList ++ (written (target s) s.emitter.offset F).bytes
  loops : t.emitter.loops = marked s.emitter.offset F x s.emitter.loops
  /-- Outside of loops there are no jumps out of loops. -/
  inside : s.emitter.loops = [] → ∃ is, F = ops is
  grew : s.Grew t
  fits : t.emitter.oversized = false →
    s.emitter.oversized = false ∧ (written (target s) s.emitter.offset F).Fits
  sound : t.Sound libraries

theorem labels_ops {kind : Piece → Bool} (hkind : ∀ i, kind (.op i) = false) (o : Nat) (is : Asm) :
    labels kind o (ops is) = [] := by
  induction is generalizing o with
  | nil => rfl
  | cons i is ih => simp [labels, hkind, ih]

theorem isLeave_op (i : Instruction) : Piece.isLeave (.op i) = false := rfl

theorem marked_ops (o : Nat) (is : Asm) (ends : Bool) (ls : List Loop) :
    marked o (ops is) (.plain ends) ls = ls := by
  cases ls with
  | nil => rfl
  | cons l ls =>
    simp [marked, Loop.marked, labels_ops isLeave_op, labels_ops isAgain_op, Exits.plain]

theorem marked_append (o : Nat) (F G : Fragment) (x y : Exits) (ends : Bool) (ls : List Loop) :
    marked (o + size F) G y (marked o F x ls) = marked o (F ++ G) (x.both y ends) ls := by
  cases ls with
  | nil => rfl
  | cons l ls =>
    simp only [marked, Loop.marked, labels_append, Exits.both, List.append_assoc, Bool.or_assoc]
    split <;> simp

theorem target_marked {s t : CodeState} {o : Nat} {F : Fragment} {x : Exits}
    (h : t.emitter.loops = marked o F x s.emitter.loops) : target t = target s := by
  unfold target
  rw [h]
  cases s.emitter.loops <;> rfl

namespace Put

variable {libraries : List Library} {s t u : CodeState} {F G : Fragment} {x y : Exits}

theorem of_wrote {is : Asm} (ends : Bool) (h : Wrote libraries s t is) :
    Put libraries s t (ops is) (.plain ends) :=
  ⟨by simpa using h.code, by rw [marked_ops, h.loops], fun _ => ⟨is, rfl⟩, h.grew,
    by simpa using h.fits, h.sound⟩

/-- Outside of loops the pieces are instructions. -/
theorem wrote (hloops : s.emitter.loops = []) (h : Put libraries s t F x) :
    ∃ is, F = ops is ∧ Wrote libraries s t is := by
  obtain ⟨is, rfl⟩ := h.inside hloops
  refine ⟨is, rfl, by simpa using h.code, ?_, h.grew, by simpa using h.fits, h.sound⟩
  rw [h.loops, hloops]
  rfl

theorem offset (h : Put libraries s t F x) : t.emitter.offset = s.emitter.offset + size F := by
  have := congrArg List.length h.code
  simpa [Emitter.offset] using this

theorem target (h : Put libraries s t F x) : Layout.target t = Layout.target s :=
  target_marked h.loops

theorem inside_iff (h : Put libraries s t F x) : t.emitter.loops = [] ↔ s.emitter.loops = [] := by
  rw [h.loops]
  cases s.emitter.loops <;> simp [marked]

theorem trans (ends : Bool) (h : Put libraries s t F x) (h' : Put libraries t u G y) :
    Put libraries s u (F ++ G) (x.both y ends) where
  code := by
    rw [h'.code, h.code, h.target, h.offset, written_append]
    simp
  loops := by rw [h'.loops, h.loops, h.offset, marked_append]
  inside hs := by
    obtain ⟨is, rfl⟩ := h.inside hs
    obtain ⟨js, rfl⟩ := h'.inside (h.inside_iff.mpr hs)
    exact ⟨is ++ js, by simp⟩
  grew := h.grew.trans h'.grew
  fits hu := by
    obtain ⟨ht, hG⟩ := h'.fits hu
    obtain ⟨hs, hF⟩ := h.fits ht
    rw [h.target, h.offset] at hG
    refine ⟨hs, ?_⟩
    rw [written_append]
    exact (Asm.fits_append _ _).mpr ⟨hF, hG⟩
  sound := h'.sound

/-- What is known of the ends does not matter. -/
theorem ends (ends : Bool) (h : Put libraries s t F x) :
    Put libraries s t F ⟨ends, x.breaks, x.continues⟩ :=
  ⟨h.code, by rw [h.loops]; cases s.emitter.loops <;> rfl, h.inside, h.grew, h.fits, h.sound⟩

theorem ops_left {is : Asm} (h : Wrote libraries s t is) (h' : Put libraries t u G y) :
    Put libraries s u (ops is ++ G) y := by
  simpa [Exits.both, Exits.plain] using (of_wrote false h).trans y.ends h'

theorem ops_right {is : Asm} (h : Put libraries s t F x) (h' : Wrote libraries t u is) :
    Put libraries s u (F ++ ops is) x := by
  simpa [Exits.both, Exits.plain] using h.trans x.ends (of_wrote false h')

/-- An open jump that was put leads to the end of the code. -/
theorem land (F G : Fragment) (op : Opcode) (hop : op.operandCount = 1)
    (h : Put libraries s t (F ++ .op (Wrote.openJump op) :: G) x) (label : Nat)
    (hlabel : label = s.emitter.offset + size F + 1) :
    Put libraries s ⟨t.emitter.land label, t.imports⟩ (F ++ .op (.unary op (size G)) :: G) x := by
  have hcode := h.code
  simp only [written_append, written, Piece.written, Piece.width] at hcode
  have hbytes : t.emitter.code.toList =
      (s.emitter.code.toList ++ (written (Layout.target s) s.emitter.offset F).bytes) ++
        ((Wrote.openJump op).bytes ++ (written (Layout.target s)
          (s.emitter.offset + size F + (Wrote.openJump op).width) G).bytes) := by
    simpa using hcode
  have hplace : label = (s.emitter.code.toList ++
      (written (Layout.target s) s.emitter.offset F).bytes).length + 1 := by
    simp [hlabel, Emitter.offset]
  obtain ⟨hland, hbig⟩ := Wrote.land_code hop hbytes hplace
  have hwidth (n : Nat) : (Instruction.unary op n).width = (Wrote.openJump op).width := rfl
  refine ⟨?_, ?_, ?_, ⟨h.grew.constants, h.grew.imports⟩, ?_, h.sound.pool, h.sound.imports, ?_⟩
  · simpa [written_append, written, Piece.written, Piece.width, hwidth] using hland
  · change t.emitter.loops = _
    rw [h.loops]
    cases s.emitter.loops with
    | nil => rfl
    | cons l ls => simp [marked, Loop.marked, labels_append, labels, Piece.isLeave, Piece.isAgain,
        Piece.width, hwidth]
  · intro hs
    obtain ⟨is, his⟩ := h.inside hs
    obtain ⟨js, ks, rfl, rfl, hks⟩ := List.map_eq_append_iff.mp his.symm
    obtain ⟨k, ks, rfl, -, rfl⟩ := List.map_eq_cons_iff.mp hks
    exact ⟨js ++ .unary op (size (ops ks)) :: ks, by simp [ops]⟩
  · intro hb
    rw [hbig, Bool.or_eq_false_iff] at hb
    obtain ⟨hsb, hf⟩ := h.fits hb.1
    simp only [written_append, written, Piece.written, Asm.fits_append, Asm.fits_cons, Piece.width,
      hwidth] at hf ⊢
    refine ⟨hsb, hf.1, Wrote.unary_fits hop ?_, hf.2.2⟩
    simpa using hb.2
  · intro l hl z hz
    rw [Wrote.land_size]
    exact h.sound.labels l hl z hz

/-- Pieces that were put are dropped again. -/
theorem drop (hs : s.Sound libraries) (h : Put libraries s t F (.plain false)) :
    Put libraries s ⟨t.emitter.truncate s.emitter.offset, t.imports⟩ [] (.plain false) := by
  have hcode : (t.emitter.truncate s.emitter.offset).code.toList = s.emitter.code.toList := by
    change (t.emitter.code.shrink s.emitter.offset).toList = _
    rw [Wrote.toList_shrink, h.code, Emitter.offset, ← Array.length_toList, List.take_left]
  have hloops : (t.emitter.truncate s.emitter.offset).loops = s.emitter.loops := by
    change t.emitter.loops.map _ = _
    rw [h.loops]
    have kept {l : Loop} (hl : l ∈ s.emitter.loops) :
        l.continues.filter (· < s.emitter.offset) = l.continues ∧
          l.breaks.filter (· < s.emitter.offset) = l.breaks := by
      constructor <;>
      · rw [List.filter_eq_self]
        intro z hz
        have := hs.labels l hl z (by simp [hz])
        exact decide_eq_true (by simp only [Emitter.offset]; omega)
    have new {kind : Piece → Bool} (hkind : ∀ i, kind (.op i) = false) :
        (labels kind s.emitter.offset F).filter (· < s.emitter.offset) = [] := by
      rw [List.filter_eq_nil_iff]
      intro z hz
      have := (labels_bound hkind z hz).1
      simp only [decide_eq_true_eq]
      omega
    cases hls : s.emitter.loops with
    | nil => rfl
    | cons l ls =>
      rw [hls] at kept
      simp only [marked, Loop.marked, List.map_cons, List.filter_append, Exits.plain, Bool.or_false]
      congr 1
      · obtain ⟨hc, hb⟩ := kept (l := l) (by simp)
        rw [hc, hb, new isLeave_op]
        split
        · rw [new isAgain_op]
          simp
        · simp
      · rw [List.map_congr_left (g := id), List.map_id]
        intro l' hl'
        obtain ⟨hc, hb⟩ := kept (l := l') (by simp [hl'])
        rw [hc, hb]
        rfl
  refine ⟨by simpa [written] using hcode, by rw [hloops]; exact (marked_ops _ [] _ _).symm,
    fun _ => ⟨[], rfl⟩, ⟨h.grew.constants, h.grew.imports⟩, fun hb => ⟨(h.fits hb).1, by simp [written]⟩,
    h.sound.pool, h.sound.imports, ?_⟩
  intro l hl z hz
  rw [hloops] at hl
  have hsize := congrArg List.length hcode
  simp only [Array.length_toList] at hsize
  rw [hsize]
  exact hs.labels l hl z hz

/-! ## Loops -/

/-- A jump that was written inside a loop, which knows of it. -/
theorem of_jump {e : Emitter} {imports : ImportTable} {z : Piece} (hs : s.Sound libraries)
    (hw : Wrote libraries s t [z.written (Layout.target s) s.emitter.offset])
    (hne : s.emitter.loops ≠ []) (hcode : e.code = t.emitter.code) (hpool : e.pool = t.emitter.pool)
    (hbig : e.oversized = t.emitter.oversized) (himports : imports = t.imports)
    (hloops : e.loops = marked s.emitter.offset [z] x s.emitter.loops) :
    Put libraries s ⟨e, imports⟩ [z] x := by
  subst himports
  have hsize : e.code.size = s.emitter.code.size + z.width := by
    have := congrArg List.length hw.code
    simpa [hcode] using this
  refine ⟨by simpa [written, hcode] using hw.code, hloops, fun h => (hne h).elim,
    ⟨by simpa [hpool] using hw.grew.constants, hw.grew.imports⟩, ?_, by simpa [hpool] using hw.sound.pool,
    hw.sound.imports, ?_⟩
  · intro hb
    rw [hbig] at hb
    simpa [written] using hw.fits hb
  · intro l hl y hy
    simp only [hloops, hsize] at hl ⊢
    cases hls : s.emitter.loops with
    | nil => exact (hne hls).elim
    | cons l' ls =>
      have hold := hs.labels
      rw [hls] at hold hl
      rcases List.mem_cons.mp hl with rfl | hl
      · have new {kind : Piece → Bool} (hkind : ∀ i, kind (.op i) = false)
            (hy : y ∈ labels kind s.emitter.offset [z]) : y + 2 ≤ s.emitter.code.size + z.width := by
          simpa [Emitter.offset] using (labels_bound hkind y hy).2
        simp only [Loop.marked, List.mem_append] at hy
        rcases hy with (hy | hy) | hy | hy
        · have := hold l' (by simp) y (by simp [hy])
          omega
        · split at hy
          · exact new isAgain_op hy
          · simp at hy
        · have := hold l' (by simp) y (by simp [hy])
          omega
        · exact new isLeave_op hy
      · have := hold l (by simp [hl]) y hy
        omega

/-- A jump out of a loop. -/
theorem leave (hs : s.Sound libraries) (reachable : Bool)
    (h : (s.emitter.emitBreak reachable).1 = true) :
    Put libraries s ⟨(s.emitter.emitBreak reachable).2, s.imports⟩ [.leave]
      ⟨false, reachable, false⟩ := by
  obtain ⟨hw, -⟩ := Wrote.emitJump hs .jump rfl
  obtain ⟨⟨code, pool, loops, big⟩, imports⟩ := s
  cases loops with
  | nil => simp [Emitter.emitBreak] at h
  | cons l ls =>
    refine of_jump (e := (Emitter.emitBreak ⟨code, pool, l :: ls, big⟩ reachable).2) hs hw
      (by simp) rfl rfl rfl rfl ?_
    simp [Emitter.emitBreak, Emitter.emitJump, Emitter.emit, Emitter.byte, Emitter.inLoop, marked,
      Loop.marked, labels, Piece.isLeave, Piece.isAgain, Emitter.offset]

/-- A jump to the next round of a loop. -/
theorem again (hs : s.Sound libraries) (reachable : Bool)
    (h : (s.emitter.emitContinue reachable).1 = true) :
    Put libraries s ⟨(s.emitter.emitContinue reachable).2, s.imports⟩ [.again]
      ⟨false, false, reachable⟩ := by
  obtain ⟨⟨code, pool, loops, big⟩, imports⟩ := s
  cases loops with
  | nil => simp [Emitter.emitContinue] at h
  | cons l ls =>
    obtain ⟨target, continues, breaks, hasBreak, hasContinue⟩ := l
    cases target with
    | none =>
      obtain ⟨hw, -⟩ := Wrote.emitJump hs .jump rfl
      refine of_jump (e := (Emitter.emitContinue _ reachable).2) hs hw (by simp) rfl rfl rfl rfl ?_
      simp [Emitter.emitContinue, Emitter.emitJump, Emitter.emit, Emitter.byte, Emitter.inLoop,
        marked, Loop.marked, labels, Piece.isLeave, Piece.isAgain, Emitter.offset]
    | some start =>
      have hw := Wrote.emitWith hs .loop rfl (code.size + 3 - start)
      refine of_jump (e := (Emitter.emitContinue _ reachable).2) hs hw (by simp) ?_ rfl ?_ rfl ?_
      all_goals
        simp [Emitter.emitContinue, Emitter.emitLoop, Emitter.emitWith, Emitter.emit, Emitter.byte,
          Emitter.inLoop, Emitter.operand, marked, Loop.marked, labels, Piece.isLeave,
          Emitter.offset]

end Put

def enter (start : Option Nat) (s : CodeState) : CodeState := ⟨s.emitter.enterLoop start, s.imports⟩

section

variable {libraries : List Library} {s t : CodeState} {F : Fragment} {x : Exits}
  {start : Option Nat}

@[simp] theorem enter_loops : (enter start s).emitter.loops = .start start :: s.emitter.loops := rfl

@[simp] theorem enter_offset : (enter start s).emitter.offset = s.emitter.offset := rfl

@[simp] theorem enter_code : (enter start s).emitter.code = s.emitter.code := rfl

@[simp] theorem target_enter : target (enter start s) = start := rfl

theorem enter_sound (hs : s.Sound libraries) : (enter start s).Sound libraries := by
  refine ⟨hs.pool, hs.imports, ?_⟩
  intro l hl z hz
  rcases List.mem_cons.mp hl with rfl | hl
  · simp [ClassScript.Loop.start] at hz
  · exact hs.labels l hl z hz

/-- Code without jumps out of it can be written before the loop is begun. -/
theorem enter_wrote (start : Option Nat) {is : Asm} (h : Wrote libraries s t is) :
    Wrote libraries (enter start s) (enter start t) is :=
  ⟨h.code, by rw [enter_loops, enter_loops, h.loops], ⟨h.grew.constants, h.grew.imports⟩, h.fits,
    enter_sound h.sound⟩

theorem written_of_oneWay {o : Nat} (start' : Option Nat) (h : OneWay F) :
    written start o (settled Piece.isLeave F) = written start' o (settled Piece.isLeave F) := by
  induction F generalizing o with
  | nil => rfl
  | cons z F ih =>
    simp only [oneWay_cons] at h
    have := ih (o := o + z.width) h.2
    cases z with
    | op i => simpa [settled, written, Piece.isLeave, Piece.written] using this
    | leave =>
      have hwidth (n : Nat) : (Piece.op (.unary .jump n)).width = Piece.leave.width := rfl
      simpa [settled, written, Piece.isLeave, Piece.written, hwidth] using this
    | again => simp [Piece.isAgain] at h

theorem oneWay_forward : OneWay (forward F) := by
  induction F with
  | nil => simp [forward]
  | cons z F ih => cases z <;> simp [forward, ih, Piece.isAgain]

theorem leaves_forward (o : Nat) : labels Piece.isLeave o (forward F) = labels Piece.isLeave o F := by
  induction F generalizing o with
  | nil => rfl
  | cons z F ih =>
    cases z with
    | again =>
      simp [forward, labels, ih, Piece.isLeave, Piece.width, Instruction.unary, Instruction.width,
        Opcode.width, Opcode.operandCount]
    | op | leave => simp [forward, labels, ih]

theorem agains_forward (o : Nat) : labels Piece.isAgain o (forward F) = [] := by
  have none (G : Fragment) (hG : OneWay G) : labels Piece.isAgain o G = [] := by
    induction G generalizing o with
    | nil => rfl
    | cons z G ih =>
      simp only [oneWay_cons] at hG
      simp [labels, hG.1, ih _ hG.2]
  exact none _ oneWay_forward

theorem pool_landContinues (e : Emitter) : e.landContinues.pool = e.pool := by
  have folded (ls : List Nat) (e : Emitter) : (ls.foldl Emitter.land e).pool = e.pool := by
    induction ls generalizing e with
    | nil => rfl
    | cons l ls ih => exact ih (e.land l)
  obtain ⟨code, pool, loops, big⟩ := e
  cases loops with
  | nil => rfl
  | cons l ls => exact folded _ _

/-- Where the next round begins with a condition, jumps to it lead there. -/
theorem Put.landContinues (h : Put libraries (enter none s) t F x) :
    Put libraries (enter none s) ⟨t.emitter.landContinues, t.imports⟩ (forward F) x := by
  have hcode := h.code
  have hloops := h.loops
  have hfits := h.fits
  have hlabels := h.sound.labels
  obtain ⟨⟨code, pool, loops, big⟩, imports⟩ := t
  simp only [enter_loops, marked, target_enter, enter_offset, enter_code] at hcode hloops hfits
  subst hloops
  have hlen : s.emitter.offset = (s.emitter.code.toList).length := by simp [Emitter.offset]
  obtain ⟨hc, hp, hl, hf⟩ := land_all Piece.isAgain none
    (by intro z o hz; cases z <;> simp_all [Piece.isAgain, Piece.written]) F
    ⟨code, pool, { Loop.marked s.emitter.offset F x (.start none) with continues := [] } ::
      s.emitter.loops, big⟩ s.emitter.code.toList (by rw [← hlen]; exact hcode)
  rw [← hlen] at hc hp hl hf
  have hland : (⟨code, pool, Loop.marked s.emitter.offset F x (.start none) :: s.emitter.loops,
      big⟩ : Emitter).landContinues = (labels Piece.isAgain s.emitter.offset F).foldl Emitter.land
        ⟨code, pool, { Loop.marked s.emitter.offset F x (.start none) with continues := [] } ::
          s.emitter.loops, big⟩ := by
    simp [Emitter.landContinues, Loop.marked, ClassScript.Loop.start]
  rw [← forward_eq] at hc hf
  have hsize : (Emitter.landContinues ⟨code, pool,
      Loop.marked s.emitter.offset F x (.start none) :: s.emitter.loops, big⟩).code.size =
        code.size := by
    have h₁ := congrArg List.length hc
    have h₂ := congrArg List.length hcode
    simp only [Array.length_toList, List.length_append, Asm.length_bytes, size_written,
      size_forward] at h₁ h₂
    change code.size = s.emitter.code.size + _ at h₂
    rw [hland, h₁, h₂]
  refine ⟨?_, ?_, by simp, ⟨?_, h.grew.imports⟩, ?_, ?_, h.sound.imports, ?_⟩
  · rw [hland]
    exact hc
  · rw [hland, hl]
    change _ = Loop.marked s.emitter.offset (forward F) x (.start none) :: s.emitter.loops
    simp [Loop.marked, leaves_forward, agains_forward, ClassScript.Loop.start]
  · rw [hland, hp]
    exact h.grew.constants
  · intro hb
    rw [hland] at hb
    obtain ⟨hb', hfits'⟩ := hf hb
    obtain ⟨hsb, hF⟩ := hfits hb'
    exact ⟨hsb, hfits' hF⟩
  · rw [hland, hp]
    exact h.sound.pool
  · intro l hl' z hz
    rw [hsize]
    rw [hland, hl] at hl'
    rcases List.mem_cons.mp hl' with rfl | hl'
    · refine hlabels (Loop.marked s.emitter.offset F x (.start none)) (by simp) z ?_
      simp only [List.nil_append] at hz
      exact List.mem_append_right _ hz
    · exact hlabels l (by simp [hl']) z hz

/-- At the end of a loop all its jumps are instructions. -/
theorem Put.close (hs : s.Sound libraries) (h : Put libraries (enter start s) t F x)
    (hstart : start = some s.emitter.offset ∨ OneWay F) :
    Wrote libraries s ⟨t.emitter.exitLoop.2, t.imports⟩ (closed 0 F) ∧
      t.emitter.exitLoop.1.hasBreak = x.breaks ∧ t.emitter.exitLoop.1.hasContinue = x.continues ∧
      t.emitter.exitLoop.2.pool = t.emitter.pool := by
  have hcode := h.code
  have hloops := h.loops
  have hfits := h.fits
  obtain ⟨⟨code, pool, loops, big⟩, imports⟩ := t
  simp only [enter_loops, marked, target_enter, enter_offset, enter_code] at hcode hloops hfits
  subst hloops
  have hlen : s.emitter.offset = (s.emitter.code.toList).length := by simp [Emitter.offset]
  obtain ⟨hc, hp, hl, hf⟩ := land_all Piece.isLeave start
    (by intro z o hz; cases z <;> simp_all [Piece.isLeave, Piece.written]) F
    ⟨code, pool, s.emitter.loops, big⟩ s.emitter.code.toList (by rw [← hlen]; exact hcode)
  rw [← hlen] at hc hp hl hf
  have hclosed : written start s.emitter.offset (settled Piece.isLeave F) = closed 0 F := by
    rw [closed_eq s.emitter.offset 0 F, Nat.add_zero]
    rcases hstart with rfl | hno
    · rfl
    · exact written_of_oneWay _ hno
  rw [hclosed] at hc hf
  have hexit : ((⟨code, pool, Loop.marked s.emitter.offset F x (.start start) :: s.emitter.loops,
      big⟩ : Emitter).exitLoop).2 = (labels Piece.isLeave s.emitter.offset F).foldl Emitter.land
        ⟨code, pool, s.emitter.loops, big⟩ := by
    simp [Emitter.exitLoop, Loop.marked, ClassScript.Loop.start]
  refine ⟨⟨by rw [hexit]; exact hc, by rw [hexit, hl], ⟨by rw [hexit, hp]; exact h.grew.constants,
    h.grew.imports⟩, ?_, by rw [hexit, hp]; exact h.sound.pool, h.sound.imports, ?_⟩, ?_, ?_,
    by rw [hexit, hp]⟩
  · intro hb
    rw [hexit] at hb
    obtain ⟨hb', hfits'⟩ := hf hb
    obtain ⟨hsb, hF⟩ := hfits hb'
    exact ⟨hsb, hfits' hF⟩
  · intro l hl' z hz
    rw [hexit, hl] at hl'
    have := hs.labels l hl' z hz
    have h₁ := congrArg List.length hc
    simp only [Array.length_toList, List.length_append] at h₁
    rw [hexit, h₁]
    omega
  · simp [Emitter.exitLoop, Loop.marked, ClassScript.Loop.start]
  · simp [Emitter.exitLoop, Loop.marked, ClassScript.Loop.start]

/-- The last jump of a loop leads back to its start. -/
theorem closed_again (o : Nat) (F : Fragment) :
    closed o (F ++ [.op (.unary .loop (o + size F + 3))]) = closed o (F ++ [.again]) := by
  induction F generalizing o with
  | nil => simp [closed]
  | cons z F ih =>
    have hsize : size (F ++ [.op (.unary .loop (o + size (z :: F) + 3))]) = size (F ++ [.again]) := by
      simp [Piece.width, Instruction.unary, Instruction.width, Opcode.width, Opcode.operandCount]
    have := ih (o + z.width)
    rw [show o + z.width + size F + 3 = o + size (z :: F) + 3 by simp; omega] at this
    cases z with
    | op i => simpa [closed, Piece.width] using this
    | leave => simpa [closed, Piece.width, hsize] using this
    | again => simpa [closed, Piece.width] using this

theorem emitLoop_eq (e : Emitter) (start : Nat) :
    e.emitLoop start = e.emitWith .loop (e.offset + 3 - start) := by
  simp [Emitter.emitLoop, Emitter.emitWith, Emitter.emit, Emitter.byte, Emitter.offset]

/-- The jump out of a loop, if there is one, leads to the end of the code. -/
def landExit (exit : Option Nat) (e : Emitter) : Emitter := exit.elim e e.land

/-- A loop whose condition stands in front: `s₁` is the state behind the condition, and `exit` the
jump out of the loop that stands there unless the condition is known to hold. -/
theorem loop_closed {s₁ : CodeState} {is : Asm} {known : Option Bool} {exit : Option Nat}
    (hs : s.Sound libraries)
    (hhead : if known = some true then exit = none ∧ Wrote libraries s s₁ []
      else exit = some (s.emitter.offset + is.size + 1) ∧
        Wrote libraries s s₁ (is ++ [Wrote.openJump .jumpIfFalse]))
    (hbody : Put libraries (enter start s₁) t F x)
    (hstart : start = some s.emitter.offset ∨ OneWay F) {e : Emitter}
    (he : e = landExit exit (t.emitter.emitLoop s.emitter.offset)) :
    Wrote libraries s ⟨e.exitLoop.2, t.imports⟩
        (closed 0 (ops (heading is known (size F + 3)) ++ (F ++ [.again]))) ∧
      e.exitLoop.1.hasBreak = x.breaks ∧ t.Grew ⟨e.exitLoop.2, t.imports⟩ := by
  have hback := Wrote.emitWith hbody.sound .loop rfl
    (t.emitter.offset + 3 - s.emitter.offset)
  rw [← emitLoop_eq] at hback
  by_cases hknown : known = some true
  · rw [if_pos hknown] at hhead
    obtain ⟨rfl, hw⟩ := hhead
    change e = t.emitter.emitLoop s.emitter.offset at he
    subst he
    have hput := ((Put.ops_left (enter_wrote start hw) hbody).ops_right hback)
    have hdistance : t.emitter.offset + 3 - s.emitter.offset = 0 + size F + 3 := by
      rw [hbody.offset, enter_offset, hw.offset]
      simp
      omega
    rw [hdistance] at hput
    obtain ⟨hclose, hbreak, -, hpool⟩ := hput.close hs
      (hstart.imp id fun h => by simpa using h)
    refine ⟨?_, hbreak, ⟨?_, List.prefix_rfl⟩⟩
    rotate_left
    · exact (congrArg (fun p : Pool => _ <+: p.entries.toList) hpool).mpr hback.grew.constants
    simp only [ops_nil, ops_cons, List.nil_append] at hclose
    rw [closed_again] at hclose
    simpa [heading, hknown] using hclose
  · rw [if_neg hknown] at hhead
    obtain ⟨rfl, hw⟩ := hhead
    change e = (t.emitter.emitLoop s.emitter.offset).land (s.emitter.offset + is.size + 1) at he
    subst he
    have hput := ((Put.ops_left (enter_wrote start hw) hbody).ops_right hback)
    have hland := Put.land (ops is) (F ++ ops [.unary .loop _]) .jumpIfFalse rfl (by simpa using hput)
      (s.emitter.offset + is.size + 1) (by simp)
    obtain ⟨hclose, hbreak, -, hpool⟩ := hland.close hs
      (hstart.imp id fun h => by simpa using h)
    refine ⟨?_, hbreak, ⟨?_, List.prefix_rfl⟩⟩
    rotate_left
    · exact (congrArg (fun p : Pool => _ <+: p.entries.toList) hpool).mpr hback.grew.constants
    have hdistance : t.emitter.offset + 3 - s.emitter.offset =
        0 + size (ops (is ++ [.unary .jumpIfFalse (size F + 3)]) ++ F) + 3 := by
      rw [hbody.offset, enter_offset, hw.offset]
      simp
      omega
    have hpieces (d : Nat) : ops is ++ .op (.unary .jumpIfFalse (size (F ++ ops [.unary .loop d]))) ::
        (F ++ ops [.unary .loop d]) =
          ops (is ++ [.unary .jumpIfFalse (size F + 3)]) ++ F ++ [.op (.unary .loop d)] := by
      simp
    rw [hpieces, hdistance, closed_again] at hclose
    simpa [heading, hknown] using hclose

end

end ClassScript.Layout
