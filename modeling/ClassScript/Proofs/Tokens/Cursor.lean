import ClassScript.Token.Lexer

/-!
Where a cursor stands.

A cursor stands behind a text if its line, column and offset are those at which the text ends, in
words of 32 bits. A cursor goes over a text to another one if that text is what lies between them; so
wherever the first one stands, the second one stands behind that text as well. The places of tokens
follow from this alone, whatever a scanner looks at on its way.
-/

namespace ClassScript.Lexer

/-! ## The end of a text -/

def lastLine (cs : List Char) : List Char := (cs.reverse.takeWhile (· ≠ '\n')).reverse

def lineAfter (cs : List Char) : Nat := 1 + cs.count '\n'

def columnAfter (cs : List Char) : Nat := 1 + bytes (lastLine cs)

theorem bytes_pos {text : List Char} (h : text ≠ []) : 0 < bytes text := by
  obtain ⟨c, cs, rfl⟩ := List.exists_cons_of_ne_nil h
  have hsize := c.utf8Size_pos
  rw [bytes_cons]
  omega

@[simp] theorem lineAfter_append (cs ds : List Char) :
    lineAfter (cs ++ ds) = lineAfter cs + ds.count '\n' := by
  simp [lineAfter, Nat.add_assoc]

theorem lastLine_append_newline (cs : List Char) : lastLine (cs ++ ['\n']) = [] := by
  simp [lastLine]

theorem lastLine_append {cs ds : List Char} (h : '\n' ∉ ds) :
    lastLine (cs ++ ds) = lastLine cs ++ ds := by
  have hall : ∀ c ∈ ds.reverse, (c ≠ '\n' : Bool) := by
    intro c hc
    rw [decide_eq_true_eq]
    rintro rfl
    exact h (List.mem_reverse.mp hc)
  rw [lastLine, List.reverse_append, List.takeWhile_append_of_pos hall, List.reverse_append,
    List.reverse_reverse, lastLine]

/-- Without a line feed, a text ends as many columns further as it has bytes. -/
theorem columnAfter_append {cs ds : List Char} (h : '\n' ∉ ds) :
    columnAfter (cs ++ ds) = columnAfter cs + bytes ds := by
  rw [columnAfter, lastLine_append h, bytes_append, columnAfter, Nat.add_assoc]

theorem columnAfter_of_line {cs : List Char} (h : '\n' ∉ cs) : columnAfter cs = 1 + bytes cs := by
  have hline : columnAfter ([] ++ cs) = _ := columnAfter_append h
  rwa [List.nil_append] at hline

theorem bytes_lastLine_le (cs : List Char) : bytes (lastLine cs) ≤ bytes cs := by
  have hsuffix : (lastLine cs).IsSuffix cs := by
    rw [← List.reverse_prefix, lastLine, List.reverse_reverse]
    exact List.takeWhile_prefix _
  obtain ⟨front, hfront⟩ := hsuffix
  rw [← hfront, bytes_append, hfront]
  exact Nat.le_add_left _ _

theorem count_newline_le (cs : List Char) : cs.count '\n' ≤ bytes cs := by
  induction cs with
  | nil => exact Nat.le_refl _
  | cons c cs ih =>
    have hsize := c.utf8Size_pos
    rw [List.count_cons, bytes_cons]
    split <;> omega

/-! ## Cursors -/

namespace Cursor

/-- The cursor stands where this text ends. -/
structure Behind (c : Cursor) (before : List Char) : Prop where
  line : c.line = UInt32.ofNat (lineAfter before)
  col : c.col = UInt32.ofNat (columnAfter before)
  offset : c.offset = UInt32.ofNat (bytes before)

/-- Between the cursor and `d` lies this text. -/
structure Over (c : Cursor) (text : List Char) (d : Cursor) : Prop where
  rest : c.rest = text ++ d.rest
  place : ∀ before, c.Behind before → d.Behind (before ++ text)

theorem behind_start (source : List Char) : (start source).Behind [] := ⟨rfl, rfl, rfl⟩

theorem Over.refl (c : Cursor) : c.Over [] c := ⟨rfl, fun before h => by rwa [List.append_nil]⟩

theorem Over.trans {c d e : Cursor} {text text' : List Char} (h : c.Over text d)
    (h' : d.Over text' e) : c.Over (text ++ text') e where
  rest := by rw [h.rest, h'.rest, List.append_assoc]
  place before hc := by
    rw [← List.append_assoc]
    exact h'.place _ (h.place before hc)

theorem over_bump {c : Cursor} {ch : Char} {rest : List Char} (h : c.rest = ch :: rest) :
    c.Over [ch] c.bump := by
  refine ⟨by simp [h], fun before hc => ?_⟩
  have hoffset : c.offset + UInt32.ofNat ch.utf8Size = UInt32.ofNat (bytes (before ++ [ch])) := by
    rw [hc.offset, ← UInt32.ofNat_add]
    simp
  unfold bump
  rw [h]
  dsimp only
  split
  · next hline =>
    subst hline
    refine ⟨?_, ?_, hoffset⟩
    · rw [hc.line, lineAfter_append, UInt32.ofNat_add]
      rfl
    · rw [columnAfter, lastLine_append_newline]
      rfl
  · next hline =>
    have hnot : '\n' ∉ [ch] := by simpa using Ne.symm hline
    refine ⟨?_, ?_, hoffset⟩
    · rw [hc.line, lineAfter_append, List.count_eq_zero.mpr hnot, Nat.add_zero]
    · rw [hc.col, columnAfter_append hnot, UInt32.ofNat_add]
      simp

theorem over_bumpBy (n : Nat) (c : Cursor) : c.Over (c.rest.take n) (c.bumpBy n) := by
  induction n generalizing c with
  | zero => exact .refl c
  | succ n ih =>
    cases h : c.rest with
    | nil =>
      have hstays : c.bump = c := by
        unfold bump
        rw [h]
      have hn := ih c
      rw [h, List.take_nil] at hn
      rwa [List.take_nil, bumpBy, hstays]
    | cons ch rest =>
      have hn := (over_bump h).trans (ih c.bump)
      rwa [rest_bump, h] at hn

theorem over_skipWhile (p : Char → Bool) (c : Cursor) :
    ∃ text, c.Over text (c.skipWhile p) ∧ (∀ ch ∈ text, p ch) ∧
      ∀ ch ∈ (c.skipWhile p).rest.head?, p ch = false := by
  fun_induction skipWhile p c with
  | case1 c h => exact ⟨[], .refl c, by simp, by simp [h]⟩
  | case2 c ch rest h hp ih =>
    obtain ⟨text, hover, hall, hstop⟩ := ih
    refine ⟨ch :: text, (over_bump h).trans hover, fun d hd => ?_, hstop⟩
    obtain rfl | hd := List.mem_cons.mp hd
    · exact hp
    · exact hall d hd
  | case3 c ch rest h hp => exact ⟨[], .refl c, by simp, by simpa [h] using hp⟩

theorem skipWhile_bump {p : Char → Bool} {c : Cursor} {ch : Char} {rest : List Char}
    (h : c.rest = ch :: rest) (hp : p ch) : c.skipWhile p = c.bump.skipWhile p := by
  rw [skipWhile]
  split <;> simp_all

/-! ## Regions -/

theorem span_start {c : Cursor} {before : List Char} (h : c.Behind before) (len : UInt32) :
    (c.span len).line.toNat = lineAfter before % UInt32.size ∧
      (c.span len).col.toNat = columnAfter before % UInt32.size := by
  simp [span, h.line, h.col]

theorem spanTo_start {c : Cursor} {before : List Char} (h : c.Behind before) (d : Cursor) :
    (c.spanTo d).line.toNat = lineAfter before % UInt32.size ∧
      (c.spanTo d).col.toNat = columnAfter before % UInt32.size := by
  simp [spanTo, h.line, h.col]

/-- Two cursors are as far apart as there are bytes between them. -/
theorem Over.offset_sub {c d : Cursor} {before text : List Char} (hover : c.Over text d)
    (h : c.Behind before) : d.offset - c.offset = UInt32.ofNat (bytes text) := by
  rw [(hover.place before h).offset, h.offset, bytes_append, UInt32.ofNat_add, UInt32.add_comm,
    UInt32.add_sub_cancel]

/-- A region on one line is as long as its text. -/
theorem spanTo_len {c d : Cursor} {before text : List Char} (h : c.Behind before)
    (hover : c.Over text d) (hline : '\n' ∉ text) :
    (c.spanTo d).len.toNat = bytes text % UInt32.size := by
  have hsame : d.line = c.line := by
    rw [(hover.place before h).line, h.line, lineAfter_append, List.count_eq_zero.mpr hline, Nat.add_zero]
  simp [spanTo, hsame, hover.offset_sub h]

/-- No region is longer than its text. -/
theorem spanTo_len_le {c d : Cursor} {before text : List Char} (h : c.Behind before)
    (hover : c.Over text d) : (c.spanTo d).len.toNat ≤ bytes text := by
  have hlen : (d.offset - c.offset).toNat ≤ bytes text := by
    rw [hover.offset_sub h, UInt32.toNat_ofNat']
    exact Nat.mod_le _ _
  have hle : (c.spanTo d).len.toNat ≤ (d.offset - c.offset).toNat := by
    rw [← UInt32.le_iff_toNat_le]
    simp only [spanTo]
    split
    · exact UInt32.le_refl _
    · exact Std.min_le_left
  exact Nat.le_trans hle hlen

end Cursor

end ClassScript.Lexer
