import ClassScript.Parsed
import ClassScript.Proofs.Spelling.Declaration
import ClassScript.Proofs.Tokens.Coverage
import Mathlib.Data.List.TakeWhile

/-!
From a source without mistakes no token is lost and none is made up, and the spans of its tree are right.

The tokens of a source stand one behind the other, as each of them carries the place of its text. Over
such tokens the spans of a tree are the regions of what its nodes are written as.
-/

namespace ClassScript

namespace Lexer

/-! ## Single tokens -/

/-- The kind of a token goes with its text, and what is no token was reported. -/
structure Step.Fair (s : Step) : Prop where
  faithful : s.token.Faithful
  reported : s.token.kind = .error → s.errors ≠ []

theorem fair_fail (fault : SyntaxFault) (span : Span) (after : Cursor) (before : List SyntaxError) :
    (Step.fail fault span after before).Fair := ⟨nofun, fun _ => by simp [Step.fail]⟩

theorem fair_endOfFile (c : Cursor) (errors : List SyntaxError) : (endOfFile c errors).Fair :=
  ⟨nofun, nofun⟩

/-- A string literal has any text. -/
theorem fair_string {s : Step} (h : s.token.kind = .stringLiteral) : s.Fair where
  faithful hplain := by
    rw [h] at hplain
    cases hplain
  reported herror := nomatch h.symm.trans herror

theorem fair_scanString (first c : Cursor) (text : List Char) (errors : List SyntaxError) :
    (scanString first c text errors).Fair := by
  fun_induction scanString first c text errors
  case case1 | case2 => exact fair_fail ..
  case case3 => exact fair_string rfl
  case case4 ih | case5 ih | case6 ih => exact ih

theorem fair_scanVerbatim (first c : Cursor) (text : List Char) :
    (scanVerbatim first c text).Fair := by
  fun_induction scanVerbatim first c text
  case case1 => exact fair_fail ..
  case case3 => exact fair_string rfl
  case case2 ih | case4 ih => exact ih

theorem fair_scanNumber (c : Cursor) : (scanNumber c).Fair := by
  have hkind := numberLength_kind c.rest
  unfold scanNumber
  dsimp only
  split
  · constructor
    · intro hplain
      change (numberLength c.rest).1.isPlain = true at hplain
      obtain h | h | h := hkind <;> rw [h] at hplain <;> cases hplain
    · intro herror
      change (numberLength c.rest).1 = .error at herror
      simp [herror] at hkind
  · exact fair_fail ..

/-- No symbol is made of letters and digits. -/
theorem ofText_word {word : List Char} (h : ∀ c ∈ word, isWordPart c) :
    TokenKind.ofText (String.ofList word) =
      (TokenKind.ofKeyword? (String.ofList word)).getD .identifier := by
  have hsymbols : ∀ p ∈ symbols, p.1.all isWordPart = false := by decide
  have hnone : symbols.lookup word = none := by
    rw [List.lookup_eq_none_iff]
    intro p hp
    rw [bne_iff_ne]
    rintro rfl
    exact absurd (List.all_eq_true.mpr h) (Bool.eq_false_iff.mp (hsymbols p hp))
  simp [TokenKind.ofText, hnone]

theorem fair_scanWord (c : Cursor) : (scanWord c).Fair := by
  let word := c.rest.take (runLength isWordPart c.rest)
  have hword : word = c.rest.takeWhile isWordPart :=
    (List.prefix_iff_eq_take.mp (List.takeWhile_prefix _)).symm
  constructor
  · refine fun _ => (ofText_word fun ch hch => ?_).symm
    have hch : ch ∈ word := hch
    rw [hword] at hch
    exact List.mem_takeWhile_imp hch
  · intro herror
    change (TokenKind.ofKeyword? (String.ofList word)).getD .identifier = .error at herror
    cases hk : TokenKind.ofKeyword? (String.ofList word) with
    | none => simp [hk] at herror
    | some k =>
      rw [hk] at herror
      exact absurd herror (proper_of_ofKeyword? hk).1

theorem fair_scanSymbol (c : Cursor) : (scanSymbol c).Fair := by
  have htexts : ∀ p ∈ symbols, p.2 = TokenKind.ofText (String.ofList p.1) ∧ p.2 ≠ .error := by decide
  unfold scanSymbol
  split
  · next spelling kind hfind =>
    obtain ⟨htext, herror⟩ := htexts _ (List.mem_of_find?_eq_some hfind)
    have hspelling := List.find?_some hfind
    have htake : c.rest.take spelling.length = spelling :=
      (List.prefix_iff_eq_take.mp (List.isPrefixOf_iff_prefix.mp hspelling)).symm
    refine ⟨fun _ => ?_, fun h => absurd h herror⟩
    change kind = TokenKind.ofText (String.ofList (c.rest.take spelling.length))
    rw [htake]
    exact htext
  · exact fair_fail ..

theorem fair_next (c : Cursor) : (next c).Fair := by
  unfold next
  split
  · unfold scan
    split
    · exact fair_endOfFile ..
    · exact fair_scanString ..
    · exact fair_scanVerbatim ..
    · split
      · exact fair_scanNumber _
      · split
        · exact fair_scanWord _
        · exact fair_scanSymbol _
  · exact fair_endOfFile ..

/-! ## Whole sources -/

/-- Every piece comes from a call, and only the last one is the end of the source. -/
theorem Tiles.kinds {c : Cursor} {before : List Char} {ps : List Piece} (h : Tiles c before ps) :
    ∃ qs last, ps = qs ++ [last] ∧ last.token.kind = .eof ∧
      ∀ p ∈ qs, p.step.Fair ∧ p.token.kind ≠ .eof := by
  induction h with
  | @last c p hnext hfits hrest heof => exact ⟨[], p, rfl, heof, nofun⟩
  | @more c p ps hnext hfits hrest heof tail ih =>
    obtain ⟨qs, last, rfl, hlast, hqs⟩ := ih
    refine ⟨p :: qs, last, rfl, hlast, fun q hq => ?_⟩
    obtain rfl | hq := List.mem_cons.mp hq
    · exact ⟨hnext ▸ fair_next c, heof⟩
    · exact hqs q hq

/-- A source without lexical errors has tokens whose kinds go with their texts, and then its end. -/
theorem run_eq {source : List Char} (h : (run source).2 = []) : ∃ ps last,
    Tiles (.start source) [] (ps ++ [last]) ∧
      (run source).1 = ps.map (·.token) ++ [last.token] ∧ last.token.kind = .eof ∧
      ∀ p ∈ ps, p.token.Faithful ∧ p.token.kind ≠ .error ∧ p.token.kind ≠ .eof := by
  obtain ⟨ps, htiles, hrun⟩ := run_tiles source
  obtain ⟨qs, last, rfl, hlast, hqs⟩ := htiles.kinds
  rw [hrun] at h ⊢
  refine ⟨qs, last, htiles, by simp, hlast, fun p hp => ?_⟩
  obtain ⟨hfair, heof⟩ := hqs p hp
  refine ⟨hfair.faithful, fun herror => hfair.reported herror ?_, heof⟩
  exact List.flatMap_eq_nil_iff.mp h p (List.mem_append_left _ hp)

end Lexer

/-- A source that is read without a mistake has the tokens of its tree, and no others but its end. -/
theorem Parsed.outlined_of_source {source : List Char} {p : Parsed} (h : ofSource source = .ok p)
    (hnone : p.errors = []) : ∃ ps last, Lexer.Tiles (.start source) [] (ps ++ [last]) ∧
      (Lexer.run source).1 = ps.map (·.token) ++ [last.token] ∧ last.token.kind = .eof ∧
      (∀ q ∈ ps, q.token.kind ≠ .error) ∧ Outlined [p.script.outline] (ps.map (·.token)) := by
  obtain ⟨state, hscript, herrors⟩ := script_of_source h
  obtain ⟨hlexical, hreports⟩ := List.append_eq_nil_iff.mp (herrors ▸ hnone)
  obtain ⟨ps, last, htiles, hrun, hlast, hps⟩ := Lexer.run_eq hlexical
  have hts : ∀ t ∈ ps.map (·.token), t.Faithful ∧ t.kind ≠ .error ∧ t.kind ≠ .eof := by
    intro t ht
    obtain ⟨q, hq, rfl⟩ := List.mem_map.mp ht
    exact hps q hq
  generalize hmap : ps.map (·.token) = ts at hts hrun
  have htokens : (Lexer.run source).1.filter (fun t => t.kind ≠ .error) = ts ++ [last.token] := by
    rw [hrun, List.filter_eq_self]
    intro t ht
    obtain ht | ht := List.mem_append.mp ht
    · exact decide_eq_true (hts t ht).2.1
    · rw [List.mem_singleton.mp ht, hlast]
      rfl
  have hupcoming : (ts ++ [last.token]).filter (fun t => t.kind ≠ .eof) = ts := by
    rw [List.filter_append, List.filter_eq_self.mpr fun t ht => decide_eq_true (hts t ht).2.2]
    simp [hlast]
  have hstate : Grammar.State.ofTokens (ts ++ [last.token]) = ⟨none, ts, last.token, [], ts.length⟩ := by
    rw [Grammar.State.ofTokens, hupcoming, List.getLastD_concat]
  rw [Grammar.State.ofSource, htokens, hstate] at hscript
  obtain ⟨-, htook⟩ := Grammar.script_reads _ p.script state hscript (List.reverse_eq_nil_iff.mp hreports)
  obtain ⟨taken, hgives, houtlined, hleft⟩ := htook ⟨hlast, Nat.le_refl _, fun t ht => (hts t ht).1⟩
  have hall : ts = taken := by simpa [hleft] using hgives.upcoming
  exact ⟨ps, last, htiles, hmap ▸ hrun, hlast, fun q hq => (hps q hq).2.1, hmap ▸ hall ▸ houtlined⟩

/-- A source that is read without a mistake has the tokens that its tree is written as, and no others
but its end. -/
theorem Parsed.spelled_of_source {source : List Char} {p : Parsed} (h : ofSource source = .ok p)
    (hnone : p.errors = []) : ∃ ts last, (Lexer.run source).1 = ts ++ [last] ∧ last.kind = .eof ∧
      Spelled p.script.written ts := by
  obtain ⟨ps, last, -, hrun, hlast, -, houtlined⟩ := outlined_of_source h hnone
  refine ⟨ps.map (·.token), last.token, hrun, hlast, ?_⟩
  have hspelled := houtlined.spelled
  rwa [Outline.glyphsOf, Outline.glyphsOf, List.append_nil, Script.glyphs_outline] at hspelled

/-- A source with a number below zero, of which the minus is a token of its own. -/
def negativeSource : String := "public static class T { readonly int x = -5; }"

theorem Parsed.spelled_of_source_negative : ∃ p, ofSource negativeSource.toList = .ok p ∧
    p.errors = [] ∧ ∃ ts last, (Lexer.run negativeSource.toList).1 = ts ++ [last] ∧
      last.kind = .eof ∧ Spelled p.script.written ts := by
  have hread : (ofSource negativeSource.toList).toOption.map (·.errors.isEmpty) = some true := by
    decide +kernel
  cases hp : ofSource negativeSource.toList with
  | error e =>
    rw [hp] at hread
    cases hread
  | ok p =>
    rw [hp] at hread
    have hnone : p.errors = [] := List.isEmpty_iff.mp (Option.some.inj hread)
    exact ⟨p, rfl, hnone, spelled_of_source hp hnone⟩

namespace Lexer

/-! ## The order of tokens -/

/-- Every piece stands behind the source in front of the first one. -/
theorem Tiles.front {c : Cursor} {before : List Char} {ps : List Piece} (h : Tiles c before ps) :
    ∀ q ∈ ps, ∃ more, q.front = before ++ more := by
  induction h with
  | @last c p =>
    intro q hq
    rw [List.mem_singleton.mp hq]
    exact ⟨p.gap, rfl⟩
  | @more c p ps _ _ _ _ _ ih =>
    intro q hq
    obtain rfl | hq := List.mem_cons.mp hq
    · exact ⟨q.gap, rfl⟩
    · obtain ⟨more, hmore⟩ := ih q hq
      exact ⟨p.gap ++ (p.text ++ more), by rw [hmore, Piece.front, List.append_assoc, List.append_assoc]⟩

/-- Of two pieces, the second one stands behind the text of the first one. -/
theorem Tiles.pairwise {c : Cursor} {before : List Char} {ps : List Piece} (h : Tiles c before ps) :
    ps.Pairwise fun p q => ∃ between, q.front = p.front ++ (p.text ++ between) := by
  induction h with
  | last => exact List.pairwise_singleton _ _
  | more _ _ _ _ tail ih =>
    refine List.pairwise_cons.mpr ⟨fun q hq => ?_, ih⟩
    obtain ⟨more, hmore⟩ := tail.front q hq
    exact ⟨more, by rw [hmore, List.append_assoc]⟩

/-- A token ends where its text does, or before. -/
theorem Piece.stop_le {p : Piece} {rest : List Char} (hfits : p.Fits rest) (hplaced : p.Placed)
    (hkind : p.token.kind ≠ .error) : p.token.stop ≤ columnAfter p.front + bytes p.text := by
  rw [Token.stop, hplaced.col]
  exact Nat.add_le_add_left (hfits.marks.reach hkind) _

/-- A token precedes one behind its text. -/
theorem Piece.precedes {p q : Piece} {rest between : List Char} (hfits : p.Fits rest)
    (hp : p.Placed) (hq : q.Placed) (hkind : p.token.kind ≠ .error)
    (hbetween : q.front = p.front ++ (p.text ++ between)) : p.token.Precedes q.token := by
  have hline : q.token.span.line.toNat = p.token.span.line.toNat + (p.text ++ between).count '\n' := by
    rw [hq.line, hp.line, hbetween, lineAfter_append]
  by_cases hnewline : '\n' ∈ p.text ++ between
  · refine .inl (UInt32.lt_iff_toNat_lt.mpr ?_)
    have hpos := List.count_pos_iff.mpr hnewline
    omega
  · refine .inr ⟨UInt32.toNat_inj.mp ?_, ?_⟩
    · rw [hline, List.count_eq_zero.mpr hnewline, Nat.add_zero]
    · rw [hq.col, hbetween, columnAfter_append hnewline, bytes_append, ← Nat.add_assoc]
      exact Nat.le_trans (stop_le hfits hp hkind) (Nat.le_add_right _ _)

/-- The tokens of a source that is not too long are in source order. -/
theorem Tiles.ordered {source : List Char} {ps qs : List Piece} (h : Tiles (.start source) [] (ps ++ qs))
    (hsize : bytes source + 1 < UInt32.size) (hkind : ∀ p ∈ ps, p.token.kind ≠ .error) :
    Token.Ordered (ps.map (·.token)) := by
  have hplaced := h.placed hsize
  constructor
  · rw [List.pairwise_map]
    have hpairs := (List.pairwise_append.mp h.pairwise).1
    refine hpairs.imp_of_mem fun {p q} hp hq ⟨between, hbetween⟩ => ?_
    obtain ⟨rest, hfits, -⟩ := h.mem (List.mem_append_left qs hp)
    exact Piece.precedes hfits (hplaced p (List.mem_append_left qs hp))
      (hplaced q (List.mem_append_left qs hq)) (hkind p hp) hbetween
  · intro t ht
    obtain ⟨p, hp, rfl⟩ := List.mem_map.mp ht
    obtain ⟨rest, hfits, hsource⟩ := h.mem (List.mem_append_left qs hp)
    have hstop := Piece.stop_le hfits (hplaced p (List.mem_append_left qs hp)) (hkind p hp)
    have hbytes : bytes source = bytes (p.front ++ p.text) + bytes rest := by
      rw [← bytes_append, ← hsource]
      rfl
    have hcolumn := bytes_lastLine_le p.front
    rw [bytes_append] at hbytes
    rw [columnAfter] at hstop
    omega

end Lexer

/-! ## The spans of trees -/

/-- In a tree that was read without a mistake, every node has the place of its first token and, if its
tokens are on one line, ends where its last token does. -/
theorem Parsed.spans_of_source {source : List Char} {p : Parsed} (h : ofSource source = .ok p)
    (hnone : p.errors = []) (hsize : Lexer.bytes source + 1 < UInt32.size) :
    ∃ ps last, Lexer.Tiles (.start source) [] (ps ++ [last]) ∧ last.token.kind = .eof ∧
      (∀ q ∈ ps, q.Placed) ∧ Covers Span.Spans [p.script.outline] (ps.map (·.token)) := by
  obtain ⟨ps, last, htiles, -, hlast, hkind, houtlined⟩ := outlined_of_source h hnone
  refine ⟨ps, last, htiles, hlast, fun q hq => ?_, houtlined.exact (htiles.ordered hsize hkind)⟩
  exact htiles.placed hsize q (List.mem_append_left _ hq)

/-- A class on two lines, in which the first one holds the tokens of a whole field. -/
def twoLineSource : String := "class T \x7b int x = 1 +\t-5;\n\x7d"

theorem Parsed.spans_of_source_two_lines : ∃ p, ofSource twoLineSource.toList = .ok p ∧ p.errors = [] ∧
    Lexer.bytes twoLineSource.toList + 1 < UInt32.size ∧
    ∃ ps last, Lexer.Tiles (.start twoLineSource.toList) [] (ps ++ [last]) ∧ last.token.kind = .eof ∧
      (∀ q ∈ ps, q.Placed) ∧ Covers Span.Spans [p.script.outline] (ps.map (·.token)) := by
  have hread : (ofSource twoLineSource.toList).toOption.map (·.errors.isEmpty) = some true := by
    decide +kernel
  have hsize : Lexer.bytes twoLineSource.toList + 1 < UInt32.size := by decide +kernel
  cases hp : ofSource twoLineSource.toList with
  | error e =>
    rw [hp] at hread
    cases hread
  | ok p =>
    rw [hp] at hread
    have hnone : p.errors = [] := List.isEmpty_iff.mp (Option.some.inj hread)
    exact ⟨p, rfl, hnone, hsize, spans_of_source hp hnone hsize⟩

/-- The class goes over two lines, and its field reaches to the semicolon. -/
example : (Parsed.ofSource twoLineSource.toList).toOption.map
    (fun p => p.script.classes.flatMap fun c => c.decl.span :: c.decl.members.map fun
      | .field _ _ _ span | .method _ _ _ _ _ span | .constructor _ _ _ _ span => span) =
    some [⟨1, 1, 6⟩, ⟨1, 11, 15⟩] := by decide +kernel

end ClassScript
