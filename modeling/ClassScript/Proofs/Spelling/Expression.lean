import ClassScript.Grammar.Expression
import ClassScript.Proofs.Spelling.Reading

/-!
Expressions take the tokens of their outlines.

What follows an expression in a chain makes it the first part of a larger one, so the loops keep that
the tokens of the part and those of what followed are the tokens of the whole.
-/

namespace ClassScript

/-! ## Operators -/

theorem UnaryOp.writes_of_ofToken? {k : TokenKind} {op : UnaryOp} (h : ofToken? k = some op) :
    k.Writes op.spelling := by
  unfold ofToken? at h
  split at h <;> cases h <;> decide

theorem PostfixOp.writes_of_ofToken? {k : TokenKind} {op : PostfixOp} (h : ofToken? k = some op) :
    k.Writes op.spelling := by
  unfold ofToken? at h
  split at h <;> cases h <;> decide

theorem BinaryOp.writes_of_ofToken? {k : TokenKind} {op : BinaryOp} (h : ofToken? k = some op) :
    k.Writes op.spelling := by
  unfold ofToken? at h
  split at h <;> cases h <;> decide

theorem AssignOp.writes_of_ofToken? {k : TokenKind} {op : AssignOp} (h : ofToken? k = some op) :
    k.Writes op.spelling := by
  unfold ofToken? at h
  split at h <;> cases h <;> decide

/-- The literals that are no integers have a kind of their own. -/
theorem TokenKind.integer_of_isLiteral {k : TokenKind} (h : k.isLiteral) (hreal : k ≠ .doubleLiteral)
    (hstring : k ≠ .stringLiteral) (htrue : k ≠ .kwTrue) (hfalse : k ≠ .kwFalse) :
    k = .intLiteral ∨ k = .longLiteral := by
  unfold isLiteral at h
  split at h
  · exact .inl rfl
  · exact .inr rfl
  · exact absurd rfl hreal
  · exact absurd rfl hstring
  · exact absurd rfl htrue
  · exact absurd rfl hfalse
  · cases h

namespace Grammar

/-! ## Literals -/

/-- The literal of an integer is the one that the token denotes, and no further token is taken. -/
theorem integerLiteral_iff {negative : Bool} {t : Token} {l : Literal} {s s' : State}
    (hkind : t.kind = .intLiteral ∨ t.kind = .longLiteral) :
    integerLiteral negative t s = .ok l s' ↔
      l.IsInteger t.kind (if negative then -t.magnitude else t.magnitude) ∧ s' = s := by
  have hnumber : (if negative then -Int.ofNat (Double.digitsValue (t.lexeme.toList.filter Char.isDigit))
      else Int.ofNat (Double.digitsValue (t.lexeme.toList.filter Char.isDigit))) =
      (if negative then -(t.magnitude : Int) else t.magnitude) := rfl
  unfold integerLiteral
  simp only [hnumber]
  generalize (if negative then -(t.magnitude : Int) else t.magnitude) = n
  by_cases hshort : t.kind ≠ .longLiteral ∧ fitsSigned 32 n
  · rw [if_pos hshort, pure_iff]
    obtain ⟨hsuffix, hfits⟩ := hshort
    refine and_congr_left fun _ => ⟨?_, fun h => ?_⟩
    · rintro rfl
      exact .int (hkind.resolve_right hsuffix) (toInt_of_fitsSigned32 hfits)
    · cases h with
      | int _ hvalue => rw [← hvalue, Int32.ofInt_toInt]
      | long hlong => simp_all
  -- a value of 32 bits would have been an `int`
  have hlong (h : l.IsInteger t.kind n) : ∃ m : Int64, l = .long m ∧ m.toInt = n := by
    cases h with
    | @int m hint hvalue => exact absurd ⟨by rw [hint]; decide, hvalue ▸ fitsSigned_int32 m⟩ hshort
    | long _ hvalue => exact ⟨_, rfl, hvalue⟩
  rw [if_neg hshort]
  by_cases hfits : fitsSigned 64 n
  · rw [if_pos hfits, pure_iff]
    refine and_congr_left fun _ => ⟨?_, fun h => ?_⟩
    · rintro rfl
      refine .long (hkind.symm.imp_right fun hint => ⟨hint, ?_⟩) (toInt_of_fitsSigned64 hfits)
      by_contra hne
      exact hshort ⟨by simp [hint], Bool.of_not_eq_false hne⟩
    · obtain ⟨m, rfl, hvalue⟩ := hlong h
      rw [← hvalue, Int64.ofInt_toInt]
  · rw [if_neg hfits]
    refine iff_of_false nofun fun ⟨h, _⟩ => ?_
    obtain ⟨m, -, hvalue⟩ := hlong h
    exact hfits (hvalue ▸ fitsSigned_int64 m)

/-- The literal of an integer takes no further token. -/
theorem integerLiteral_reads {negative : Bool} {t : Token}
    (hkind : t.kind = .intLiteral ∨ t.kind = .longLiteral) :
    Reads (integerLiteral negative t) fun l ts => ts = [] ∧
      l.IsInteger t.kind (if negative then -t.magnitude else t.magnitude) := by
  intro s l s' h hreports
  obtain ⟨hl, rfl⟩ := (integerLiteral_iff hkind).mp h
  exact ⟨hreports, fun _ => ⟨[], .nil s', rfl, hl⟩⟩

/-- A literal is the one that the next token denotes. -/
theorem literal_ok {e : Expr} {s s' : State} (h : literal s = .ok e s') :
    s.current.kind.isLiteral ∧ s' = s.next ∧
      (s.current.Faithful → ∃ l, l.Spelled [s.current] ∧ e = .literal l s.current.span) := by
  unfold literal at h
  obtain ⟨t, s₁, hlook, h⟩ := bind_iff.mp h
  cases hlook
  split at h
  case isFalse => cases h
  case isTrue hliteral =>
    obtain ⟨t, s₁, hadvance, h⟩ := bind_iff.mp h
    rw [advance_eq] at hadvance
    cases hadvance
    refine ⟨hliteral, ?_⟩
    -- what is left of the parser for each kind
    let Takes (p : Parse Expr) : Prop := ∀ e s', p s.next = .ok e s' → s' = s.next ∧
      (s.current.Faithful → ∃ l, l.Spelled [s.current] ∧ e = .literal l s.current.span)
    have hwhole (p : Parse Literal) (hp : ∀ l s₂, p s.next = .ok l s₂ →
        s₂ = s.next ∧ (s.current.Faithful → l.Spelled [s.current])) :
        Takes (p >>= fun l => pure (.literal l s.current.span)) := by
      intro e s' h
      obtain ⟨l, s₂, hl, h⟩ := bind_iff.mp h
      obtain ⟨rfl, hspelled⟩ := hp l s₂ hl
      obtain ⟨rfl, rfl⟩ := pure_iff.mp h
      exact ⟨rfl, fun hfaithful => ⟨l, hspelled hfaithful, rfl⟩⟩
    have hpure {l : Literal} (hspelled : s.current.Faithful → l.Spelled [s.current]) :
        Takes (pure l >>= fun l => pure (.literal l s.current.span)) := by
      refine hwhole _ fun l' s₂ hl => ?_
      obtain ⟨rfl, rfl⟩ := pure_iff.mp hl
      exact ⟨rfl, hspelled⟩
    refine (show Takes _ from ?_) e s' h
    split
    · next hkind =>
      unfold realLiteral
      split
      · next d hd => exact hpure fun _ => .real hkind hd
      · exact fun e s' h => nomatch h
    · next hkind => exact hpure fun _ => .string hkind rfl
    · next hkind => exact hpure fun h => .bool (h.spells_kind hkind (by decide))
    · next hkind => exact hpure fun h => .bool (h.spells_kind hkind (by decide))
    · next hreal hstring htrue hfalse =>
      have hkind := TokenKind.integer_of_isLiteral hliteral hreal hstring htrue hfalse
      refine hwhole _ fun l s₂ hl => ?_
      obtain ⟨hinteger, rfl⟩ := (integerLiteral_iff hkind).mp hl
      exact ⟨rfl, fun _ => .integer hinteger⟩

theorem literal_reads : Reads literal fun e ts => Filled [e.outline] ts := by
  intro s e s' h hreports
  obtain ⟨hliteral, rfl, hspelled⟩ := literal_ok h
  refine ⟨s.reports_next ▸ hreports, fun hs => ?_⟩
  obtain ⟨hgives, hfaithful⟩ := hs.next fun heof => by
    rw [heof] at hliteral
    cases hliteral
  obtain ⟨l, hl, rfl⟩ := hspelled hfaithful
  have hglyph : Filled [.glyph (.literal l)] [s.current] :=
    ⟨List.cons_ne_nil _ _, .singleton (.literal hl)⟩
  exact ⟨_, hgives, hglyph.within (Span.measures_singleton _)⟩

/-! ## Operands -/

/-- An expression that begins with another one, and the tokens of what follows. -/
def Extends (e e' : Expr) (ts : List Token) : Prop :=
  ∀ us, Filled [e.outline] us → Filled [e'.outline] (us ++ ts)

theorem Extends.refl (e : Expr) : Extends e e [] := fun us h => by rwa [List.append_nil]

theorem Extends.trans (e e' e'' : Expr) (ts ts' : List Token) (h : Extends e e' ts)
    (h' : Extends e' e'' ts') : Extends e e'' (ts ++ ts') := by
  intro us hus
  rw [← List.append_assoc]
  exact h' _ (h us hus)

section

variable {sub : Nat → Parse Expr} (hsub : ∀ power, Reads (sub power) fun e ts => Filled [e.outline] ts)

include hsub

theorem primary_reads : Reads (primary sub) fun e ts => Filled [e.outline] ts := by
  intro s
  unfold primary
  refine .peek rfl ?_
  split
  · next hkind =>
    refine .advanceText "this" hkind (by decide) (.pure fun hthis => ?_)
    exact hthis.within (Span.measures_singleton _)
  · next hkind =>
    refine .advance (by rw [hkind]; decide) (.pure fun h => ?_)
    exact Ident.filled h (by rw [hkind]; rfl)
  · next hkind =>
    refine .advanceText "(" hkind (by decide) ?_
    refine (hsub 0 _).bindBehind fun inner s₁ => (expect_reads ")" (by decide) s₁).bindBehind fun _ s₂ =>
      .peek rfl (.pure ?_)
    rintro _ hgives₂ ⟨rfl, hright⟩ ts hgives₁ hinner hleft
    rw [List.append_nil]
    exact (hgives₁.trans hgives₂).node hleft (hinner.append hright.covers)
  · refine .peek rfl (.ite ?_ fun _ => literal_reads s)
    rintro ⟨htype, -, -⟩
    have hplain : s.current.kind.isPlain ∧ s.current.kind ≠ .eof := by
      generalize s.current.kind = k at htype
      cases k <;> first | exact ⟨rfl, nofun⟩ | cases htype
    exact .advance hplain.2 (.pure fun h => Ident.filled h hplain.1)

theorem arguments_reads : Reads (arguments sub) fun es ts =>
    Filled (.text "(" :: (Expr.outlineListed es ++ [.text ")"])) ts := by
  intro s
  unfold arguments
  refine (expect_reads "(" (by decide) s).bind fun _ s => ?_
  refine .peek rfl (.join (.bind (P := fun es ts _ => Outlined (Expr.outlineListed es) ts) ?_ fun es s => ?_))
  · refine .ite (fun _ => .pure .nil) fun _ => ?_
    refine (commaList_reads (hsub 0) s).mono fun es ts _ hes => ?_
    rw [Expr.outlineListed_eq]
    exact hes.covers
  · refine (expect_reads ")" (by decide) s).bind fun _ s => .pure ?_
    rintro _ ⟨rfl, hright⟩ ts hargs _ ⟨rfl, hleft⟩
    exact hleft.append (hargs.append hright.covers)

theorem suffix_reads (e : Expr) : Reads (suffix? sub e) fun e' ts => Extends e (e'.getD e) ts := by
  intro s
  unfold suffix?
  refine .peek rfl ?_
  split
  · next hkind =>
    refine .advanceText "." hkind (by decide) ((identifier_reads _).bind fun name s' => .pure ?_)
    intro ts hname hdot us he
    have hspan := (Expr.measures he).merge hname.measures he.nonempty hname.nonempty
      (List.prefix_append us _) (List.suffix_append_of_suffix (List.suffix_append [s.current] ts))
    rw [List.append_nil]
    exact (he.append (hdot.append hname.covers).covers).within hspan
  · refine (arguments_reads hsub s).bindBehind fun args s' => .peek rfl (.pure ?_)
    intro ts hgives hargs us he
    have hspan := hgives.closes hargs.nonempty (Expr.measures he) he.nonempty
      (List.prefix_append us ts) (List.suffix_append us ts)
    rw [List.append_nil]
    exact (he.append hargs.covers).within hspan
  · split
    · next op hop =>
      refine .advanceText _ rfl (PostfixOp.writes_of_ofToken? hop) (.pure fun hmark us he => ?_)
      have hspan := (Expr.measures he).merge (Span.measures_singleton s.current) he.nonempty hmark.nonempty
        (List.prefix_append us _) (List.suffix_append us _)
      rw [List.append_nil]
      exact (he.append hmark.covers).within hspan
    · exact .pure (.refl e)

theorem operand_reads : Reads (operand sub) fun e ts => Filled [e.outline] ts := by
  intro s
  unfold operand
  refine .peek rfl ?_
  have hloop (e : Expr) : Reads (iterate (suffix? sub) e) (Extends e) :=
    iterate_reads Extends.refl Extends.trans (suffix_reads hsub)
  split
  · refine (primary_reads hsub s).bind fun e s => (hloop e s).mono ?_
    exact fun e' ts' _ hextends ts he => hextends ts he
  · next op hop =>
    have hwrites := UnaryOp.writes_of_ofToken? hop
    refine .peek rfl (.peek rfl (.ite ?_ fun _ => ?_))
    · rintro ⟨rfl, hkind, -⟩
      refine .advance hwrites.ne_eof ?_
      have hnumber : s.next.current.kind = .intLiteral ∨ s.next.current.kind = .longLiteral := by
        rw [s.current_next]
        exact hkind
      refine .advance (fun heof => by simp [heof] at hnumber) ?_
      refine (integerLiteral_reads hnumber _).bind fun l s' => (hloop _ s').mono ?_
      rintro e ts - he _ ⟨rfl, hl⟩ - hminus
      have hliteral : Filled [.glyph (.literal l)] [s.current, s.next.current] :=
        ⟨List.cons_ne_nil _ _, .singleton (.literal (.negative (hminus.spells_kind rfl hwrites) hl))⟩
      refine he [s.current, s.next.current] ?_
      exact hliteral.within ((Span.measures_singleton _).merge (Span.measures_singleton _)
        (List.cons_ne_nil _ _) (List.cons_ne_nil _ _) (List.prefix_append [_] [_]) (List.suffix_append [_] [_]))
    · refine .advanceText _ rfl hwrites ((hsub _ _).bind fun e s' => .pure ?_)
      intro ts he hop
      have hspan := (Span.measures_singleton s.current).merge (Expr.measures he) hop.nonempty he.nonempty
        (List.prefix_append _ ts) (List.suffix_append _ _)
      rw [List.append_nil]
      exact (hop.append he.covers).within hspan

/-! ## Operators -/

theorem operator_reads (power : Nat) (e : Expr) :
    Reads (operator? sub power e) fun e' ts => Extends e (e'.getD e) ts := by
  intro s
  unfold operator?
  refine .peek rfl ?_
  split
  · next op hop =>
    refine .ite (fun _ => .pure (.refl e)) fun _ => ?_
    refine .advanceText _ rfl (AssignOp.writes_of_ofToken? hop) ((hsub _ _).bind fun value s => .pure ?_)
    intro ts hvalue hop us he
    rw [List.append_nil]
    exact (he.append (hop.append hvalue.covers).covers).within (Expr.reaches he hvalue (List.suffix_append _ ts))
  · next op _ hop =>
    refine .ite (fun _ => .pure (.refl e)) fun _ => ?_
    refine .advanceText _ rfl (BinaryOp.writes_of_ofToken? hop) ((hsub _ _).bind fun right s => .pure ?_)
    intro ts hright hop us he
    rw [List.append_nil]
    exact (he.append (hop.append hright.covers).covers).within (Expr.reaches he hright (List.suffix_append _ ts))
  · refine .ite (fun _ => .pure (.refl e)) fun hquestion => ?_
    have hkind : s.current.kind = .question := not_not.mp (not_or.mp hquestion).1
    refine .advanceText "?" hkind (by decide) ((hsub _ _).bind fun yes s => ?_)
    refine (expect_reads ":" (by decide) s).bind fun colon s => (hsub _ s).bind fun no s => .pure ?_
    rintro ts₃ hno _ ⟨rfl, hcolon⟩ ts₁ hyes hmark us he
    have hparts := he.append (hmark.append (hyes.append (hcolon.append hno.covers).covers).covers).covers
    have hlast : ts₃ <:+ ts₁ ++ ([colon] ++ ts₃) :=
      List.suffix_append_of_suffix (List.suffix_append _ ts₃)
    rw [List.append_nil]
    exact hparts.within (Expr.reaches he hno (List.suffix_append_of_suffix hlast))

theorem operators_reads (power : Nat) : Reads (operators sub power) fun e ts => Filled [e.outline] ts := by
  intro s
  unfold operators
  refine (operand_reads hsub s).bind fun e s => ?_
  refine (iterate_reads Extends.refl Extends.trans (operator_reads hsub power) s).mono ?_
  exact fun e' ts' _ hextends ts he => hextends ts he

end

/-- An expression takes the tokens of its outline. -/
theorem expr_reads (depth power : Nat) : Reads (expr depth power) fun e ts => Filled [e.outline] ts := by
  induction depth generalizing power with
  | zero => exact fun s => .failTooDeep
  | succ depth ih => exact operators_reads ih power

end Grammar
end ClassScript
