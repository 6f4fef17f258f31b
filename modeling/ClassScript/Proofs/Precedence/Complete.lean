import ClassScript.Proofs.Precedence.Sound
import ClassScript.Proofs.Reorder.Tree

/-!
Every well-shaped tree is read from its tokens.

The parser runs along the left edge of the tree: an operand starts it, and each access, call, step or
operator on the edge is a round of one of the two loops. The tokens that follow the tree go on with none
of its parts, so the loops end where the tree does.
-/

namespace ClassScript.Grammar

/-! ## Runs that succeed -/

/-- The run of `p` from `s` takes these tokens and gives this value. -/
structure Takes {α : Type} (p : Parse α) (s : State) (ts : List Token) (a : α) (s' : State) : Prop where
  run : p s = .ok a s'
  gives : s.Gives ts s'

section
variable {α β : Type} {p : Parse α} {f : α → Parse β} {s s' s'' : State} {ts us rest : List Token}
  {t : Token} {a : α} {b : β}

theorem State.Gives.leaves (h : s.Gives ts s') (hs : s.upcoming = ts ++ rest) : s'.upcoming = rest :=
  List.append_cancel_left (h.upcoming.symm.trans hs)

/-- What comes behind the tokens that were taken. -/
theorem State.Gives.kind (h : s.Gives ts s') (hs : s.Sound) (hupcoming : s.upcoming = ts ++ rest) :
    s'.current.kind = nextKind rest := by
  rw [(hs.gives h).current_kind, h.leaves hupcoming]

theorem State.takes_next (h : s.upcoming = t :: rest) : s.current = t ∧ s.Gives [t] s.next := by
  obtain ⟨previous, upcoming, eof, reports, bound⟩ := s
  cases h
  exact ⟨rfl, rfl, rfl, rfl, rfl⟩

namespace Takes

theorem pure (a : α) (s : State) : Takes (Pure.pure a) s [] a s := ⟨rfl, .nil s⟩

theorem bind (hp : Takes p s ts a s') (hf : Takes (f a) s' us b s'') :
    Takes (p >>= f) s (ts ++ us) b s'' :=
  ⟨bind_iff.mpr ⟨a, s', hp.run, hf.run⟩, hp.gives.trans hf.gives⟩

theorem map {g : α → β} (hp : Takes p s ts a s') :
    Takes (p >>= fun a => Pure.pure (g a)) s ts (g a) s' :=
  ⟨bind_iff.mpr ⟨a, s', hp.run, rfl⟩, hp.gives⟩

/-- A part that only looks. -/
theorem peek (hp : p s = .ok a s) (hf : Takes (f a) s ts b s') : Takes (p >>= f) s ts b s' :=
  ⟨bind_iff.mpr ⟨a, s, hp, hf.run⟩, hf.gives⟩

theorem advance (h : s.upcoming = t :: rest) : Takes Grammar.advance s [t] t s.next := by
  obtain ⟨hcurrent, hgives⟩ := State.takes_next h
  exact ⟨hcurrent ▸ advance_eq s, hgives⟩

theorem expect {k : TokenKind} (h : s.upcoming = t :: rest) (hkind : t.kind = k) :
    Takes (Grammar.expect k) s [t] t s.next := by
  obtain ⟨hcurrent, hgives⟩ := State.takes_next h
  refine ⟨?_, hgives⟩
  rw [Grammar.expect, if_pos (by rw [hcurrent, hkind]; exact beq_self_eq_true k), advance_eq, hcurrent]

theorem identifier {i : Ident} (h : s.upcoming = t :: rest) (ht : t.Spells i.name) (hi : i.IsName) :
    ∃ j, Takes Grammar.identifier s [t] j s.next ∧ j.placeless = i.placeless := by
  refine ⟨⟨t.lexeme, t.span⟩, (expect h (ht.kind.trans hi)).map, ?_⟩
  rw [Ident.placeless, ht.lexeme, Ident.placeless]

end Takes

theorem eat_takes (k : TokenKind) (h : s.upcoming = t :: rest) (hkind : t.kind = k) :
    Takes (eat k) s [t] true s.next := by
  have hat : at? k s = .ok true s := by
    rw [at?, (State.takes_next h).1, hkind, beq_self_eq_true]
  exact .peek hat (Takes.advance h).map

theorem eat_leaves {k : TokenKind} (hkind : s.current.kind ≠ k) : Takes (eat k) s [] false s := by
  have hat : at? k s = .ok false s := by
    rw [at?, beq_eq_false_iff_ne.mpr hkind]
  exact .peek hat (.pure _ _)

end

/-! ## Rounds of loops -/

inductive Rounds {α : Type} (step : α → Parse (Option α)) : α → State → List Token → α → State → Prop
  | refl (a : α) (s : State) : Rounds step a s [] a s
  | head {a b c : α} {s s' s'' : State} {ts us : List Token} (hstep : Takes (step a) s ts (some b) s')
      (hne : ts ≠ []) (hrest : Rounds step b s' us c s'') : Rounds step a s (ts ++ us) c s''

namespace Rounds

variable {α : Type} {step : α → Parse (Option α)} {a b c : α} {s s' s'' : State} {ts us : List Token}

theorem snoc (h : Rounds step a s ts b s') (hstep : Takes (step b) s' us (some c) s'')
    (hne : us ≠ []) : Rounds step a s (ts ++ us) c s'' := by
  induction h with
  | refl => simpa using head hstep hne (.refl c s'')
  | head hfirst hne' _ ih =>
    rw [List.append_assoc]
    exact head hfirst hne' (ih hstep)

theorem gives (h : Rounds step a s ts b s') : s.Gives ts s' := by
  induction h with
  | refl a s => exact .nil s
  | head hstep _ _ ih => exact hstep.gives.trans ih

/-- A loop ends where its step gives none, since each of its rounds takes a token. -/
theorem iterate (h : Rounds step a s ts b s') (hs : s.Sound) (hend : step b s' = .ok none s') :
    Takes (Grammar.iterate step a) s ts b s' := by
  refine ⟨?_, h.gives⟩
  unfold Grammar.iterate
  have hfuel : s.upcoming.length < s.bound + 1 := Nat.lt_succ_of_le hs.bound
  generalize s.bound + 1 = fuel at hfuel
  clear hs
  induction h generalizing fuel with
  | refl a s =>
    cases fuel with
    | zero => omega
    | succ fuel => simp only [repeatFrom, hend]
  | head hstep hne _ ih =>
    cases fuel with
    | zero => omega
    | succ fuel =>
      have hlength := congrArg List.length hstep.gives.upcoming
      rw [List.length_append] at hlength
      have hpos := List.length_pos_of_ne_nil hne
      simp only [repeatFrom, hstep.run]
      exact ih hend fuel (by omega)

end Rounds

/-! ## Lists -/

/-- What reads every tree of at most `depth` levels from its tokens. -/
def GivesTrees (depth : Nat) (sub : Nat → Parse Expr) : Prop :=
  ∀ ⦃power : Nat⦄ ⦃e : Expr⦄ ⦃ts rest : List Token⦄ ⦃s : State⦄, s.Sound →
    s.upcoming = ts ++ rest → e.Reading power ts (nextKind rest) → e.levels ≤ depth →
      ∃ e' s', Takes (sub power) s ts e' s' ∧ e'.placeless = e.placeless

theorem nextKind_continued {tss : List (List Token)} {us rest : List Token} (h : Continued tss us)
    (hrest : (nextKind rest).Closes) : (nextKind (us ++ rest)).Closes := by
  cases h with
  | nil => exact hrest
  | @cons comma ts us tss hcomma =>
    show comma.kind.Closes
    rw [hcomma.kind]
    decide

section
variable {depth : Nat} {sub : Nat → Parse Expr} (hsub : GivesTrees depth sub) {s : State}
  {es : List Expr} {tss : List (List Token)} {us rest : List Token}
include hsub

theorem commaRounds (hs : s.Sound) (hupcoming : s.upcoming = us ++ rest)
    (hcontinued : Continued tss us) (hreadings : Readings es tss)
    (hlevels : ∀ e ∈ es, e.levels ≤ depth) (hrest : (nextKind rest).Closes) (done : List Expr) :
    ∃ es' s', Rounds (commaRound (sub 0)) done s us (es'.reverse ++ done) s' ∧
      Expr.placelessAll es' = Expr.placelessAll es := by
  induction hcontinued generalizing s es done with
  | nil =>
    cases hreadings
    exact ⟨[], s, .refl done s, rfl⟩
  | @cons comma ts us tss hcomma hcontinued ih =>
    cases hreadings with
    | @cons e _ es _ he hreadings =>
      obtain ⟨hlevel, hes⟩ := List.forall_mem_cons.mp hlevels
      have hfirst := eat_takes .comma hupcoming (hcomma.kind.trans (by decide))
      have hs₁ := hs.gives hfirst.gives
      have hupcoming₁ : s.next.upcoming = ts ++ (us ++ rest) := by
        rw [← List.append_assoc]
        exact hfirst.gives.leaves hupcoming
      obtain ⟨e', s₂, hrun, he'⟩ := hsub hs₁ hupcoming₁
        (he.1.reading he.2 (nextKind_continued hcontinued hrest)) hlevel
      have hs₂ := hs₁.gives hrun.gives
      obtain ⟨es', s', hrounds, hes'⟩ :=
        ih hs₂ (hrun.gives.leaves hupcoming₁) hreadings hes (e' :: done)
      refine ⟨e' :: es', s', ?_, ?_⟩
      · have hround : Takes (commaRound (sub 0) done) s (comma :: ts) (some (e' :: done)) s₂ := by
          exact .bind hfirst hrun.map
        rw [List.reverse_cons, List.append_assoc]
        exact .head hround (by simp) hrounds
      · rw [Expr.placelessAll, Expr.placelessAll, he', hes']

theorem commaList_takes (hs : s.Sound) (hupcoming : s.upcoming = us ++ rest) (hne : es ≠ [])
    (hlisted : Listed tss us) (hreadings : Readings es tss) (hlevels : ∀ e ∈ es, e.levels ≤ depth)
    (hrest : (nextKind rest).Closes) (hcomma : nextKind rest ≠ .comma) :
    ∃ es' s', Takes (commaList (sub 0)) s us es' s' ∧
      Expr.placelessAll es' = Expr.placelessAll es := by
  cases hreadings with
  | nil => exact absurd rfl hne
  | @cons e ts es tss he hreadings =>
    cases hlisted with
    | @cons _ us _ hcontinued =>
      obtain ⟨hlevel, hes⟩ := List.forall_mem_cons.mp hlevels
      rw [List.append_assoc] at hupcoming
      obtain ⟨e', s₁, hrun, he'⟩ := hsub hs hupcoming
        (he.1.reading he.2 (nextKind_continued hcontinued hrest)) hlevel
      have hs₁ := hs.gives hrun.gives
      have hupcoming₁ := hrun.gives.leaves hupcoming
      obtain ⟨es', s', hrounds, hes'⟩ :=
        commaRounds hsub hs₁ hupcoming₁ hcontinued hreadings hes hrest [e']
      refine ⟨e' :: es', s', ?_, ?_⟩
      · have hkind : s'.current.kind ≠ .comma := by rwa [hrounds.gives.kind hs₁ hupcoming₁]
        have hend : commaRound (sub 0) (es'.reverse ++ [e']) s' = .ok none s' :=
          bind_iff.mpr ⟨false, s', (eat_leaves hkind).run, rfl⟩
        have hall : e' :: es' = (es'.reverse ++ [e']).reverse := by simp
        rw [hall, commaList_eq]
        exact hrun.bind (hrounds.iterate hs₁ hend).map
      · rw [Expr.placelessAll, Expr.placelessAll, he', hes']

theorem arguments_takes {left right : Token} (hs : s.Sound)
    (hupcoming : s.upcoming = left :: (us ++ right :: rest)) (hleft : left.Spells "(")
    (hright : right.Spells ")") (hlisted : Listed tss us) (hreadings : Readings es tss)
    (hlevels : ∀ e ∈ es, e.levels ≤ depth) :
    ∃ es' s', Takes (arguments sub) s (left :: (us ++ [right])) es' s' ∧
      Expr.placelessAll es' = Expr.placelessAll es := by
  have hfirst : Takes (expect .leftParen) s [left] left s.next :=
    .expect hupcoming (hleft.kind.trans (by decide))
  have hs₁ := hs.gives hfirst.gives
  have hupcoming₁ : s.next.upcoming = us ++ right :: rest := hfirst.gives.leaves hupcoming
  have hright : right.kind = .rightParen := hright.kind.trans (by decide)
  obtain rfl | hne := eq_or_ne es []
  · cases hreadings
    cases hlisted
    refine ⟨[], s.next.next, .bind hfirst (.peek rfl ?_), rfl⟩
    extract_lets behind
    rw [if_pos (by rw [(State.takes_next hupcoming₁).1, hright, beq_self_eq_true])]
    exact (Takes.expect hupcoming₁ hright).map
  · have hopen : s.next.current.kind ≠ .rightParen := by
      rw [hs₁.current_kind, hupcoming₁]
      cases hreadings with
      | nil => exact absurd rfl hne
      | cons he =>
        cases hlisted with
        | cons =>
          rw [List.append_assoc, nextKind_append _ he.1.ne_nil]
          exact he.2.begins he.1
    have hcloses : nextKind (right :: rest) = .rightParen := hright
    obtain ⟨es', s₂, hrun, hes'⟩ := commaList_takes hsub hs₁ hupcoming₁ hne hlisted hreadings hlevels
      (by rw [hcloses]; decide) (by rw [hcloses]; decide)
    refine ⟨es', s₂.next, .bind hfirst (.peek rfl ?_), hes'⟩
    extract_lets behind
    rw [if_neg (by simpa using hopen)]
    exact hrun.bind (Takes.expect (hrun.gives.leaves hupcoming₁) hright).map

end

/-! ## Literals -/

section
variable {l : Literal} {t : Token}

theorem isInteger_of_isInteger {n : Int} (h : l.IsInteger t.kind n) :
    t.kind = .intLiteral ∨ t.kind = .longLiteral := by
  cases h with
  | int hkind => exact .inl hkind
  | long hkind => exact hkind.symm.imp_left And.left

/-- A single token that denotes a literal has the kind of one. -/
theorem isLiteral_of_spelled (h : l.Spelled [t]) : t.kind.isLiteral := by
  cases h with
  | integer h => obtain hkind | hkind := isInteger_of_isInteger h <;> rw [hkind] <;> rfl
  | real hkind | string hkind => rw [hkind]; rfl
  | @bool b _ h =>
    rw [h.kind]
    cases b <;> decide

theorem literal_takes {s : State} {rest : List Token} (hupcoming : s.upcoming = t :: rest)
    (h : l.Spelled [t]) : ∃ sp, Takes literal s [t] (.literal l sp) s.next := by
  obtain ⟨rfl, hgives⟩ := State.takes_next hupcoming
  refine ⟨s.current.span, .peek rfl ?_⟩
  rw [if_pos (isLiteral_of_spelled h)]
  refine .bind (.advance hupcoming) ?_
  have hwhole {p : Parse Literal} (hp : p s.next = .ok l s.next) :
      Takes (p >>= fun l => pure (Expr.literal l s.current.span)) s.next [] (.literal l s.current.span)
        s.next := Takes.map ⟨hp, .nil _⟩
  cases h with
  | integer h =>
    have hkind := isInteger_of_isInteger h
    have hl : integerLiteral false s.current s.next = .ok l s.next :=
      (integerLiteral_iff hkind).mpr ⟨h, rfl⟩
    have hl := hwhole hl
    obtain hkind | hkind := hkind <;> simpa only [hkind] using hl
  | @real d _ hkind hvalue =>
    rw [Token.double?] at hvalue
    simp only [hkind]
    exact hwhole (by simp only [realLiteral, hvalue]; rfl)
  | string hkind hvalue =>
    simp only [hkind, hvalue]
    exact hwhole rfl
  | @bool b _ h =>
    simp only [h.kind]
    cases b <;> exact hwhole rfl

end

/-! ## Operands -/

/-- Rounds of accesses, calls and steps behind the operand that an expression begins with. -/
def Chains (sub : Nat → Parse Expr) (s : State) (e : Expr) (ts : List Token) : Prop :=
  ∃ o s₁ us vs e' s', operand sub s = iterate (suffix? sub) o s₁ ∧ s.Gives us s₁ ∧
    Rounds (suffix? sub) o s₁ vs e' s' ∧ us ++ vs = ts ∧ e'.placeless = e.placeless

section
variable {sub : Nat → Parse Expr} {s s' : State} {e o : Expr} {t : Token} {ts us rest : List Token}

theorem Chains.start (h : operand sub s = iterate (suffix? sub) o s') (hgives : s.Gives ts s')
    (ho : o.placeless = e.placeless) : Chains sub s e ts :=
  ⟨o, s', ts, [], o, s', h, hgives, .refl o s', List.append_nil ts, ho⟩

/-- An operand without a sign begins the expression. -/
theorem Chains.primary (hkind : UnaryOp.ofToken? s.current.kind = none)
    (h : Takes (primary sub) s ts o s') (ho : o.placeless = e.placeless) : Chains sub s e ts := by
  refine .start ?_ h.gives ho
  simp only [operand, look, Bind.bind, Parse.bind, hkind, h.run]

theorem Chains.snoc {e₂ : Expr} (h : Chains sub s e ts) (hs : s.Sound)
    (hupcoming : s.upcoming = ts ++ us ++ rest) (hne : us ≠ [])
    (hstep : ∀ e' s₁, s₁.Sound → s₁.upcoming = us ++ rest → e'.placeless = e.placeless →
      ∃ e'' s₂, Takes (suffix? sub e') s₁ us (some e'') s₂ ∧ e''.placeless = e₂.placeless) :
    Chains sub s e₂ (ts ++ us) := by
  obtain ⟨o, s₁, us', vs, e', s', hoperand, hgives, hrounds, rfl, he'⟩ := h
  have hgives' := hgives.trans hrounds.gives
  obtain ⟨e'', s₂, hrun, he''⟩ := hstep e' s' (hs.gives hgives')
    (hgives'.leaves (by rw [hupcoming, List.append_assoc])) he'
  exact ⟨o, s₁, us', vs ++ us, e'', s₂, hoperand, hgives, hrounds.snoc hrun hne,
    (List.append_assoc ..).symm, he''⟩

theorem literal_chains {l : Literal} {sp : Span} (hupcoming : s.upcoming = t :: rest)
    (h : l.Spelled [t]) : Chains sub s (.literal l sp) [t] := by
  obtain ⟨hcurrent, -⟩ := State.takes_next hupcoming
  obtain ⟨sp', hrun⟩ := literal_takes hupcoming h
  have hliteral : s.current.kind.isLiteral := hcurrent ▸ isLiteral_of_spelled h
  have hprimary : Takes (primary sub) s [t] (.literal l sp') s.next := by
    refine .peek rfl ?_
    split
    case h_4 =>
      refine .peek rfl ?_
      rw [if_neg]
      · exact hrun
      intro ⟨htype, _⟩
      revert hliteral htype
      generalize s.current.kind = k
      cases k <;> decide
    all_goals
      next hkind =>
      rw [hkind] at hliteral
      cases hliteral
  refine .primary ?_ hprimary rfl
  revert hliteral
  generalize s.current.kind = k
  cases k <;> decide

theorem typeName_chains {i : Ident} (hs : s.Sound) (hupcoming : s.upcoming = t :: rest)
    (ht : t.Spells i.name) (hi : i.IsTypeName) (hdot : nextKind rest = .dot) :
    Chains sub s (.ident i) [t] := by
  obtain ⟨rfl, -⟩ := State.takes_next hupcoming
  have htype : s.current.kind.isType := ht.kind ▸ hi.isType
  have hprimary : Takes (primary sub) s [s.current] (.ident ⟨s.current.lexeme, s.current.span⟩)
      s.next := by
    refine .peek rfl ?_
    split
    case h_4 =>
      refine .peek rfl ?_
      have hahead : (s.ahead 1).kind = .dot := by
        rw [hs.ahead_kind, hupcoming]
        exact hdot
      rw [if_pos ⟨htype, ht.kind ▸ hi.noVoid, hahead⟩]
      exact (Takes.advance hupcoming).map
    all_goals
      next hkind =>
      rw [hkind] at htype
      cases htype
  refine .primary ?_ hprimary ?_
  · revert htype
    generalize s.current.kind = k
    cases k <;> decide
  · rw [Expr.placeless, Expr.placeless, Ident.placeless, Ident.placeless, ht.lexeme]

theorem ident_chains {i : Ident} (hupcoming : s.upcoming = t :: rest) (ht : t.Spells i.name)
    (hi : i.IsName) : Chains sub s (.ident i) [t] := by
  obtain ⟨rfl, -⟩ := State.takes_next hupcoming
  have hkind : s.current.kind = .identifier := ht.kind.trans hi
  have hprimary : Takes (primary sub) s [s.current] (.ident ⟨s.current.lexeme, s.current.span⟩)
      s.next := by
    refine .peek rfl ?_
    simp only [hkind]
    exact (Takes.advance hupcoming).map
  refine .primary (by rw [hkind]; rfl) hprimary ?_
  rw [Expr.placeless, Expr.placeless, Ident.placeless, Ident.placeless, ht.lexeme]

theorem this_chains {sp : Span} (hupcoming : s.upcoming = t :: rest) (ht : t.Spells "this") :
    Chains sub s (.this sp) [t] := by
  obtain ⟨rfl, -⟩ := State.takes_next hupcoming
  have hkind : s.current.kind = .kwThis := ht.kind.trans (by decide)
  have hprimary : Takes (primary sub) s [s.current] (.this s.current.span) s.next := by
    refine .peek rfl ?_
    simp only [hkind]
    exact (Takes.advance hupcoming).map
  exact .primary (by rw [hkind]; rfl) hprimary rfl

/-- A number with its minus begins the expression. -/
theorem signed_chains {l : Literal} {sp : Span} {minus : Token} (hs : s.Sound)
    (hupcoming : s.upcoming = minus :: t :: rest) (hminus : minus.Spells "-")
    (hl : l.IsInteger t.kind (-t.magnitude)) (hdot : nextKind rest ≠ .dot) :
    Chains sub s (.literal l sp) [minus, t] := by
  obtain ⟨rfl, hgives⟩ := State.takes_next hupcoming
  have hupcoming₁ : s.next.upcoming = t :: rest := hgives.leaves hupcoming
  obtain ⟨rfl, hgives'⟩ := State.takes_next hupcoming₁
  have hop : UnaryOp.ofToken? s.current.kind = some .neg := by
    rw [hminus.kind]
    decide
  have hkind := isInteger_of_isInteger hl
  have hvalue : integerLiteral true s.next.current s.next.next = .ok l s.next.next :=
    (integerLiteral_iff hkind).mpr ⟨hl, rfl⟩
  have hnumber : (s.ahead 1).kind = .intLiteral ∨ (s.ahead 1).kind = .longLiteral :=
    s.current_next ▸ hkind
  have hahead : (s.ahead 2).kind ≠ .dot := by
    rw [hs.ahead_kind, hupcoming]
    exact hdot
  have hoperand : operand sub s =
      iterate (suffix? sub) (.literal l (s.current.span.merge s.next.current.span)) s.next.next := by
    simp only [operand, look, lookAhead, Bind.bind, Parse.bind, hop]
    rw [if_pos ⟨trivial, hnumber, hahead⟩]
    simp only [Parse.bind, advance_eq, hvalue]
  exact .start hoperand (hgives.trans hgives') rfl

theorem post_takes {op : PostfixOp} {sp : Span} {e' : Expr} (hupcoming : s.upcoming = t :: rest)
    (ht : t.Spells op.spelling) (he : e'.placeless = e.placeless) :
    ∃ e'' s', Takes (suffix? sub e') s [t] (some e'') s' ∧
      e''.placeless = (Expr.post op e sp).placeless := by
  obtain ⟨rfl, -⟩ := State.takes_next hupcoming
  refine ⟨.post op e' (e'.span.merge s.current.span), s.next, .peek rfl ?_, ?_⟩
  · rw [ht.kind]
    cases op <;> exact (Takes.advance hupcoming).map
  · rw [Expr.placeless, Expr.placeless, he]

theorem member_takes {dot : Token} {i : Ident} {sp : Span} {e' : Expr}
    (hupcoming : s.upcoming = dot :: t :: rest) (hdot : dot.kind = .dot) (ht : t.Spells i.name)
    (hi : i.IsName) (he : e'.placeless = e.placeless) :
    ∃ e'' s', Takes (suffix? sub e') s [dot, t] (some e'') s' ∧
      e''.placeless = (Expr.member e i sp).placeless := by
  obtain ⟨rfl, hgives⟩ := State.takes_next hupcoming
  have hupcoming₁ : s.next.upcoming = t :: rest := hgives.leaves hupcoming
  obtain ⟨j, hrun, hj⟩ := Takes.identifier hupcoming₁ ht hi
  refine ⟨.member e' j (e'.span.merge j.span), s.next.next, .peek rfl ?_, ?_⟩
  · simp only [hdot]
    exact .bind (.advance hupcoming) hrun.map
  · rw [Expr.placeless, Expr.placeless, he, hj]

theorem suffix_ends (hkind : s.current.kind.isSuffix = false) : suffix? sub e s = .ok none s := by
  obtain ⟨⟨hdot, hparen⟩, hpost⟩ := by
    simpa only [TokenKind.isSuffix, Bool.or_eq_false_iff, beq_eq_false_iff_ne,
      Option.isSome_eq_false_iff, Option.isNone_iff_eq_none] using hkind
  suffices Takes (suffix? sub e) s [] none s from this.run
  refine .peek rfl ?_
  split
  · next h => exact absurd h hdot
  · next h => exact absurd h hparen
  · simp only [hpost]
    exact .pure _ _

end

section
variable {depth : Nat} {sub : Nat → Parse Expr} (hsub : GivesTrees depth sub)
include hsub

theorem paren_chains {e : Expr} {sp : Span} {left right : Token} {ts rest : List Token} {s : State}
    (hs : s.Sound) (hupcoming : s.upcoming = left :: (ts ++ right :: rest)) (hleft : left.Spells "(")
    (hwritten : e.Written ts) (hshaped : e.WellShaped) (hright : right.Spells ")")
    (hlevels : e.levels ≤ depth) : Chains sub s (.paren e sp) (left :: (ts ++ [right])) := by
  obtain ⟨rfl, hgives⟩ := State.takes_next hupcoming
  have hs₁ := hs.gives hgives
  have hupcoming₁ : s.next.upcoming = ts ++ right :: rest := hgives.leaves hupcoming
  have hkind : s.current.kind = .leftParen := hleft.kind.trans (by decide)
  have hcloses : nextKind (right :: rest) = .rightParen := hright.kind.trans (by decide)
  obtain ⟨e', s₂, hrun, he'⟩ := hsub hs₁ hupcoming₁
    (hwritten.reading hshaped (by rw [hcloses]; decide)) hlevels
  have hlast := Takes.expect (hrun.gives.leaves hupcoming₁) hcloses
  have hprimary : Takes (primary sub) s (s.current :: (ts ++ [right]))
      (.paren e' (s.current.span.merge s₂.next.last.span)) s₂.next := by
    refine .peek rfl ?_
    simp only [hkind]
    exact .bind (.advance hupcoming) (.bind hrun (.bind hlast (.peek rfl (.pure _ _))))
  exact .primary (by rw [hkind]; rfl) hprimary (by rw [Expr.placeless, Expr.placeless, he'])

theorem call_takes {s : State} {e e' : Expr} {args : List Expr} {sp : Span} {left right : Token}
    {us rest : List Token} {tss : List (List Token)} (hs : s.Sound)
    (hupcoming : s.upcoming = left :: (us ++ right :: rest)) (hleft : left.Spells "(")
    (hright : right.Spells ")") (hlisted : Listed tss us) (hreadings : Readings args tss)
    (hlevels : ∀ a ∈ args, a.levels ≤ depth) (he : e'.placeless = e.placeless) :
    ∃ e'' s', Takes (suffix? sub e') s (left :: (us ++ [right])) (some e'') s' ∧
      e''.placeless = (Expr.call e args sp).placeless := by
  obtain ⟨args', s', hrun, hargs⟩ :=
    arguments_takes hsub hs hupcoming hleft hright hlisted hreadings hlevels
  have hkind : s.current.kind = .leftParen := by
    rw [(State.takes_next hupcoming).1, hleft.kind]
    decide
  refine ⟨.call e' args' (e'.span.merge s'.last.span), s', .peek rfl ?_, ?_⟩
  · simp only [hkind]
    rw [← List.append_nil (left :: (us ++ [right]))]
    exact hrun.bind (.peek rfl (.pure _ _))
  · rw [Expr.placeless, Expr.placeless, he, hargs]

theorem grows_chains {s : State} {e : Expr} {ts rest : List Token} (hs : s.Sound)
    (hupcoming : s.upcoming = ts ++ rest) (he : Grows e ts (nextKind rest))
    (hlevels : e.inner ≤ depth) : Chains sub s e ts := by
  have hwritten := he.written
  induction hwritten generalizing rest with
  | literal h =>
    cases h with
    | integer h => exact literal_chains hupcoming (.integer h)
    | real hkind hvalue => exact literal_chains hupcoming (.real hkind hvalue)
    | bool h => exact literal_chains hupcoming (.bool h)
    | string hkind hvalue => exact literal_chains hupcoming (.string hkind hvalue)
    | @negative _ minus t hminus hl =>
      refine signed_chains hs hupcoming hminus hl (he.signed ⟨minus, t, rfl, ?_⟩)
      exact TokenKind.isInteger_iff.mpr (isInteger_of_isInteger hl)
  | @ident i t h =>
    obtain hshaped | ⟨⟨j, heq, htype⟩, hdot⟩ := he.shaped
    · cases hshaped with
      | ident hname => exact ident_chains hupcoming h hname
    · cases heq
      exact typeName_chains hs hupcoming h htype hdot
  | this h => exact this_chains hupcoming h
  | paren hleft hwritten hright =>
    cases he.complete nofun with
    | paren hshaped =>
      exact paren_chains hsub hs (by simpa using hupcoming) hleft hwritten hshaped hright hlevels
  | binary | assign | conditional | unary => cases he.object
  | @post op e sp t ts h ht ih =>
    cases he.complete nofun with
    | post hshaped hobject =>
      have hkind : t.kind ≠ .dot := by
        rw [ht.kind]
        cases op <;> decide
      have hgrows : Grows e ts (nextKind (t :: rest)) := ⟨h, hobject, .inl hshaped, fun _ => hkind⟩
      exact (ih (by simpa using hupcoming) hgrows hlevels).snoc hs hupcoming (by simp)
        fun e' s₁ _ hupcoming₁ he' => post_takes hupcoming₁ ht he'
  | @call e args sp left right ts us tss h hleft hlength hargs hlisted hright ih =>
    cases he.complete nofun with
    | call hshaped hobject hwell =>
      have hkind : left.kind ≠ .dot := by
        rw [hleft.kind]
        decide
      have hgrows : Grows e ts (nextKind (left :: (us ++ right :: rest))) :=
        ⟨h, hobject, .inl hshaped, fun _ => hkind⟩
      have hreadings : Readings args tss := List.forall₂_iff_zip.mpr
        ⟨hlength, fun {a us} hmem => ⟨hargs a us hmem, hwell a (List.of_mem_zip hmem).1⟩⟩
      obtain ⟨hinner, hdeep⟩ := Nat.max_le.mp hlevels
      refine (ih (by simpa using hupcoming) hgrows hinner).snoc hs hupcoming (by simp) ?_
      intro e' s₁ hs₁ hupcoming₁ he'
      exact call_takes hsub hs₁ (by simpa using hupcoming₁) hleft hright hlisted hreadings
        (Expr.levelsOf_le.mp hdeep) he'
  | @member e i sp dot t ts h hsigned hdot ht ih =>
    have hkind : dot.kind = .dot := hdot.kind.trans (by decide)
    have hgrows : Grows e ts (nextKind (dot :: t :: rest)) ∧ i.IsName := by
      cases he.complete nofun with
      | member hshaped hobject hname =>
        exact ⟨⟨h, hobject, .inl hshaped, fun hnumber => absurd hnumber hsigned⟩, hname⟩
      | @typeMember j _ _ htype hname =>
        exact ⟨⟨h, rfl, .inr ⟨⟨j, rfl, htype⟩, hkind⟩, fun hnumber => absurd hnumber hsigned⟩, hname⟩
    exact (ih (by simpa using hupcoming) hgrows.1 hlevels).snoc hs hupcoming (by simp)
      fun e' s₁ _ hupcoming₁ he' => member_takes hupcoming₁ hkind ht hgrows.2 he'

/-- An operand is read from its tokens where no access, call or step follows. -/
theorem operand_takes {s : State} {e : Expr} {ts rest : List Token} (hs : s.Sound)
    (hupcoming : s.upcoming = ts ++ rest) (hwritten : e.Written ts) (hshaped : e.WellShaped)
    (hnone : e.powers? = none) (hrest : (nextKind rest).isSuffix = false) (hlevels : e.inner ≤ depth) :
    ∃ e' s', Takes (operand sub) s ts e' s' ∧ e'.placeless = e.placeless := by
  have hdot : nextKind rest ≠ .dot := by
    intro hdot
    rw [hdot] at hrest
    cases hrest
  have hchain (hobject : e.isPostfix) :
      ∃ e' s', Takes (operand sub) s ts e' s' ∧ e'.placeless = e.placeless := by
    obtain ⟨o, s₁, us, vs, e', s', hoperand, hgives, hrounds, rfl, he'⟩ :=
      grows_chains hsub hs hupcoming ⟨hwritten, hobject, .inl hshaped, fun _ => hdot⟩ hlevels
    have hend : suffix? sub e' s' = .ok none s' :=
      suffix_ends (by rwa [(hgives.trans hrounds.gives).kind hs hupcoming])
    have hloop := hrounds.iterate (hs.gives hgives) hend
    exact ⟨e', s', ⟨hoperand.trans hloop.run, hgives.trans hloop.gives⟩, he'⟩
  cases hshaped with
  | literal | ident | this | paren | post | call | member | typeMember => exact hchain rfl
  | binary | assign | conditional => cases hnone
  | @unary op e sp hshaped hoperand =>
    cases hwritten with
    | @unary _ _ _ t ts ht hwritten hminus =>
      obtain ⟨rfl, hgives⟩ := State.takes_next hupcoming
      have hs₁ := hs.gives hgives
      have hupcoming₁ : s.next.upcoming = ts ++ rest := hgives.leaves hupcoming
      have hbinds := hshaped.binds hoperand
      have hreading : e.Reading UnaryOp.power ts (nextKind rest) :=
        ⟨hwritten, hshaped, (hbinds _).1, fun p _ => (hbinds p.1).2, hrest,
          fun _ => TokenKind.powers?_lt⟩
      obtain ⟨e', s', hrun, he'⟩ := hsub hs₁ hupcoming₁ hreading hlevels
      have hop : UnaryOp.ofToken? s.current.kind = some op := by
        rw [ht.kind]
        cases op <;> decide
      have hsign : ¬(op = .neg ∧ ((s.ahead 1).kind = .intLiteral ∨ (s.ahead 1).kind = .longLiteral) ∧
          (s.ahead 2).kind ≠ .dot) := by
        intro ⟨hneg, hnumber, hahead⟩
        refine hminus hneg ((beginsWithNumber_append hwritten.ne_nil hdot).mp ⟨?_, ?_⟩)
        · rw [← TokenKind.isInteger_iff, hs.ahead_kind, hupcoming] at hnumber
          exact hnumber
        · rw [hs.ahead_kind, hupcoming] at hahead
          exact hahead
      refine ⟨.unary op e' (s.current.span.merge e'.span), s', .peek rfl ?_, ?_⟩
      · simp only [hop]
        refine .peek rfl (.peek rfl ?_)
        rw [if_neg hsign]
        exact .bind (.advance hupcoming) hrun.map
      · rw [Expr.placeless, Expr.placeless, he']

end

/-! ## Operators -/

/-- The operands of an operator are in front of tokens that go on with none of their parts. -/
theorem Climbs.operands {power : Nat} {e l r : Expr} {ts us vs : List Token} {p : Nat × Nat}
    {k next : TokenKind} (h : Climbs power e vs next) (hp : e.powers? = some p)
    (hleft : e.leftEdge = e :: l.leftEdge) (hright : e.rightEdge = e :: r.rightEdge)
    (hl : l.Written ts) (hlshaped : l.WellShaped) (hlbinds : l.RightBinds p.1) (hr : r.Written us)
    (hrshaped : r.WellShaped) (hrbinds : r.LeftBinds p.2) (hk : k.powers? = some p)
    (hsuffix : k.isSuffix = false) :
    power ≤ p.1 ∧ Climbs power l ts k ∧ r.Reading p.2 us next := by
  have hself : e ∈ e.leftEdge ∧ e ∈ e.rightEdge := by
    rw [hleft, hright]
    exact ⟨List.mem_cons_self, List.mem_cons_self⟩
  have hl_edge (x : Expr) (hx : x ∈ l.leftEdge) : x ∈ e.leftEdge :=
    hleft ▸ List.mem_cons_of_mem _ hx
  have hr_edge (x : Expr) (hx : x ∈ r.rightEdge) : x ∈ e.rightEdge :=
    hright ▸ List.mem_cons_of_mem _ hx
  refine ⟨h.left e hself.1 p hp, ⟨hl, hlshaped, fun x hx => h.left x (hl_edge x hx), ?_, hsuffix⟩,
    ⟨hr, hrshaped, hrbinds, fun q hq x hx => h.right q hq x (hr_edge x hx), h.suffix, fun q hq => ?_⟩⟩
  · intro q hq
    rw [hk] at hq
    cases hq
    exact hlbinds
  · exact h.right q hq e hself.2 p hp

/-- Rounds of operators behind the operand that an expression begins with. -/
def Mounts (sub : Nat → Parse Expr) (power : Nat) (s : State) (e : Expr) (ts : List Token) : Prop :=
  ∃ o s₁ us vs e' s', Takes (operand sub) s us o s₁ ∧ Rounds (operator? sub power) o s₁ vs e' s' ∧
    us ++ vs = ts ∧ e'.placeless = e.placeless

section
variable {sub : Nat → Parse Expr} {power : Nat} {s : State} {e e' : Expr} {t : Token}
  {ts us rest : List Token}

theorem Mounts.snoc {e₂ : Expr} (h : Mounts sub power s e ts) (hs : s.Sound)
    (hupcoming : s.upcoming = ts ++ us ++ rest) (hne : us ≠ [])
    (hstep : ∀ e' s₁, s₁.Sound → s₁.upcoming = us ++ rest → e'.placeless = e.placeless →
      ∃ e'' s₂, Takes (operator? sub power e') s₁ us (some e'') s₂ ∧ e''.placeless = e₂.placeless) :
    Mounts sub power s e₂ (ts ++ us) := by
  obtain ⟨o, s₁, us', vs, e', s', hoperand, hrounds, rfl, he'⟩ := h
  have hgives := hoperand.gives.trans hrounds.gives
  obtain ⟨e'', s₂, hrun, he''⟩ := hstep e' s' (hs.gives hgives)
    (hgives.leaves (by rw [hupcoming, List.append_assoc])) he'
  exact ⟨o, s₁, us', vs ++ us, e'', s₂, hoperand, hrounds.snoc hrun hne, (List.append_assoc ..).symm,
    he''⟩

theorem operator_ends (h : ∀ p, s.current.kind.powers? = some p → p.1 < power) :
    operator? sub power e s = .ok none s := by
  suffices Takes (operator? sub power e) s [] none s from this.run
  refine .peek rfl ?_
  split
  · next op hop =>
    rw [if_pos (h _ (by simp [TokenKind.powers?, hop]))]
    exact .pure _ _
  · next op hnone hop =>
    rw [if_pos (h _ (by simp [TokenKind.powers?, hop, hnone]))]
    exact .pure _ _
  · next hnone hnone' =>
    rw [if_pos]
    · exact .pure _ _
    · rw [← imp_iff_not_or]
      exact fun hkind => h _ (by rw [hkind]; rfl)

end

section
variable {depth : Nat} {sub : Nat → Parse Expr} (hsub : GivesTrees depth sub) {power : Nat} {s : State}
  {e l l' r : Expr} {sp : Span} {t : Token} {ts us rest : List Token}
include hsub

theorem binary_takes {op : BinaryOp} (hs : s.Sound) (hupcoming : s.upcoming = t :: (us ++ rest))
    (ht : t.Spells op.spelling) (hpower : power ≤ op.power.1)
    (hr : r.Reading op.power.2 us (nextKind rest)) (hlevels : r.levels ≤ depth) (hl : l'.placeless = l.placeless) :
    ∃ e' s', Takes (operator? sub power l') s (t :: us) (some e') s' ∧
      e'.placeless = (Expr.binary op l r sp).placeless := by
  obtain ⟨rfl, hgives⟩ := State.takes_next hupcoming
  have hop : AssignOp.ofToken? s.current.kind = none ∧ BinaryOp.ofToken? s.current.kind = some op := by
    rw [ht.kind]
    cases op <;> decide
  obtain ⟨r', s', hrun, hr'⟩ := hsub (hs.gives hgives) (hgives.leaves hupcoming) hr hlevels
  refine ⟨.binary op l' r' (l'.span.merge r'.span), s', .peek rfl ?_, ?_⟩
  · simp only [hop.1, hop.2]
    rw [if_neg (Nat.not_lt.mpr hpower)]
    exact .bind (.advance hupcoming) hrun.map
  · rw [Expr.placeless, Expr.placeless, hl, hr']

theorem assign_takes {op : AssignOp} (hs : s.Sound) (hupcoming : s.upcoming = t :: (us ++ rest))
    (ht : t.Spells op.spelling) (hpower : power ≤ AssignOp.power.1)
    (hr : r.Reading AssignOp.power.2 us (nextKind rest)) (hlevels : r.levels ≤ depth)
    (hl : l'.placeless = l.placeless) :
    ∃ e' s', Takes (operator? sub power l') s (t :: us) (some e') s' ∧
      e'.placeless = (Expr.assign op l r sp).placeless := by
  obtain ⟨rfl, hgives⟩ := State.takes_next hupcoming
  have hop : AssignOp.ofToken? s.current.kind = some op := by
    rw [ht.kind]
    cases op <;> decide
  obtain ⟨r', s', hrun, hr'⟩ := hsub (hs.gives hgives) (hgives.leaves hupcoming) hr hlevels
  refine ⟨.assign op l' r' (l'.span.merge r'.span), s', .peek rfl ?_, ?_⟩
  · simp only [hop]
    rw [if_neg (Nat.not_lt.mpr hpower)]
    exact .bind (.advance hupcoming) hrun.map
  · rw [Expr.placeless, Expr.placeless, hl, hr']

theorem conditional_takes {y : Expr} {colon : Token} {vs : List Token} (hs : s.Sound)
    (hupcoming : s.upcoming = t :: (us ++ colon :: (vs ++ rest))) (ht : t.Spells "?")
    (hcolon : colon.Spells ":") (hpower : power ≤ conditionalPower.1) (hy : y.Written us)
    (hyshaped : y.WellShaped) (hr : r.Reading conditionalPower.2 vs (nextKind rest))
    (hylevels : y.levels ≤ depth) (hlevels : r.levels ≤ depth) (hl : l'.placeless = l.placeless) :
    ∃ e' s', Takes (operator? sub power l') s (t :: (us ++ colon :: vs)) (some e') s' ∧
      e'.placeless = (Expr.conditional l y r sp).placeless := by
  obtain ⟨rfl, hgives⟩ := State.takes_next hupcoming
  have hs₁ := hs.gives hgives
  have hupcoming₁ : s.next.upcoming = us ++ colon :: (vs ++ rest) := hgives.leaves hupcoming
  have hkind : s.current.kind = .question := ht.kind.trans (by decide)
  have hcolon : colon.kind = .colon := hcolon.kind.trans (by decide)
  have hcloses : nextKind (colon :: (vs ++ rest)) = .colon := hcolon
  obtain ⟨y', s₂, hyrun, hy'⟩ := hsub hs₁ hupcoming₁
    (hy.reading hyshaped (by rw [hcloses]; decide)) hylevels
  have hupcoming₂ := hyrun.gives.leaves hupcoming₁
  have hcolonrun := Takes.expect hupcoming₂ hcolon
  have hs₃ := (hs₁.gives hyrun.gives).gives hcolonrun.gives
  obtain ⟨r', s', hrun, hr'⟩ := hsub hs₃ (hcolonrun.gives.leaves hupcoming₂) hr hlevels
  refine ⟨.conditional l' y' r' (l'.span.merge r'.span), s', .peek rfl ?_, ?_⟩
  · simp only [hkind]
    rw [if_neg (by simpa using hpower)]
    exact .bind (.advance hupcoming) (.bind hyrun (.bind hcolonrun hrun.map))
  · rw [Expr.placeless, Expr.placeless, hl, hy', hr']

theorem climbs_mounts {e : Expr} {ts rest : List Token} (hs : s.Sound)
    (hupcoming : s.upcoming = ts ++ rest) (he : Climbs power e ts (nextKind rest))
    (hlevels : e.inner ≤ depth) : Mounts sub power s e ts := by
  have hshaped := he.shaped
  induction hshaped generalizing ts rest with
  | literal | ident | this | paren | unary | post | call | member | typeMember =>
    obtain ⟨e', s', hrun, he'⟩ :=
      operand_takes hsub hs hupcoming he.written he.shaped rfl he.suffix hlevels
    exact ⟨e', s', ts, [], e', s', hrun, .refl e' s', List.append_nil ts, he'⟩
  | @binary op l r sp hl hr hleft hright ih =>
    cases he.written with
    | @binary _ _ _ _ t ts us hlwritten ht hrwritten =>
      obtain ⟨hllevels, hrlevels⟩ := Nat.max_le.mp hlevels
      have hkind : t.kind.powers? = some op.power ∧ t.kind.isSuffix = false := by
        rw [ht.kind]
        cases op <;> decide
      obtain ⟨hpower, hclimbs, hreading⟩ := he.operands rfl rfl rfl hlwritten hl hleft hrwritten hr
        hright hkind.1 hkind.2
      have hupcoming' : s.upcoming = ts ++ (t :: us ++ rest) := by simpa using hupcoming
      have hmounts := ih hupcoming' hclimbs hllevels
      exact hmounts.snoc hs hupcoming (by simp) fun l' s₁ hs₁ hupcoming₁ hl' =>
        binary_takes hsub hs₁ hupcoming₁ ht hpower hreading hrlevels hl'
  | @assign op l r sp hl hr hleft hright ih =>
    cases he.written with
    | @assign _ _ _ _ t ts us hlwritten ht hrwritten =>
      obtain ⟨hllevels, hrlevels⟩ := Nat.max_le.mp hlevels
      have hkind : t.kind.powers? = some AssignOp.power ∧ t.kind.isSuffix = false := by
        rw [ht.kind]
        cases op <;> decide
      obtain ⟨hpower, hclimbs, hreading⟩ := he.operands rfl rfl rfl hlwritten hl hleft hrwritten hr
        hright hkind.1 hkind.2
      have hupcoming' : s.upcoming = ts ++ (t :: us ++ rest) := by simpa using hupcoming
      have hmounts := ih hupcoming' hclimbs hllevels
      exact hmounts.snoc hs hupcoming (by simp) fun l' s₁ hs₁ hupcoming₁ hl' =>
        assign_takes hsub hs₁ hupcoming₁ ht hpower hreading hrlevels hl'
  | @conditional c y n sp hc hy hn hleft hright ih =>
    cases he.written with
    | @conditional _ _ _ _ mark colon ts us vs hcwritten hmark hywritten hcolon hnwritten =>
      obtain ⟨hclevels, hbranches⟩ := Nat.max_le.mp hlevels
      obtain ⟨hylevels, hnlevels⟩ := Nat.max_le.mp hbranches
      have hkind : mark.kind.powers? = some conditionalPower ∧ mark.kind.isSuffix = false := by
        rw [hmark.kind]
        decide
      obtain ⟨hpower, hclimbs, hreading⟩ := he.operands rfl rfl rfl hcwritten hc hleft hnwritten hn
        hright hkind.1 hkind.2
      have hupcoming' : s.upcoming = ts ++ (mark :: (us ++ colon :: vs) ++ rest) := by
        simpa using hupcoming
      have hmounts := ih hupcoming' hclimbs hclevels
      exact hmounts.snoc hs hupcoming (by simp) fun c' s₁ hs₁ hupcoming₁ hc' =>
        conditional_takes hsub hs₁ (by simpa using hupcoming₁) hmark hcolon hpower hywritten hy
          hreading hylevels hnlevels hc'

end

/-- Every well-shaped tree is read from its tokens. -/
theorem expr_givesTrees (depth : Nat) : GivesTrees depth (expr depth) := by
  induction depth with
  | zero => exact fun power e ts rest s _ _ _ hlevels => absurd hlevels (Nat.not_succ_le_zero _)
  | succ depth ih =>
    intro power e ts rest s hs hupcoming he hlevels
    obtain ⟨o, s₁, us, vs, e', s', hoperand, hrounds, rfl, he'⟩ :=
      climbs_mounts ih hs hupcoming ⟨he.written, he.shaped, he.left, he.right, he.ends.suffix⟩
        (Nat.le_of_succ_le_succ hlevels)
    have hend : operator? (expr depth) power e' s' = .ok none s' := operator_ends <| by
      rw [(hoperand.gives.trans hrounds.gives).kind hs hupcoming]
      exact he.ends.weaker
    exact ⟨e', s', hoperand.bind (hrounds.iterate (hs.gives hoperand.gives) hend), he'⟩

end ClassScript.Grammar
