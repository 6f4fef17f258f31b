import ClassScript.Proofs.Precedence.Shape
import ClassScript.Proofs.Spelling.Expression

/-!
What the expression parser gives is well shaped.

Every part of the parser is followed through a run: it takes the tokens that its tree is written as,
and what comes next is no token that the tree could have gone on with. The loop over operators keeps
that the operators at its right edge hold on to their operands, since the parts at that edge ended
in front of a token that binds less.
-/

namespace ClassScript.Grammar

/-! ## Runs -/

/-- Where `p` succeeds from `s`, its value and the state behind it are in the relation `Q`. -/
def After {α : Type} (s : State) (p : Parse α) (Q : α → State → Prop) : Prop :=
  ∀ a s', p s = .ok a s' → Q a s'

/-- What a round of a loop gives: it took some token, with the outcome `P`, or it stopped for the
reason `E`. -/
inductive Round {α : Type} (s : State) (P : α → List Token → State → Prop) (E : Prop) :
    Option α → State → Prop
  | more {b : α} {us : List Token} {s' : State} (hne : us ≠ []) (hgives : s.Gives us s')
      (h : P b us s') : Round s P E (some b) s'
  | done (h : E) : Round s P E none s

namespace After

variable {α β : Type} {s : State} {p : Parse α} {f : α → Parse β} {P P' : α → State → Prop}
  {Q : β → State → Prop}

theorem mono (h : After s p P) (hP : ∀ a s', P a s' → P' a s') : After s p P' :=
  fun a s' hp => hP a s' (h a s' hp)

theorem pure {a : α} (h : P a s) : After s (Pure.pure a) P := by
  intro b s' hp
  cases hp
  exact h

theorem bind (hp : After s p P) (hf : ∀ a s', P a s' → After s' (f a) Q) : After s (p >>= f) Q := by
  intro b s'' hrun
  simp only [Bind.bind, Parse.bind] at hrun
  split at hrun
  case h_1 a s' ha => exact hf a s' (hp a s' ha) b s'' hrun
  all_goals cases hrun

/-- A part that only looks. -/
theorem peek {a : α} (hp : p s = .ok a s) (hf : After s (f a) Q) : After s (p >>= f) Q := by
  intro b s' hrun
  simp only [Bind.bind, Parse.bind, hp] at hrun
  exact hf b s' hrun

theorem advance {f : Token → Parse β} (hf : After s.next (f s.current) Q) :
    After s (Grammar.advance >>= f) Q := by
  intro b s' hrun
  simp only [Bind.bind, Parse.bind, advance_eq] at hrun
  exact hf b s' hrun

theorem ite {c : Prop} [Decidable c] {q : Parse α} (hp : c → After s p P) (hq : ¬c → After s q P) :
    After s (if c then p else q) P := by
  by_cases hc : c
  · rw [if_pos hc]
    exact hp hc
  · rw [if_neg hc]
    exact hq hc

/-- The invariant of a loop, and why it ended. -/
theorem iterate {step : α → Parse (Option α)} {I : α → List Token → TokenKind → Prop}
    {E : TokenKind → Prop}
    (hstep : ∀ a ts s, s.Sound → I a ts s.current.kind → After s (step a)
      (Round s (fun b us s' => I b (ts ++ us) s'.current.kind) (E s.current.kind)))
    {a : α} {ts : List Token} (hs : s.Sound) (hI : I a ts s.current.kind) :
    After s (iterate step a) fun b s' =>
      ∃ us, s.Gives us s' ∧ I b (ts ++ us) s'.current.kind ∧ E s'.current.kind := by
  intro b s' h
  unfold Grammar.iterate at h
  have hfuel : s.upcoming.length < s.bound + 1 := Nat.lt_succ_of_le hs.bound
  generalize s.bound + 1 = fuel at h hfuel
  induction fuel generalizing a s ts with
  | zero => omega
  | succ fuel ih =>
    unfold repeatFrom at h
    split at h
    case h_1 c s₁ hc =>
      cases hstep a ts s hs hI _ s₁ hc with
      | more hne hgives hI' =>
        have hlength := congrArg List.length hgives.upcoming
        rw [List.length_append] at hlength
        have hpos := List.length_pos_of_ne_nil hne
        obtain ⟨vs, hgives', hb, hend⟩ := ih (hs.gives hgives) hI' h (by omega)
        exact ⟨_, hgives.trans hgives', by rwa [← List.append_assoc], hend⟩
    case h_2 s₁ hc =>
      cases hstep a ts s hs hI _ s₁ hc with
      | done hend =>
        cases h
        exact ⟨[], .nil _, by rwa [List.append_nil], hend⟩
    all_goals cases h

end After

section
variable {s : State} {k : TokenKind}

theorem State.Sound.current_kind (h : s.Sound) : s.current.kind = nextKind s.upcoming := by
  obtain ⟨previous, upcoming, eof, reports, bound⟩ := s
  cases upcoming with
  | nil => exact h.eof
  | cons t rest => rfl

theorem State.Sound.ahead_kind (h : s.Sound) (n : Nat) :
    (s.ahead n).kind = nextKind (s.upcoming.drop n) := by
  unfold State.ahead nextKind
  rw [List.head?_drop]
  cases s.upcoming[n]? with
  | none => exact h.eof
  | some t => rfl

theorem State.ahead_next (s : State) (n : Nat) : s.next.ahead n = s.ahead (n + 1) := by
  obtain ⟨previous, upcoming, eof, reports, bound⟩ := s
  cases upcoming <;> rfl

/-- The next token is a keyword or a symbol, and is taken. -/
theorem State.Sound.spells (hs : s.Sound) (text : String) (hkind : s.current.kind = k)
    (hk : k.Writes text) : s.current.Spells text ∧ s.Gives [s.current] s.next := by
  obtain ⟨hgives, hfaithful⟩ := hs.next (hkind ▸ hk.ne_eof)
  exact ⟨hfaithful.spells_kind hkind hk, hgives⟩

theorem expect_after (hplain : k.isPlain) : After s (expect k) fun t s' =>
    s.Sound → t.kind = k ∧ t.Faithful ∧ s.Gives [t] s' := by
  intro t s' h hs
  unfold expect at h
  split at h
  case isTrue hkind =>
    rw [advance_eq] at h
    cases h
    have hkind : s.current.kind = k := eq_of_beq hkind
    obtain ⟨hgives, hfaithful⟩ := hs.next fun heof => by
      rw [← hkind, heof] at hplain
      cases hplain
    exact ⟨hkind, hfaithful, hgives⟩
  case isFalse => cases h

theorem expect_spells (text : String) (hk : k.Writes text) : After s (expect k) fun t s' =>
    s.Sound → t.Spells text ∧ s.Gives [t] s' := by
  refine (expect_after hk.plain).mono fun t s' h hs => ?_
  obtain ⟨hkind, hfaithful, hgives⟩ := h hs
  exact ⟨hfaithful.spells_kind hkind hk, hgives⟩

theorem identifier_after : After s identifier fun i s' =>
    s.Sound → ∃ t, t.Spells i.name ∧ i.IsName ∧ s.Gives [t] s' := by
  refine (expect_after rfl).bind fun t s' h => .pure fun hs => ?_
  obtain ⟨hkind, hfaithful, hgives⟩ := h hs
  have hspells := hfaithful.spells (by rw [hkind]; rfl)
  exact ⟨t, hspells, hspells.kind.symm.trans hkind, hgives⟩

theorem eat_after : After s (eat k) fun b s' =>
    if b then s.current.kind = k ∧ s' = s.next else s' = s := by
  refine .peek rfl (.ite (fun hkind => .advance (.pure ?_)) fun _ => .pure rfl)
  exact ⟨eq_of_beq hkind, rfl⟩

end

/-! ## Lists -/

abbrev Readings (es : List Expr) (tss : List (List Token)) : Prop :=
  List.Forall₂ (fun e ts => e.Written ts ∧ e.WellShaped) es tss

theorem Readings.wellShaped {es : List Expr} {tss : List (List Token)} (h : Readings es tss) :
    ∀ e ∈ es, e.WellShaped := by
  induction h with
  | nil => simp
  | cons he _ ih =>
    intro e hmem
    obtain rfl | hmem := List.mem_cons.mp hmem
    · exact he.2
    · exact ih e hmem

def TakesTrees (sub : Nat → Parse Expr) : Prop :=
  ∀ power s, s.Sound → After s (sub power) fun e s' =>
    ∃ ts, s.Gives ts s' ∧ e.Reading power ts s'.current.kind

section
variable {sub : Nat → Parse Expr} (hsub : TakesTrees sub) {s : State}
include hsub

theorem commaList_after (hs : s.Sound) : After s (commaList (sub 0)) fun es s' =>
    ∃ tss us, s.Gives us s' ∧ Listed tss us ∧ Readings es tss := by
  refine (hsub 0 s hs).bind fun first s₁ ⟨ts, hgives, hreading⟩ => ?_
  -- the trees of the list so far stand with the last one first
  let I (done : List Expr) (us : List Token) (_ : TokenKind) : Prop :=
    ∃ tss, Continued tss us ∧ Readings done.reverse (ts :: tss)
  have hstart : I [first] [] s₁.current.kind :=
    ⟨[], .nil, .cons ⟨hreading.written, hreading.shaped⟩ .nil⟩
  refine .bind (.iterate (I := I) (E := fun _ => True) ?_ (hs.gives hgives) hstart)
    fun all s' ⟨us, hgives', ⟨tss, hcontinued, hreadings⟩, _⟩ => .pure ?_
  · intro done us s hs ⟨tss, hcontinued, hreadings⟩
    refine eat_after.bind fun comma s₂ hcomma => .ite (fun heaten => ?_) fun hleft => ?_
    · rw [if_pos heaten] at hcomma
      obtain ⟨hkind, rfl⟩ := hcomma
      obtain ⟨hspells, hgives⟩ := hs.spells "," hkind (by decide)
      refine (hsub 0 _ (hs.gives hgives)).bind fun a s' ⟨vs, hgives', hreading⟩ => .pure ?_
      refine .more (by simp) (hgives.trans hgives') ⟨tss ++ [vs], hcontinued.snoc hspells, ?_⟩
      rw [List.reverse_cons, ← List.cons_append]
      exact List.rel_append hreadings (.cons ⟨hreading.written, hreading.shaped⟩ .nil)
    · rw [if_neg hleft] at hcomma
      subst hcomma
      exact .pure (.done trivial)
  · exact ⟨ts :: tss, ts ++ us, hgives.trans hgives', .cons hcontinued, hreadings⟩

theorem arguments_after (hs : s.Sound) : After s (arguments sub) fun es s' =>
    ∃ left right us tss, left.Spells "(" ∧ right.Spells ")" ∧ Listed tss us ∧ Readings es tss ∧
      s.Gives (left :: (us ++ [right])) s' := by
  refine (expect_spells "(" (by decide)).bind fun left s₁ hleft => ?_
  obtain ⟨hleft, hgives⟩ := hleft hs
  have hs₁ := hs.gives hgives
  refine .peek rfl ?_
  extract_lets behind
  have hbehind {args : List Expr} {tss : List (List Token)} {us : List Token} {s₂ : State}
      (hgives' : s₁.Gives us s₂) (hlisted : Listed tss us) (hreadings : Readings args tss) :
      After s₂ (behind args) fun es s' =>
        ∃ left right us tss, left.Spells "(" ∧ right.Spells ")" ∧ Listed tss us ∧
          Readings es tss ∧ s.Gives (left :: (us ++ [right])) s' := by
    refine (expect_spells ")" (by decide)).bind fun right s₃ hright => .pure ?_
    obtain ⟨hright, hgives''⟩ := hright (hs₁.gives hgives')
    exact ⟨left, right, us, tss, hleft, hright, hlisted, hreadings,
      hgives.trans (hgives'.trans hgives'')⟩
  refine .ite (fun _ => hbehind (.nil s₁) .nil .nil) fun _ => ?_
  exact (commaList_after hsub hs₁).bind fun args s₂ ⟨tss, us, hgives', hlisted, hreadings⟩ =>
    hbehind hgives' hlisted hreadings

end

/-! ## Operands -/

/-- The invariant of the loop over accesses, calls and steps: an operand that is complete but for the
name of a type, of which a member must follow. No member of a signed number follows. -/
structure Grows (e : Expr) (ts : List Token) (next : TokenKind) : Prop where
  written : e.Written ts
  object : e.isPostfix
  shaped : e.WellShaped ∨ (∃ i, e = .ident i ∧ i.IsTypeName) ∧ next = .dot
  signed : SignedNumber ts → next ≠ .dot

section
variable {e : Expr} {ts : List Token} {next : TokenKind}

theorem Grows.wellShaped (h : Grows e ts next) (hnext : next ≠ .dot) : e.WellShaped :=
  h.shaped.resolve_right fun htype => hnext htype.2

/-- Only a name can be the name of a type. -/
theorem Grows.complete (h : Grows e ts next) (he : ∀ i, e ≠ .ident i) : e.WellShaped :=
  h.shaped.resolve_right fun ⟨⟨i, heq, _⟩, _⟩ => he i heq

/-- One token is no signed number. -/
theorem not_signedNumber_singleton (t : Token) : ¬SignedNumber [t] := by
  intro ⟨minus, t, heq, _⟩
  cases heq

/-- Longer than a signed number. -/
theorem not_signedNumber {us : List Token} (hts : ts ≠ []) (hus : 2 ≤ us.length) :
    ¬SignedNumber (ts ++ us) := by
  intro ⟨minus, t, heq, _⟩
  have hlength := congrArg List.length heq
  have hpos := List.length_pos_of_ne_nil hts
  rw [List.length_append, List.length_cons, List.length_singleton] at hlength
  omega

/-- A signed number ends with an integer. -/
theorem not_signedNumber_snoc {t : Token} (ht : t.kind.isInteger = false) :
    ¬SignedNumber (ts ++ [t]) := by
  intro ⟨minus, number, heq, hinteger⟩
  have heq : ts ++ [t] = [minus] ++ [number] := heq
  obtain ⟨-, hlast⟩ := List.append_inj' heq rfl
  obtain rfl := List.singleton_inj.mp hlast
  rw [ht] at hinteger
  cases hinteger

theorem Grows.single {t : Token} (hwritten : e.Written [t]) (hobject : e.isPostfix)
    (hshaped : e.WellShaped) : Grows e [t] next :=
  ⟨hwritten, hobject, .inl hshaped, fun h => absurd h (not_signedNumber_singleton t)⟩

end

section
variable {sub : Nat → Parse Expr} (hsub : TakesTrees sub) {s : State}

include hsub in
theorem suffix_after {e : Expr} {ts : List Token} (hs : s.Sound) (he : Grows e ts s.current.kind) :
    After s (suffix? sub e) (Round s (fun e' us s' => Grows e' (ts ++ us) s'.current.kind)
      (s.current.kind.isSuffix = false)) := by
  have hne := he.written.ne_nil
  refine .peek rfl ?_
  split
  · next hkind =>
    refine .advance (identifier_after.bind fun i s' hi => .pure ?_)
    obtain ⟨hdot, hgives⟩ := hs.spells "." hkind (by decide)
    obtain ⟨t, ht, hname, hgives'⟩ := hi (hs.gives hgives)
    refine .more (by simp) (hgives.trans hgives') ⟨?_, rfl, .inl ?_, ?_⟩
    · exact .member he.written (fun hsigned => he.signed hsigned hkind) hdot ht
    · obtain hshaped | ⟨⟨j, rfl, htype⟩, -⟩ := he.shaped
      · exact .member hshaped he.object hname
      · exact .typeMember htype hname
    · exact fun hsigned => absurd hsigned (not_signedNumber hne (Nat.le_refl 2))
  · next hkind =>
    refine (arguments_after hsub hs).bind fun args s₂ hargs => .peek rfl (.pure ?_)
    obtain ⟨left, right, us, tss, hleft, hright, hlisted, hreadings, hgives⟩ := hargs
    obtain ⟨hlength, hzip⟩ := List.forall₂_iff_zip.mp hreadings
    refine .more (by simp) hgives ⟨?_, rfl, .inl ?_, ?_⟩
    · exact .call he.written hleft hlength (fun a us hmem => (hzip hmem).1) hlisted hright
    · exact .call (he.wellShaped (by rw [hkind]; decide)) he.object hreadings.wellShaped
    · exact fun hsigned => absurd hsigned (not_signedNumber hne (by simp))
  · next k hdot hparen =>
    split
    · next op hop =>
      refine .advance (.pure ?_)
      obtain ⟨hspells, hgives⟩ := hs.spells _ rfl (PostfixOp.writes_of_ofToken? hop)
      refine .more (by simp) hgives ⟨.post he.written hspells, rfl, .inl ?_, ?_⟩
      · exact .post (he.wellShaped hdot) he.object
      · refine fun hsigned => absurd hsigned (not_signedNumber_snoc ?_)
        rw [hspells.kind]
        cases op <;> decide
    · next hpost =>
      refine .pure (.done ?_)
      simp only [TokenKind.isSuffix, hpost, Option.isSome_none, Bool.or_false, Bool.or_eq_false_iff,
        beq_eq_false_iff_ne]
      exact ⟨hdot, hparen⟩

theorem literal_after (hs : s.Sound) : After s literal fun e s' =>
    ∃ ts, s.Gives ts s' ∧ Grows e ts s'.current.kind := by
  intro e s' h
  obtain ⟨hliteral, rfl, hspelled⟩ := literal_ok h
  obtain ⟨hgives, hfaithful⟩ := hs.next fun heof => by
    rw [heof] at hliteral
    cases hliteral
  obtain ⟨l, hl, rfl⟩ := hspelled hfaithful
  exact ⟨_, hgives, .single (.literal hl) rfl .literal⟩

include hsub in
theorem primary_after (hs : s.Sound) : After s (primary sub) fun e s' =>
    ∃ ts, s.Gives ts s' ∧ Grows e ts s'.current.kind := by
  refine .peek rfl ?_
  split
  · next hkind =>
    obtain ⟨hspells, hgives⟩ := hs.spells "this" hkind (by decide)
    exact .advance (.pure ⟨_, hgives, .single (.this hspells) rfl .this⟩)
  · next hkind =>
    obtain ⟨hgives, hfaithful⟩ := hs.next (by rw [hkind]; decide)
    have hspells := hfaithful.spells (by rw [hkind]; rfl)
    exact .advance (.pure ⟨_, hgives, .single (.ident hspells) rfl
      (.ident (hspells.kind.symm.trans hkind))⟩)
  · next hkind =>
    obtain ⟨hleft, hgives⟩ := hs.spells "(" hkind (by decide)
    have hs₁ := hs.gives hgives
    refine .advance ((hsub 0 _ hs₁).bind fun inner s₂ ⟨ts, hgives', hinner⟩ => ?_)
    refine (expect_spells ")" (by decide)).bind fun right s₃ hright => .peek rfl (.pure ?_)
    obtain ⟨hright, hgives''⟩ := hright (hs₁.gives hgives')
    refine ⟨_, hgives.trans (hgives'.trans hgives''), .paren hleft hinner.written hright, rfl,
      .inl (.paren hinner.shaped), fun hsigned => absurd hsigned ?_⟩
    have hend : ¬SignedNumber ((s.current :: ts) ++ [right]) :=
      not_signedNumber_snoc (by rw [hright.kind]; decide)
    exact hend
  · refine .peek rfl (.ite (fun ⟨htype, hvoid, hdot⟩ => .advance (.pure ?_)) fun _ => ?_)
    · have hplain : s.current.kind.isPlain ∧ s.current.kind ≠ .eof := by
        generalize s.current.kind = k at htype
        cases k <;> first | exact ⟨rfl, nofun⟩ | cases htype
      obtain ⟨hgives, hfaithful⟩ := hs.next hplain.2
      have hspells := hfaithful.spells hplain.1
      refine ⟨_, hgives, .ident hspells, rfl, .inr ⟨⟨_, rfl, ?_⟩, ?_⟩, ?_⟩
      · exact ⟨hspells.kind ▸ htype, hspells.kind ▸ hvoid⟩
      · rw [s.current_next]
        exact hdot
      · exact fun hsigned => absurd hsigned (not_signedNumber_singleton _)
    · exact literal_after hs

include hsub in
theorem operand_after (hs : s.Sound) : After s (operand sub) fun e s' =>
    ∃ ts, s.Gives ts s' ∧ e.Written ts ∧ e.WellShaped ∧ e.powers? = none ∧
      s'.current.kind.isSuffix = false := by
  have hsuffixes {s₁ : State} {e : Expr} {ts : List Token} (hgives : s.Gives ts s₁)
      (he : Grows e ts s₁.current.kind) : After s₁ (iterate (suffix? sub) e) fun e s' =>
        ∃ ts, s.Gives ts s' ∧ e.Written ts ∧ e.WellShaped ∧ e.powers? = none ∧
          s'.current.kind.isSuffix = false := by
    refine (After.iterate (E := (·.isSuffix = false)) (fun _ _ _ => suffix_after hsub)
      (hs.gives hgives) he).mono ?_
    intro e' s' ⟨us, hgives', he', hend⟩
    refine ⟨ts ++ us, hgives.trans hgives', he'.written, he'.wellShaped fun hdot => ?_,
      Expr.powers?_of_isPostfix he'.object, hend⟩
    rw [hdot] at hend
    cases hend
  refine .peek rfl ?_
  split
  · exact (primary_after hsub hs).bind fun e s₁ ⟨ts, hgives, he⟩ => hsuffixes hgives he
  · next op hop =>
    obtain ⟨hspells, hgives⟩ := hs.spells _ rfl (UnaryOp.writes_of_ofToken? hop)
    have hs₁ := hs.gives hgives
    refine .peek rfl (.peek rfl (.ite (fun ⟨hminus, hkind, hdot⟩ => ?_) fun hsign => ?_))
    · subst hminus
      rw [← s.current_next] at hkind
      obtain ⟨hgives', -⟩ := hs₁.next fun heof => by simp [heof] at hkind
      refine .advance (.advance ?_)
      intro e s' h
      obtain ⟨l, s₃, hl, h⟩ := bind_iff.mp h
      obtain ⟨hinteger, rfl⟩ := (integerLiteral_iff hkind).mp hl
      refine hsuffixes (hgives.trans hgives') ⟨?_, rfl, .inl .literal, fun _ => ?_⟩ e s' h
      · exact .literal (.negative hspells hinteger)
      · rwa [State.current_next, State.ahead_next]
    · refine .advance ((hsub _ _ hs₁).bind fun e s' ⟨ts, hgives', he⟩ => .pure ?_)
      have hnone := Expr.powers?_of_leftBinds he.left
      refine ⟨_, hgives.trans hgives', .unary hspells he.written fun hminus hnumber => ?_,
        .unary he.shaped hnone, rfl, he.ends.suffix⟩
      have hrest : nextKind s'.upcoming ≠ .dot := by
        rw [← (hs₁.gives hgives').current_kind]
        exact he.ends.ne_dot
      have hupcoming := (hgives.trans hgives').upcoming
      obtain ⟨hinteger, hdot⟩ := (beginsWithNumber_append he.written.ne_nil hrest).mpr hnumber
      refine hsign ⟨hminus, TokenKind.isInteger_iff.mp ?_, ?_⟩
      · rwa [hs.ahead_kind, hupcoming]
      · rwa [hs.ahead_kind, hupcoming]

end

/-! ## Operators -/

/-- The invariant of the loop over operators: a tree of operators that bind at least with `power`, in
front of an operator that may take it as its left operand. -/
structure Climbs (power : Nat) (e : Expr) (ts : List Token) (next : TokenKind) : Prop where
  written : e.Written ts
  shaped : e.WellShaped
  left : e.LeftBinds power
  right : ∀ p, next.powers? = some p → e.RightBinds p.1
  suffix : next.isSuffix = false

/-- An operator has taken its right operand. -/
theorem Climbs.over {power : Nat} {l r e : Expr} {ts us vs : List Token} {p : Nat × Nat}
    {k next : TokenKind} (hl : Climbs power l ts k) (hr : r.Reading p.2 us next)
    (hp : e.powers? = some p) (hpower : power ≤ p.1) (hleft : e.leftEdge = e :: l.leftEdge)
    (hright : e.rightEdge = e :: r.rightEdge) (hwritten : e.Written vs) (hshaped : e.WellShaped) :
    Climbs power e vs next where
  written := hwritten
  shaped := hshaped
  left := hl.left.over hp hpower hleft
  right := hr.rightBinds hp hright
  suffix := hr.ends.suffix

section
variable {sub : Nat → Parse Expr} (hsub : TakesTrees sub) {s : State}
include hsub

theorem operator_after {power : Nat} {e : Expr} {ts : List Token} (hs : s.Sound)
    (he : Climbs power e ts s.current.kind) :
    After s (operator? sub power e) (Round s
      (fun e' us s' => Climbs power e' (ts ++ us) s'.current.kind)
      (∀ p, s.current.kind.powers? = some p → p.1 < power)) := by
  refine .peek rfl ?_
  split
  · next op hop =>
    have hpowers : s.current.kind.powers? = some AssignOp.power := by simp [TokenKind.powers?, hop]
    refine .ite (fun hweak => .pure (.done ?_)) fun hstrong => .advance ?_
    · intro p hp
      rw [hpowers] at hp
      cases hp
      exact hweak
    · obtain ⟨hspells, hgives⟩ := hs.spells _ rfl (AssignOp.writes_of_ofToken? hop)
      refine (hsub _ _ (hs.gives hgives)).bind fun value s' hvalue => .pure ?_
      obtain ⟨us, hgives', hvalue⟩ := hvalue
      refine .more (by simp) (hgives.trans hgives') (he.over hvalue rfl (Nat.not_lt.mp hstrong) rfl rfl
        (.assign he.written hspells hvalue.written) ?_)
      exact .assign he.shaped hvalue.shaped (he.right _ hpowers) hvalue.left
  · next op hnone hop =>
    have hpowers : s.current.kind.powers? = some op.power := by simp [TokenKind.powers?, hop, hnone]
    refine .ite (fun hweak => .pure (.done ?_)) fun hstrong => .advance ?_
    · intro p hp
      rw [hpowers] at hp
      cases hp
      exact hweak
    · obtain ⟨hspells, hgives⟩ := hs.spells _ rfl (BinaryOp.writes_of_ofToken? hop)
      refine (hsub _ _ (hs.gives hgives)).bind fun right s' hright => .pure ?_
      obtain ⟨us, hgives', hright⟩ := hright
      refine .more (by simp) (hgives.trans hgives') (he.over hright rfl (Nat.not_lt.mp hstrong) rfl rfl
        (.binary he.written hspells hright.written) ?_)
      exact .binary he.shaped hright.shaped (he.right _ hpowers) hright.left
  · next hnone hnone' =>
    have hpowers : s.current.kind.powers? =
        if s.current.kind = .question then some conditionalPower else none := by
      simp [TokenKind.powers?, hnone, hnone']
    refine .ite (fun hweak => .pure (.done ?_)) fun hstrong => .advance ?_
    · intro p hp
      rw [hpowers] at hp
      split at hp
      case isTrue hkind =>
        cases hp
        exact hweak.resolve_left (not_not.mpr hkind)
      case isFalse => cases hp
    · obtain ⟨hkind, hstrong⟩ := not_or.mp hstrong
      have hkind := not_not.mp hkind
      rw [if_pos hkind] at hpowers
      obtain ⟨hmark, hgives⟩ := hs.spells "?" hkind (by decide)
      have hs₁ := hs.gives hgives
      refine (hsub _ _ hs₁).bind fun yes s₂ hyes => ?_
      obtain ⟨us, hgives', hyes⟩ := hyes
      have hs₂ := hs₁.gives hgives'
      refine (expect_spells ":" (by decide)).bind fun colon s₃ hcolon => ?_
      obtain ⟨hcolon, hgives''⟩ := hcolon hs₂
      refine (hsub _ _ (hs₂.gives hgives'')).bind fun no s' hno => .pure ?_
      obtain ⟨vs, hgives₃, hno⟩ := hno
      refine .more (by simp) (hgives.trans (hgives'.trans (hgives''.trans hgives₃)))
        (he.over hno rfl (Nat.not_lt.mp hstrong) rfl rfl ?_ ?_)
      · exact .conditional he.written hmark hyes.written hcolon hno.written
      · exact .conditional he.shaped hyes.shaped hno.shaped (he.right _ hpowers) hno.left

theorem operators_after (power : Nat) (hs : s.Sound) : After s (operators sub power) fun e s' =>
    ∃ ts, s.Gives ts s' ∧ e.Reading power ts s'.current.kind := by
  refine (operand_after hsub hs).bind fun e s₁ ⟨ts, hgives, hwritten, hshaped, hnone, hsuffix⟩ => ?_
  have hstart : Climbs power e ts s₁.current.kind :=
    ⟨hwritten, hshaped, (hshaped.binds hnone power).1, fun p _ => (hshaped.binds hnone p.1).2, hsuffix⟩
  refine (After.iterate (E := fun k => ∀ p, k.powers? = some p → p.1 < power)
    (fun _ _ _ => operator_after hsub) (hs.gives hgives) hstart).mono ?_
  intro e' s' ⟨us, hgives', he', hweaker⟩
  exact ⟨ts ++ us, hgives.trans hgives', he'.written, he'.shaped, he'.left, he'.right,
    he'.suffix, hweaker⟩

end

/-- What an expression takes spells a tree that is well shaped, and nothing that follows belongs to
it. -/
theorem expr_takesTrees (depth : Nat) : TakesTrees (expr depth) := by
  induction depth with
  | zero => exact fun power s hs e s' h => nomatch h
  | succ depth ih => exact fun power s hs => operators_after ih power hs

end ClassScript.Grammar
