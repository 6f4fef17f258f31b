import ClassScript.Grammar.State
import ClassScript.Proofs.Spelling.Nodes

/-!
What a parser takes.

`ReadsFrom s p Q` says of a run of `p` that succeeds and leaves no report behind: there was none
before, and its value, the tokens it took and those it left are in the relation `Q`. So a parser that recovers from a
mistake owes nothing, as its report stays. The rules below follow the parts that parsers are built of;
in the rule of a sequence, the second part is read in any state, and only what was taken by the first
may be assumed. The relations tell of which outlines the tokens are, so a span that ends at the last
token taken is told by the state where it is made.
-/

namespace ClassScript

/-- The kind of a token goes with its text, unless it is a number, a string or none at all. -/
def Token.Faithful (t : Token) : Prop := t.kind.isPlain → t.kind = TokenKind.ofText t.lexeme

theorem Token.Faithful.spells {t : Token} (h : t.Faithful) (hplain : t.kind.isPlain) :
    t.Spells t.lexeme := ⟨rfl, h hplain⟩

/-- A keyword or symbol spells the text of its kind. -/
theorem Token.Faithful.spells_kind {t : Token} {k : TokenKind} {text : String} (h : t.Faithful)
    (hkind : t.kind = k) (hk : k.Writes text) : t.Spells text := by
  subst hkind
  have hof := h hk.plain
  have htext : t.kind.text = t.lexeme := by
    have hname := hk.noName
    rw [hof] at hname ⊢
    exact TokenKind.text_ofText hname
  obtain rfl : t.lexeme = text := htext.symm.trans hk.text
  exact ⟨rfl, hof⟩

theorem TokenKind.Writes.ne_eof {k : TokenKind} {text : String} (h : k.Writes text) : k ≠ .eof := by
  rintro rfl
  cases h.plain

namespace Grammar

/-! ## States -/

/-- The tokens are those of a lexer. -/
structure State.Sound (s : State) : Prop where
  eof : s.eof.kind = .eof
  bound : s.upcoming.length ≤ s.bound
  faithful : ∀ t ∈ s.upcoming, t.Faithful

structure State.Gives (s : State) (ts : List Token) (s' : State) : Prop where
  upcoming : s.upcoming = ts ++ s'.upcoming
  previous : s'.previous = ts.getLast?.or s.previous
  eof : s'.eof = s.eof
  bound : s'.bound = s.bound

def State.next (s : State) : State :=
  match s with
  | ⟨_, t :: rest, f, r, b⟩ => ⟨some t, rest, f, r, b⟩
  | ⟨p, [], f, r, b⟩ => ⟨p, [], f, r, b⟩

section

variable {s s' s'' : State} {ts ts' : List Token}

theorem State.Gives.nil (s : State) : s.Gives [] s := ⟨rfl, rfl, rfl, rfl⟩

theorem State.Gives.trans (h : s.Gives ts s') (h' : s'.Gives ts' s'') : s.Gives (ts ++ ts') s'' where
  upcoming := by rw [h.upcoming, h'.upcoming, List.append_assoc]
  previous := by rw [h'.previous, h.previous, List.getLast?_append, Option.or_assoc]
  eof := h'.eof.trans h.eof
  bound := h'.bound.trans h.bound

/-- The first token that was taken is the one that came next. -/
theorem State.Gives.first (h : s.Gives ts s') (hne : ts ≠ []) : [s.current] <+: ts := by
  obtain ⟨t, ts, rfl⟩ := List.exists_cons_of_ne_nil hne
  have hcurrent : s.current = t := by rw [State.current, h.upcoming]; rfl
  exact hcurrent ▸ ⟨ts, rfl⟩

theorem State.Gives.last (h : s.Gives ts s') (hne : ts ≠ []) : [s'.last] <:+ ts := by
  have hlast : s'.last = ts.getLast hne := by
    rw [State.last, h.previous, List.getLast?_eq_some_getLast hne]
    rfl
  exact ⟨ts.dropLast, by rw [hlast, List.dropLast_append_getLast]⟩

theorem State.Sound.gives (h : s.Sound) (hgives : s.Gives ts s') : s'.Sound where
  eof := hgives.eof ▸ h.eof
  bound := by
    have hlength := congrArg List.length hgives.upcoming
    rw [List.length_append] at hlength
    have hbound := h.bound
    rw [hgives.bound]
    omega
  faithful t ht := h.faithful t (hgives.upcoming ▸ List.mem_append_right _ ht)

/-- Only at the end no token is taken. -/
theorem State.Sound.next (h : s.Sound) (hkind : s.current.kind ≠ .eof) :
    s.Gives [s.current] s.next ∧ s.current.Faithful := by
  obtain ⟨previous, upcoming, eof, reports, bound⟩ := s
  cases upcoming with
  | nil => exact absurd h.eof hkind
  | cons t rest => exact ⟨⟨rfl, rfl, rfl, rfl⟩, h.faithful t List.mem_cons_self⟩

@[simp] theorem State.reports_next (s : State) : s.next.reports = s.reports := by
  obtain ⟨previous, upcoming, eof, reports, bound⟩ := s
  cases upcoming <;> rfl

theorem State.current_next (s : State) : s.next.current = s.ahead 1 := by
  obtain ⟨previous, upcoming, eof, reports, bound⟩ := s
  match upcoming with
  | [] => rfl
  | [t] => rfl
  | t :: t' :: rest => rfl

theorem advance_eq (s : State) : advance s = .ok s.current s.next := by
  obtain ⟨previous, upcoming, eof, reports, bound⟩ := s
  cases upcoming <;> rfl

end

/-! ## Outcomes -/

/-- The value of a parser that only gives one. -/
theorem pure_iff {α : Type} {a b : α} {s s' : State} :
    (pure b : Parse α) s = .ok a s' ↔ a = b ∧ s' = s := by
  constructor
  · intro h
    cases h
    exact ⟨rfl, rfl⟩
  · rintro ⟨rfl, rfl⟩
    rfl

theorem bind_iff {α β : Type} {p : Parse α} {f : α → Parse β} {b : β} {s s'' : State} :
    (p >>= f) s = .ok b s'' ↔ ∃ a s', p s = .ok a s' ∧ f a s' = .ok b s'' := by
  simp only [Bind.bind, Parse.bind]
  cases p s <;> simp

/-! ## Runs without reports -/

variable {α β : Type} {s : State} {p : Parse α} {f : α → Parse β}
  {P : α → List Token → List Token → Prop} {Q : β → List Token → List Token → Prop}

/-- A run of `p` from `s` that leaves no report takes tokens and leaves others such that `P` relates
them to its value. -/
def ReadsFrom (s : State) (p : Parse α) (P : α → List Token → List Token → Prop) : Prop :=
  ∀ a s', p s = .ok a s' → s'.reports = [] →
    s.reports = [] ∧ (s.Sound → ∃ ts, s.Gives ts s' ∧ P a ts s'.upcoming)

/-- The same from every state, whatever is left. -/
def Reads (p : Parse α) (P : α → List Token → Prop) : Prop :=
  ∀ s, ReadsFrom s p fun a ts _ => P a ts

namespace ReadsFrom

theorem mono {P' : α → List Token → List Token → Prop} (h : ReadsFrom s p P)
    (hP : ∀ a ts left, P a ts left → P' a ts left) :
    ReadsFrom s p P' := by
  intro a s' hp hreports
  obtain ⟨hnone, htook⟩ := h a s' hp hreports
  refine ⟨hnone, fun hs => ?_⟩
  obtain ⟨ts, hgives, ha⟩ := htook hs
  exact ⟨ts, hgives, hP a ts _ ha⟩

theorem pure {a : α} (h : P a [] s.upcoming) : ReadsFrom s (Pure.pure a) P := by
  intro b s' hp hreports
  cases hp
  exact ⟨hreports, fun _ => ⟨[], .nil s, h⟩⟩

/-- One part behind another, and the states around it. -/
theorem bindBehind (hp : ReadsFrom s p P)
    (hf : ∀ a s', ReadsFrom s' (f a) fun b ts' left =>
      ∀ ts, s.Gives ts s' → P a ts (ts' ++ left) → Q b (ts ++ ts') left) :
    ReadsFrom s (p >>= f) Q := by
  intro b s'' hrun hreports
  simp only [Bind.bind, Parse.bind] at hrun
  split at hrun
  case h_1 a s' hrunp =>
    obtain ⟨hnone', htook'⟩ := hf a s' b s'' hrun hreports
    obtain ⟨hnone, htook⟩ := hp a s' hrunp hnone'
    refine ⟨hnone, fun hs => ?_⟩
    obtain ⟨ts, hgives, ha⟩ := htook hs
    obtain ⟨ts', hgives', hb⟩ := htook' (hs.gives hgives)
    exact ⟨ts ++ ts', hgives.trans hgives', hb ts hgives (hgives'.upcoming ▸ ha)⟩
  all_goals cases hrun

/-- One part behind another. -/
theorem bind (hp : ReadsFrom s p P)
    (hf : ∀ a s', ReadsFrom s' (f a) fun b ts' left =>
      ∀ ts, P a ts (ts' ++ left) → Q b (ts ++ ts') left) :
    ReadsFrom s (p >>= f) Q :=
  hp.bindBehind fun a s' => (hf a s').mono fun _ _ _ h ts _ => h ts

/-- What is known of the tokens that were taken also tells where they began. -/
theorem behind (h : ReadsFrom s p P) :
    ReadsFrom s p fun a ts left => P a ts left ∧ (ts ≠ [] → [s.current] <+: ts) := by
  intro a s' hrun hreports
  obtain ⟨hnone, htook⟩ := h a s' hrun hreports
  refine ⟨hnone, fun hs => ?_⟩
  obtain ⟨ts, hgives, ha⟩ := htook hs
  exact ⟨ts, hgives, ha, hgives.first⟩

/-- A part that only looks. -/
theorem peek {a : α} (hp : p s = .ok a s) (hf : ReadsFrom s (f a) Q) : ReadsFrom s (p >>= f) Q := by
  intro b s' hrun hreports
  simp only [Bind.bind, Parse.bind, hp] at hrun
  exact hf b s' hrun hreports

/-- The next token is taken. -/
theorem advance {f : Token → Parse β} (hkind : s.current.kind ≠ .eof)
    (hf : ReadsFrom s.next (f s.current) fun b ts left =>
      s.current.Faithful → Q b (s.current :: ts) left) : ReadsFrom s (Grammar.advance >>= f) Q := by
  intro b s' hrun hreports
  simp only [Bind.bind, Parse.bind, advance_eq] at hrun
  obtain ⟨hnone, htook⟩ := hf b s' hrun hreports
  refine ⟨s.reports_next ▸ hnone, fun hs => ?_⟩
  obtain ⟨hgives, hfaithful⟩ := hs.next hkind
  obtain ⟨ts, hgives', hb⟩ := htook (hs.gives hgives)
  exact ⟨s.current :: ts, hgives.trans hgives', hb hfaithful⟩

/-- A keyword or symbol is taken. -/
theorem advanceText {f : Token → Parse β} {k : TokenKind} (text : String) (hkind : s.current.kind = k)
    (hk : k.Writes text)
    (hf : ReadsFrom s.next (f s.current) fun b ts left =>
      Filled [.text text] [s.current] → Q b ([s.current] ++ ts) left) :
    ReadsFrom s (Grammar.advance >>= f) Q := by
  refine advance (hkind ▸ hk.ne_eof) (hf.mono fun b ts left hb hfaithful => ?_)
  exact hb (.text (hfaithful.spells_kind hkind hk))

theorem fail {fault : SyntaxFault} {span : Span} : ReadsFrom s (Grammar.fail fault span) P := by
  intro a s' h
  unfold Grammar.fail at h
  cases h

theorem failTooDeep : ReadsFrom s Grammar.failTooDeep P := by
  intro a s' h
  unfold Grammar.failTooDeep at h
  cases h

/-- A part that may be left out. -/
theorem ite {c : Prop} [Decidable c] {q : Parse α} (hp : c → ReadsFrom s p P)
    (hq : ¬ c → ReadsFrom s q P) : ReadsFrom s (if c then p else q) P := by
  by_cases hc : c
  · rw [if_pos hc]
    exact hp hc
  · rw [if_neg hc]
    exact hq hc

/-- One of two parts, and what both of them go on with. -/
theorem join {c : Prop} [Decidable c] {q : Parse α}
    (h : ReadsFrom s ((if c then p else q) >>= f) Q) :
    ReadsFrom s (if c then p >>= f else q >>= f) Q := by
  by_cases hc : c
  all_goals simpa only [hc, if_true, if_false] using h

end ReadsFrom

/-! ## Spans -/

section

variable {start : Span} {s s' : State} {ts us all : List Token}

/-- A span that is closed reaches from the first of all tokens to the last ones taken. -/
theorem State.Gives.closes (h : s.Gives ts s') (hne : ts ≠ []) (hstart : start.Measures us)
    (hus : us ≠ []) (hfirst : us <+: all) (hlast : ts <:+ all) :
    (start.merge s'.last.span).Measures all :=
  hstart.merge (Span.measures_singleton _) hus (List.cons_ne_nil _ []) hfirst ((h.last hne).trans hlast)

/-- A span that was begun in front of the tokens taken. -/
theorem State.Gives.spans (h : s.Gives ts s') (hne : ts ≠ []) :
    (s.current.span.merge s'.last.span).Measures ts :=
  h.closes hne (Span.measures_singleton _) (List.cons_ne_nil _ []) (h.first hne) List.suffix_rfl

/-- A node that begins with a token and closes behind all others. -/
theorem State.Gives.node {t : Token} {os os' : List Outline} (h : s.Gives ts s') (ht : Filled os [t])
    (hts : Filled os' ts) : Filled [.node (t.span.merge s'.last.span) (os ++ os')] ([t] ++ ts) := by
  have hspan := h.closes hts.nonempty (Span.measures_singleton t) ht.nonempty
    (List.prefix_append [t] ts) (List.suffix_append [t] ts)
  exact (ht.append hts.covers).within hspan

end

/-! ## Single tokens -/

theorem eat_reads {k : TokenKind} (text : String) (hk : k.Writes text) :
    Reads (eat k) fun b ts => if b then Filled [.text text] ts else ts = [] := by
  intro s
  unfold eat
  refine .peek rfl (.ite (fun hkind => ?_) fun _ => .pure rfl)
  exact .advanceText text (eq_of_beq hkind) hk (.pure id)

/-- What has to come is taken. -/
theorem expect_takes {k : TokenKind} (hplain : k.isPlain) :
    Reads (expect k) fun t ts => ts = [t] ∧ t.kind = k ∧ t.Faithful := by
  intro s a s' hrun hreports
  unfold expect at hrun
  split at hrun
  case isTrue hkind =>
    rw [advance_eq] at hrun
    cases hrun
    refine ⟨s.reports_next ▸ hreports, fun hs => ?_⟩
    have hkind : s.current.kind = k := eq_of_beq hkind
    obtain ⟨hgives, hfaithful⟩ := hs.next fun heof => by
      rw [← hkind, heof] at hplain
      cases hplain
    exact ⟨_, hgives, rfl, hkind, hfaithful⟩
  case isFalse => cases hrun

theorem expect_reads {k : TokenKind} (text : String) (hk : k.Writes text) :
    Reads (expect k) fun t ts => ts = [t] ∧ Filled [.text text] ts := by
  refine fun s => (expect_takes hk.plain s).mono ?_
  rintro t ts - ⟨rfl, hkind, hfaithful⟩
  exact ⟨rfl, .text (hfaithful.spells_kind hkind hk)⟩

/-- What is known to come next is taken as if it were expected. -/
theorem advance_reads {s : State} {k : TokenKind} (text : String) (hkind : s.current.kind = k)
    (hk : k.Writes text) : ReadsFrom s advance fun _ ts _ => Filled [.text text] ts := by
  have heq : advance s = expect k s := (if_pos (beq_iff_eq.mpr hkind)).symm
  intro t s' hrun
  rw [heq] at hrun
  exact ((expect_reads text hk s).mono fun _ _ _ h => h.2) t s' hrun

theorem expectSemicolon_reads : Reads expectSemicolon fun _ ts => Filled [.text ";"] ts := by
  intro s a s' hrun hreports
  unfold expectSemicolon at hrun
  split at hrun
  · next t s'' hexpect =>
    cases hrun
    obtain ⟨hnone, htook⟩ := expect_reads ";" (by decide) s t s' hexpect hreports
    refine ⟨hnone, fun hs => ?_⟩
    obtain ⟨ts, hgives, -, hts⟩ := htook hs
    exact ⟨ts, hgives, hts⟩
  · cases hrun
    cases hreports
  · cases hrun

/-- A name that stands in a token. -/
theorem Ident.filled {t : Token} (h : t.Faithful) (hplain : t.kind.isPlain) :
    Filled [Ident.outline ⟨t.lexeme, t.span⟩] [t] :=
  (Filled.text (h.spells hplain)).within (Span.measures_singleton t)

theorem identifier_reads : Reads identifier fun i ts => Filled [i.outline] ts := by
  intro s
  unfold identifier
  refine (expect_takes rfl s).bind fun t s => .pure ?_
  rintro ts ⟨rfl, hkind, hfaithful⟩
  exact Ident.filled hfaithful (by rw [hkind]; rfl)

/-! ## Loops and recovery -/

theorem repeatFrom_reads {R : α → α → List Token → Prop} {step : α → Parse (Option α)}
    (hrefl : ∀ a, R a a []) (htrans : ∀ a b c ts ts', R a b ts → R b c ts' → R a c (ts ++ ts'))
    (hstep : ∀ a, Reads (step a) fun b ts => R a (b.getD a) ts) (fuel : Nat) (a : α) :
    Reads (repeatFrom step fuel a) (R a) := by
  induction fuel generalizing a with
  | zero => exact fun s => .pure (hrefl a)
  | succ fuel ih =>
    intro s b s'' hrun hreports
    unfold repeatFrom at hrun
    split at hrun
    case h_1 c s' hc =>
      obtain ⟨hnone', htook'⟩ := ih c s' b s'' hrun hreports
      obtain ⟨hnone, htook⟩ := hstep a s (some c) s' hc hnone'
      refine ⟨hnone, fun hs => ?_⟩
      obtain ⟨ts, hgives, hac⟩ := htook hs
      obtain ⟨ts', hgives', hcb⟩ := htook' (hs.gives hgives)
      exact ⟨ts ++ ts', hgives.trans hgives', htrans _ _ _ _ _ hac hcb⟩
    case h_2 s' hnone =>
      cases hrun
      exact hstep a s none s'' hnone hreports
    all_goals cases hrun

/-- A loop keeps what each of its rounds keeps. -/
theorem iterate_reads {R : α → α → List Token → Prop} {step : α → Parse (Option α)} {a : α}
    (hrefl : ∀ a, R a a []) (htrans : ∀ a b c ts ts', R a b ts → R b c ts' → R a c (ts ++ ts'))
    (hstep : ∀ a, Reads (step a) fun b ts => R a (b.getD a) ts) : Reads (iterate step a) (R a) :=
  fun s => repeatFrom_reads hrefl htrans hstep _ a s

/-- In front of a list, of which the last comes first, new parts were put. -/
def Adds (outline : α → List Outline) (done all : List α) (ts : List Token) : Prop :=
  ∃ new : List α, all = new.reverse ++ done ∧ Outlined (new.flatMap outline) ts

namespace Adds

variable {outline : α → List Outline}

theorem refl (done : List α) : Adds outline done done [] := ⟨[], rfl, .nil⟩

theorem trans (done all all' : List α) (ts ts' : List Token) (h : Adds outline done all ts)
    (h' : Adds outline all all' ts') : Adds outline done all' (ts ++ ts') := by
  obtain ⟨new, rfl, hnew⟩ := h
  obtain ⟨new', rfl, hnew'⟩ := h'
  refine ⟨new ++ new', by simp, ?_⟩
  rw [List.flatMap_append]
  exact hnew.append hnew'

theorem cons {a : α} {ts : List Token} (done : List α) (h : Outlined (outline a) ts) :
    Adds outline done (a :: done) ts := ⟨[a], rfl, by simpa using h⟩

end Adds

/-- A loop that collects parts. -/
theorem iterate_adds {outline : α → List Outline} {step : List α → Parse (Option (List α))}
    {done : List α}
    (hstep : ∀ done, Reads (step done) fun all ts => Adds outline done (all.getD done) ts) :
    Reads (iterate step done) (Adds outline done) :=
  iterate_reads Adds.refl Adds.trans hstep

/-- A part with others behind it, each behind a mark. -/
theorem filled_separated {outline : α → Outline} {mark : String} {a : α} {all : List α}
    {ts ts' : List Token} (h : Filled [outline a] ts)
    (h' : Adds (fun b => [.text mark, outline b]) [a] all ts') :
    Filled (Outline.separated mark outline all.reverse) (ts ++ ts') := by
  obtain ⟨new, rfl, hnew⟩ := h'
  rw [List.reverse_append, List.reverse_reverse, List.reverse_singleton]
  exact h.append hnew

def commaRound (p : Parse α) (done : List α) : Parse (Option (List α)) := do
  if ← eat .comma then
    let a ← p
    pure (some (a :: done))
  else pure none

theorem commaList_eq (p : Parse α) : commaList p = (do
    let first ← p
    let all ← iterate (commaRound p) [first]
    pure all.reverse) := rfl

/-- Parts behind marks, as far as there are any. -/
theorem marked_adds {outline : α → Outline} {k : TokenKind} (mark : String) (hk : k.Writes mark)
    (hp : Reads p fun a ts => Filled [outline a] ts) (done : List α) :
    Reads (do if ← eat k then (do let a ← p; pure (some (a :: done))) else pure none) fun all ts =>
      Adds (fun b => [.text mark, outline b]) done (all.getD done) ts := by
  intro s
  refine (eat_reads mark hk s).bind fun b s => .ite ?_ ?_
  · rintro rfl
    refine (hp s).bind fun a s => .pure ?_
    intro ts ha ts' hmark
    rw [List.append_nil]
    exact .cons done (hmark.append ha.covers).covers
  · intro hb
    refine .pure fun ts hts => ?_
    obtain rfl : ts = [] := by simpa [hb] using hts
    exact .refl done

theorem commaList_reads {outline : α → Outline} (hp : Reads p fun a ts => Filled [outline a] ts) :
    Reads (commaList p) fun all ts => Filled (Outline.separated "," outline all) ts := by
  intro s
  unfold commaList
  refine (hp s).bind fun first s => ?_
  refine .bind (P := fun all ts _ => Adds (fun b => [.text ",", outline b]) [first] all ts)
    (iterate_adds (marked_adds "," (by decide) hp) s) fun all s => .pure ?_
  intro ts hall ts' hfirst
  rw [List.append_nil]
  exact filled_separated hfirst hall

/-! ## Recovery -/

/-- A report stays. -/
theorem ReadsFrom.report {e : SyntaxError} {f : Unit → Parse β}
    (hf : ∀ s b s', f () s = .ok b s' → s'.reports = s.reports) :
    ReadsFrom s (Grammar.report e >>= f) Q := by
  intro b s' hrun hreports
  simp only [Bind.bind, Parse.bind, Grammar.report] at hrun
  rw [hf _ b s' hrun] at hreports
  cases hreports

def Skips (resume : Parse Unit) : Prop := ∃ find, resume = skipTo find

/-- What is recovered from is reported, so without reports there was nothing to recover from. -/
theorem recovering_reads {resume : Parse Unit} (hp : ReadsFrom s p P) (hresume : Skips resume) :
    ReadsFrom s (recovering p resume) fun b ts left => ∃ a, b = some a ∧ P a ts left := by
  intro b s' hrun hreports
  unfold recovering at hrun
  split at hrun
  · next a s'' ha =>
    cases hrun
    obtain ⟨hnone, htook⟩ := hp a s' ha hreports
    refine ⟨hnone, fun hs => ?_⟩
    obtain ⟨ts, hgives, h⟩ := htook hs
    exact ⟨ts, hgives, a, rfl, h⟩
  · next e s'' he =>
    obtain ⟨find, rfl⟩ := hresume
    split at hrun
    · next hreport =>
      cases hrun
      cases hreport
      cases hreports
    all_goals cases hrun
  · cases hrun

/-- A round that recovers from the failures of what it collects. -/
theorem recovering_adds {outline : α → Outline} {resume : Parse Unit} {done : List α}
    {f : Option α → Parse (Option (List α))} (hp : Reads p fun a ts => Filled [outline a] ts)
    (hresume : Skips resume) (hsome : ∀ a, f (some a) = pure (some (a :: done)))
    (hnone : f none = pure (some done)) :
    ReadsFrom s (recovering p resume >>= f) fun all ts _ =>
      Adds (fun a => [outline a]) done (all.getD done) ts := by
  refine (recovering_reads (hp s) hresume).bind fun r s => ?_
  cases r with
  | some a =>
    rw [hsome]
    refine .pure ?_
    rintro ts ⟨_, ⟨⟩, ha⟩
    rw [List.append_nil]
    exact .cons done ha.covers
  | none =>
    rw [hnone]
    refine .pure ?_
    rintro ts ⟨_, ⟨⟩, -⟩

/-- What was collected, in source order. -/
theorem Adds.outlined {outline : α → Outline} {all : List α} {ts : List Token}
    (h : Adds (fun a => [outline a]) [] all ts) : Outlined (all.reverse.map outline) ts := by
  obtain ⟨new, rfl, hnew⟩ := h
  simpa [List.map_eq_flatMap] using hnew

end Grammar
end ClassScript
