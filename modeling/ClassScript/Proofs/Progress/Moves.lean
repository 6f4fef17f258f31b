import ClassScript.Proofs.Spelling.Reading

/-!
Parsers only go forward, and no loop runs out of rounds.

`MovesFrom n s p q Takes` follows two runs: that of `p` from `s`, and that of `q` from the same state
with `n` more rounds for every loop. The first takes tokens from the front, some at least for a value
with `Takes`, and gives up only where the source nests too deep; the second does the same. So where
`p` and `q` are one parser, no loop of it is ended by the bound on its rounds. The rules follow the
parts that parsers are built of; what a sequence has to take may be left to its second part.

A loop that skips tokens looks at one in each round, and goes on only behind it. What is looked for is
never the first token unless that is a closing brace, so a round of a loop that recovers from the
failure of what it reads takes a token even if the failure did not.
-/

namespace ClassScript.Grammar

variable {α β : Type} {n : Nat} {s s' : State} {ts : List Token}

/-! ## Runs -/

def State.widen (n : Nat) (s : State) : State := { s with bound := s.bound + n }

def Outcome.widen (n : Nat) : Outcome α → Outcome α
  | .ok a s => .ok a (s.widen n)
  | .error e s => .error e (s.widen n)
  | .tooDeep e => .tooDeep e

@[simp] theorem Outcome.widen_zero (o : Outcome α) : o.widen 0 = o := by cases o <;> rfl

theorem State.next_widen (n : Nat) (s : State) : (s.widen n).next = s.next.widen n := by
  obtain ⟨previous, upcoming, eof, reports, bound⟩ := s
  cases upcoming <;> rfl

/-- The two runs from `s` come to the same, and what they took. -/
inductive Moves (n : Nat) (s : State) (p q : Parse α) (Takes : α → Prop) : Prop
  | ok {a : α} {ts : List Token} {s' : State} (run : p s = .ok a s')
    (twin : q (s.widen n) = .ok a (s'.widen n)) (gives : s.Gives ts s') (takes : Takes a → ts ≠ [])
  | error {e : SyntaxError} {ts : List Token} {s' : State} (run : p s = .error e s')
    (twin : q (s.widen n) = .error e (s'.widen n)) (gives : s.Gives ts s')
  | tooDeep {e : SyntaxError} (run : p s = .tooDeep e) (twin : q (s.widen n) = .tooDeep e)
    (fault : e.fault = .nestingTooDeep maxNesting)

def MovesFrom (n : Nat) (s : State) (p q : Parse α) (Takes : α → Prop) : Prop :=
  s.Sound → Moves n s p q Takes

/-- From every state `p` goes forward, and does the same with any more rounds. -/
def Forward (p : Parse α) (Takes : α → Prop) : Prop := ∀ n s, MovesFrom n s p p Takes

/-- A parser that only looks at the state, and not at the bound on rounds. -/
structure Looks (p : Parse α) (value : State → α) : Prop where
  eq (s : State) : p s = .ok (value s) s
  widen (n : Nat) (s : State) : value (s.widen n) = value s

section

variable {p q : Parse α} {f g : α → Parse β} {P P' : α → Prop} {Q : β → Prop}

theorem bind_ok {a : α} (h : p s = .ok a s') : (p >>= f) s = f a s' := by
  simp only [Bind.bind, Parse.bind, h]

theorem bind_error {e : SyntaxError} (h : p s = .error e s') : (p >>= f) s = .error e s' := by
  simp only [Bind.bind, Parse.bind, h]

theorem bind_tooDeep {e : SyntaxError} (h : p s = .tooDeep e) : (p >>= f) s = .tooDeep e := by
  simp only [Bind.bind, Parse.bind, h]

theorem Moves.widens (h : Moves n s p q P) : q (s.widen n) = (p s).widen n := by
  cases h with
  | ok run twin | error run twin | tooDeep run twin => rw [run, twin]; rfl

/-- Behind tokens that were taken, the runs of what follows are those of the whole. -/
theorem Moves.behind {p' q' : Parse α} (h : Moves n s' p q P) (hgives : s.Gives ts s')
    (hp : p' s = p s') (hq : q' (s.widen n) = q (s'.widen n)) (htakes : ∀ a, P' a → P a ∨ ts ≠ []) :
    Moves n s p' q' P' := by
  cases h with
  | ok run twin gives' takes =>
    refine .ok (hp.trans run) (hq.trans twin) (hgives.trans gives') fun ha hnil => ?_
    obtain ⟨hts, hts'⟩ := List.append_eq_nil_iff.mp hnil
    exact (htakes _ ha).elim (fun h => takes h hts') fun h => h hts
  | error run twin gives' => exact .error (hp.trans run) (hq.trans twin) (hgives.trans gives')
  | tooDeep run twin fault => exact .tooDeep (hp.trans run) (hq.trans twin) fault

theorem Forward.gives {a : α} (h : Forward p P) (hs : s.Sound) (hrun : p s = .ok a s') :
    ∃ ts, s.Gives ts s' ∧ (P a → ts ≠ []) := by
  cases h 0 s hs with
  | @ok a' ts s'' run twin gives takes =>
    rw [hrun] at run
    cases run
    exact ⟨ts, gives, takes⟩
  | error run | tooDeep run =>
    rw [hrun] at run
    cases run

namespace MovesFrom

theorem mono (h : MovesFrom n s p q P) (hP : ∀ a, P' a → P a) : MovesFrom n s p q P' :=
  fun hs => (h hs).behind (.nil s) rfl rfl fun a ha => .inl (hP a ha)

theorem pure {a : α} (h : ¬ P a) : MovesFrom n s (Pure.pure a) (Pure.pure a) P :=
  fun _ => .ok rfl rfl (.nil s) fun ha => absurd ha h

theorem fail {fault : SyntaxFault} {span : Span} :
    MovesFrom n s (Grammar.fail fault span) (Grammar.fail fault span) P :=
  fun _ => .error rfl rfl (.nil s)

theorem failTooDeep : MovesFrom n s Grammar.failTooDeep Grammar.failTooDeep P :=
  fun _ => .tooDeep rfl rfl rfl

/-- One part behind another, which took what lies between their states. -/
theorem bindBehind (hp : MovesFrom n s p q P)
    (hf : ∀ a s' ts, s.Gives ts s' → (P a → ts ≠ []) →
      MovesFrom n s' (f a) (g a) fun b => Q b ∧ ¬ P a) :
    MovesFrom n s (p >>= f) (q >>= g) Q := by
  intro hs
  cases hp hs with
  | @ok a ts s' run twin gives takes =>
    refine (hf a s' ts gives takes (hs.gives gives)).behind gives (bind_ok run) (bind_ok twin) ?_
    intro b hb
    by_cases ha : P a
    · exact .inr (takes ha)
    · exact .inl ⟨hb, ha⟩
  | error run twin gives => exact .error (bind_error run) (bind_error twin) gives
  | tooDeep run twin fault => exact .tooDeep (bind_tooDeep run) (bind_tooDeep twin) fault

/-- One part behind another. -/
theorem bind (hp : MovesFrom n s p q P)
    (hf : ∀ a s', MovesFrom n s' (f a) (g a) fun b => Q b ∧ ¬ P a) :
    MovesFrom n s (p >>= f) (q >>= g) Q :=
  hp.bindBehind fun a s' _ _ _ => hf a s'

/-- A part that only looks. -/
theorem peek {value : State → α} (hp : Looks p value)
    (hf : MovesFrom n s (f (value s)) (g (value s)) Q) : MovesFrom n s (p >>= f) (p >>= g) Q := by
  refine fun hs => (hf hs).behind (.nil s) (bind_ok (hp.eq s)) (bind_ok ?_) fun _ => .inl
  rw [hp.eq, hp.widen]

/-- The next token is taken. -/
theorem advance {f g : Token → Parse β} (hkind : s.current.kind ≠ .eof)
    (hf : ∀ t s', MovesFrom n s' (f t) (g t) fun _ => False) :
    MovesFrom n s (Grammar.advance >>= f) (Grammar.advance >>= g) Q := by
  refine bind (P := fun _ => True) (fun hs => ?_) fun t s' => (hf t s').mono (by simp)
  refine .ok (advance_eq s) ?_ (hs.next hkind).1 fun _ => List.cons_ne_nil _ _
  rw [advance_eq, s.next_widen]
  rfl

theorem report {e : SyntaxError} {f g : Unit → Parse β}
    (hf : ∀ s', s.Gives [] s' → MovesFrom n s' (f ()) (g ()) Q) :
    MovesFrom n s (Grammar.report e >>= f) (Grammar.report e >>= g) Q := by
  intro hs
  obtain ⟨previous, upcoming, eof, reports, bound⟩ := s
  have hgives : State.Gives ⟨previous, upcoming, eof, reports, bound⟩ []
      ⟨previous, upcoming, eof, e :: reports, bound⟩ := ⟨rfl, rfl, rfl, rfl⟩
  exact (hf _ hgives (hs.gives hgives)).behind hgives rfl rfl fun _ => .inl

theorem ite {c : Prop} [Decidable c] {p' q' : Parse α} (hp : c → MovesFrom n s p q P)
    (hq : ¬ c → MovesFrom n s p' q' P) :
    MovesFrom n s (if c then p else p') (if c then q else q') P := by
  by_cases hc : c
  · simpa only [if_pos hc] using hp hc
  · simpa only [if_neg hc] using hq hc

/-- One of two parts, and what both of them go on with. -/
theorem join {c : Prop} [Decidable c] {p' q' : Parse α}
    (h : MovesFrom n s ((if c then p else p') >>= f) ((if c then q else q') >>= g) Q) :
    MovesFrom n s (if c then p >>= f else p' >>= f) (if c then q >>= g else q' >>= g) Q := by
  by_cases hc : c
  all_goals simpa only [hc, if_true, if_false] using h

end MovesFrom
end

theorem look_looks : Looks look State.current := ⟨fun _ => rfl, fun _ _ => rfl⟩

theorem lookAhead_looks (i : Nat) : Looks (lookAhead i) fun s => (s.ahead i).kind :=
  ⟨fun _ => rfl, fun _ _ => rfl⟩

theorem at_looks (k : TokenKind) : Looks (at? k) fun s => s.current.kind == k :=
  ⟨fun _ => rfl, fun _ _ => rfl⟩

theorem atEnd_looks : Looks atEnd fun s => s.upcoming.isEmpty := ⟨fun _ => rfl, fun _ _ => rfl⟩

theorem spanFrom_looks (start : Span) : Looks (spanFrom start) fun s => start.merge s.last.span :=
  ⟨fun _ => rfl, fun _ _ => rfl⟩

/-! ## Single tokens -/

/-- A token of a kind of its own is not the end of the source. -/
theorem current_ne_eof {k : TokenKind} (hk : k ≠ .eof) (h : (s.current.kind == k) = true) :
    s.current.kind ≠ .eof := by
  rwa [eq_of_beq h]

/-- At the end of the source nothing is taken. -/
theorem advance_forward : Forward advance fun _ => False := by
  rintro n ⟨previous, upcoming, eof, reports, bound⟩ -
  cases upcoming with
  | nil => exact .ok rfl rfl (.nil _) False.elim
  | cons t rest =>
    exact .ok rfl rfl (show State.Gives _ [t] _ from ⟨rfl, rfl, rfl, rfl⟩) False.elim

theorem expect_forward {k : TokenKind} (hk : k ≠ .eof) : Forward (expect k) fun _ => True := by
  intro n s hs
  by_cases hkind : (s.current.kind == k) = true
  · have htwin : expect k (s.widen n) = .ok s.current (s.widen n).next :=
      (if_pos hkind).trans (advance_eq _)
    exact .ok ((if_pos hkind).trans (advance_eq s)) (htwin.trans (by rw [s.next_widen]))
      (hs.next (current_ne_eof hk hkind)).1 fun _ => List.cons_ne_nil _ _
  · exact .error (if_neg hkind) (if_neg hkind) (.nil s)

theorem expectSemicolon_eq (s : State) : expectSemicolon s = match expect .semicolon s with
    | .ok _ s => .ok () s
    | .error e s => report e s
    | .tooDeep e => .tooDeep e := rfl

theorem expectSemicolon_forward : Forward expectSemicolon fun _ => False := by
  intro n s hs
  cases expect_forward (k := .semicolon) (by decide) n s hs with
  | @ok t ts s' run twin gives =>
    have hrun : expectSemicolon s = .ok () s' := by rw [expectSemicolon_eq, run]
    exact .ok hrun (by rw [expectSemicolon_eq, twin]) gives False.elim
  | @error e ts s' run twin gives =>
    obtain ⟨previous, upcoming, eof, reports, bound⟩ := s'
    have hrun : expectSemicolon s = .ok () ⟨previous, upcoming, eof, e :: reports, bound⟩ := by
      rw [expectSemicolon_eq, run]
      rfl
    refine .ok hrun ?_ ⟨gives.upcoming, gives.previous, gives.eof, gives.bound⟩ False.elim
    rw [expectSemicolon_eq, twin]
    rfl
  | tooDeep run twin fault =>
    exact .tooDeep (by rw [expectSemicolon_eq, run]) (by rw [expectSemicolon_eq, twin]) fault

theorem eat_forward {k : TokenKind} (hk : k ≠ .eof) : Forward (eat k) (· = true) := by
  intro n s
  unfold eat
  refine .peek (at_looks k) (.ite (fun hkind => ?_) fun _ => .pure nofun)
  exact .advance (current_ne_eof hk hkind) fun _ _ => .pure id

theorem identifier_forward : Forward identifier fun _ => True := by
  intro n s
  unfold identifier
  exact (expect_forward (by decide) n s).bind fun t s => .pure (by simp)

/-! ## Loops -/

/-- The run of a loop as its rounds. Each of them takes some token, or it is the last one. -/
inductive LoopRun (round : α → Parse (Option α)) : α → State → Outcome α → Prop
  | more {a b : α} {s s' : State} {ts : List Token} {o : Outcome α} (run : round a s = .ok (some b) s')
    (gives : s.Gives ts s') (takes : ts ≠ []) (rest : LoopRun round b s' o) : LoopRun round a s o
  | last {a : α} {s s' : State} (run : round a s = .ok none s') : LoopRun round a s (.ok a s')
  | error {a : α} {s s' : State} {e : SyntaxError} (run : round a s = .error e s') :
    LoopRun round a s (.error e s')
  | tooDeep {a : α} {s : State} {e : SyntaxError} (run : round a s = .tooDeep e) :
    LoopRun round a s (.tooDeep e)

theorem State.Gives.length (h : s.Gives ts s') : s.upcoming.length = ts.length + s'.upcoming.length := by
  rw [h.upcoming, List.length_append]

section

variable {round : α → Parse (Option α)} (hround : ∀ a, Forward (round a) (·.isSome))
include hround

/-- With more rounds than tokens a loop ends by itself. -/
theorem repeatFrom_runs {fuel fuel' : Nat} {a : α} (hs : s.Sound) (hfuel : s.upcoming.length < fuel)
    (hfuel' : s.upcoming.length < fuel') : LoopRun round a s (repeatFrom round fuel a s) ∧
      Moves n s (repeatFrom round fuel a) (repeatFrom round fuel' a) fun _ => False := by
  induction fuel generalizing a s fuel' with
  | zero => omega
  | succ fuel ih =>
    obtain ⟨fuel', rfl⟩ : ∃ m, fuel' = m + 1 := ⟨fuel' - 1, by omega⟩
    cases hround a n s hs with
    | @ok r ts s' run twin gives takes =>
      cases r with
      | none =>
        have heq : repeatFrom round (fuel + 1) a s = .ok a s' := by simp only [repeatFrom, run]
        refine ⟨heq ▸ .last run, .ok heq ?_ gives False.elim⟩
        simp only [repeatFrom, twin]
      | some b =>
        have hlength := gives.length
        have hpos := List.length_pos_of_ne_nil (takes rfl)
        have hfuel : s'.upcoming.length < fuel := by omega
        have hfuel' : s'.upcoming.length < fuel' := by omega
        obtain ⟨hrest, hmoves⟩ := ih (a := b) (hs.gives gives) hfuel hfuel'
        refine ⟨?_, hmoves.behind gives ?_ ?_ fun _ => .inl⟩
        all_goals simp only [repeatFrom, run, twin]
        exact .more run gives (takes rfl) hrest
    | @error e ts s' run twin gives =>
      have heq : repeatFrom round (fuel + 1) a s = .error e s' := by simp only [repeatFrom, run]
      refine ⟨heq ▸ .error run, .error heq ?_ gives⟩
      simp only [repeatFrom, twin]
    | @tooDeep e run twin fault =>
      refine ⟨?_, .tooDeep (e := e) ?_ ?_ fault⟩
      all_goals simp only [repeatFrom, run, twin]
      exact .tooDeep run

theorem iterate_runs (a : α) (hs : s.Sound) : LoopRun round a s (iterate round a s) :=
  (repeatFrom_runs (n := 0) hround hs (Nat.lt_succ_of_le hs.bound) (Nat.lt_succ_of_le hs.bound)).1

theorem iterate_forward (a : α) : Forward (iterate round a) fun _ => False := by
  intro n s hs
  have hbound := hs.bound
  have hfuel : s.upcoming.length < s.bound + 1 := by omega
  have hfuel' : s.upcoming.length < s.bound + n + 1 := by omega
  exact (repeatFrom_runs (a := a) hround hs hfuel hfuel').2.behind (.nil s) rfl rfl fun _ => .inl

end

theorem commaRound_forward {p : Parse α} (hp : Forward p fun _ => True) (done : List α) :
    Forward (commaRound p done) (·.isSome) := by
  intro n s
  unfold commaRound
  refine (eat_forward (by decide) n s).bind fun b s => .ite (fun hb => ?_) fun _ => .pure (by simp)
  exact (hp n s).bind fun a s => .pure (by simp)

theorem commaList_forward {p : Parse α} (hp : Forward p fun _ => True) :
    Forward (commaList p) fun _ => True := by
  intro n s
  rw [commaList_eq]
  refine (hp n s).bind fun first s => ?_
  exact (iterate_forward (commaRound_forward hp) _ n s).bind fun all s => .pure (by simp)

/-! ## Skipping -/

inductive SkipLoop : (Option Token → List Token → Option Token × List Token) → Prop
  | statement (moved : Bool) : SkipLoop (afterStatement moved)
  | member (moved : Bool) : SkipLoop (afterMember moved)
  | braces (depth : Nat) : SkipLoop (afterBraces depth)

variable {find : Option Token → List Token → Option Token × List Token}

theorem SkipLoop.atEnd (h : SkipLoop find) (last : Option Token) : find last [] = (last, []) := by
  cases h <;> rfl

/-- A round ends the loop in front of the next token or behind it, or goes on behind it. -/
theorem SkipLoop.round (h : SkipLoop find) (last : Option Token) (t : Token) (rest : List Token) :
    find last (t :: rest) = (last, t :: rest) ∨ find last (t :: rest) = (some t, rest) ∨
      ∃ goOn, SkipLoop goOn ∧ find last (t :: rest) = goOn (some t) rest := by
  have hbraces (depth : Nat) : afterBraces depth last (t :: rest) = (some t, rest) ∨
      ∃ goOn, SkipLoop goOn ∧ afterBraces depth last (t :: rest) = goOn (some t) rest := by
    rw [afterBraces]
    split
    · exact .inr ⟨_, .braces _, rfl⟩
    · split
      · exact .inl rfl
      · exact .inr ⟨_, .braces _, rfl⟩
    · exact .inr ⟨_, .braces _, rfl⟩
  cases h with
  | statement moved =>
    rw [afterStatement]
    split
    · exact .inr (.inl rfl)
    · split
      · exact .inl rfl
      · exact .inr (.inr ⟨_, .statement _, rfl⟩)
  | member moved =>
    rw [afterMember]
    split
    · exact .inr (.inl rfl)
    · split
      · exact .inr (hbraces 0)
      · split
        · exact .inl rfl
        · exact .inr (.inr ⟨_, .member _, rfl⟩)
  | braces depth => exact .inr (hbraces depth)

/-- The run of a loop that skips as its rounds. Each of them passes a token, or it is the last one. -/
inductive SkipRun : (Option Token → List Token → Option Token × List Token) → Option Token →
    List Token → Option Token × List Token → Prop
  | more {find goOn : Option Token → List Token → Option Token × List Token} {last : Option Token}
    {t : Token} {ts : List Token} {found : Option Token × List Token}
    (round : find last (t :: ts) = goOn (some t) ts) (rest : SkipRun goOn (some t) ts found) :
    SkipRun find last (t :: ts) found
  | behind {find : Option Token → List Token → Option Token × List Token} {last : Option Token}
    {t : Token} {ts : List Token} (round : find last (t :: ts) = (some t, ts)) :
    SkipRun find last (t :: ts) (some t, ts)
  | here {find : Option Token → List Token → Option Token × List Token} {last : Option Token}
    {ts : List Token} (round : find last ts = (last, ts)) : SkipRun find last ts (last, ts)

theorem SkipLoop.runs (h : SkipLoop find) (last : Option Token) (ts : List Token) :
    SkipRun find last ts (find last ts) := by
  induction ts generalizing find last with
  | nil =>
    have hround := h.atEnd last
    rw [hround]
    exact .here hround
  | cons t ts ih =>
    obtain hround | hround | ⟨goOn, hgoOn, hround⟩ := h.round last t ts
    · rw [hround]
      exact .here hround
    · rw [hround]
      exact .behind hround
    · rw [hround]
      exact .more hround (ih hgoOn (some t))

/-- The tokens that were passed, and the last of them. -/
theorem SkipRun.passes {last : Option Token} {ts : List Token} {found : Option Token × List Token}
    (h : SkipRun find last ts found) : ∃ us, ts = us ++ found.2 ∧ found.1 = us.getLast?.or last := by
  induction h with
  | @more _ _ _ t _ _ _ _ ih =>
    obtain ⟨us, hsplit, hlast⟩ := ih
    refine ⟨t :: us, congrArg (t :: ·) hsplit, hlast.trans ?_⟩
    rw [List.getLast?_cons]
    cases us.getLast? <;> rfl
  | @behind _ _ t => exact ⟨[t], rfl, rfl⟩
  | here => exact ⟨[], rfl, rfl⟩

/-- A loop that skips tokens, and the first one unless it is a closing brace. -/
structure Resumes (find : Option Token → List Token → Option Token × List Token) : Prop where
  loop : SkipLoop find
  moves (last : Option Token) (t : Token) (rest : List Token)
    (h : (find last (t :: rest)).2 = t :: rest) : t.kind = .rightBrace

/-- What is left behind the next token is not all that there was. -/
theorem SkipLoop.shorter (h : SkipLoop find) (last : Option Token) (t : Token) (rest : List Token) :
    (find last rest).2 ≠ t :: rest := by
  obtain ⟨us, hsplit, -⟩ := (h.runs last rest).passes
  intro heq
  have hlength := congrArg List.length hsplit
  rw [heq, List.length_append, List.length_cons] at hlength
  omega

theorem resumes_statement : Resumes (afterStatement false) where
  loop := .statement false
  moves last t rest h := by
    rw [afterStatement] at h
    split at h
    · exact absurd h.symm (List.cons_ne_self t rest)
    · split at h
      · next hstop => simpa using hstop
      · exact absurd h ((SkipLoop.statement true).shorter _ t rest)

theorem resumes_member : Resumes (afterMember false) where
  loop := .member false
  moves last t rest h := by
    rw [afterMember] at h
    split at h
    · exact absurd h.symm (List.cons_ne_self t rest)
    · split at h
      · next hbrace =>
        rw [afterBraces, hbrace] at h
        exact absurd h ((SkipLoop.braces 1).shorter _ t rest)
      · split at h
        · next hstop => simpa using hstop
        · exact absurd h ((SkipLoop.member true).shorter _ t rest)

/-! ## Going on -/

variable {p q : Parse α}

theorem State.Sound.upcoming_ne_nil (hs : s.Sound) (hkind : s.current.kind ≠ .eof) :
    s.upcoming ≠ [] := by
  intro hnil
  rw [State.current, hnil] at hkind
  exact hkind hs.eof

def State.Passable (s : State) : Prop := s.upcoming ≠ [] ∧ s.current.kind ≠ .rightBrace

theorem State.Gives.current (h : s.Gives [] s') : s'.current = s.current := by
  rw [State.current, State.current, h.upcoming, h.eof, List.nil_append]

theorem State.Gives.passable (h : s.Gives [] s') (hs : s.Passable) : s'.Passable := by
  obtain ⟨hne, hkind⟩ := hs
  refine ⟨?_, h.current ▸ hkind⟩
  rwa [h.upcoming, List.nil_append] at hne

theorem skipTo_moves (h : Resumes find) :
    MovesFrom n s (skipTo find) (skipTo find) fun _ => s.Passable := by
  intro _
  obtain ⟨us, hsplit, hlast⟩ := (h.loop.runs s.previous s.upcoming).passes
  obtain ⟨previous, upcoming, eof, reports, bound⟩ := s
  refine .ok rfl rfl (show State.Gives _ us _ from ⟨hsplit, hlast, rfl, rfl⟩) ?_
  rintro ⟨hne, hkind⟩ rfl
  cases upcoming with
  | nil => exact hne rfl
  | cons t rest => exact hkind (h.moves previous t rest hsplit.symm)

theorem recovering_eq (p : Parse α) (resume : Parse Unit) (s : State) :
    recovering p resume s = match p s with
    | .ok a s => .ok (some a) s
    | .error e s =>
      match (do report e; resume : Parse Unit) s with
      | .ok _ s => .ok none s
      | .error e s => .error e s
      | .tooDeep e => .tooDeep e
    | .tooDeep e => .tooDeep e := rfl

/-- What recovers takes a token, if the search for a place to go on from would. -/
theorem recovering_moves (hp : MovesFrom n s p q fun _ => True) (h : Resumes find) :
    MovesFrom n s (recovering p (skipTo find)) (recovering q (skipTo find)) fun _ => s.Passable := by
  intro hs
  cases hp hs with
  | @ok a ts s' run twin gives takes =>
    have hrun : recovering p (skipTo find) s = .ok (some a) s' := by rw [recovering_eq, run]
    exact .ok hrun (by rw [recovering_eq, twin]) gives fun _ => takes trivial
  | @error e ts s' run twin gives =>
    have hresume : MovesFrom n s' (do report e; skipTo find : Parse Unit)
        (do report e; skipTo find : Parse Unit) fun _ => s'.Passable :=
      .report fun s'' hgives => (skipTo_moves h).mono fun _ hs' => hgives.passable hs'
    cases hresume (hs.gives gives) with
    | @ok _ us s'' run' twin' gives' takes' =>
      have hrun : recovering p (skipTo find) s = .ok none s'' := by simp only [recovering_eq, run, run']
      refine .ok hrun (by simp only [recovering_eq, twin, twin']) (gives.trans gives') fun hpass hnil => ?_
      obtain ⟨rfl, rfl⟩ := List.append_eq_nil_iff.mp hnil
      exact takes' (gives.passable hpass) rfl
    | @error e' us s'' run' twin' gives' =>
      have hrun : recovering p (skipTo find) s = .error e' s'' := by simp only [recovering_eq, run, run']
      exact .error hrun (by simp only [recovering_eq, twin, twin']) (gives.trans gives')
    | @tooDeep e' run' twin' fault =>
      exact .tooDeep (e := e') (by simp only [recovering_eq, run, run']) (by simp only [recovering_eq, twin, twin']) fault
  | tooDeep run twin fault => exact .tooDeep (by rw [recovering_eq, run]) (by rw [recovering_eq, twin]) fault

end ClassScript.Grammar
