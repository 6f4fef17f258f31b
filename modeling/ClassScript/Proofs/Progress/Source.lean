import ClassScript.Proofs.Precedence.Sound
import ClassScript.Proofs.Progress.Declaration
import ClassScript.Proofs.Spelling.Source

/-!
Every source is read to its end.

The calls of the lexer come to an end, as each takes a character. Wherever the parser stands among the
tokens, each round of a loop that it may start there takes a token or is the last one, so the bound on
rounds never ends a loop, and a larger one would change nothing. A round of items takes a token even
where it recovers from a failure, and no failure leaves it. At the top of a file only a missing token or
a namespace without braces ends the rounds, and the latter has read items at the top of a file itself.
So items are read until no token is left, unless the source nests too deep.
-/

namespace ClassScript.Grammar

variable {n : Nat} {s s' : State}

/-! ## Items -/

/-- Items with rounds enough for all tokens. -/
def itemsIn (depth : Nat) (top : Bool) : Parse (List Item) := fun s =>
  itemsFrom (s.bound + 1) depth top [] s

theorem script_eq : script = (do
    let start := (← look).span
    let us ← usings
    let all ← itemsIn maxNesting true
    pure ⟨us, all, ← spanFrom start⟩) := rfl

/-- With more rounds than tokens, their number makes no difference. -/
theorem itemsFrom_moves {fuel fuel' : Nat} (depth : Nat) (top : Bool) (done : List Item)
    (hfuel : s.upcoming.length < fuel) (hfuel' : s.upcoming.length < fuel') :
    MovesFrom n s (itemsFrom fuel depth top done) (itemsFrom fuel' depth top done) fun _ => False := by
  induction fuel generalizing fuel' depth top done s with
  | zero => omega
  | succ fuel ih =>
    obtain ⟨fuel', rfl⟩ : ∃ m, fuel' = m + 1 := ⟨fuel' - 1, by omega⟩
    unfold itemsFrom
    refine .peek atEnd_looks (.peek (at_looks _) (.ite (fun _ => .pure id) fun hgoes => ?_))
    have hne : s.upcoming ≠ [] := fun hnil => by simp [hnil] at hgoes
    have hround : MovesFrom n s (itemRound depth fun depth top => itemsFrom fuel depth top [])
        (itemRound depth fun depth top => itemsFrom fuel' depth top []) fun _ => True :=
      itemRound_moves depth hne fun depth top s' hlength => ih depth top [] (by omega) (by omega)
    refine hround.bindBehind fun r s' ts hgives htakes => ?_
    have hlength := hgives.length
    have hpos := List.length_pos_of_ne_nil (htakes trivial)
    refine .ite (fun _ => ?_) fun _ => .pure (by simp)
    exact (ih depth top _ (by omega) (by omega)).mono (by simp)

theorem itemsIn_forward (depth : Nat) (top : Bool) : Forward (itemsIn depth top) fun _ => False := by
  intro n s hs
  have hbound := hs.bound
  have hmoves : Moves n s (itemsFrom (s.bound + 1) depth top [])
      (itemsFrom (s.bound + n + 1) depth top []) fun _ => False :=
    itemsFrom_moves depth top [] (by omega) (by omega) hs
  exact hmoves.behind (.nil s) rfl rfl fun _ => .inl

theorem script_forward : Forward script fun _ => False := by
  intro n s
  rw [script_eq]
  refine .peek look_looks ((usings_forward n s).bind fun us s => ?_)
  exact (itemsIn_forward _ _ n s).bind fun all s => .peek (spanFrom_looks _) (.pure (by simp))

/-- A round of items reads those of namespaces with rounds enough. -/
theorem itemRound_eq {fuel : Nat} (depth : Nat) (hs : s.Sound) (hne : s.upcoming ≠ [])
    (hfuel : s.upcoming.length ≤ fuel) :
    itemRound depth (fun depth top => itemsFrom fuel depth top []) s = itemRound depth itemsIn s := by
  have hmoves : MovesFrom 0 s (itemRound depth itemsIn)
      (itemRound depth fun depth top => itemsFrom fuel depth top []) fun _ => True := by
    refine itemRound_moves depth hne fun depth top s' hlength hs' => ?_
    have hbound := hs'.bound
    have hitems : Moves 0 s' (itemsFrom (s'.bound + 1) depth top [])
        (itemsFrom fuel depth top []) fun _ => False :=
      itemsFrom_moves depth top [] (by omega) (by omega) hs'
    exact hitems.behind (.nil s') rfl rfl fun _ => .inl
  have hwidens := (hmoves hs).widens
  rwa [Outcome.widen_zero] at hwidens

/-! ## Failures -/

def Recovers {α : Type} (p : Parse α) : Prop := ∀ s e s', p s ≠ .error e s'

namespace Recovers

variable {α β : Type} {p : Parse α} {f : α → Parse β}

theorem bind (hp : Recovers p) (hf : ∀ a, Recovers (f a)) : Recovers (p >>= f) := by
  intro s e s'' hrun
  simp only [Bind.bind, Parse.bind] at hrun
  split at hrun
  case h_1 a s' _ => exact hf a s' e s'' hrun
  case h_2 e' s' h =>
    exact hp s e' s' h
  case h_3 => cases hrun

theorem pure (a : α) : Recovers (Pure.pure a : Parse α) := fun _ _ _ => nofun

theorem looks {value : State → α} (hp : Looks p value) : Recovers p := by
  intro s e s' hrun
  rw [hp.eq] at hrun
  cases hrun

theorem skipTo (find : Option Token → List Token → Option Token × List Token) :
    Recovers (Grammar.skipTo find) := by
  rintro ⟨previous, upcoming, eof, reports, bound⟩ e s' hrun
  cases hrun

theorem report (e : SyntaxError) : Recovers (Grammar.report e) := fun _ _ _ => nofun

theorem recovering {resume : Parse Unit} (hresume : Recovers resume) :
    Recovers (Grammar.recovering p resume) := by
  intro s e s' hrun
  unfold Grammar.recovering at hrun
  split at hrun
  case h_1 | h_3 => cases hrun
  case h_2 =>
    split at hrun
    case h_1 | h_3 => cases hrun
    case h_2 h => exact (report _).bind (fun _ => hresume) _ _ _ h

theorem iterate {round : α → Parse (Option α)} (hround : ∀ a, Recovers (round a)) (a : α) :
    Recovers (Grammar.iterate round a) := by
  intro s e s' hrun
  unfold Grammar.iterate at hrun
  generalize s.bound + 1 = fuel at hrun
  induction fuel generalizing a s with
  | zero => cases hrun
  | succ fuel ih =>
    unfold repeatFrom at hrun
    split at hrun
    case h_1 b s'' _ => exact ih b s'' hrun
    case h_2 | h_4 => cases hrun
    case h_3 h => exact hround a s _ _ h

end Recovers

theorem usings_recovers : Recovers usings := by
  rw [usings_eq]
  refine (Recovers.iterate (fun done => ?_) []).bind fun all => .pure _
  unfold usingRound
  refine (Recovers.looks (at_looks _)).bind fun b => ?_
  split
  · refine (Recovers.recovering (.skipTo _)).bind fun r => ?_
    split <;> exact .pure _
  · exact .pure _

theorem itemRound_recovers (depth : Nat) (items : Nat → Bool → Parse (List Item)) :
    Recovers (itemRound depth items) := by
  unfold itemRound
  refine (Recovers.looks look_looks).bind fun t => ?_
  split
  · refine (Recovers.recovering (.skipTo _)).bind fun r => ?_
    split <;> exact .pure _
  · exact (Recovers.report _).bind fun _ => (Recovers.skipTo _).bind fun _ => .pure _
  · refine Recovers.bind (fun s e s' hrun => ?_) fun t => (Recovers.report _).bind fun _ => .pure _
    rw [advance_eq] at hrun
    cases hrun
  · refine (Recovers.recovering (.skipTo _)).bind fun r => ?_
    split <;> exact .pure _

theorem itemsFrom_recovers (fuel depth : Nat) (top : Bool) (done : List Item) :
    Recovers (itemsFrom fuel depth top done) := by
  induction fuel generalizing done with
  | zero => exact .pure _
  | succ fuel ih =>
    unfold itemsFrom
    refine (Recovers.looks atEnd_looks).bind fun b => (Recovers.looks (at_looks _)).bind fun b' => ?_
    split
    · exact .pure _
    · refine (itemRound_recovers depth _).bind fun r => ?_
      split
      split
      · exact ih _
      · exact .pure _

theorem script_recovers : Recovers script := by
  rw [script_eq]
  refine (Recovers.looks look_looks).bind fun t => usings_recovers.bind fun us => ?_
  refine Recovers.bind (fun s => itemsFrom_recovers _ _ _ _ s) fun all => ?_
  exact (Recovers.looks (spanFrom_looks _)).bind fun span => .pure _

/-! ## Rounds -/

/-- The run that reads items as its rounds. Each of them takes some token, or it is the last one. -/
inductive ItemsRun (depth : Nat) (top : Bool) : List Item → State → Outcome (List Item) → Prop
  | more {done : List Item} {item : Option Item} {s s' : State} {ts : List Token}
    {o : Outcome (List Item)} (run : itemRound depth itemsIn s = .ok (item, true) s')
    (gives : s.Gives ts s') (takes : ts ≠ []) (rest : ItemsRun depth top (item.toList ++ done) s' o) :
    ItemsRun depth top done s o
  | last {done : List Item} {item : Option Item} {s s' : State}
    (run : itemRound depth itemsIn s = .ok (item, false) s') :
    ItemsRun depth top done s (.ok (item.toList ++ done).reverse s')
  | ended {done : List Item} {s : State}
    (h : s.upcoming = [] ∨ top = false ∧ s.current.kind = .rightBrace) :
    ItemsRun depth top done s (.ok done.reverse s)
  | tooDeep {done : List Item} {s : State} {e : SyntaxError}
    (run : itemRound depth itemsIn s = .tooDeep e) : ItemsRun depth top done s (.tooDeep e)

theorem itemsFrom_succ (fuel depth : Nat) (top : Bool) (done : List Item) (s : State) :
    itemsFrom (fuel + 1) depth top done s =
      if s.upcoming.isEmpty || (!top && s.current.kind == .rightBrace) then .ok done.reverse s
      else match itemRound depth (fun depth top => itemsFrom fuel depth top []) s with
        | .ok (item, true) s' => itemsFrom fuel depth top (item.toList ++ done) s'
        | .ok (item, false) s' => .ok (item.toList ++ done).reverse s'
        | .error e s' => .error e s'
        | .tooDeep e => .tooDeep e := by
  simp only [itemsFrom, Bind.bind, Parse.bind, atEnd, at?]
  split
  · rfl
  · simp only [Parse.bind]
    cases itemRound depth (fun depth top => itemsFrom fuel depth top []) s with
    | ok r s' =>
      obtain ⟨item, more⟩ := r
      cases more <;> rfl
    | error | tooDeep => rfl

theorem itemsFrom_runs {fuel : Nat} (depth : Nat) (top : Bool) (done : List Item) (hs : s.Sound)
    (hfuel : s.upcoming.length < fuel) :
    ItemsRun depth top done s (itemsFrom fuel depth top done s) := by
  induction fuel generalizing done s with
  | zero => omega
  | succ fuel ih =>
    rw [itemsFrom_succ]
    split
    case isTrue hended => exact .ended (by simpa using hended)
    case isFalse hgoes =>
      have hne : s.upcoming ≠ [] := fun hnil => by simp [hnil] at hgoes
      rw [itemRound_eq depth hs hne (by omega)]
      have hround := itemRound_moves (n := 0) depth hne fun depth top s' _ => itemsIn_forward depth top 0 s'
      cases hround hs with
      | @ok r ts s' run _ gives takes =>
        obtain ⟨item, more⟩ := r
        have hlength := gives.length
        have hpos := List.length_pos_of_ne_nil (takes trivial)
        rw [run]
        cases more with
        | true => exact .more run gives (takes trivial) (ih _ (hs.gives gives) (by omega))
        | false => exact .last run
      | error run => exact absurd run (itemRound_recovers _ _ _ _ _)
      | tooDeep run =>
        rw [run]
        exact .tooDeep run

theorem itemsIn_runs (depth : Nat) (top : Bool) (hs : s.Sound) :
    ItemsRun depth top [] s (itemsIn depth top s) :=
  itemsFrom_runs depth top [] hs (Nat.lt_succ_of_le hs.bound)

/-! ## The end -/

/-- Only where it recovered from nothing something is given. -/
theorem recovering_some {α : Type} {p : Parse α} {resume : Parse Unit} {a : α}
    (h : recovering p resume s = .ok (some a) s') : p s = .ok a s' := by
  unfold recovering at h
  split at h
  case h_1 h' =>
    cases h
    exact h'
  case h_2 => split at h <;> cases h
  case h_3 => cases h

/-- A namespace without braces ends where its items do, which are read at the top of a file. -/
theorem scopeDecl_closes {depth : Nat} {items : Nat → Bool → Parse (List Item)} {item : Item}
    (hs : s.Sound) (h : scopeDecl depth items s = .ok (true, item) s') :
    ∃ ts s₁ all, s.Gives ts s₁ ∧ ts ≠ [] ∧ items depth true s₁ = .ok all s' := by
  unfold scopeDecl at h
  obtain ⟨start, s₁, hstart, h⟩ := bind_iff.mp h
  obtain ⟨ts₁, hgives₁, htakes⟩ := (expect_forward (by decide)).gives hs hstart
  have hs₁ := hs.gives hgives₁
  obtain ⟨path, s₂, hpath, h⟩ := bind_iff.mp h
  obtain ⟨ts₂, hgives₂, -⟩ := dottedPath_forward.gives hs₁ hpath
  have hs₂ := hs₁.gives hgives₂
  obtain ⟨b, s₃, heat, h⟩ := bind_iff.mp h
  obtain ⟨ts₃, hgives₃, -⟩ := (eat_forward (by decide)).gives hs₂ heat
  have hs₃ := hs₂.gives hgives₃
  cases b with
  | true =>
    obtain ⟨us, s₄, husings, h⟩ := bind_iff.mp h
    obtain ⟨ts₄, hgives₄, -⟩ := usings_forward.gives hs₃ husings
    obtain ⟨all, s₅, hall, h⟩ := bind_iff.mp h
    obtain ⟨span, s₆, hspan, h⟩ := bind_iff.mp h
    rw [(spanFrom_looks _).eq] at hspan
    cases hspan
    obtain ⟨-, rfl⟩ := pure_iff.mp h
    refine ⟨_, s₄, all, ((hgives₁.trans hgives₂).trans hgives₃).trans hgives₄, ?_, hall⟩
    simp [htakes trivial]
  | false =>
    -- a namespace with braces does not close the file
    cases depth with
    | zero => cases h
    | succ depth =>
      obtain ⟨_, s₄, -, h⟩ := bind_iff.mp h
      obtain ⟨us, s₅, -, h⟩ := bind_iff.mp h
      obtain ⟨all, s₆, -, h⟩ := bind_iff.mp h
      obtain ⟨_, s₇, -, h⟩ := bind_iff.mp h
      obtain ⟨span, s₈, -, h⟩ := bind_iff.mp h
      cases (pure_iff.mp h).1

/-- Only behind a namespace without braces the rounds end. -/
theorem itemRound_last {depth : Nat} {items : Nat → Bool → Parse (List Item)} (hs : s.Sound) :
    After s (itemRound depth items) fun r s' => r.2 = false →
      ∃ ts s₁ all, s.Gives ts s₁ ∧ ts ≠ [] ∧ items depth true s₁ = .ok all s' := by
  have hany {α : Type} (p : Parse α) (s : State) : After s p fun _ _ => True := fun _ _ _ => trivial
  unfold itemRound
  refine .peek rfl ?_
  split
  · refine After.bind (P := fun r s' => ∀ closes item, r = some (closes, item) →
      scopeDecl depth items s = .ok (closes, item) s') ?_ fun r s' hr => ?_
    · rintro _ s' h closes item rfl
      exact recovering_some h
    · split
      · next closes item =>
        refine .pure fun hmore => ?_
        obtain rfl : closes = true := by simpa using hmore
        exact scopeDecl_closes hs (hr true item rfl)
      · exact .pure nofun
  · exact (hany _ s).bind fun _ s' _ => (hany _ s').bind fun _ s'' _ => .pure nofun
  · exact (hany _ s).bind fun _ s' _ => (hany _ s').bind fun _ s'' _ => .pure nofun
  · refine (hany _ s).bind fun r s' _ => ?_
    split <;> exact .pure nofun

/-- At the top of a file no token is left. -/
theorem itemsIn_top {depth : Nat} {all : List Item} (hs : s.Sound)
    (h : itemsIn depth true s = .ok all s') : s'.upcoming = [] := by
  -- the rounds of a namespace without braces begin with fewer tokens
  induction hlength : s.upcoming.length using Nat.strongRecOn generalizing s all s' with
  | ind length ih =>
    have hruns := itemsIn_runs depth true hs
    rw [h] at hruns
    have hle : s.upcoming.length ≤ length := Nat.le_of_eq hlength
    clear h hlength
    generalize ([] : List Item) = done at hruns
    generalize ho : Outcome.ok all s' = o at hruns
    induction hruns with
    | more run gives takes rest ih' => exact ih' (hs.gives gives) (by have := gives.length; omega) ho
    | @last done item s s'' run =>
      cases ho
      obtain ⟨ts, s₁, all, hgives, hne, hall⟩ := itemRound_last hs _ _ run rfl
      have hlength := hgives.length
      have hpos := List.length_pos_of_ne_nil hne
      exact ih s₁.upcoming.length (by omega) (hs.gives hgives) hall rfl
    | ended hended =>
      cases ho
      simpa using hended
    | tooDeep => cases ho

end ClassScript.Grammar

namespace ClassScript

namespace Grammar

/-! ## Loops -/

/-- The loops of the grammar, each by its round: the names of a path, modifiers, accesses and operators
behind an operand, the parts of lists with commas, statements, members and usings. -/
inductive Loop : {α : Type} → (α → Parse (Option α)) → Prop
  | names : Loop nameRound
  | modifiers : Loop modifier?
  | accesses (depth : Nat) : Loop (suffix? (expr depth))
  | operators (depth power : Nat) : Loop (operator? (expr depth) power)
  | exprs (depth : Nat) : Loop (commaRound (expr depth 0))
  | declarators (depth : Nat) : Loop (commaRound (declarator (expr depth 0)))
  | params : Loop (commaRound param)
  | statements (depth : Nat) : Loop (statementRound (statement depth))
  | members (depth : Nat) (owner : String) : Loop (memberRound depth owner)
  | usings : Loop usingRound

theorem Loop.forward {α : Type} {round : α → Parse (Option α)} (h : Loop round) (a : α) :
    Forward (round a) (·.isSome) := by
  cases h with
  | names => exact nameRound_forward a
  | modifiers => exact modifier_forward a
  | accesses depth => exact suffix_forward (expr_forward depth) a
  | operators depth power => exact operator_forward (expr_forward depth) power a
  | exprs depth => exact commaRound_forward (expr_forward depth 0) a
  | declarators depth => exact commaRound_forward (declarator_forward (expr_forward depth 0)) a
  | params => exact commaRound_forward param_forward a
  | statements depth => exact statementRound_forward (statement_forward depth) a
  | members depth owner => exact memberRound_forward depth owner a
  | usings => exact usingRound_forward a

/-- Each round of a loop that is started here takes a token, or it is the last one. -/
structure State.Progresses (s : State) : Prop where
  loops {α : Type} {round : α → Parse (Option α)} (h : Loop round) (a : α) :
    LoopRun round a s (iterate round a s)
  items (depth : Nat) (top : Bool) : ItemsRun depth top [] s (itemsIn depth top s)
  skips {find : Option Token → List Token → Option Token × List Token} (h : SkipLoop find) :
    SkipRun find s.previous s.upcoming (find s.previous s.upcoming)

theorem State.Sound.progresses {s : State} (hs : s.Sound) : s.Progresses where
  loops h a := iterate_runs h.forward a hs
  items depth top := itemsIn_runs depth top hs
  skips h := h.runs _ _

/-! ## Scripts -/

/-- A script takes all tokens, unless it nests too deep. -/
theorem script_ends {s : State} (hs : s.Sound) :
    (∃ tree s', script s = .ok tree s' ∧ s.Gives s.upcoming s' ∧ s'.current.kind = .eof) ∨
      ∃ e, script s = .tooDeep e ∧ e.fault = .nestingTooDeep maxNesting := by
  cases script_forward 0 s hs with
  | @ok tree ts s' run _ gives =>
    refine .inl ⟨tree, s', run, ?_⟩
    rw [script_eq] at run
    obtain ⟨t, s₁, hlook, run⟩ := bind_iff.mp run
    cases hlook
    obtain ⟨us, s₂, husings, run⟩ := bind_iff.mp run
    obtain ⟨ts₂, hgives₂, -⟩ := usings_forward.gives hs husings
    obtain ⟨all, s₃, hall, run⟩ := bind_iff.mp run
    obtain ⟨span, s₄, hspan, run⟩ := bind_iff.mp run
    rw [(spanFrom_looks _).eq] at hspan
    cases hspan
    obtain ⟨-, rfl⟩ := pure_iff.mp run
    have hnil := itemsIn_top (hs.gives hgives₂) hall
    have htaken : s.upcoming = ts := by rw [gives.upcoming, hnil, List.append_nil]
    refine ⟨htaken ▸ gives, ?_⟩
    rw [State.current, hnil, List.headD_nil, gives.eof, hs.eof]
  | error run => exact absurd run (script_recovers _ _ _)
  | tooDeep run _ fault => exact .inr ⟨_, run, fault⟩

end Grammar

/-! ## Sources -/

theorem Grammar.State.sound_ofSource (source : List Char) : (State.ofSource source).Sound := by
  obtain ⟨ps, htiles, hrun⟩ := Lexer.run_tiles source
  obtain ⟨qs, last, rfl, hlast, hqs⟩ := htiles.kinds
  have htokens : (Lexer.run source).1.filter (fun t => t.kind ≠ .error) =
      (qs.map (·.token)).filter (fun t => t.kind ≠ .error) ++ [last.token] := by
    simp [hrun, hlast]
  unfold State.ofSource State.ofTokens
  rw [htokens]
  refine ⟨by simpa using hlast, Nat.le_refl _, fun t ht => ?_⟩
  obtain ⟨ht, heof⟩ := List.mem_filter.mp ht
  obtain ht | ht := List.mem_append.mp ht
  · obtain ⟨p, hp, rfl⟩ := List.mem_map.mp (List.mem_filter.mp ht).1
    exact (hqs p hp).1.faithful
  · rw [List.mem_singleton.mp ht] at heof
    simp [hlast] at heof

end ClassScript
