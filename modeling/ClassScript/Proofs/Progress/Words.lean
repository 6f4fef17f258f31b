import ClassScript.Proofs.Progress.Source

/-!
The names of declarations are words.

A token that is a name has letters, digits and underscores only, and recovery passes tokens over but
makes none up. So there is no point in the name of a namespace or a class, whatever mistakes a source
has.
-/

namespace ClassScript

/-- A text of letters, digits and underscores. -/
def IsWord (text : String) : Prop := text.toList ≠ [] ∧ ∀ ch ∈ text.toList, Lexer.isWordPart ch = true

instance (text : String) : Decidable (IsWord text) :=
  decidable_of_iff ((!text.toList.isEmpty && text.toList.all Lexer.isWordPart) = true) (by simp [IsWord])

theorem IsWord.no_point {text : String} (h : IsWord text) : '.' ∉ text.toList :=
  fun hmem => absurd (h.2 _ hmem) (by decide)

/-! ## Tokens -/

/-- If the token is a name, it is a word. -/
def Token.Worded (t : Token) : Prop := t.kind = .identifier → IsWord t.lexeme

namespace Lexer

theorem worded_scanString (first c : Cursor) (text : List Char) (errors : List SyntaxError) :
    (scanString first c text errors).token.Worded := by
  fun_induction scanString first c text errors
  case case1 | case2 | case3 =>
    intro hname
    cases hname
  case case4 ih | case5 ih | case6 ih => exact ih

theorem worded_scanVerbatim (first c : Cursor) (text : List Char) :
    (scanVerbatim first c text).token.Worded := by
  fun_induction scanVerbatim first c text
  case case1 | case3 =>
    intro hname
    cases hname
  case case2 ih | case4 ih => exact ih

theorem worded_scanNumber (c : Cursor) : (scanNumber c).token.Worded := by
  unfold scanNumber
  dsimp only
  split
  · intro hname
    change (numberLength c.rest).1 = .identifier at hname
    obtain h | h | h := numberLength_kind c.rest <;> rw [h] at hname <;> cases hname
  · exact nofun

theorem worded_scanWord {c : Cursor} {ch : Char} {rest : List Char} (hrest : c.rest = ch :: rest)
    (hstart : isWordStart ch = true) : (scanWord c).token.Worded := by
  have hpart : isWordPart ch = true := by
    simp only [isWordStart, isWordPart, Char.isAlphanum, Bool.or_eq_true] at hstart ⊢
    exact hstart.imp_left .inl
  have hword : c.rest.take (runLength isWordPart c.rest) = c.rest.takeWhile isWordPart :=
    (List.prefix_iff_eq_take.mp (List.takeWhile_prefix _)).symm
  intro _
  change IsWord (String.ofList (c.rest.take (runLength isWordPart c.rest)))
  rw [hword, IsWord, String.toList_ofList]
  refine ⟨?_, fun d hd => List.mem_takeWhile_imp hd⟩
  rw [hrest, List.takeWhile_cons_of_pos hpart]
  exact List.cons_ne_nil _ _

theorem worded_scanSymbol (c : Cursor) : (scanSymbol c).token.Worded := by
  have hkinds : ∀ p ∈ symbols, p.2 ≠ .identifier := by decide
  unfold scanSymbol
  split
  · next spelling kind hfind => exact fun hname => absurd hname (hkinds _ (List.mem_of_find?_eq_some hfind))
  · exact nofun

theorem worded_next (c : Cursor) : (next c).token.Worded := by
  unfold next
  split
  · unfold scan
    split
    · exact nofun
    · exact worded_scanString _ _ _ _
    · exact worded_scanVerbatim _ _ _
    · next hrest =>
      split
      · exact worded_scanNumber _
      · split
        · next hstart => exact worded_scanWord hrest hstart
        · exact worded_scanSymbol _
  · exact nofun

theorem Tiles.worded {c : Cursor} {before : List Char} {ps : List Piece} (h : Tiles c before ps) :
    ∀ p ∈ ps, p.token.Worded := by
  induction h with
  | @last c p hnext =>
    intro q hq
    rw [List.mem_singleton.mp hq, Piece.token, hnext]
    exact worded_next c
  | @more c p ps hnext _ _ _ _ ih =>
    intro q hq
    obtain rfl | hq := List.mem_cons.mp hq
    · rw [Piece.token, hnext]
      exact worded_next c
    · exact ih q hq

end Lexer

/-! ## Declarations -/

/-- The name of a class and those of the namespaces around it are words. -/
structure PlacedClass.Worded (c : PlacedClass) : Prop where
  space : ∀ i ∈ c.space, IsWord i.name
  name : IsWord c.decl.name.name

/-- Inside namespaces whose names are words, the classes of the item have such names. -/
def Item.Worded (item : Item) : Prop := ∀ (space : List Ident) (us : List UsingDirective),
  (∀ i ∈ space, IsWord i.name) → ∀ c ∈ item.classes space us, c.Worded

theorem Item.worded_classesOf {items : List Item} (h : ∀ item ∈ items, item.Worded)
    {space : List Ident} (us : List UsingDirective) (hspace : ∀ i ∈ space, IsWord i.name) :
    ∀ c ∈ Item.classesOf space us items, c.Worded := by
  induction items with
  | nil => nofun
  | cons item items ih =>
    intro c hc
    obtain hc | hc := List.mem_append.mp hc
    · exact h item List.mem_cons_self space us hspace c hc
    · exact ih (fun i hi => h i (List.mem_cons_of_mem _ hi)) c hc

theorem Item.worded_scope {path : List Ident} {us : List UsingDirective} {items : List Item}
    {fileScoped : Bool} {span : Span} (hpath : ∀ i ∈ path, IsWord i.name)
    (hitems : ∀ item ∈ items, item.Worded) : (Item.scope path us items fileScoped span).Worded := by
  intro space outer hspace
  refine worded_classesOf hitems (outer ++ us) fun i hi => ?_
  exact (List.mem_append.mp hi).elim (hspace i) (hpath i)

theorem Item.worded_type {decl : ClassDecl} (h : IsWord decl.name.name) : (Item.type decl).Worded := by
  intro space us hspace c hc
  obtain rfl := List.mem_singleton.mp hc
  exact ⟨hspace, h⟩

namespace Grammar

/-! ## What parsers give -/

/-- The tokens are those of a lexer, and the names among them are words. -/
structure State.Worded (s : State) : Prop extends s.Sound where
  worded : ∀ t ∈ s.upcoming, t.Worded

theorem State.Worded.gives {s s' : State} {ts : List Token} (h : s.Worded) (hgives : s.Gives ts s') :
    s'.Worded where
  toSound := h.toSound.gives hgives
  worded t ht := h.worded t (hgives.upcoming ▸ List.mem_append_right _ ht)

/-- The value has the property `P`, and only tokens of a lexer are left. -/
def Outcome.Keeps {α : Type} (P : α → Prop) : Outcome α → Prop
  | .ok a s => P a ∧ s.Worded
  | .error _ s => s.Worded
  | .tooDeep _ => True

/-- On the tokens of a lexer, what `p` gives has the property `P`, and such tokens are left. -/
def Reaches {α : Type} (p : Parse α) (P : α → Prop) : Prop := ∀ s, s.Worded → (p s).Keeps P

namespace Reaches

variable {α β : Type} {p : Parse α} {f : α → Parse β} {P P' : α → Prop} {Q : β → Prop}

theorem moves {Takes : State → α → Prop} (h : ∀ s, MovesFrom 0 s p p (Takes s)) :
    Reaches p fun _ => True := by
  intro s hs
  cases h s hs.toSound with
  | ok run _ gives => exact run ▸ ⟨trivial, hs.gives gives⟩
  | error run _ gives => exact run ▸ hs.gives gives
  | tooDeep run => exact run ▸ trivial

/-- A parser that only goes forward. -/
theorem forward (h : Forward p P') : Reaches p fun _ => True := moves (h 0)

theorem looks {value : State → α} (h : Looks p value) : Reaches p fun _ => True :=
  fun s hs => (h.eq s).symm ▸ ⟨trivial, hs⟩

theorem pure {a : α} (h : P a) : Reaches (Pure.pure a) P := fun _ hs => ⟨h, hs⟩

theorem fail {fault : SyntaxFault} {span : Span} : Reaches (Grammar.fail fault span) P :=
  fun _ hs => hs

theorem bind (hp : Reaches p P) (hf : ∀ a, P a → Reaches (f a) Q) : Reaches (p >>= f) Q := by
  intro s hs
  have hfirst := hp s hs
  cases hrun : p s with
  | ok a s' =>
    rw [hrun] at hfirst
    rw [bind_ok hrun]
    exact hf a hfirst.1 s' hfirst.2
  | error e s' =>
    rw [hrun] at hfirst
    rw [bind_error hrun]
    exact hfirst
  | tooDeep e =>
    rw [bind_tooDeep hrun]
    trivial

/-- A part whose value does not matter. -/
theorem behind (hp : Reaches p P) (hf : ∀ a, Reaches (f a) Q) : Reaches (p >>= f) Q :=
  hp.bind fun a _ => hf a

theorem ite {c : Prop} [Decidable c] {q : Parse α} (hp : c → Reaches p P) (hq : ¬c → Reaches q P) :
    Reaches (if c then p else q) P := by
  by_cases hc : c
  · rw [if_pos hc]
    exact hp hc
  · rw [if_neg hc]
    exact hq hc

theorem deeper {depth : Nat} {p : Nat → Parse α} (h : ∀ depth, Reaches (p depth) P) :
    Reaches (Grammar.deeper depth p) P := by
  cases depth with
  | zero => exact fun _ _ => trivial
  | succ depth => exact h depth

theorem report (e : SyntaxError) : Reaches (Grammar.report e) fun _ => True := by
  rintro ⟨previous, upcoming, eof, reports, bound⟩ hs
  exact ⟨trivial, ⟨hs.eof, hs.bound, hs.faithful⟩, hs.worded⟩

/-- What rounds keep, the loop keeps. -/
theorem iterate {round : α → Parse (Option α)}
    (hround : ∀ a, P a → Reaches (round a) fun r => ∀ b ∈ r, P b) {a : α} (ha : P a) :
    Reaches (Grammar.iterate round a) P := by
  intro s hs
  unfold Grammar.iterate
  generalize s.bound + 1 = fuel
  induction fuel generalizing a s with
  | zero => exact ⟨ha, hs⟩
  | succ fuel ih =>
    have hfirst := hround a ha s hs
    unfold repeatFrom
    split
    case h_1 b s' hrun =>
      rw [hrun] at hfirst
      exact ih (hfirst.1 b rfl) s' hfirst.2
    case h_2 s' hrun =>
      rw [hrun] at hfirst
      exact ⟨ha, hfirst.2⟩
    case h_3 e s' hrun =>
      rw [hrun] at hfirst
      exact hfirst
    case h_4 => trivial

/-- Where it recovers, nothing is given. -/
theorem recovering {resume : Parse Unit} {P'' : Unit → Prop} (hp : Reaches p P)
    (hresume : Reaches resume P'') : Reaches (Grammar.recovering p resume) fun r => ∀ a ∈ r, P a := by
  intro s hs
  have hfirst := hp s hs
  unfold Grammar.recovering
  split
  case h_1 a s' hrun =>
    rw [hrun] at hfirst
    refine ⟨fun b hb => ?_, hfirst.2⟩
    cases hb
    exact hfirst.1
  case h_2 e s' hrun =>
    rw [hrun] at hfirst
    have hthen := (report e).behind (fun _ => hresume) s' hfirst
    split
    case h_1 u s'' hrun' =>
      rw [hrun'] at hthen
      exact ⟨nofun, hthen.2⟩
    case h_2 e' s'' hrun' =>
      rw [hrun'] at hthen
      exact hthen
    case h_3 => trivial
  case h_3 => trivial

end Reaches

/-! ## Names -/

theorem identifier_words : Reaches identifier fun i => IsWord i.name := by
  have hname : Reaches (expect .identifier) fun t => IsWord t.lexeme := by
    intro s hs
    unfold expect
    split
    case isTrue hkind =>
      have hnext := (hs.toSound.next (current_ne_eof (by decide) hkind)).1
      rw [advance_eq]
      refine ⟨?_, hs.gives hnext⟩
      have hmem : s.current ∈ s.upcoming := hnext.upcoming ▸ List.mem_append_left _ (List.mem_singleton_self _)
      exact hs.worded _ hmem (eq_of_beq hkind)
    case isFalse => exact hs
  exact hname.bind fun t ht => .pure ht

theorem dottedPath_words : Reaches dottedPath fun path => ∀ i ∈ path, IsWord i.name := by
  rw [dottedPath_eq]
  refine identifier_words.bind fun first hfirst => ?_
  refine Reaches.bind (P := fun path => ∀ i ∈ path, IsWord i.name)
    (.iterate (fun done hdone => ?_) (by simpa using hfirst)) fun all hall => ?_
  · unfold nameRound
    refine (Reaches.forward (eat_forward (by decide))).behind fun _ =>
      .ite (fun _ => ?_) fun _ => .pure nofun
    refine identifier_words.bind fun name hname => .pure ?_
    rintro _ ⟨⟩
    exact List.forall_mem_cons.mpr ⟨hname, hdone⟩
  · exact .pure fun i hi => hall i (List.mem_reverse.mp hi)

/-! ## Items -/

theorem expect_reaches {k : TokenKind} (hk : k ≠ .eof) : Reaches (expect k) fun _ => True :=
  .forward (expect_forward hk)

theorem classDecl_words (depth : Nat) : Reaches (classDecl depth) fun d => IsWord d.name.name := by
  unfold classDecl
  refine (Reaches.looks look_looks).behind fun _ => (Reaches.forward modifierList_forward).behind fun m => ?_
  refine (Reaches.forward (allow_forward _ m)).behind fun modifiers => ?_
  refine (Reaches.looks look_looks).behind fun t => .ite (fun _ => .ite (fun _ => .fail) fun _ => .fail)
    fun _ => ?_
  refine (Reaches.forward advance_forward).behind fun _ => identifier_words.bind fun name hname => ?_
  refine .deeper fun depth => (expect_reaches (by decide)).behind fun _ => ?_
  refine (Reaches.forward (members_forward depth name.name)).behind fun all => ?_
  refine (expect_reaches (by decide)).behind fun _ => ?_
  exact (Reaches.looks (spanFrom_looks _)).behind fun _ => .pure hname

theorem resumeMember_reaches : Reaches resumeMember fun _ => True :=
  .moves fun _ => skipTo_moves resumes_member

section

variable {depth : Nat} {items : Nat → Bool → Parse (List Item)}
  (hitems : ∀ depth top, Reaches (items depth top) fun all => ∀ item ∈ all, item.Worded)

include hitems

theorem scopeDecl_words : Reaches (scopeDecl depth items) fun r => r.2.Worded := by
  unfold scopeDecl
  refine (expect_reaches (by decide)).behind fun _ => dottedPath_words.bind fun path hpath => ?_
  refine (Reaches.forward (eat_forward (by decide))).behind fun _ => .ite (fun _ => ?_) fun _ => ?_
  · refine (Reaches.forward usings_forward).behind fun us => (hitems _ true).bind fun all hall => ?_
    exact (Reaches.looks (spanFrom_looks _)).behind fun _ => .pure (Item.worded_scope hpath hall)
  · refine .deeper fun depth => (expect_reaches (by decide)).behind fun _ => ?_
    refine (Reaches.forward usings_forward).behind fun us => (hitems _ false).bind fun all hall => ?_
    refine (expect_reaches (by decide)).behind fun _ => ?_
    exact (Reaches.looks (spanFrom_looks _)).behind fun _ => .pure (Item.worded_scope hpath hall)

theorem itemRound_words :
    Reaches (itemRound depth items) fun r => ∀ item ∈ r.1, item.Worded := by
  unfold itemRound
  refine (Reaches.looks look_looks).behind fun t => ?_
  split
  · refine ((scopeDecl_words hitems).recovering resumeMember_reaches).bind fun r hr => ?_
    split
    · refine .pure ?_
      rintro _ ⟨⟩
      exact hr _ rfl
    · exact .pure nofun
  · have hresume : Reaches resumeStatement fun _ => True := .moves fun _ => skipTo_moves resumes_statement
    exact (Reaches.report _).behind fun _ => hresume.behind fun _ => .pure nofun
  · refine (Reaches.forward advance_forward).behind fun _ => ?_
    exact (Reaches.report _).behind fun _ => .pure nofun
  · refine ((classDecl_words depth).recovering resumeMember_reaches).bind fun r hr => ?_
    split
    · refine .pure ?_
      rintro _ ⟨⟩
      exact Item.worded_type (hr _ rfl)
    · exact .pure nofun

end

theorem itemsFrom_words (fuel depth : Nat) (top : Bool) {done : List Item}
    (hdone : ∀ item ∈ done, item.Worded) :
    Reaches (itemsFrom fuel depth top done) fun all => ∀ item ∈ all, item.Worded := by
  have ends {done : List Item} (h : ∀ item ∈ done, item.Worded) :
      Reaches (Pure.pure done.reverse) fun all => ∀ item ∈ all, item.Worded :=
    .pure fun item hitem => h item (List.mem_reverse.mp hitem)
  induction fuel generalizing depth top done with
  | zero => exact ends hdone
  | succ fuel ih =>
    unfold itemsFrom
    refine (Reaches.looks atEnd_looks).behind fun _ => (Reaches.looks (at_looks _)).behind fun _ =>
      .ite (fun _ => ends hdone) fun _ => ?_
    refine (itemRound_words fun depth top => ih depth top (by simp)).bind fun r hr => ?_
    obtain ⟨item, more⟩ := r
    have hall : ∀ i ∈ item.toList ++ done, i.Worded := fun i hi =>
      (List.mem_append.mp hi).elim (fun h => hr i (Option.mem_toList.mp h)) (hdone i)
    exact .ite (fun _ => ih depth top hall) fun _ => ends hall

theorem script_words : Reaches script fun script => ∀ item ∈ script.items, item.Worded := by
  unfold script
  refine (Reaches.looks look_looks).behind fun _ => (Reaches.forward usings_forward).behind fun us => ?_
  refine Reaches.bind (P := fun all => ∀ item ∈ all, item.Worded)
    (fun s hs => itemsFrom_words _ _ _ (by simp) s hs) fun all hall => ?_
  exact (Reaches.looks (spanFrom_looks _)).behind fun _ => .pure hall

theorem State.worded_ofSource (source : List Char) : (State.ofSource source).Worded where
  toSound := State.sound_ofSource source
  worded t ht := by
    obtain ⟨ps, htiles, hrun⟩ := Lexer.run_tiles source
    have ht : t ∈ (Lexer.run source).1 := (List.mem_filter.mp (List.mem_filter.mp ht).1).1
    rw [hrun] at ht
    obtain ⟨p, hp, rfl⟩ := List.mem_map.mp ht
    exact htiles.worded p hp

end Grammar

/-- The classes of a source and the namespaces around them are named by words. -/
theorem Parsed.worded_of_source {source : List Char} {p : Parsed} (h : ofSource source = .ok p) :
    ∀ c ∈ p.script.classes, c.Worded := by
  have hwords := Grammar.script_words _ (Grammar.State.worded_ofSource source)
  obtain ⟨state, hscript, -⟩ := script_of_source h
  rw [hscript] at hwords
  exact Item.worded_classesOf hwords.1 _ nofun

end ClassScript
