import ClassScript.Grammar.Declaration
import ClassScript.Proofs.Spelling.Statement

/-!
Modifiers, members, classes, usings and namespaces take the tokens of their outlines.

Items are read in rounds that are counted. As each round takes a token, items at the top of a file are
read up to its end.
-/

namespace ClassScript.Grammar

/-! ## Modifiers -/

/-- The tokens of modifiers, the last first, spell them. -/
def ModifierList.Spelled (m : ModifierList) : Prop := (Glyph.modifiers m.1).Spelled m.2

/-- Modifiers are spelled by their tokens in any order. -/
theorem spelled_modifiers_perm {m : Modifiers} {ts ts' : List Token}
    (h : (Glyph.modifiers m).Spelled ts) (hperm : ts'.Perm ts) : (Glyph.modifiers m).Spelled ts' := by
  cases h with
  | modifiers horder hspells =>
    exact .modifiers ((hperm.map _).trans horder) fun t ht => hspells t (hperm.mem_iff.mp ht)

theorem visibility_writes {k : TokenKind} {v : Visibility} (h : visibilityOf? k = some v) :
    k.Writes v.name := by
  unfold visibilityOf? at h
  split at h <;> cases h <;> decide

/-- A modifier that was not seen yet is added to those there are. -/
theorem ModifierList.Spelled.cons {m : Modifiers} {seen : List Token} {m' : Modifiers} {t : Token}
    {text : String} (h : ModifierList.Spelled (m, seen)) (ht : t.Spells text)
    (hnew : (text :: m.texts).Perm m'.texts) : ModifierList.Spelled (m', t :: seen) := by
  cases h with
  | modifiers horder hspells =>
    refine .modifiers ?_ fun t' ht' => ?_
    · rw [List.map_cons, ht.lexeme]
      exact (horder.cons text).trans hnew
    · obtain rfl | ht' := List.mem_cons.mp ht'
      · exact ht.lexeme.symm ▸ ht
      · exact hspells t' ht'

/-- A modifier of which no token was seen is not there. -/
theorem ModifierList.Spelled.not_mem {m : Modifiers} {seen : List Token} {k : TokenKind}
    (text : String) (h : ModifierList.Spelled (m, seen)) (hk : TokenKind.ofText text = k)
    (hseen : ¬ seen.any (·.kind == k)) : text ∉ m.texts := by
  intro htext
  cases h with
  | modifiers horder hspells =>
    obtain ⟨t, ht, hlexeme⟩ := List.mem_map.mp (horder.mem_iff.mpr htext)
    refine hseen (List.any_eq_true.mpr ⟨t, ht, ?_⟩)
    rw [(hspells t ht).kind, hlexeme, hk, beq_self_eq_true]

/-- The span of modifiers is where the first of them stands, and their region as soon as there is one. -/
def ModifierList.Placed (start : Span) (m : ModifierList) : Prop :=
  if m.2 = [] then m.1.span = .point start.line start.col else m.1.span.Measures m.2.reverse

/-- A modifier grows the region; the first one has to stand where it starts. -/
theorem ModifierList.Placed.cons {start : Span} {m m' : Modifiers} {seen : List Token} {t : Token}
    (h : ModifierList.Placed start (m, seen)) (hfirst : seen = [] → t.span = start)
    (hspan : m'.span = m.span.merge t.span) : ModifierList.Placed start (m', t :: seen) := by
  unfold ModifierList.Placed at *
  rw [if_neg (List.cons_ne_nil t seen), hspan, List.reverse_cons]
  cases seen with
  | nil =>
    rw [show m.span = .point start.line start.col from h, ← hfirst rfl]
    exact Span.measures_merge_point t
  | cons u seen =>
    have h : m.span.Measures (u :: seen).reverse := h
    exact h.merge (Span.measures_singleton t) (by simp) (List.cons_ne_nil t [])
      (List.prefix_append _ [t]) (List.suffix_append _ [t])

structure Collects (a b : ModifierList) (ts : List Token) : Prop where
  seen : b.2 = ts.reverse ++ a.2
  spelled : a.Spelled → b.Spelled
  placed : ∀ start, a.Placed start → (a.2 = [] → ∀ t ∈ ts.head?, t.span = start) → b.Placed start

theorem Collects.refl (a : ModifierList) : Collects a a [] := ⟨rfl, id, fun _ h _ => h⟩

theorem Collects.trans (a b c : ModifierList) (ts ts' : List Token) (h : Collects a b ts)
    (h' : Collects b c ts') : Collects a c (ts ++ ts') where
  seen := by rw [h'.seen, h.seen, List.reverse_append, List.append_assoc]
  spelled := h'.spelled ∘ h.spelled
  placed start ha hfirst := by
    refine h'.placed start (h.placed start ha fun hnil t ht => hfirst hnil t ?_) fun hnil t ht => ?_
    · cases ts with
      | nil => cases ht
      | cons u ts => exact ht
    · rw [h.seen, List.append_eq_nil_iff, List.reverse_eq_nil_iff] at hnil
      obtain ⟨rfl, hnil⟩ := hnil
      exact hfirst hnil t ht

/-- A modifier that is taken. -/
theorem Collects.single {m m' : Modifiers} {seen : List Token} {t : Token}
    (hspelled : ModifierList.Spelled (m, seen) → ModifierList.Spelled (m', t :: seen))
    (hspan : m'.span = m.span.merge t.span) : Collects (m, seen) (m', t :: seen) [t] where
  seen := rfl
  spelled := hspelled
  placed _ h hfirst := h.cons (fun hnil => hfirst hnil t rfl) hspan

theorem modifier_reads (a : ModifierList) :
    Reads (modifier? a) fun b ts => Collects a (b.getD a) ts := by
  obtain ⟨m, seen⟩ := a
  intro s
  unfold modifier?
  refine .peek rfl (.ite (fun _ => .pure (.refl _)) fun hmodifier => ?_)
  have hkind : s.current.kind.isModifier := by simpa using hmodifier
  refine .advance (fun heof => by rw [heof] at hkind; cases hkind) ?_
  refine .ite (fun _ => .fail) fun hseen => ?_
  split
  · next v hv =>
    refine .ite (fun _ => .fail) fun hnone => .pure fun hfaithful => .single (fun h => ?_) rfl
    refine h.cons (hfaithful.spells_kind rfl (visibility_writes hv)) ?_
    have hnone : m.visibility = none := by simpa using hnone
    simp [Modifiers.texts, hnone]
  · next hv =>
    refine .pure fun hfaithful => .single (fun h => ?_) rfl
    obtain hstatic | hreadonly : s.current.kind = .kwStatic ∨ s.current.kind = .kwReadonly := by
      generalize s.current.kind = k at hkind hv
      cases k <;> simp_all [TokenKind.isModifier, visibilityOf?]
    · have hnot := h.not_mem "static" (by decide) (hstatic ▸ hseen)
      have hnot : m.isStatic = false := (by simpa [Modifiers.texts] using hnot : _ ∧ _).2
      refine h.cons (hfaithful.spells_kind hstatic (show TokenKind.Writes _ "static" by decide)) ?_
      simpa [Modifiers.texts, hstatic, hnot] using List.perm_middle.symm
    · have hnot := h.not_mem "readonly" (by decide) (hreadonly ▸ hseen)
      have hnot : m.isReadonly = false := (by simpa [Modifiers.texts] using hnot : _ ∧ _).2
      refine h.cons (hfaithful.spells_kind hreadonly (show TokenKind.Writes _ "readonly" by decide)) ?_
      have hlast := List.perm_append_singleton "readonly"
        (m.visibility.toList.map (·.name) ++ (if m.isStatic then ["static"] else []))
      simpa [Modifiers.texts, hreadonly, hnot] using hlast.symm

theorem modifierList_reads :
    Reads modifierList fun m ts => Outlined [m.1.outline] ts ∧ m.2 = ts.reverse := by
  intro s
  unfold modifierList
  refine .peek rfl ((iterate_reads Collects.refl Collects.trans modifier_reads s).behind.mono ?_)
  rintro m ts - ⟨⟨hseen, hspelled, hplaced⟩, hfirst⟩
  rw [List.append_nil] at hseen
  have hm : m.Spelled := hspelled (.modifiers .nil nofun)
  have hglyph : (Glyph.modifiers m.1).Spelled ts :=
    spelled_modifiers_perm hm (hseen ▸ ts.reverse_perm.symm)
  refine ⟨(Covers.singleton hglyph).within ?_, hseen⟩
  have hspan := hplaced s.current.span rfl fun _ t ht => ?_
  · unfold ModifierList.Placed at hspan
    rw [hseen, List.reverse_reverse] at hspan
    split at hspan
    · next hnil => rw [List.reverse_eq_nil_iff.mp hnil]; exact Span.measures_nil _
    · exact hspan
  · obtain ⟨rest, rfl⟩ := hfirst (List.ne_nil_of_mem (List.mem_of_mem_head? ht))
    rw [← Option.mem_some.mp ht]

theorem allow_reads (target : Modified) (m : ModifierList) :
    Reads (allow target m) fun a ts => ts = [] ∧ a = m.1 := by
  intro s
  unfold allow
  split
  · exact .fail
  · exact .pure ⟨rfl, rfl⟩

/-! ## Members -/

theorem param_reads : Reads param fun p ts => Filled [p.outline] ts := by
  intro s
  unfold param
  refine .peek rfl ((typeExpr_reads false s).bindBehind fun type s₁ => ?_)
  refine (identifier_reads s₁).bindBehind fun name s₂ => .peek rfl (.pure ?_)
  intro ts₂ hgives₂ hname ts₁ hgives₁ htype
  have hparts := htype.append hname.covers
  rw [List.append_nil]
  exact hparts.within ((hgives₁.trans hgives₂).spans hparts.nonempty)

theorem params_reads : Reads params fun ps ts => Filled (Param.outlineListed ps) ts := by
  intro s
  unfold params
  refine (expect_reads "(" (by decide) s).bind fun _ s => ?_
  refine (unlessAt_reads (commaList_reads param_reads) s).bind fun all s => ?_
  refine (expect_reads ")" (by decide) s).bind fun _ s => .pure ?_
  rintro ts ⟨-, hright⟩ ts' hall ts'' ⟨-, hleft⟩
  rw [List.append_nil, Param.outlineListed, separated_getD]
  exact hleft.append (hall.append hright.covers)

theorem body_reads (depth : Nat) : Reads (body depth) fun b ts => Filled b.outline ts := by
  intro s
  unfold body
  refine (eat_reads "=>" (by decide) s).bind fun b s => .ite ?_ fun hb => ?_
  · rintro rfl
    refine (expr_reads depth 0 s).bind fun e s => (expectSemicolon_reads s).bind fun _ s => .pure ?_
    intro ts hsemicolon ts' he ts'' harrow
    rw [List.append_nil]
    exact Filled.append harrow (he.append hsemicolon.covers).covers
  · refine .peek rfl (.ite (fun _ => ?_) fun _ => .peek rfl .fail)
    refine (block_reads (statement_reads depth) s).bind fun block s => .pure ?_
    rintro ts ⟨hblock, hspan⟩ ts' hts'
    obtain rfl : ts' = [] := by simpa [hb] using hts'
    rw [List.append_nil]
    exact hblock.within hspan

theorem member_reads (depth : Nat) (owner : String) :
    Reads (member depth owner) fun m ts => Filled [m.outline] ts := by
  intro s
  unfold member
  refine .peek rfl ((modifierList_reads s).bindBehind fun m s₁ => .peek rfl (.peek rfl (.ite ?_ ?_)))
  · intro _
    refine (allow_reads _ m s₁).bindBehind fun modifiers s₂ => ?_
    refine (identifier_reads s₂).bindBehind fun name s₃ => (params_reads s₃).bindBehind fun ps s₄ => ?_
    refine (body_reads depth s₄).bindBehind fun b s₅ => .peek rfl (.pure ?_)
    rintro ts₅ hgives₅ hb ts₄ hgives₄ hps ts₃ hgives₃ hname _ hgives₂ ⟨rfl, rfl⟩ ts hgives₁ ⟨hm, -⟩
    have hgives := hgives₁.trans (hgives₂.trans (hgives₃.trans (hgives₄.trans hgives₅)))
    have hparts := hm.appendFilled (hname.append (hps.append hb.covers).covers)
    rw [List.append_nil]
    exact hparts.within (hgives.spans hparts.nonempty)
  · refine fun _ => .ite (fun _ => .fail) fun _ => .peek rfl (.ite (fun _ => .fail) fun _ => ?_)
    refine (typeExpr_reads false s₁).bindBehind fun type s₂ => .peek rfl (.ite ?_ ?_)
    · intro _
      refine (allow_reads _ m s₂).bindBehind fun modifiers s₃ => ?_
      refine (identifier_reads s₃).bindBehind fun name s₄ => (params_reads s₄).bindBehind fun ps s₅ => ?_
      refine (body_reads depth s₅).bindBehind fun b s₆ => .peek rfl (.pure ?_)
      rintro ts₆ hgives₆ hb ts₅ hgives₅ hps ts₄ hgives₄ hname _ hgives₃ ⟨rfl, rfl⟩ ts₂ hgives₂ htype ts
        hgives₁ ⟨hm, -⟩
      have hbehind := hgives₃.trans (hgives₄.trans (hgives₅.trans hgives₆))
      have hrest := htype.append (hname.append (hps.append hb.covers).covers).covers
      have hparts := hm.appendFilled hrest
      rw [List.append_nil]
      exact hparts.within ((hgives₁.trans (hgives₂.trans hbehind)).spans hparts.nonempty)
    · intro _
      refine (allow_reads _ m s₂).bindBehind fun modifiers s₃ => ?_
      refine (commaList_reads (declarator_reads (expr_reads depth 0)) s₃).bindBehind fun vars s₄ => ?_
      refine (expectSemicolon_reads s₄).bindBehind fun _ s₅ => .peek rfl (.pure ?_)
      rintro ts₅ hgives₅ hsemicolon ts₄ hgives₄ hvars _ hgives₃ ⟨rfl, rfl⟩ ts₂ hgives₂ htype ts
        hgives₁ ⟨hm, -⟩
      have hgives := hgives₁.trans (hgives₂.trans (hgives₃.trans (hgives₄.trans hgives₅)))
      have hparts := hm.appendFilled (htype.append (hvars.append hsemicolon.covers).covers)
      rw [List.append_nil]
      exact hparts.within (hgives.spans hparts.nonempty)

theorem members_reads (depth : Nat) (owner : String) :
    Reads (members depth owner) fun ms ts => Outlined (ms.map Member.outline) ts := by
  intro s
  unfold members
  refine .bind (P := fun all ts _ => Adds (fun m => [m.outline]) [] all ts)
    (iterate_adds (fun done s => ?_) s) fun all s => .pure ?_
  · refine .peek rfl (.peek rfl (.ite (fun _ => .pure (.refl done)) fun _ => ?_))
    exact recovering_adds (member_reads depth owner) ⟨afterMember false, rfl⟩ (fun _ => rfl) rfl
  · intro ts hall
    rw [List.append_nil]
    exact hall.outlined

/-! ## Classes and usings -/

theorem ReadsFrom.deeper {α : Type} {P : α → List Token → List Token → Prop} {s : State} {depth : Nat}
    {p : Nat → Parse α} (hp : ∀ depth, ReadsFrom s (p depth) P) :
    ReadsFrom s (Grammar.deeper depth p) P := by
  cases depth with
  | zero => exact .failTooDeep
  | succ depth => exact hp depth

theorem classDecl_reads (depth : Nat) : Reads (classDecl depth) fun c ts => Filled [c.outline] ts := by
  intro s
  unfold classDecl
  refine .peek rfl ((modifierList_reads s).bindBehind fun m s₁ => ?_)
  refine (allow_reads _ m s₁).bindBehind fun modifiers s₂ => ?_
  refine .peek rfl (.ite (fun _ => .ite (fun _ => .fail) fun _ => .fail) fun hclass => ?_)
  refine (advance_reads "class" (not_not.mp hclass) (by decide)).bindBehind fun _ s₃ => ?_
  refine (identifier_reads s₃).bindBehind fun name s₄ => ?_
  refine .deeper fun depth => (expect_reads "\x7b" (by decide) s₄).bindBehind fun _ s₅ => ?_
  refine (members_reads depth name.name s₅).bindBehind fun all s₆ => ?_
  refine (expect_reads "\x7d" (by decide) s₆).bindBehind fun _ s₇ => .peek rfl (.pure ?_)
  rintro ts₇ hgives₇ ⟨-, hright⟩ ts₆ hgives₆ hall ts₅ hgives₅ ⟨-, hleft⟩ ts₄ hgives₄ hname ts₃ hgives₃
    hclass _ hgives₂ ⟨rfl, rfl⟩ ts hgives₁ ⟨hm, -⟩
  have hbehind := hgives₄.trans (hgives₅.trans (hgives₆.trans hgives₇))
  have hgives := hgives₁.trans (hgives₂.trans (hgives₃.trans hbehind))
  have hbody := hname.append (hleft.append (hall.append hright.covers)).covers
  have hparts := hm.appendFilled (hclass.append hbody.covers)
  rw [List.append_nil]
  exact hparts.within (hgives.spans hparts.nonempty)

theorem usingDirective_reads : Reads usingDirective fun u ts => Filled [u.outline] ts := by
  intro s
  unfold usingDirective
  refine (expect_reads "using" (by decide) s).bind fun start s => ?_
  refine (dottedPath_reads s).bindBehind fun path s₁ => ?_
  refine (expect_reads ";" (by decide) s₁).bindBehind fun _ s₂ => .peek rfl (.pure ?_)
  rintro ts₂ hgives₂ ⟨-, hsemicolon⟩ ts₁ hgives₁ hpath _ ⟨rfl, husing⟩
  rw [List.append_nil]
  exact (hgives₁.trans hgives₂).node husing (hpath.append hsemicolon.covers)

theorem usings_reads :
    Reads usings fun us ts => Outlined (us.map UsingDirective.outline) ts := by
  intro s
  unfold usings
  refine .bind (P := fun all ts _ => Adds (fun u => [u.outline]) [] all ts)
    (iterate_adds (fun done s => ?_) s) fun all s => .pure ?_
  · refine .peek rfl (.ite (fun _ => ?_) fun _ => .pure (.refl done))
    exact recovering_adds usingDirective_reads ⟨afterStatement false, rfl⟩ (fun _ => rfl) rfl
  · intro ts hall
    rw [List.append_nil]
    exact hall.outlined

/-! ## Namespaces -/

/-- Items that were read, and that at the top of a file all tokens were taken if there were fewer
than `bound`. -/
def ItemsRead (bound : Nat) (top : Bool) (items : List Item) (ts left : List Token) : Prop :=
  Outlined (items.map Item.outline) ts ∧ (top → ts.length + left.length < bound → left = [])

variable {fuel : Nat} {items : Nat → Bool → Parse (List Item)}

/-- A namespace takes a token more than its items, and one without braces takes the rest. -/
theorem scopeDecl_reads (depth : Nat)
    (hitems : ∀ depth top s, ReadsFrom s (items depth top) (ItemsRead fuel top)) (s : State) :
    ReadsFrom s (scopeDecl depth items) fun r ts left => Filled [r.2.outline] ts ∧
      (r.1 → ts.length + left.length < fuel + 1 → left = []) := by
  unfold scopeDecl
  refine (expect_reads "namespace" (by decide) s).bind fun start s => ?_
  refine (dottedPath_reads s).bindBehind fun path s₁ => (eat_reads ";" (by decide) s₁).bindBehind fun b s₂ => ?_
  refine .ite ?_ fun hb => .deeper fun depth => ?_
  · rintro rfl
    refine (usings_reads s₂).bindBehind fun us s₃ => (hitems depth true s₃).bindBehind fun all s₄ =>
      .peek rfl (.pure ?_)
    rintro ts₄ hgives₄ ⟨hall, hend⟩ ts₃ hgives₃ hus ts₂ hgives₂ hsemicolon ts₁ hgives₁ hpath _ ⟨rfl, hnamespace⟩
    have hgives := hgives₁.trans (hgives₂.trans (hgives₃.trans hgives₄))
    have hrest := hpath.append (Filled.append hsemicolon (hus.append hall)).covers
    simp only [List.append_nil, List.nil_append, List.length_append, List.length_singleton] at hend ⊢
    refine ⟨?_, fun _ hlength => hend trivial (by omega)⟩
    rw [Item.outline, Item.outlineListed_eq]
    exact hgives.node hnamespace hrest
  · refine (expect_reads "\x7b" (by decide) s₂).bindBehind fun _ s₃ => ?_
    refine (usings_reads s₃).bindBehind fun us s₄ => (hitems depth false s₄).bindBehind fun all s₅ => ?_
    refine (expect_reads "\x7d" (by decide) s₅).bindBehind fun _ s₆ => .peek rfl (.pure ?_)
    rintro ts₆ hgives₆ ⟨-, hright⟩ ts₅ hgives₅ ⟨hall, -⟩ ts₄ hgives₄ hus ts₃ hgives₃ ⟨-, hleft⟩ ts₂ hgives₂
      hts₂ ts₁ hgives₁ hpath _ ⟨rfl, hnamespace⟩
    obtain rfl : ts₂ = [] := by simpa [hb] using hts₂
    refine ⟨?_, nofun⟩
    have hbehind := hgives₃.trans (hgives₄.trans (hgives₅.trans hgives₆))
    have hbody := hleft.append (hus.append (hall.append hright.covers))
    rw [List.append_nil, Item.outline, Item.outlineListed_eq]
    refine (hgives₁.trans (hgives₂.trans hbehind)).node hnamespace (hpath.append ?_)
    simpa using hbody.covers

/-- A round takes an item, after which there is nothing if no further round may follow. -/
theorem itemRound_reads (depth : Nat)
    (hitems : ∀ depth top s, ReadsFrom s (items depth top) (ItemsRead fuel top)) (s : State) :
    ReadsFrom s (itemRound depth items) fun r ts left => ∃ item, r.1 = some item ∧
      Filled [item.outline] ts ∧ (r.2 = false → ts.length + left.length < fuel + 1 → left = []) := by
  unfold itemRound
  refine .peek rfl ?_
  split
  · refine (recovering_reads (scopeDecl_reads depth hitems s) ⟨afterMember false, rfl⟩).bind
      fun r s => ?_
    split
    · next closes item =>
      refine .pure ?_
      rintro ts ⟨_, ⟨⟩, hitem, hend⟩
      exact ⟨item, rfl, by simpa using hitem, by simpa using hend⟩
    · refine .pure ?_
      rintro ts ⟨_, ⟨⟩, -⟩
  · refine .report fun s b s' h => ?_
    cases h
    rfl
  · next hbrace =>
    refine .advanceText "\x7d" hbrace (by decide) (.report fun s b s' h => ?_)
    cases h
    rfl
  · refine (recovering_reads (classDecl_reads depth s) ⟨afterMember false, rfl⟩).bind fun r s => ?_
    split
    · next decl =>
      refine .pure ?_
      rintro ts ⟨_, ⟨⟩, hdecl⟩
      rw [List.append_nil]
      exact ⟨.type decl, rfl, hdecl, nofun⟩
    · refine .pure ?_
      rintro ts ⟨_, ⟨⟩, -⟩

/-- Rounds add items, and at the top of a file they take all tokens if there are more rounds than
tokens. -/
theorem itemsFrom_reads (fuel depth : Nat) (top : Bool) (done : List Item) (s : State) :
    ReadsFrom s (itemsFrom fuel depth top done) fun all ts left =>
      ∃ new, all = done.reverse ++ new ∧ ItemsRead fuel top new ts left := by
  induction fuel generalizing depth top done s with
  | zero => exact .pure ⟨[], (List.append_nil _).symm, .nil, nofun⟩
  | succ fuel ih =>
    unfold itemsFrom
    refine .peek rfl (.peek rfl (.ite (fun hstop => .pure ?_) fun _ => ?_))
    · refine ⟨[], (List.append_nil _).symm, .nil, ?_⟩
      rintro rfl -
      simpa using hstop
    have hitems depth top s : ReadsFrom s (itemsFrom fuel depth top []) (ItemsRead fuel top) := by
      refine (ih depth top [] s).mono ?_
      rintro all ts left ⟨new, rfl, hread⟩
      exact hread
    refine (itemRound_reads depth hitems s).bind fun r s => .ite (fun _ => ?_) fun hmore => .pure ?_
    · refine (ih depth top _ s).mono ?_
      rintro all ts' left ⟨new, rfl, hnew, hend⟩ ts ⟨item, hitem, hfilled, -⟩
      refine ⟨item :: new, by simp [hitem], hfilled.covers.append hnew, fun htop hlength => hend htop ?_⟩
      have htoken := List.length_pos_of_ne_nil hfilled.nonempty
      rw [List.length_append] at hlength
      omega
    · rintro ts ⟨item, hitem, hfilled, hend⟩
      refine ⟨[item], by simp [hitem], by simpa using hfilled.covers, fun _ hlength => ?_⟩
      exact hend (Bool.eq_false_iff.mpr hmore) (by simpa using hlength)

/-- A script takes all tokens of its source. -/
theorem script_reads (s : State) :
    ReadsFrom s script fun r ts left => Outlined [r.outline] ts ∧ left = [] := by
  unfold script
  refine .peek rfl ((usings_reads s).bindBehind fun us s₁ => ?_)
  refine .bindBehind (P := fun items ts left => Outlined (items.map Item.outline) ts ∧ left = []) ?_
    fun items s₂ => .peek rfl (.pure ?_)
  · intro items s' hrun hreports
    obtain ⟨hnone, htook⟩ := itemsFrom_reads (s₁.bound + 1) maxNesting true [] s₁ items s' hrun hreports
    refine ⟨hnone, fun hs => ?_⟩
    obtain ⟨ts, hgives, new, rfl, hnew, hend⟩ := htook hs
    refine ⟨ts, hgives, hnew, hend rfl ?_⟩
    have hbound := hs.bound
    rw [hgives.upcoming, List.length_append] at hbound
    omega
  · rintro ts₂ hgives₂ ⟨hitems, hleft⟩ ts₁ hgives₁ hus
    rw [List.append_nil]
    refine ⟨(hus.append hitems).within ?_, by simpa using hleft⟩
    by_cases hnil : ts₁ ++ ts₂ = []
    · rw [hnil]
      exact Span.measures_nil _
    · exact (hgives₁.trans hgives₂).spans hnil

end ClassScript.Grammar
