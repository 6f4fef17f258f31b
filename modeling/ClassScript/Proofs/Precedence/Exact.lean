import ClassScript.Proofs.Precedence.Complete

/-!
The expression parser accepts exactly the operator grammar.

Places aside, a tree is read from some tokens if and only if it is well shaped and written as them. So
no tokens spell two trees.
-/

namespace ClassScript

/-! ## Trees without places -/

theorem Ident.IsName.congr {i j : Ident} (hi : i.IsName) (h : i.placeless = j.placeless) :
    j.IsName := by
  rwa [Ident.IsName, ← Ident.name_eq h]

theorem Ident.IsTypeName.congr {i j : Ident} (hi : i.IsTypeName) (h : i.placeless = j.placeless) :
    j.IsTypeName := by
  constructor
  · rw [← Ident.name_eq h]
    exact hi.isType
  · rw [← Ident.name_eq h]
    exact hi.noVoid

namespace Expr

variable {e f : Expr} {ts : List Token} {power : Nat}

theorem placelessAll_eq (es : List Expr) : placelessAll es = es.map placeless := by
  induction es with
  | nil => rfl
  | cons e es ih => rw [placelessAll, ih, List.map_cons]

theorem powers?_placeless (e : Expr) : e.placeless.powers? = e.powers? := by
  cases e <;> simp [powers?]

theorem isPostfix_placeless (e : Expr) : e.placeless.isPostfix = e.isPostfix := by
  cases e <;> simp [isPostfix]

mutual

theorem inner_placeless : (e : Expr) → e.placeless.inner = e.inner
  | literal .. | ident _ | this _ => by simp [inner]
  | binary _ left right _ => by simp [inner, inner_placeless left, inner_placeless right]
  | unary _ operand _ => by simp [inner, inner_placeless operand]
  | post _ operand _ => by simp [inner, inner_placeless operand]
  | assign _ target value _ => by simp [inner, inner_placeless target, inner_placeless value]
  | conditional c yes no _ => by
    simp [inner, inner_placeless c, inner_placeless yes, inner_placeless no]
  | call callee args _ => by simp [inner, inner_placeless callee, levelsOf_placeless args]
  | member object _ _ => by simp [inner, inner_placeless object]
  | paren e _ => by simp [inner, inner_placeless e]

theorem levelsOf_placeless : (es : List Expr) → levelsOf (placelessAll es) = levelsOf es
  | [] => rfl
  | e :: es => by simp [levelsOf, inner_placeless e, levelsOf_placeless es]

end

theorem leftEdge_placeless : (e : Expr) → e.placeless.leftEdge = e.leftEdge.map placeless
  | binary _ e _ _ | assign _ e _ _ | conditional e _ _ _ | post _ e _ | call e _ _ | member e _ _ => by
    simp [leftEdge, leftEdge_placeless e]
  | literal .. | ident _ | this _ | unary .. | paren .. => by simp [leftEdge]

theorem rightEdge_placeless : (e : Expr) → e.placeless.rightEdge = e.rightEdge.map placeless
  | binary _ _ e _ | assign _ _ e _ | conditional _ _ e _ | unary _ e _ => by
    simp [rightEdge, rightEdge_placeless e]
  | literal .. | ident _ | this _ | post .. | call .. | member .. | paren .. => by simp [rightEdge]

theorem levels_eq (h : e.placeless = f.placeless) : e.levels = f.levels := by
  rw [levels, levels, ← inner_placeless e, h, inner_placeless]

theorem powers?_eq (h : e.placeless = f.placeless) : e.powers? = f.powers? := by
  rw [← powers?_placeless, h, powers?_placeless]

theorem isPostfix_eq (h : e.placeless = f.placeless) : e.isPostfix = f.isPostfix := by
  rw [← isPostfix_placeless, h, isPostfix_placeless]

theorem LeftBinds.congr (he : e.LeftBinds power) (h : e.placeless = f.placeless) :
    f.LeftBinds power := by
  intro x hx p hp
  have hmem := List.mem_map_of_mem (f := placeless) hx
  rw [← leftEdge_placeless, ← h, leftEdge_placeless] at hmem
  obtain ⟨y, hy, hyx⟩ := List.mem_map.mp hmem
  exact he y hy p ((powers?_eq hyx).trans hp)

theorem RightBinds.congr (he : e.RightBinds power) (h : e.placeless = f.placeless) :
    f.RightBinds power := by
  intro x hx p hp
  have hmem := List.mem_map_of_mem (f := placeless) hx
  rw [← rightEdge_placeless, ← h, rightEdge_placeless] at hmem
  obtain ⟨y, hy, hyx⟩ := List.mem_map.mp hmem
  exact he y hy p ((powers?_eq hyx).trans hp)

theorem WellShaped.congr (he : e.WellShaped) (h : e.placeless = f.placeless) : f.WellShaped := by
  induction he generalizing f with
  | literal =>
    obtain ⟨sp, rfl⟩ := of_literal h
    exact .literal
  | ident hname =>
    obtain ⟨j, rfl, hj⟩ := of_ident h
    exact .ident (hname.congr hj)
  | this =>
    obtain ⟨sp, rfl⟩ := of_this h
    exact .this
  | paren _ ih =>
    obtain ⟨e, sp, rfl, he⟩ := of_paren h
    exact .paren (ih he)
  | binary _ _ hleft hright ihl ihr =>
    obtain ⟨l, r, sp, rfl, hl, hr⟩ := of_binary h
    exact .binary (ihl hl) (ihr hr) (hleft.congr hl) (hright.congr hr)
  | assign _ _ hleft hright ihl ihr =>
    obtain ⟨l, r, sp, rfl, hl, hr⟩ := of_assign h
    exact .assign (ihl hl) (ihr hr) (hleft.congr hl) (hright.congr hr)
  | conditional _ _ _ hleft hright ihc ihy ihn =>
    obtain ⟨c, y, n, sp, rfl, hc, hy, hn⟩ := of_conditional h
    exact .conditional (ihc hc) (ihy hy) (ihn hn) (hleft.congr hc) (hright.congr hn)
  | unary _ hoperand ih =>
    obtain ⟨o, sp, rfl, ho⟩ := of_unary h
    exact .unary (ih ho) ((powers?_eq ho).symm.trans hoperand)
  | post _ hobject ih =>
    obtain ⟨o, sp, rfl, ho⟩ := of_post h
    exact .post (ih ho) (isPostfix_eq ho ▸ hobject)
  | call _ hobject _ ih ihargs =>
    obtain ⟨c, args, sp, rfl, hc, hargs⟩ := of_call h
    refine .call (ih hc) (isPostfix_eq hc ▸ hobject) fun a ha => ?_
    have hmem := List.mem_map_of_mem (f := placeless) ha
    rw [← placelessAll_eq, ← hargs, placelessAll_eq] at hmem
    obtain ⟨b, hb, hba⟩ := List.mem_map.mp hmem
    exact ihargs b hb hba
  | member _ hobject hname ih =>
    obtain ⟨o, j, sp, rfl, ho, hj⟩ := of_member h
    exact .member (ih ho) (isPostfix_eq ho ▸ hobject) (hname.congr hj)
  | typeMember htype hname =>
    obtain ⟨o, j, sp, rfl, ho, hj⟩ := of_member h
    obtain ⟨t, rfl, ht⟩ := of_ident ho
    exact .typeMember (htype.congr ht) (hname.congr hj)

theorem Written.congr (he : e.Written ts) (h : e.placeless = f.placeless) : f.Written ts := by
  induction he generalizing f with
  | literal hl =>
    obtain ⟨sp, rfl⟩ := of_literal h
    exact .literal hl
  | ident ht =>
    obtain ⟨j, rfl, hj⟩ := of_ident h
    exact .ident (Ident.name_eq hj ▸ ht)
  | this ht =>
    obtain ⟨sp, rfl⟩ := of_this h
    exact .this ht
  | paren hleft _ hright ih =>
    obtain ⟨e, sp, rfl, he⟩ := of_paren h
    exact .paren hleft (ih he) hright
  | binary _ ht _ ihl ihr =>
    obtain ⟨l, r, sp, rfl, hl, hr⟩ := of_binary h
    exact .binary (ihl hl) ht (ihr hr)
  | assign _ ht _ ihl ihr =>
    obtain ⟨l, r, sp, rfl, hl, hr⟩ := of_assign h
    exact .assign (ihl hl) ht (ihr hr)
  | conditional _ hmark _ hcolon _ ihc ihy ihn =>
    obtain ⟨c, y, n, sp, rfl, hc, hy, hn⟩ := of_conditional h
    exact .conditional (ihc hc) hmark (ihy hy) hcolon (ihn hn)
  | unary ht _ hminus ih =>
    obtain ⟨o, sp, rfl, ho⟩ := of_unary h
    exact .unary ht (ih ho) hminus
  | post _ ht ih =>
    obtain ⟨o, sp, rfl, ho⟩ := of_post h
    exact .post (ih ho) ht
  | call _ hleft hlength _ hlisted hright ih ihargs =>
    obtain ⟨c, args, sp, rfl, hc, hargs⟩ := of_call h
    rw [placelessAll_eq, placelessAll_eq] at hargs
    have hlength' := congrArg List.length hargs
    rw [List.length_map, List.length_map] at hlength'
    refine .call (ih hc) hleft (hlength'.symm.trans hlength) (fun a us hmem => ?_) hlisted hright
    have hmem := List.mem_map_of_mem (f := Prod.map placeless id) hmem
    rw [← List.zip_map_left, ← hargs, List.zip_map_left] at hmem
    obtain ⟨⟨b, us'⟩, hb, heq⟩ := List.mem_map.mp hmem
    obtain ⟨hba, rfl⟩ := Prod.mk.inj heq
    exact ihargs b us' hb hba
  | member _ hsigned hdot ht ih =>
    obtain ⟨o, j, sp, rfl, ho, hj⟩ := of_member h
    exact .member (ih ho) hsigned hdot (Ident.name_eq hj ▸ ht)

theorem Reading.congr {next : TokenKind} (he : e.Reading power ts next)
    (h : e.placeless = f.placeless) : f.Reading power ts next where
  written := he.written.congr h
  shaped := he.shaped.congr h
  left := he.left.congr h
  right := fun p hp => (he.right p hp).congr h
  ends := he.ends

end Expr

/-! ## Grouping -/

namespace Expr.WellShaped

/-- Binary operators group to the left: what an operator has at its right binds more. -/
theorem binary_right {op op' : BinaryOp} {l m r : Expr} {sp sp' : Span}
    (h : (Expr.binary op l (.binary op' m r sp) sp').WellShaped) : op.power.1 < op'.power.1 := by
  cases h with
  | binary _ _ _ hright =>
    have hpower : op.power.2 ≤ op'.power.1 := hright _ List.mem_cons_self _ rfl
    have hup : op.power.1 < op.power.2 := by cases op <;> decide
    exact Nat.lt_of_lt_of_le hup hpower

/-- Assignments group to the right. -/
theorem assign_left {op op' : AssignOp} {l m r : Expr} {sp sp' : Span} :
    ¬(Expr.assign op (.assign op' l m sp) r sp').WellShaped := by
  intro h
  cases h with
  | assign _ _ hleft =>
    exact absurd (hleft _ List.mem_cons_self _ rfl) (by decide)

/-- Conditionals group to the right. -/
theorem conditional_left {c y n y' n' : Expr} {sp sp' : Span} :
    ¬(Expr.conditional (.conditional c y n sp) y' n' sp').WellShaped := by
  intro h
  cases h with
  | conditional _ _ _ hleft =>
    exact absurd (hleft _ List.mem_cons_self _ rfl) (by decide)

end Expr.WellShaped

/-! ## Exactness -/

theorem Token.Spells.faithful {t : Token} {text : String} (h : t.Spells text) : t.Faithful :=
  fun _ => h.lexeme ▸ h.kind

theorem Literal.Spelled.faithful {l : Literal} {ts : List Token} (h : l.Spelled ts) :
    ∀ t ∈ ts, t.Faithful := by
  have hnumber {t : Token} (hkind : ¬t.kind.isPlain) : t.Faithful := fun hplain => absurd hplain hkind
  have hinteger {t : Token} {n : Int} (h : l.IsInteger t.kind n) : t.Faithful := by
    refine hnumber ?_
    obtain hkind | hkind := Grammar.isInteger_of_isInteger h <;> rw [hkind] <;> decide
  cases h with
  | integer h => exact List.forall_mem_singleton.mpr (hinteger h)
  | negative hminus h =>
    exact List.forall_mem_cons.mpr ⟨hminus.faithful, List.forall_mem_singleton.mpr (hinteger h)⟩
  | real hkind | string hkind =>
    exact List.forall_mem_singleton.mpr (hnumber (by rw [hkind]; decide))
  | bool h => exact List.forall_mem_singleton.mpr h.faithful

/-- Tokens that spell something are such as a lexer gives. -/
theorem Spelled.faithful {gs : List Glyph} {ts : List Token} (h : Spelled gs ts) :
    ∀ t ∈ ts, t.Faithful := by
  induction h with
  | nil => simp
  | cons head _ ih =>
    refine List.forall_mem_append.mpr ⟨?_, ih⟩
    cases head with
    | text h => exact List.forall_mem_singleton.mpr h.faithful
    | literal h => exact h.faithful
    | modifiers _ h => exact fun t ht => (h t ht).faithful

namespace Grammar

variable {depth power : Nat} {s : State} {e f : Expr} {ts rest : List Token}

/-- What is read from some tokens are the trees that have them for a reading. -/
theorem expr_iff_reading (hs : s.Sound) (hupcoming : s.upcoming = ts ++ rest) :
    (∃ e' s', expr depth power s = .ok e' s' ∧ s'.upcoming = rest ∧ e'.placeless = e.placeless) ↔
      e.Reading power ts (nextKind rest) ∧ e.levels ≤ depth := by
  constructor
  · intro ⟨e', s', hrun, hrest, he'⟩
    obtain ⟨ts', hgives, hreading⟩ := expr_takesTrees depth power s hs e' s' hrun
    obtain rfl : ts = ts' := by
      have hsplit := hgives.upcoming
      rw [hupcoming, hrest] at hsplit
      exact List.append_cancel_right hsplit
    rw [hgives.kind hs hupcoming] at hreading
    exact ⟨hreading.congr he', Expr.levels_eq he' ▸ expr_levels depth power s e' s' hrun⟩
  · intro ⟨hreading, hlevels⟩
    obtain ⟨e', s', hrun, he'⟩ := expr_givesTrees depth hs hupcoming hreading hlevels
    exact ⟨e', s', hrun.run, hrun.gives.leaves hupcoming, he'⟩

/-- No tokens are written for two trees that are well shaped. -/
theorem written_unique (he : e.Written ts) (heshaped : e.WellShaped) (hf : f.Written ts)
    (hfshaped : f.WellShaped) : e.placeless = f.placeless := by
  let s : State := ⟨none, ts, ⟨.eof, "", {}⟩, [], ts.length⟩
  have hs : s.Sound := ⟨rfl, Nat.le_refl _, he.spelled.faithful⟩
  have hupcoming : s.upcoming = ts ++ [] := (List.append_nil ts).symm
  have hgives := expr_givesTrees (max e.levels f.levels)
  obtain ⟨e', s₁, herun, he'⟩ :=
    hgives hs hupcoming (he.reading heshaped (by decide)) (Nat.le_max_left _ _)
  obtain ⟨f', s₂, hfrun, hf'⟩ :=
    hgives hs hupcoming (hf.reading hfshaped (by decide)) (Nat.le_max_right _ _)
  obtain ⟨rfl, -⟩ := Outcome.ok.inj (herun.run.symm.trans hfrun.run)
  exact he'.symm.trans hf'

/-- In front of a token that closes an expression, the parser reads a tree of at most `depth` levels
from exactly these tokens if and only if the tree is well shaped and written as them. There is one
such tree at most, in which binary operators group to the left, and assignments and conditionals to
the right. -/
theorem expr_exact (depth : Nat) (hs : s.Sound) (hupcoming : s.upcoming = ts ++ rest)
    (hrest : nextKind rest ∈
      [TokenKind.eof, .rightParen, .comma, .semicolon, .colon, .rightBrace]) :
    (∀ e : Expr, (∃ e' s', expr depth 0 s = .ok e' s' ∧ s'.upcoming = rest ∧
        e'.placeless = e.placeless) ↔ e.Written ts ∧ e.WellShaped ∧ e.levels ≤ depth) ∧
      (∀ e f : Expr, e.Written ts → e.WellShaped → f.Written ts → f.WellShaped →
        e.placeless = f.placeless) ∧
      (∀ op op' l m r sp sp', (Expr.binary op l (.binary op' m r sp) sp').WellShaped →
        op.power.1 < op'.power.1) ∧
      (∀ op op' l m r sp sp', ¬(Expr.assign op (.assign op' l m sp) r sp').WellShaped) ∧
      ∀ c y n y' n' sp sp', ¬(Expr.conditional (.conditional c y n sp) y' n' sp').WellShaped := by
  have hcloses : (nextKind rest).Closes := by
    generalize nextKind rest = k at hrest
    simp only [List.mem_cons, List.not_mem_nil, or_false] at hrest
    obtain rfl | rfl | rfl | rfl | rfl | rfl := hrest <;> decide
  refine ⟨fun e => ?_, fun e f he heshaped hf hfshaped => written_unique he heshaped hf hfshaped,
    fun _ _ _ _ _ _ _ => Expr.WellShaped.binary_right,
    fun _ _ _ _ _ _ _ => Expr.WellShaped.assign_left,
    fun _ _ _ _ _ _ _ => Expr.WellShaped.conditional_left⟩
  rw [expr_iff_reading hs hupcoming]
  constructor
  · intro ⟨hreading, hlevels⟩
    exact ⟨hreading.written, hreading.shaped, hlevels⟩
  · intro ⟨hwritten, hshaped, hlevels⟩
    exact ⟨hwritten.reading hshaped hcloses, hlevels⟩

def plainTokens (texts : List String) : List Token :=
  texts.map fun text => ⟨TokenKind.ofText text, text, {}⟩

theorem expr_exact_difference :
    ∃ e' s', expr 2 0 ⟨none, plainTokens ["a", "-", "b", "-", "c", ";"], ⟨.eof, "", {}⟩, [], 6⟩ =
        .ok e' s' ∧ s'.upcoming = plainTokens [";"] ∧
      e'.placeless = .binary .sub (.binary .sub (.ident ⟨"a", {}⟩) (.ident ⟨"b", {}⟩) {})
        (.ident ⟨"c", {}⟩) {} := by
  let s : State := ⟨none, plainTokens ["a", "-", "b", "-", "c", ";"], ⟨.eof, "", {}⟩, [], 6⟩
  let e : Expr := .binary .sub (.binary .sub (.ident ⟨"a", {}⟩) (.ident ⟨"b", {}⟩) {})
    (.ident ⟨"c", {}⟩) {}
  have hs : s.Sound := by
    refine ⟨rfl, Nat.le_refl 6, fun t ht => ?_⟩
    obtain ⟨text, -, rfl⟩ := List.mem_map.mp ht
    exact fun _ => rfl
  have hupcoming : s.upcoming = plainTokens ["a", "-", "b", "-", "c"] ++ plainTokens [";"] := rfl
  have hwritten : e.Written (plainTokens ["a", "-", "b", "-", "c"]) :=
    .binary (.binary (.ident ⟨rfl, rfl⟩) ⟨rfl, rfl⟩ (.ident ⟨rfl, rfl⟩)) ⟨rfl, rfl⟩ (.ident ⟨rfl, rfl⟩)
  have hname (name : String) (h : TokenKind.ofText name = .identifier) :
      (Expr.ident ⟨name, {}⟩).WellShaped := .ident h
  have hshaped : e.WellShaped := by
    have ha := hname "a" (by decide)
    have hb := hname "b" (by decide)
    have hc := hname "c" (by decide)
    refine .binary (.binary ha hb (ha.binds rfl _).2 (hb.binds rfl _).1) hc ?_ (hc.binds rfl _).1
    intro x hx p hp
    obtain rfl | hx := List.mem_cons.mp hx
    · cases hp
      decide
    · exact (hb.binds rfl _).2 x hx p hp
  exact ((expr_exact 2 hs hupcoming (by decide)).1 e).mpr ⟨hwritten, hshaped, by decide⟩

end Grammar
end ClassScript
