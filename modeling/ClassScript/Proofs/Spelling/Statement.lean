import ClassScript.Grammar.Statement
import ClassScript.Proofs.Spelling.Expression

/-!
Types, statements and blocks take the tokens of their outlines.
-/

namespace ClassScript

theorem TokenKind.writes_of_valueType? {k : TokenKind} {type : ValueType}
    (h : k.valueType? = some type) : k.Writes type.name := by
  unfold valueType? at h
  split at h <;> cases h <;> decide

namespace Grammar

/-! ## Names and types -/

theorem dottedPath_reads :
    Reads dottedPath fun path ts => Filled (Outline.separated "." Ident.outline path) ts := by
  intro s
  unfold dottedPath
  refine (identifier_reads s).bind fun first s => ?_
  refine .bind (P := fun all ts _ => Adds (fun i => [.text ".", i.outline]) [first] all ts)
    (iterate_adds (marked_adds "." (by decide) identifier_reads) s) fun all s => .pure ?_
  intro ts hall ts' hfirst
  rw [List.append_nil]
  exact filled_separated hfirst hall

theorem typeExpr_reads (inferable : Bool) :
    Reads (typeExpr inferable) fun t ts => Filled [t.outline] ts := by
  intro s
  unfold typeExpr
  refine .peek rfl ?_
  split
  · next type htype =>
    refine .advanceText _ rfl (TokenKind.writes_of_valueType? htype) (.pure fun hts => ?_)
    exact hts.within (Span.measures_singleton s.current)
  · split
    · next hkind =>
      refine .ite (fun _ => ?_) fun _ => .fail
      refine .advanceText "var" hkind (by decide) (.pure fun hts => ?_)
      exact hts.within (Span.measures_singleton s.current)
    · refine (dottedPath_reads s).bindBehind fun path s' => .peek rfl (.pure fun ts hgives hts => ?_)
      rw [List.append_nil]
      exact hts.within (hgives.spans hts.nonempty)
    · exact .fail

/-! ## Parts of statements -/

/-- Parts that were left out are no parts. -/
theorem separated_getD {α : Type} {outline : α → Outline} {mark : String} (as : Option (List α)) :
    Outline.separated mark outline (as.getD []) =
      Outline.optional (Outline.separated mark outline) as := by
  cases as <;> rfl

section

variable {α : Type} {sub : Parse Expr} (hsub : Reads sub fun e ts => Filled [e.outline] ts)

/-- What may be left out takes the tokens of its outline. -/
theorem unlessAt_reads {outline : α → List Outline} {stop : TokenKind} {p : Parse α}
    (hp : Reads p fun a ts => Filled (outline a) ts) :
    Reads (unlessAt stop p) fun a ts => Outlined (Outline.optional outline a) ts := by
  intro s
  unfold unlessAt
  refine .peek rfl (.ite (fun _ => .pure .nil) fun _ => (hp s).bind fun a s => .pure ?_)
  intro ts ha
  rw [List.append_nil]
  exact ha.covers

include hsub in
theorem unlessExpr_reads (stop : TokenKind) : Reads (unlessAt stop sub) fun e ts =>
    Outlined (Outline.optional (fun e => [e.outline]) e) ts :=
  unlessAt_reads hsub

/-- What comes only behind a mark takes its tokens, and the mark. -/
theorem marked_reads {outline : α → Outline} {p : Parse α} {s : State} (text : String) (b : Bool)
    (hp : Reads p fun a ts => Filled [outline a] ts) :
    ReadsFrom s (if b then p >>= fun a => pure (some a) else pure none) fun a ts _ =>
      ∀ ts', (if b then Filled [.text text] ts' else ts' = []) →
        Outlined (Outline.optional (fun a => [.text text, outline a]) a) (ts' ++ ts) := by
  refine .ite ?_ fun hb => .pure ?_
  · rintro rfl
    refine (hp s).bind fun a s => .pure ?_
    intro ts ha ts' hmark
    rw [List.append_nil]
    exact (Filled.append hmark ha.covers).covers
  · intro ts' hts'
    rw [if_neg hb] at hts'
    subst hts'
    exact .nil

include hsub

theorem declarator_reads : Reads (declarator sub) fun d ts => Filled [d.outline] ts := by
  intro s
  unfold declarator
  refine (identifier_reads s).bindBehind fun name s₁ => (eat_reads "=" (by decide) s₁).bindBehind fun b s₂ => ?_
  refine .join ((marked_reads "=" b hsub).bindBehind fun value s₃ => .peek rfl (.pure ?_))
  intro ts₃ hgives₃ hvalue ts₂ hgives₂ hmark ts₁ hgives₁ hname
  have hparts := hname.append (hvalue ts₂ hmark)
  have hspan := (hgives₁.trans (hgives₂.trans hgives₃)).closes hparts.nonempty hname.measures
    hname.nonempty (List.prefix_append ts₁ _) List.suffix_rfl
  rw [List.append_nil]
  exact hparts.within hspan

theorem varDecl_reads :
    Reads (varDecl sub) fun d ts => Filled d.outlineParts ts ∧ d.span.Measures ts := by
  intro s
  unfold varDecl
  refine .peek rfl ((typeExpr_reads true s).bindBehind fun type s₁ => ?_)
  refine (commaList_reads (declarator_reads hsub) s₁).bindBehind fun vars s₂ => .peek rfl (.pure ?_)
  intro ts₂ hgives₂ hvars ts₁ hgives₁ htype
  have hparts := htype.append hvars.covers
  rw [List.append_nil]
  exact ⟨hparts, (hgives₁.trans hgives₂).spans hparts.nonempty⟩

theorem condition_reads :
    Reads (condition sub) fun e ts => Filled [.text "(", e.outline, .text ")"] ts := by
  intro s
  unfold condition
  refine (expect_reads "(" (by decide) s).bind fun _ s => (hsub s).bind fun e s => ?_
  refine (expect_reads ")" (by decide) s).bind fun _ s => .pure ?_
  rintro ts ⟨-, hright⟩ ts' he ts'' ⟨-, hleft⟩
  rw [List.append_nil]
  exact hleft.append (he.append hright.covers).covers

theorem forInit_reads : Reads (forInit sub) fun i ts => Filled i.outline ts := by
  intro s
  unfold forInit
  refine .peek rfl (.ite (fun _ => ?_) fun _ => ?_)
  · refine (varDecl_reads hsub s).bind fun d s => .pure ?_
    rintro ts ⟨hd, hspan⟩
    rw [List.append_nil]
    exact hd.within hspan
  · refine (commaList_reads hsub s).bind fun es s => .pure ?_
    intro ts hes
    rw [List.append_nil]
    exact hes

theorem returnStmt_reads (t : Token) : Reads (returnStmt sub t.span) fun r ts =>
    Filled [.text "return"] [t] → Filled [r.outline] ([t] ++ ts) := by
  intro s
  unfold returnStmt
  refine (unlessExpr_reads hsub _ s).bindBehind fun value s₁ => ?_
  refine (expectSemicolon_reads s₁).bindBehind fun _ s₂ => .peek rfl (.pure ?_)
  intro ts₂ hgives₂ hsemicolon ts₁ hgives₁ hvalue hreturn
  have hrest := hvalue.appendFilled hsemicolon
  rw [List.append_nil]
  exact (hgives₁.trans hgives₂).node hreturn hrest

variable {stmt : Parse Stmt} (hstmt : Reads stmt fun r ts => Filled [r.outline] ts)

include hstmt

omit hsub in
theorem block_reads : Reads (block stmt) fun b ts =>
    Filled (.text "\x7b" :: (b.1.map Stmt.outline ++ [.text "\x7d"])) ts ∧ b.2.Measures ts := by
  intro s
  unfold block
  refine (expect_reads "\x7b" (by decide) s).bindBehind fun left s₁ => ?_
  refine .bindBehind (P := fun all ts _ => Adds (fun r => [r.outline]) [] all ts)
    (iterate_adds (fun done s => ?_) s₁) fun all s₂ => ?_
  · refine .peek rfl (.peek rfl (.ite (fun _ => .pure (.refl done)) fun _ => ?_))
    exact recovering_adds hstmt ⟨afterStatement false, rfl⟩ (fun _ => rfl) rfl
  · refine (expect_reads "\x7d" (by decide) s₂).bindBehind fun _ s₃ => .peek rfl (.pure ?_)
    rintro ts₃ hgives₃ ⟨-, hright⟩ ts₂ hgives₂ hall _ hgives₁ ⟨rfl, hleft⟩
    have hparts := hleft.append (hall.outlined.append hright.covers)
    rw [List.append_nil]
    refine ⟨hparts, ?_⟩
    exact (hgives₁.trans (hgives₂.trans hgives₃)).closes hparts.nonempty (Span.measures_singleton left)
      hleft.nonempty (List.prefix_append [left] _) List.suffix_rfl

theorem ifStmt_reads (t : Token) : Reads (ifStmt sub stmt t.span) fun r ts =>
    Filled [.text "if"] [t] → Filled [r.outline] ([t] ++ ts) := by
  intro s
  unfold ifStmt
  refine (condition_reads hsub s).bindBehind fun c s₁ => (hstmt s₁).bindBehind fun yes s₂ => ?_
  refine (eat_reads "else" (by decide) s₂).bindBehind fun b s₃ => ?_
  refine .join ((marked_reads "else" b hstmt).bindBehind fun no s₄ => .peek rfl (.pure ?_))
  intro ts₄ hgives₄ hno ts₃ hgives₃ hmark ts₂ hgives₂ hyes ts₁ hgives₁ hc hif
  have hrest := hc.append (hyes.append (hno ts₃ hmark)).covers
  have hgives := hgives₁.trans (hgives₂.trans (hgives₃.trans hgives₄))
  rw [List.append_nil, Stmt.outline, Stmt.outlineOtherwise_eq]
  exact hgives.node hif hrest

theorem whileStmt_reads (t : Token) : Reads (whileStmt sub stmt t.span) fun r ts =>
    Filled [.text "while"] [t] → Filled [r.outline] ([t] ++ ts) := by
  intro s
  unfold whileStmt
  refine (condition_reads hsub s).bindBehind fun c s₁ => (hstmt s₁).bindBehind fun body s₂ =>
    .peek rfl (.pure ?_)
  intro ts₂ hgives₂ hbody ts₁ hgives₁ hc hwhile
  have hrest := hc.append hbody.covers
  rw [List.append_nil]
  exact (hgives₁.trans hgives₂).node hwhile hrest

theorem doStmt_reads (t : Token) : Reads (doStmt sub stmt t.span) fun r ts =>
    Filled [.text "do"] [t] → Filled [r.outline] ([t] ++ ts) := by
  intro s
  unfold doStmt
  refine (hstmt s).bindBehind fun body s₁ => (expect_reads "while" (by decide) s₁).bindBehind fun _ s₂ => ?_
  refine (condition_reads hsub s₂).bindBehind fun c s₃ => ?_
  refine (expectSemicolon_reads s₃).bindBehind fun _ s₄ => .peek rfl (.pure ?_)
  rintro ts₄ hgives₄ hsemicolon ts₃ hgives₃ hc ts₂ hgives₂ ⟨-, hwhile⟩ ts₁ hgives₁ hbody hdo
  have hrest := hbody.append (hwhile.append (hc.append hsemicolon.covers).covers).covers
  have hgives := hgives₁.trans (hgives₂.trans (hgives₃.trans hgives₄))
  rw [List.append_nil]
  exact hgives.node hdo hrest

theorem forStmt_reads (t : Token) : Reads (forStmt sub stmt t.span) fun r ts =>
    Filled [.text "for"] [t] → Filled [r.outline] ([t] ++ ts) := by
  intro s
  unfold forStmt
  refine (expect_reads "(" (by decide) s).bindBehind fun _ s₁ => ?_
  refine (unlessAt_reads (forInit_reads hsub) s₁).bindBehind fun first s₂ => ?_
  refine (expect_reads ";" (by decide) s₂).bindBehind fun _ s₃ => ?_
  refine (unlessExpr_reads hsub _ s₃).bindBehind fun c s₄ => ?_
  refine (expect_reads ";" (by decide) s₄).bindBehind fun _ s₅ => ?_
  refine (unlessAt_reads (commaList_reads hsub) s₅).bindBehind fun update s₆ => ?_
  refine (expect_reads ")" (by decide) s₆).bindBehind fun _ s₇ => (hstmt s₇).bindBehind fun body s₈ =>
    .peek rfl (.pure ?_)
  rintro ts₈ hgives₈ hbody ts₇ hgives₇ ⟨-, hright⟩ ts₆ hgives₆ hupdate ts₅ hgives₅ ⟨-, hsecond⟩ ts₄
    hgives₄ hc ts₃ hgives₃ ⟨-, hfirst⟩ ts₂ hgives₂ hstart ts₁ hgives₁ ⟨-, hleft⟩ hfor
  have htail := hsecond.append (hupdate.append (hright.append hbody.covers).covers)
  have hrest := hleft.append (hstart.append (hfirst.append (hc.append htail.covers)).covers)
  have hbehind := hgives₅.trans (hgives₆.trans (hgives₇.trans hgives₈))
  have hgives := hgives₁.trans (hgives₂.trans (hgives₃.trans (hgives₄.trans hbehind)))
  rw [List.append_nil, Stmt.outline, separated_getD]
  exact hgives.node hfor hrest

/-! ## Statements -/

theorem statementIn_reads : Reads (statementIn sub stmt) fun r ts => Filled [r.outline] ts := by
  intro s
  unfold statementIn
  refine .peek rfl ?_
  split
  · refine (block_reads hstmt s).bind fun b s => .pure ?_
    rintro ts ⟨hb, hspan⟩
    rw [List.append_nil]
    refine Filled.within ?_ hspan
    rwa [Stmt.outlineListed_eq]
  · next hkind =>
    refine .advanceText ";" hkind (by decide) (.pure fun hts => ?_)
    exact hts.within (Span.measures_singleton s.current)
  · next hkind => exact .advanceText "if" hkind (by decide) (ifStmt_reads hsub hstmt _ _)
  · next hkind => exact .advanceText "while" hkind (by decide) (whileStmt_reads hsub hstmt _ _)
  · next hkind => exact .advanceText "do" hkind (by decide) (doStmt_reads hsub hstmt _ _)
  · next hkind => exact .advanceText "for" hkind (by decide) (forStmt_reads hsub hstmt _ _)
  · next hkind => exact .advanceText "return" hkind (by decide) (returnStmt_reads hsub _ _)
  · next hkind =>
    refine .advanceText "break" hkind (by decide) ?_
    refine (expectSemicolon_reads _).bindBehind fun _ s' => .peek rfl (.pure ?_)
    intro ts hgives hsemicolon hbreak
    rw [List.append_nil]
    exact hgives.node hbreak hsemicolon
  · next hkind =>
    refine .advanceText "continue" hkind (by decide) ?_
    refine (expectSemicolon_reads _).bindBehind fun _ s' => .peek rfl (.pure ?_)
    intro ts hgives hsemicolon hcontinue
    rw [List.append_nil]
    exact hgives.node hcontinue hsemicolon
  · refine .peek rfl (.ite (fun _ => ?_) fun _ => ?_)
    · refine (varDecl_reads hsub s).bindBehind fun d s₁ => (expectSemicolon_reads s₁).bindBehind fun _ s₂ =>
        .peek rfl (.pure ?_)
      rintro ts₂ hgives₂ hsemicolon ts₁ hgives₁ ⟨hd, hspan⟩
      have hparts := hd.append hsemicolon.covers
      have hspan := (hgives₁.trans hgives₂).closes hparts.nonempty hspan hd.nonempty
        (List.prefix_append ts₁ ts₂) List.suffix_rfl
      rw [List.append_nil]
      exact hparts.within hspan
    · refine (hsub s).bindBehind fun e s₁ => (expectSemicolon_reads s₁).bindBehind fun _ s₂ =>
        .peek rfl (.pure ?_)
      intro ts₂ hgives₂ hsemicolon ts₁ hgives₁ he
      have hparts := he.append hsemicolon.covers
      rw [List.append_nil]
      exact hparts.within ((hgives₁.trans hgives₂).spans hparts.nonempty)

end

/-- A statement takes the tokens of its outline. -/
theorem statement_reads (depth : Nat) : Reads (statement depth) fun r ts => Filled [r.outline] ts := by
  induction depth with
  | zero => exact fun s => .failTooDeep
  | succ depth ih => exact statementIn_reads (expr_reads depth 0) ih

end Grammar
end ClassScript
