import ClassScript.Proofs.Spelling.Outline

/-!
The outlines of trees.

Every part of a tree that has a span is a node: names, types, expressions, declarations, statements,
parameters, modifiers, members, classes, usings, namespaces and the script. The glyphs of an outline
are what the tree is written as.
-/

namespace ClassScript

/-! ## Trees -/

namespace Outline

def separated {α : Type} (mark : String) (outline : α → Outline) : List α → List Outline
  | [] => []
  | a :: as => outline a :: as.flatMap fun b => [.text mark, outline b]

def optional {α : Type} (outline : α → List Outline) : Option α → List Outline
  | none => []
  | some a => outline a

end Outline

def Ident.outline (i : Ident) : Outline := .node i.span [.text i.name]

def TypeExpr.outline (t : TypeExpr) : Outline := .node t.span <|
  match t.kind with
  | .keyword type => [.text type.name]
  | .inferred => [.text "var"]
  | .named path => Outline.separated "." Ident.outline path

namespace Expr

mutual

def outline : Expr → Outline
  | literal value span => .node span [.glyph (.literal value)]
  | ident name => name.outline
  | this span => .node span [.text "this"]
  | binary op left right span => .node span [left.outline, .text op.spelling, right.outline]
  | unary op operand span => .node span [.text op.spelling, operand.outline]
  | post op operand span => .node span [operand.outline, .text op.spelling]
  | assign op target value span => .node span [target.outline, .text op.spelling, value.outline]
  | conditional c yes no span =>
    .node span [c.outline, .text "?", yes.outline, .text ":", no.outline]
  | call callee args span =>
    .node span (callee.outline :: .text "(" :: (outlineListed args ++ [.text ")"]))
  | member object name span => .node span [object.outline, .text ".", name.outline]
  | paren inner span => .node span [.text "(", inner.outline, .text ")"]

def outlineListed : List Expr → List Outline
  | [] => []
  | e :: es => e.outline :: outlineContinued es

def outlineContinued : List Expr → List Outline
  | [] => []
  | e :: es => .text "," :: e.outline :: outlineContinued es

end

theorem outlineContinued_eq (es : List Expr) :
    outlineContinued es = es.flatMap fun e => [.text ",", e.outline] := by
  induction es with
  | nil => rfl
  | cons e es ih => simp [outlineContinued, ih]

theorem outlineListed_eq (es : List Expr) : outlineListed es = Outline.separated "," outline es := by
  cases es with
  | nil => rfl
  | cons e es => simp [outlineListed, Outline.separated, outlineContinued_eq]

/-- The span of an expression is the region of its tokens. -/
theorem measures {e : Expr} {ts : List Token} (h : Filled [e.outline] ts) : e.span.Measures ts := by
  have hnode : ∃ parts, e.outline = .node e.span parts := by
    cases e <;> exact ⟨_, by rw [outline]; rfl⟩
  obtain ⟨parts, hparts⟩ := hnode
  rw [hparts] at h
  exact h.measures

/-- From an expression to another one at the end of what follows. -/
theorem reaches {e e' : Expr} {ts us vs : List Token} (h : Filled [e.outline] us)
    (h' : Filled [e'.outline] vs) (hlast : vs <:+ ts) : (e.span.merge e'.span).Measures (us ++ ts) :=
  (measures h).merge (measures h') h.nonempty h'.nonempty (List.prefix_append us ts)
    (List.suffix_append_of_suffix hlast)

end Expr

def Declarator.outline (d : Declarator) : Outline :=
  .node d.span (d.name.outline :: Outline.optional (fun e => [.text "=", e.outline]) d.value)

def VarDecl.outlineParts (d : VarDecl) : List Outline :=
  d.type.outline :: Outline.separated "," Declarator.outline d.vars

def ForInit.outline : ForInit → List Outline
  | decl d => [.node d.span d.outlineParts]
  | exprs es => Outline.separated "," Expr.outline es

namespace Stmt

mutual

def outline : Stmt → Outline
  | block stmts span => .node span (.text "\x7b" :: (outlineListed stmts ++ [.text "\x7d"]))
  | decl d => .node d.span (d.outlineParts ++ [.text ";"])
  | expr e span => .node span [e.outline, .text ";"]
  | ifElse c yes no span =>
    .node span (.text "if" :: .text "(" :: c.outline :: .text ")" :: yes.outline :: outlineOtherwise no)
  | whileLoop c body span =>
    .node span [.text "while", .text "(", c.outline, .text ")", body.outline]
  | doLoop body c span =>
    .node span [.text "do", body.outline, .text "while", .text "(", c.outline, .text ")", .text ";"]
  | forLoop start c update body span =>
    .node span (.text "for" :: .text "(" :: (Outline.optional ForInit.outline start ++
      .text ";" :: (Outline.optional (fun e => [e.outline]) c ++
        .text ";" :: (Outline.separated "," Expr.outline update ++ [.text ")", body.outline]))))
  | ret value span =>
    .node span (.text "return" :: (Outline.optional (fun e => [e.outline]) value ++ [.text ";"]))
  | breakLoop span => .node span [.text "break", .text ";"]
  | continueLoop span => .node span [.text "continue", .text ";"]
  | empty span => .node span [.text ";"]

def outlineListed : List Stmt → List Outline
  | [] => []
  | s :: ss => s.outline :: outlineListed ss

def outlineOtherwise : Option Stmt → List Outline
  | none => []
  | some s => [.text "else", s.outline]

end

theorem outlineListed_eq (ss : List Stmt) : outlineListed ss = ss.map outline := by
  induction ss with
  | nil => rfl
  | cons s ss ih => simp [outlineListed, ih]

theorem outlineOtherwise_eq (s : Option Stmt) :
    outlineOtherwise s = Outline.optional (fun s => [.text "else", s.outline]) s := by
  cases s <;> rfl

end Stmt

def Param.outline (p : Param) : Outline := .node p.span [p.type.outline, p.name.outline]

def Param.outlineListed (ps : List Param) : List Outline :=
  .text "(" :: (Outline.separated "," Param.outline ps ++ [.text ")"])

def Body.outline : Body → List Outline
  | block stmts span => [.node span (.text "\x7b" :: (stmts.map Stmt.outline ++ [.text "\x7d"]))]
  | arrow e => [.text "=>", e.outline, .text ";"]

/-- Modifiers that are not there cover no tokens, whatever their place. -/
def Modifiers.outline (m : Modifiers) : Outline := .node m.span [.glyph (.modifiers m)]

def Member.outline : Member → Outline
  | field m type vars span => .node span
      (m.outline :: type.outline :: (Outline.separated "," Declarator.outline vars ++ [.text ";"]))
  | method m returns name params body span => .node span
      (m.outline :: returns.outline :: name.outline :: (Param.outlineListed params ++ body.outline))
  | constructor m name params body span => .node span
      (m.outline :: name.outline :: (Param.outlineListed params ++ body.outline))

def ClassDecl.outline (c : ClassDecl) : Outline := .node c.span
  (c.modifiers.outline :: .text "class" :: c.name.outline ::
    .text "\x7b" :: (c.members.map Member.outline ++ [.text "\x7d"]))

def UsingDirective.outline (u : UsingDirective) : Outline :=
  .node u.span (.text "using" :: (Outline.separated "." Ident.outline u.path ++ [.text ";"]))

namespace Item

mutual

def outline : Item → Outline
  | scope path usings items fileScoped span => .node span
      (.text "namespace" :: (Outline.separated "." Ident.outline path ++
        if fileScoped then .text ";" :: (usings.map UsingDirective.outline ++ outlineListed items)
        else .text "\x7b" ::
          (usings.map UsingDirective.outline ++ outlineListed items ++ [.text "\x7d"])))
  | type decl => decl.outline

def outlineListed : List Item → List Outline
  | [] => []
  | item :: items => item.outline :: outlineListed items

end

theorem outlineListed_eq (items : List Item) : outlineListed items = items.map outline := by
  induction items with
  | nil => rfl
  | cons item items ih => simp [outlineListed, ih]

end Item

def Script.outline (s : Script) : Outline :=
  .node s.span (s.usings.map UsingDirective.outline ++ s.items.map Item.outline)

/-! ## Glyphs -/

namespace Outline

/-- Parts whose outlines hold what they are written as do so with marks between them. -/
theorem glyphsOf_separated {α : Type} {mark : String} {outline : α → Outline} {write : α → List Glyph}
    (h : ∀ a, (outline a).glyphs = write a) (as : List α) :
    glyphsOf (separated mark outline as) = ClassScript.separated mark write as := by
  have hrest (bs : List α) : glyphsOf (bs.flatMap fun b => [.text mark, outline b]) =
      bs.flatMap fun b => .text mark :: write b := by
    induction bs with
    | nil => rfl
    | cons b bs ih => simp [glyphsOf, h, ih]
  cases as with
  | nil => rfl
  | cons a as => rw [separated, ClassScript.separated, glyphsOf, h, hrest]

theorem glyphsOf_map {α : Type} {outline : α → Outline} {write : α → List Glyph}
    (h : ∀ a, (outline a).glyphs = write a) (as : List α) :
    glyphsOf (as.map outline) = as.flatMap write := by
  induction as with
  | nil => rfl
  | cons a as ih => simp [glyphsOf, h, ih]

theorem glyphsOf_optional {α : Type} {outline : α → List Outline} {write : α → List Glyph}
    (h : ∀ a, glyphsOf (outline a) = write a) (a : Option α) :
    glyphsOf (optional outline a) = ClassScript.optional write a := by
  cases a with
  | none => rfl
  | some a => exact h a

end Outline

@[simp] theorem Ident.glyphs_outline (i : Ident) : i.outline.glyphs = i.written := rfl

@[simp] theorem TypeExpr.glyphs_outline (t : TypeExpr) : t.outline.glyphs = t.written := by
  obtain ⟨kind, span⟩ := t
  cases kind with
  | keyword | inferred => rfl
  | named path => exact Outline.glyphsOf_separated Ident.glyphs_outline path

namespace Expr

open Outline

mutual

@[simp] theorem glyphs_outline : (e : Expr) → e.outline.glyphs = e.written
  | literal .. | ident _ | this _ => rfl
  | binary op left right _ => by
    simp [outline, glyphs, glyphsOf, written, glyphs_outline left, glyphs_outline right]
  | unary op operand _ => by simp [outline, glyphs, glyphsOf, written, glyphs_outline operand]
  | post op operand _ => by simp [outline, glyphs, glyphsOf, written, glyphs_outline operand]
  | assign op target value _ => by
    simp [outline, glyphs, glyphsOf, written, glyphs_outline target, glyphs_outline value]
  | conditional c yes no _ => by
    simp [outline, glyphs, glyphsOf, written, glyphs_outline c, glyphs_outline yes,
      glyphs_outline no]
  | call callee args _ => by
    simp [outline, glyphs, glyphsOf, written, glyphs_outline callee, glyphsOf_outlineListed args]
  | member object name _ => by
    simp [outline, glyphs, glyphsOf, written, glyphs_outline object]
  | paren inner _ => by simp [outline, glyphs, glyphsOf, written, glyphs_outline inner]

theorem glyphsOf_outlineListed : (es : List Expr) → glyphsOf (outlineListed es) = listed es
  | [] => rfl
  | e :: es => by
    simp [outlineListed, glyphsOf, listed, glyphs_outline e, glyphsOf_outlineContinued es]

theorem glyphsOf_outlineContinued : (es : List Expr) → glyphsOf (outlineContinued es) = continued es
  | [] => rfl
  | e :: es => by
    simp [outlineContinued, glyphsOf, continued, glyphs_outline e,
      glyphsOf_outlineContinued es]

end

end Expr

open Outline in
@[simp] theorem Declarator.glyphs_outline (d : Declarator) : d.outline.glyphs = d.written := by
  have hvalue : glyphsOf (Outline.optional (fun e => [.text "=", e.outline]) d.value) =
      ClassScript.optional (fun e => .text "=" :: e.written) d.value :=
    glyphsOf_optional (fun e => by simp [glyphsOf]) d.value
  simp [outline, glyphs, glyphsOf, written, hvalue]

open Outline in
@[simp] theorem VarDecl.glyphsOf_outlineParts (d : VarDecl) : glyphsOf d.outlineParts = d.written := by
  simp [outlineParts, glyphsOf, written, glyphsOf_separated Declarator.glyphs_outline]

open Outline in
theorem ForInit.glyphsOf_outline (i : ForInit) : glyphsOf i.outline = i.written := by
  cases i with
  | decl d => simp [outline, glyphsOf, glyphs, written]
  | exprs es => exact glyphsOf_separated Expr.glyphs_outline es

namespace Stmt

open Outline

/-- What may be left out of a statement. -/
theorem glyphsOf_optional_expr (e : Option Expr) :
    glyphsOf (Outline.optional (fun e => [e.outline]) e) = ClassScript.optional Expr.written e :=
  glyphsOf_optional (fun e => by simp [glyphsOf]) e

mutual

@[simp] theorem glyphs_outline : (s : Stmt) → s.outline.glyphs = s.written
  | block stmts _ => by simp [outline, glyphs, glyphsOf, written, glyphsOf_outlineListed stmts]
  | decl d => by simp [outline, glyphs, glyphsOf, written]
  | expr e _ => by simp [outline, glyphs, glyphsOf, written]
  | ifElse c yes no _ => by
    simp [outline, glyphs, glyphsOf, written, glyphs_outline yes, glyphsOf_outlineOtherwise no]
  | whileLoop c body _ => by simp [outline, glyphs, glyphsOf, written, glyphs_outline body]
  | doLoop body c _ => by simp [outline, glyphs, glyphsOf, written, glyphs_outline body]
  | forLoop start c update body _ => by
    simp [outline, glyphs, glyphsOf, written, glyphs_outline body, glyphsOf_optional_expr,
      glyphsOf_optional ForInit.glyphsOf_outline, glyphsOf_separated Expr.glyphs_outline]
  | ret value _ => by simp [outline, glyphs, glyphsOf, written, glyphsOf_optional_expr]
  | breakLoop _ | continueLoop _ | empty _ => rfl

theorem glyphsOf_outlineListed : (ss : List Stmt) → glyphsOf (outlineListed ss) = listed ss
  | [] => rfl
  | s :: ss => by simp [outlineListed, glyphsOf, listed, glyphs_outline s, glyphsOf_outlineListed ss]

theorem glyphsOf_outlineOtherwise : (s : Option Stmt) → glyphsOf (outlineOtherwise s) = otherwise s
  | none => rfl
  | some s => by simp [outlineOtherwise, glyphsOf, otherwise, glyphs_outline s]

end

end Stmt

@[simp] theorem Param.glyphs_outline (p : Param) : p.outline.glyphs = p.written := by
  simp [outline, Outline.glyphs, Outline.glyphsOf, written]

open Outline in
@[simp] theorem Param.glyphsOf_outlineListed (ps : List Param) : glyphsOf (outlineListed ps) = listed ps := by
  simp [outlineListed, glyphsOf, listed, glyphsOf_separated Param.glyphs_outline]

open Outline in
@[simp] theorem Body.glyphsOf_outline (b : Body) : glyphsOf b.outline = b.written := by
  cases b with
  | block stmts span =>
    simp [outline, glyphsOf, glyphs, written, glyphsOf_map Stmt.glyphs_outline]
  | arrow e => simp [outline, glyphsOf, written]

open Outline in
@[simp] theorem Member.glyphs_outline (m : Member) : m.outline.glyphs = m.written := by
  cases m <;> simp [outline, glyphs, glyphsOf, written, Modifiers.outline,
    glyphsOf_separated Declarator.glyphs_outline]

open Outline in
@[simp] theorem ClassDecl.glyphs_outline (c : ClassDecl) : c.outline.glyphs = c.written := by
  simp [outline, glyphs, glyphsOf, written, Modifiers.outline, glyphsOf_map Member.glyphs_outline]

open Outline in
@[simp] theorem UsingDirective.glyphs_outline (u : UsingDirective) : u.outline.glyphs = u.written := by
  simp [outline, glyphs, glyphsOf, written, glyphsOf_separated Ident.glyphs_outline]

namespace Item

open Outline

mutual

@[simp] theorem glyphs_outline : (item : Item) → item.outline.glyphs = item.written
  | scope path usings items fileScoped _ => by
    cases fileScoped <;> simp [outline, glyphs, glyphsOf, written,
      glyphsOf_separated Ident.glyphs_outline, glyphsOf_map UsingDirective.glyphs_outline,
      glyphsOf_outlineListed items]
  | type decl => by simp [outline, written]

theorem glyphsOf_outlineListed : (items : List Item) → glyphsOf (outlineListed items) = listed items
  | [] => rfl
  | item :: items => by
    simp [outlineListed, glyphsOf, listed, glyphs_outline item, glyphsOf_outlineListed items]

end

end Item

/-- An outline of a script holds what the script is written as. -/
theorem Script.glyphs_outline (s : Script) : s.outline.glyphs = s.written := by
  simp [outline, Outline.glyphs, written, Outline.glyphsOf_map UsingDirective.glyphs_outline,
    Outline.glyphsOf_map Item.glyphs_outline]

end ClassScript
