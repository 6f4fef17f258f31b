import ClassScript.Tree
import Mathlib.Data.List.Basic

/-!
Trees without places, and scripts whose methods stand in another order.

`placeless` forgets where the parts of a tree stand in the source. Trees that are the same without
places spell the same program, and one inversion lemma a form of tree takes them apart side by side.
Two scripts are rearranged if, but for places, the one comes from the other by letting methods of a
class change places with members of the class next to them, again and again.
-/

namespace ClassScript

/-! ## Names and types -/

def Ident.placeless (i : Ident) : Ident := ⟨i.name, {}⟩

def TypeKind.placeless : TypeKind → TypeKind
  | .named path => .named (path.map Ident.placeless)
  | k => k

def TypeExpr.placeless (t : TypeExpr) : TypeExpr := ⟨t.kind.placeless, {}⟩

theorem Ident.name_eq {i j : Ident} (h : i.placeless = j.placeless) : i.name = j.name :=
  (Ident.mk.inj h).1

theorem map_name_eq {p q : List Ident} (h : p.map Ident.placeless = q.map Ident.placeless) :
    p.map (·.name) = q.map (·.name) := by
  have hnames := congrArg (List.map Ident.name) h
  rw [List.map_map, List.map_map] at hnames
  exact hnames

theorem dottedText_eq {p q : List Ident} (h : p.map Ident.placeless = q.map Ident.placeless) :
    dottedText p = dottedText q := by
  rw [dottedText, dottedText, map_name_eq h]

theorem TypeExpr.kind_eq {t u : TypeExpr} (h : t.placeless = u.placeless) :
    t.kind.placeless = u.kind.placeless := congrArg TypeExpr.kind h

/-- The type of the initializer is meant whatever the places are. -/
theorem TypeExpr.inferred_iff {t u : TypeExpr} (h : t.placeless = u.placeless) :
    t.kind = .inferred ↔ u.kind = .inferred := by
  have hkind := TypeExpr.kind_eq h
  cases ht : t.kind <;> cases hu : u.kind <;> simp_all [TypeKind.placeless]

/-! ## Expressions -/

mutual

@[simp]
def Expr.placeless : Expr → Expr
  | .literal v _ => .literal v {}
  | .ident name => .ident name.placeless
  | .this _ => .this {}
  | .binary op left right _ => .binary op left.placeless right.placeless {}
  | .unary op operand _ => .unary op operand.placeless {}
  | .post op operand _ => .post op operand.placeless {}
  | .assign op target value _ => .assign op target.placeless value.placeless {}
  | .conditional condition yes no _ =>
    .conditional condition.placeless yes.placeless no.placeless {}
  | .call callee args _ => .call callee.placeless (Expr.placelessAll args) {}
  | .member object name _ => .member object.placeless name.placeless {}
  | .paren inner _ => .paren inner.placeless {}

@[simp]
def Expr.placelessAll : List Expr → List Expr
  | [] => []
  | e :: es => e.placeless :: Expr.placelessAll es

end

namespace Expr

variable {e e' f : Expr} {sp : Span}

section

variable {op : BinaryOp} {l r c y n o : Expr} {args : List Expr} {name : Ident}

theorem of_literal {v : Literal} (h : (literal v sp).placeless = e'.placeless) :
    ∃ sp', e' = .literal v sp' := by
  cases e' <;> simp_all

theorem of_ident (h : (ident name).placeless = e'.placeless) :
    ∃ name', e' = .ident name' ∧ name.placeless = name'.placeless := by
  cases e' <;> simp_all

theorem of_this (h : (this sp).placeless = e'.placeless) : ∃ sp', e' = .this sp' := by
  cases e' <;> simp_all

theorem of_binary (h : (binary op l r sp).placeless = e'.placeless) :
    ∃ l' r' sp', e' = .binary op l' r' sp' ∧ l.placeless = l'.placeless ∧
      r.placeless = r'.placeless := by
  cases e' <;> simp_all

theorem of_unary {op : UnaryOp} (h : (unary op o sp).placeless = e'.placeless) :
    ∃ o' sp', e' = .unary op o' sp' ∧ o.placeless = o'.placeless := by
  cases e' <;> simp_all

theorem of_post {op : PostfixOp} (h : (post op o sp).placeless = e'.placeless) :
    ∃ o' sp', e' = .post op o' sp' ∧ o.placeless = o'.placeless := by
  cases e' <;> simp_all

theorem of_assign {op : AssignOp} (h : (assign op l r sp).placeless = e'.placeless) :
    ∃ l' r' sp', e' = .assign op l' r' sp' ∧ l.placeless = l'.placeless ∧
      r.placeless = r'.placeless := by
  cases e' <;> simp_all

theorem of_conditional (h : (conditional c y n sp).placeless = e'.placeless) :
    ∃ c' y' n' sp', e' = .conditional c' y' n' sp' ∧ c.placeless = c'.placeless ∧
      y.placeless = y'.placeless ∧ n.placeless = n'.placeless := by
  cases e' <;> simp_all

theorem of_call (h : (call c args sp).placeless = e'.placeless) :
    ∃ c' args' sp', e' = .call c' args' sp' ∧ c.placeless = c'.placeless ∧
      placelessAll args = placelessAll args' := by
  cases e' <;> simp_all

theorem of_member (h : (member o name sp).placeless = e'.placeless) :
    ∃ o' name' sp', e' = .member o' name' sp' ∧ o.placeless = o'.placeless ∧
      name.placeless = name'.placeless := by
  cases e' <;> simp_all

theorem of_paren (h : (paren o sp).placeless = e'.placeless) :
    ∃ o' sp', e' = .paren o' sp' ∧ o.placeless = o'.placeless := by
  cases e' <;> simp_all

theorem of_nil {es : List Expr} (h : placelessAll [] = placelessAll es) : es = [] := by
  cases es <;> simp_all

theorem of_cons {es fs : List Expr} (h : placelessAll (e :: es) = placelessAll fs) :
    ∃ f fs', fs = f :: fs' ∧ e.placeless = f.placeless ∧ placelessAll es = placelessAll fs' := by
  cases fs <;> simp_all

end

theorem bare_placeless : (e : Expr) → e.placeless.bare = e.bare.placeless
  | .paren inner _ => by rw [placeless, bare, bare, bare_placeless inner]
  | .literal .. | .ident _ | .this _ | .binary .. | .unary .. | .post .. | .assign ..
  | .conditional .. | .call .. | .member .. => rfl

theorem bare_eq (h : e.placeless = e'.placeless) : e.bare.placeless = e'.bare.placeless := by
  rw [← bare_placeless, h, bare_placeless]

end Expr

/-! ## Statements -/

def Declarator.placeless (d : Declarator) : Declarator :=
  ⟨d.name.placeless, d.value.map Expr.placeless, {}⟩

def VarDecl.placeless (d : VarDecl) : VarDecl :=
  ⟨d.type.placeless, d.vars.map Declarator.placeless, {}⟩

def ForInit.placeless : ForInit → ForInit
  | .decl d => .decl d.placeless
  | .exprs es => .exprs (Expr.placelessAll es)

mutual

@[simp]
def Stmt.placeless : Stmt → Stmt
  | .block stmts _ => .block (Stmt.placelessAll stmts) {}
  | .decl d => .decl d.placeless
  | .expr e _ => .expr e.placeless {}
  | .ifElse condition yes none _ => .ifElse condition.placeless yes.placeless none {}
  | .ifElse condition yes (some no) _ =>
    .ifElse condition.placeless yes.placeless (some no.placeless) {}
  | .whileLoop condition body _ => .whileLoop condition.placeless body.placeless {}
  | .doLoop body condition _ => .doLoop body.placeless condition.placeless {}
  | .forLoop start condition update body _ =>
    .forLoop (start.map ForInit.placeless) (condition.map Expr.placeless)
      (Expr.placelessAll update) body.placeless {}
  | .ret value _ => .ret (value.map Expr.placeless) {}
  | .breakLoop _ => .breakLoop {}
  | .continueLoop _ => .continueLoop {}
  | .empty _ => .empty {}

@[simp]
def Stmt.placelessAll : List Stmt → List Stmt
  | [] => []
  | s :: ss => s.placeless :: Stmt.placelessAll ss

end

namespace Stmt

variable {s s' yes no body : Stmt} {ss : List Stmt} {sp : Span} {e : Expr}

theorem of_block (h : (block ss sp).placeless = s'.placeless) :
    ∃ ss' sp', s' = .block ss' sp' ∧ placelessAll ss = placelessAll ss' := by
  rcases s' with _ | _ | _ | ⟨_, _, _ | _, _⟩ <;> simp_all

theorem of_decl {d : VarDecl} (h : (decl d).placeless = s'.placeless) :
    ∃ d', s' = .decl d' ∧ d.placeless = d'.placeless := by
  rcases s' with _ | _ | _ | ⟨_, _, _ | _, _⟩ <;> simp_all

theorem of_expr (h : (expr e sp).placeless = s'.placeless) :
    ∃ e' sp', s' = .expr e' sp' ∧ e.placeless = e'.placeless := by
  rcases s' with _ | _ | _ | ⟨_, _, _ | _, _⟩ <;> simp_all

theorem of_ifThen (h : (ifElse e yes none sp).placeless = s'.placeless) :
    ∃ e' yes' sp', s' = .ifElse e' yes' none sp' ∧ e.placeless = e'.placeless ∧
      yes.placeless = yes'.placeless := by
  rcases s' with _ | _ | _ | ⟨_, _, _ | _, _⟩ <;> simp_all

theorem of_ifElse (h : (ifElse e yes (some no) sp).placeless = s'.placeless) :
    ∃ e' yes' no' sp', s' = .ifElse e' yes' (some no') sp' ∧ e.placeless = e'.placeless ∧
      yes.placeless = yes'.placeless ∧ no.placeless = no'.placeless := by
  rcases s' with _ | _ | _ | ⟨_, _, _ | _, _⟩ <;> simp_all

theorem of_whileLoop (h : (whileLoop e body sp).placeless = s'.placeless) :
    ∃ e' body' sp', s' = .whileLoop e' body' sp' ∧ e.placeless = e'.placeless ∧
      body.placeless = body'.placeless := by
  rcases s' with _ | _ | _ | ⟨_, _, _ | _, _⟩ <;> simp_all

theorem of_doLoop (h : (doLoop body e sp).placeless = s'.placeless) :
    ∃ body' e' sp', s' = .doLoop body' e' sp' ∧ body.placeless = body'.placeless ∧
      e.placeless = e'.placeless := by
  rcases s' with _ | _ | _ | ⟨_, _, _ | _, _⟩ <;> simp_all

theorem of_forLoop {start : Option ForInit} {condition : Option Expr} {update : List Expr}
    (h : (forLoop start condition update body sp).placeless = s'.placeless) :
    ∃ start' condition' update' body' sp', s' = .forLoop start' condition' update' body' sp' ∧
      start.map ForInit.placeless = start'.map ForInit.placeless ∧
      condition.map Expr.placeless = condition'.map Expr.placeless ∧
      Expr.placelessAll update = Expr.placelessAll update' ∧ body.placeless = body'.placeless := by
  rcases s' with _ | _ | _ | ⟨_, _, _ | _, _⟩ <;> simp_all

theorem of_ret {value : Option Expr} (h : (ret value sp).placeless = s'.placeless) :
    ∃ value' sp', s' = .ret value' sp' ∧
      value.map Expr.placeless = value'.map Expr.placeless := by
  rcases s' with _ | _ | _ | ⟨_, _, _ | _, _⟩ <;> simp_all

theorem of_breakLoop (h : (breakLoop sp).placeless = s'.placeless) :
    ∃ sp', s' = .breakLoop sp' := by
  rcases s' with _ | _ | _ | ⟨_, _, _ | _, _⟩ <;> simp_all

theorem of_continueLoop (h : (continueLoop sp).placeless = s'.placeless) :
    ∃ sp', s' = .continueLoop sp' := by
  rcases s' with _ | _ | _ | ⟨_, _, _ | _, _⟩ <;> simp_all

theorem of_empty (h : (empty sp).placeless = s'.placeless) : ∃ sp', s' = .empty sp' := by
  rcases s' with _ | _ | _ | ⟨_, _, _ | _, _⟩ <;> simp_all

theorem of_nil (h : placelessAll [] = placelessAll ss) : ss = [] := by
  cases ss <;> simp_all

theorem of_cons {ts : List Stmt} (h : placelessAll (s :: ss) = placelessAll ts) :
    ∃ t ts', ts = t :: ts' ∧ s.placeless = t.placeless ∧ placelessAll ss = placelessAll ts' := by
  cases ts <;> simp_all

end Stmt

/-- What is missing without places is missing with them. -/
theorem map_placeless_cases {α : Type} {f : α → α} {o o' : Option α} (h : o.map f = o'.map f) :
    o = none ∧ o' = none ∨ ∃ a a', o = some a ∧ o' = some a' ∧ f a = f a' := by
  cases o <;> cases o' <;> simp_all

/-! ## Declarations -/

def Body.placeless : Body → Body
  | .block stmts _ => .block (Stmt.placelessAll stmts) {}
  | .arrow e => .arrow e.placeless

def Modifiers.placeless (m : Modifiers) : Modifiers :=
  ⟨m.visibility, m.isStatic, m.isReadonly, {}⟩

def Param.placeless (p : Param) : Param := ⟨p.type.placeless, p.name.placeless, {}⟩

def Member.placeless : Member → Member
  | .field mods type vars _ =>
    .field mods.placeless type.placeless (vars.map Declarator.placeless) {}
  | .method mods returns name params body _ =>
    .method mods.placeless returns.placeless name.placeless (params.map Param.placeless)
      body.placeless {}
  | .constructor mods name params body _ =>
    .constructor mods.placeless name.placeless (params.map Param.placeless) body.placeless {}

def Member.isMethod : Member → Bool
  | .method .. => true
  | _ => false

def Member.isField : Member → Bool
  | .field .. => true
  | _ => false

def UsingDirective.placeless (u : UsingDirective) : UsingDirective :=
  ⟨u.path.map Ident.placeless, {}⟩

/-! ## Other orders -/

/-- Members in another order, but for places: a method may change places with the member next to
it. -/
inductive Member.Rearranged : List Member → List Member → Prop
  | nil : Rearranged [] []
  | cons {d d' : Member} {ds ds' : List Member} (h : d.placeless = d'.placeless)
      (hs : Rearranged ds ds') : Rearranged (d :: ds) (d' :: ds')
  | swap {d e : Member} {ds : List Member} (h : d.isMethod = true ∨ e.isMethod = true) :
      Rearranged (d :: e :: ds) (e :: d :: ds)
  | trans {ds es fs : List Member} (h : Rearranged ds es) (h' : Rearranged es fs) :
      Rearranged ds fs

structure ClassDecl.Rearranged (d d' : ClassDecl) : Prop where
  modifiers : d.modifiers.placeless = d'.modifiers.placeless
  name : d.name.placeless = d'.name.placeless
  members : Member.Rearranged d.members d'.members

mutual

inductive Item.Rearranged : Item → Item → Prop
  | type {d d' : ClassDecl} (h : d.Rearranged d') : Item.Rearranged (.type d) (.type d')
  | scope {path path' : List Ident} {usings usings' : List UsingDirective}
      {items items' : List Item} {fileScoped : Bool} {sp sp' : Span}
      (hpath : path.map Ident.placeless = path'.map Ident.placeless)
      (husings : usings.map UsingDirective.placeless = usings'.map UsingDirective.placeless)
      (hitems : Item.RearrangedAll items items') :
      Item.Rearranged (.scope path usings items fileScoped sp)
        (.scope path' usings' items' fileScoped sp')

inductive Item.RearrangedAll : List Item → List Item → Prop
  | nil : Item.RearrangedAll [] []
  | cons {item item' : Item} {items items' : List Item} (h : Item.Rearranged item item')
      (hs : Item.RearrangedAll items items') : Item.RearrangedAll (item :: items) (item' :: items')

end

/-- The same script with the methods of its classes in another order. -/
structure Script.Rearranged (s s' : Script) : Prop where
  usings : s.usings.map UsingDirective.placeless = s'.usings.map UsingDirective.placeless
  items : Item.RearrangedAll s.items s'.items

theorem Member.Rearranged.refl : (ds : List Member) → Member.Rearranged ds ds
  | [] => .nil
  | _ :: ds => .cons rfl (refl ds)

theorem Member.Rearranged.symm {ds es : List Member} (h : Member.Rearranged ds es) :
    Member.Rearranged es ds := by
  induction h with
  | nil => exact .nil
  | cons h _ ih => exact .cons h.symm ih
  | swap h => exact .swap h.symm
  | trans _ _ ih ih' => exact .trans ih' ih

theorem ClassDecl.Rearranged.symm {d d' : ClassDecl} (h : d.Rearranged d') : d'.Rearranged d :=
  ⟨h.modifiers.symm, h.name.symm, h.members.symm⟩

mutual

theorem Item.Rearranged.symm {i i' : Item} : i.Rearranged i' → i'.Rearranged i
  | .type h => .type h.symm
  | .scope hpath husings hitems => .scope hpath.symm husings.symm hitems.symm

theorem Item.RearrangedAll.symm {is is' : List Item} :
    Item.RearrangedAll is is' → Item.RearrangedAll is' is
  | .nil => .nil
  | .cons h hs => .cons h.symm hs.symm

end

theorem Script.Rearranged.symm {s s' : Script} (h : s.Rearranged s') : s'.Rearranged s :=
  ⟨h.usings.symm, h.items.symm⟩

end ClassScript
