import ClassScript.Proofs.Layout.Expression
import ClassScript.Compile.Statement

/-!
The code of statements, without the way it is written.

The code of a statement is a list of pieces: instructions, and jumps out of the loop around it or to
the next round of this loop, whose distances are settled only where the loop ends. Jumps to the next
round lead forward where the condition stands behind the body, and back to the start otherwise.
-/

namespace ClassScript.Layout

open Code (Instruction)
open Compile

/-! ## Pieces -/

inductive Piece where
  | op (i : Instruction)
  /-- A jump out of the innermost loop. -/
  | leave
  /-- A jump to the next round of the innermost loop. -/
  | again

namespace Piece

def width : Piece → Nat
  | op i => i.width
  | leave | again => 3

@[simp] theorem width_op (i : Instruction) : (op i).width = i.width := rfl

@[simp] theorem width_leave : leave.width = 3 := rfl

@[simp] theorem width_again : again.width = 3 := rfl

end Piece

abbrev Fragment := List Piece

namespace Fragment

def size : Fragment → Nat
  | [] => 0
  | x :: F => x.width + size F

@[simp] theorem size_nil : size [] = 0 := rfl

@[simp] theorem size_cons (x : Piece) (F : Fragment) : size (x :: F) = x.width + size F := rfl

@[simp] theorem size_append (F G : Fragment) : size (F ++ G) = size F + size G := by
  induction F with
  | nil => simp
  | cons x F ih => simp [ih, Nat.add_assoc]

def ops (is : Asm) : Fragment := is.map .op

@[simp] theorem ops_nil : ops [] = [] := rfl

@[simp] theorem ops_cons (i : Instruction) (is : Asm) : ops (i :: is) = .op i :: ops is := rfl

@[simp] theorem ops_append (is js : Asm) : ops (is ++ js) = ops is ++ ops js := List.map_append

@[simp] theorem size_ops (is : Asm) : size (ops is) = is.size := by
  induction is with
  | nil => rfl
  | cons i is ih => simp [ih, Piece.width]

/-- Jumps to the next round lead to the end. -/
def forward : Fragment → Fragment
  | [] => []
  | .again :: F => .op (.unary .jump (size F)) :: forward F
  | x :: F => x :: forward F

@[simp] theorem size_forward (F : Fragment) : size (forward F) = size F := by
  induction F with
  | nil => rfl
  | cons x F ih => cases x <;> simp [forward, ih, Piece.width]

/-- The code of a loop, of which so many bytes stand in front: jumps out of it lead to its end, and
jumps to the next round to its start. -/
def closed : Nat → Fragment → Asm
  | _, [] => []
  | o, .op i :: F => i :: closed (o + i.width) F
  | o, .leave :: F => .unary .jump (size F) :: closed (o + 3) F
  | o, .again :: F => .unary .loop (o + 3) :: closed (o + 3) F

@[simp] theorem size_closed (o : Nat) (F : Fragment) : (closed o F).size = size F := by
  induction F generalizing o with
  | nil => rfl
  | cons x F ih => cases x <;> simp [closed, ih, Piece.width]

end Fragment

open Fragment

structure Exits where
  /-- At its end. -/
  ends : Bool
  /-- By a jump out of the loop around it. -/
  breaks : Bool
  /-- By a jump to the next round of this loop. -/
  continues : Bool

def Exits.plain (ends : Bool) : Exits := ⟨ends, false, false⟩

/-- The jumps out of two statements, and the given end. -/
def Exits.both (x y : Exits) (ends : Bool) : Exits :=
  ⟨ends, x.breaks || y.breaks, x.continues || y.continues⟩

/-- The jump in front of a loop's body that leaves the loop. Where the condition is known to hold,
there is neither. -/
def heading (is : Asm) (known : Option Bool) (distance : Nat) : Asm :=
  if known = some true then [] else is ++ [.unary .jumpIfFalse distance]

/-- The code behind the body of a `do` loop: the condition and the way back. -/
def returning (is : Asm) : Option Bool → Fragment
  | some true => [.again]
  | some false => []
  | none => ops is ++ [.op (.unary .jumpIfFalse 3), .again]

/-- The jump behind the first branch over the second one, if it is wanted. -/
def skip (wanted : Bool) (distance : Nat) : Asm :=
  if wanted then [.unary .jump distance] else []

/-- Where a statement stands in a piece of code, and what is known of reaching it. -/
structure Extent where
  stmt : Stmt
  /-- It is compiled as a statement that can be reached. -/
  reachable : Bool
  /-- Its end can be reached. -/
  ends : Bool
  start : Nat
  /-- Its code, in which jumps out of the loop around it are not settled. -/
  code : Fragment

def Extent.stop (e : Extent) : Nat := e.start + e.code.size

/-- A statement without its code, at the start of a piece of code. -/
def Extent.dropped (e : Extent) : Extent := { e with start := 0, code := [] }

def behind (n : Nat) (B : List Extent) : List Extent :=
  B.map fun e => { e with start := n + e.start }

def popping (p : Pushed) : Asm := if p.type.isVoid then [] else [.plain .pop]

section

variable (T : Tables) (site : Site)

/-! ## Parts of statements -/

/-- The code that pushes the value of an expression in a type. -/
inductive Evaluates (locals : LocalScope) (e : Expr) (type : ValueType) : Asm → Pushed → Prop
  | intro {is js : Asm} {q p : Pushed} (h : Values T site locals e is q)
      (hc : Coerces T q is type js p) : Evaluates locals e type js p

inductive Tests (locals : LocalScope) (e : Expr) : Asm → Option Bool → Prop
  | known {is : Asm} {p : Pushed} {b : Bool} (h : Evaluates T site locals e .bool is p)
      (hb : p.constant = some (.bool b)) : Tests locals e is (some b)
  | unknown {is : Asm} {p : Pushed} (h : Evaluates T site locals e .bool is p)
      (hb : ∀ b, p.constant ≠ some (.bool b)) : Tests locals e is none

/-- The code of the condition of a loop; without one it always holds. -/
inductive Heads (locals : LocalScope) : Option Expr → Asm → Option Bool → Prop
  | always : Heads locals none [] (some true)
  | tested {e : Expr} {is : Asm} {known : Option Bool} (h : Tests T site locals e is known) :
      Heads locals (some e) is known

/-- The code of an expression whose value is dropped. -/
inductive Acts (locals : LocalScope) (e : Expr) : Asm → Prop
  | intro {is js : Asm} {m : Meaning} {p : Pushed} (h : Means T site locals .discarded e is m)
      (hp : Materializes T m js p) : Acts locals e (is ++ js ++ popping p)

inductive ActsAll (locals : LocalScope) : List Expr → Asm → Prop
  | nil : ActsAll locals [] []
  | cons {e : Expr} {es : List Expr} {is js : Asm} (h : Acts T site locals e is)
      (hs : ActsAll locals es js) : ActsAll locals (e :: es) (is ++ js)

/-- The code that pushes the first value of a variable, and the type of the variable. -/
inductive Begins (locals : LocalScope) (v : Declarator) :
    Option ValueType → Asm → ValueType → Prop
  | given {e : Expr} {type : ValueType} {is : Asm} {p : Pushed} (hv : v.value = some e)
      (h : Evaluates T site locals e type is p) : Begins locals v (some type) is type
  | default {type : ValueType} {is : Asm} (hv : v.value = none) (h : Pushes T type.default is) :
      Begins locals v (some type) is type
  | inferred {e : Expr} {is : Asm} {p : Pushed} (hv : v.value = some e)
      (h : Values T site locals e is p) (hp : p.type.isVoid = false) :
      Begins locals v none is p.type

/-- The code of declarations, each of which stores the first value of a variable. -/
inductive Declares (declared : Option ValueType) :
    List Declarator → LocalScope → Asm → LocalScope → Prop
  | nil {locals : LocalScope} : Declares declared [] locals [] locals
  | cons {v : Declarator} {vs : List Declarator} {locals locals' : LocalScope} {is js : Asm}
      {type : ValueType} (h : Begins T site locals v declared is type)
      (hfree : locals.conflict? v.name.name v.name.span = none)
      (hs : Declares declared vs (locals.add v.name.name type).2 js locals') :
      Declares declared (v :: vs) locals
        (is ++ .unary .setLocal (locals.add v.name.name type).1 :: js) locals'

inductive DeclaresAll (d : VarDecl) (locals : LocalScope) : Asm → LocalScope → Prop
  | intro {declared : Option ValueType} {is : Asm} {locals' : LocalScope}
      (hd : declaredType site d = .ok declared)
      (h : Declares T site declared d.vars locals is locals') : DeclaresAll d locals is locals'

inductive Starts (locals : LocalScope) : Option ForInit → Asm → LocalScope → Prop
  | none : Starts locals none [] locals
  | decl {d : VarDecl} {is : Asm} {locals' : LocalScope} (h : DeclaresAll T site d locals is locals') :
      Starts locals (some (.decl d)) is locals'
  | exprs {es : List Expr} {is : Asm} (h : ActsAll T site locals es is) :
      Starts locals (some (.exprs es)) is locals

/-! ## Statements -/

mutual

/-- The code of a statement that is reached or not, with the locals in front of it and behind it. The
last index lists the statements inside it. -/
inductive Lays : Bool → Stmt → LocalScope → Fragment → LocalScope → Exits → List Extent → Prop
  | block {reachable : Bool} {stmts : List Stmt} {sp : Span} {locals locals' : LocalScope}
      {F : Fragment} {x : Exits} {B : List Extent}
      (h : LaysAll reachable stmts locals.open_ F locals' x B) :
      Lays reachable (.block stmts sp) locals F locals'.close x B
  | decl {reachable : Bool} {d : VarDecl} {locals locals' : LocalScope} {is : Asm}
      (h : DeclaresAll T site d locals is locals') :
      Lays reachable (.decl d) locals (ops is) locals' (.plain reachable) []
  | expr {reachable : Bool} {e : Expr} {sp : Span} {locals : LocalScope} {is : Asm}
      (h : Acts T site locals e is) :
      Lays reachable (.expr e sp) locals (ops is) locals (.plain reachable) []
  | ifThen {reachable : Bool} {cond : Expr} {yes : Stmt} {sp : Span} {locals locals' : LocalScope}
      {is : Asm} {known : Option Bool} {F : Fragment} {x : Exits} {B : List Extent}
      (hc : Tests T site locals cond is known)
      (hy : Nests (reachable && known != some false) yes locals F locals' x B) :
      Lays reachable (.ifElse cond yes none sp) locals
        (ops is ++ .op (.unary .jumpIfFalse F.size) :: F) locals'
        (x.both (.plain false) (x.ends || (reachable && known != some true)))
        (behind (is.size + 3) B)
  | ifElse {reachable : Bool} {cond : Expr} {yes no : Stmt} {sp : Span}
      {locals locals₁ locals₂ : LocalScope} {is : Asm} {known : Option Bool} {F G : Fragment}
      {x y : Exits} {B C : List Extent} (hc : Tests T site locals cond is known)
      (hy : Nests (reachable && known != some false) yes locals F locals₁ x B)
      (hn : Nests (reachable && known != some true) no locals₁ G locals₂ y C) :
      Lays reachable (.ifElse cond yes (some no) sp) locals
        (ops is ++ .op (.unary .jumpIfFalse (F.size + (skip x.ends G.size).size)) ::
          (F ++ ops (skip x.ends G.size)) ++ G) locals₂
        (x.both y (x.ends || y.ends))
        (behind (is.size + 3) (B ++ behind (F.size + (skip x.ends G.size).size) C))
  | whileLoop {reachable : Bool} {cond : Expr} {body : Stmt} {sp : Span}
      {locals locals' : LocalScope} {is : Asm} {known : Option Bool} {F : Fragment} {x : Exits}
      {B : List Extent} (hc : Tests T site locals cond is known)
      (hb : Nests (reachable && known != some false) body locals F locals' x B) :
      Lays reachable (.whileLoop cond body sp) locals
        (ops (closed 0 (ops (heading is known (F.size + 3)) ++ (F ++ [.again])))) locals'
        (.plain (reachable && (known != some true || x.breaks)))
        (behind (heading is known (F.size + 3)).size B)
  | doLoop {reachable : Bool} {cond : Expr} {body : Stmt} {sp : Span}
      {locals locals' : LocalScope} {is : Asm} {known : Option Bool} {F : Fragment} {x : Exits}
      {B : List Extent} (hb : Nests reachable body locals F locals' x B)
      (hc : Tests T site locals' cond is known) :
      Lays reachable (.doLoop body cond sp) locals
        (ops (closed 0 (F.forward ++ returning is known))) locals'
        (.plain (x.breaks || (known != some true && (x.ends || x.continues)))) B
  | forLoop {reachable : Bool} {first : Option ForInit} {cond : Option Expr} {update : List Expr}
      {body : Stmt} {sp : Span} {locals locals₁ locals₂ : LocalScope} {is js ks : Asm}
      {known : Option Bool} {F : Fragment} {x : Exits} {B : List Extent}
      (hs : Starts T site locals.open_ first is locals₁) (hc : Heads T site locals₁ cond js known)
      (hb : Nests (reachable && known != some false) body locals₁ F locals₂ x B)
      (hu : ActsAll T site locals₂ update ks) :
      Lays reachable (.forLoop first cond update body sp) locals
        (ops (is ++ closed 0 (ops (heading js known (F.size + (ks.size + 3))) ++
          (F.forward ++ (ops ks ++ [.again]))))) locals₂.close
        (.plain (reachable && (known != some true || x.breaks)))
        (behind (is.size + (heading js known (F.size + (ks.size + 3))).size) B)
  | ret {reachable : Bool} {e : Expr} {sp : Span} {locals : LocalScope} {is : Asm} {p : Pushed}
      (htype : site.returns.isVoid = false) (h : Evaluates T site locals e site.returns is p) :
      Lays reachable (.ret (some e) sp) locals (ops (is ++ [.plain .ret])) locals (.plain false) []
  | retVoid {reachable : Bool} {sp : Span} {locals : LocalScope}
      (htype : site.returns.isVoid = true) :
      Lays reachable (.ret none sp) locals [.op (.plain .retVoid)] locals (.plain false) []
  | breakLoop {reachable : Bool} {sp : Span} {locals : LocalScope} :
      Lays reachable (.breakLoop sp) locals [.leave] locals ⟨false, reachable, false⟩ []
  | continueLoop {reachable : Bool} {sp : Span} {locals : LocalScope} :
      Lays reachable (.continueLoop sp) locals [.again] locals ⟨false, false, reachable⟩ []
  | empty {reachable : Bool} {sp : Span} {locals : LocalScope} :
      Lays reachable (.empty sp) locals [] locals (.plain reachable) []

/-- The code of a statement inside another one. It is left out in a release if it is not reached. -/
inductive Nests : Bool → Stmt → LocalScope → Fragment → LocalScope → Exits → List Extent → Prop
  | kept {reachable : Bool} {s : Stmt} {locals locals' : LocalScope} {F : Fragment} {x : Exits}
      {B : List Extent} (hlive : reachable = true ∨ site.release = false)
      (h : Lays reachable s locals F locals' x B) :
      Nests reachable s locals F locals' x (⟨s, reachable, x.ends, 0, F⟩ :: B)
  | dropped {s : Stmt} {locals locals' : LocalScope} {F : Fragment} {x : Exits} {B : List Extent}
      (hrelease : site.release = true) (h : Lays false s locals F locals' x B) :
      Nests false s locals [] locals' x (⟨s, false, x.ends, 0, []⟩ :: B.map .dropped)

/-- The code of the statements of a block, of which the first one is reached or not. -/
inductive LaysAll :
    Bool → List Stmt → LocalScope → Fragment → LocalScope → Exits → List Extent → Prop
  | nil {live : Bool} {locals : LocalScope} : LaysAll live [] locals [] locals (.plain live) []
  | cons {live : Bool} {s : Stmt} {ss : List Stmt} {locals locals₁ locals₂ : LocalScope}
      {F G : Fragment} {x y : Exits} {B C : List Extent} (h : Nests live s locals F locals₁ x B)
      (hs : LaysAll x.ends ss locals₁ G locals₂ y C) :
      LaysAll live (s :: ss) locals (F ++ G) locals₂ (x.both y y.ends) (B ++ behind F.size C)

end

end

variable {T : Tables} {site : Site}

mutual

/-- A statement that is not reached is not left either. -/
theorem Lays.dead {s : Stmt} {locals locals' : LocalScope} {F : Fragment} {x : Exits}
    {B : List Extent} : Lays T site false s locals F locals' x B → x = .plain false
  | .block h => h.dead
  | .decl _ | .expr _ | .ret .. | .retVoid _ | .breakLoop | .continueLoop | .empty => rfl
  | .ifThen _ hy => by simp [hy.dead, Exits.both, Exits.plain]
  | .ifElse _ hy hn => by simp [hy.dead, hn.dead, Exits.both, Exits.plain]
  | .whileLoop .. | .forLoop .. => by simp
  | .doLoop hb _ => by simp [hb.dead, Exits.plain]

theorem Nests.dead {s : Stmt} {locals locals' : LocalScope} {F : Fragment} {x : Exits}
    {B : List Extent} : Nests T site false s locals F locals' x B → x = .plain false
  | .kept _ h => h.dead
  | .dropped _ h => h.dead

theorem LaysAll.dead {ss : List Stmt} {locals locals' : LocalScope} {F : Fragment} {x : Exits}
    {B : List Extent} : LaysAll T site false ss locals F locals' x B → x = .plain false
  | .nil => rfl
  | .cons h hs => by
    have hx := h.dead
    subst hx
    simp [hs.dead, Exits.both, Exits.plain]

end

/-! ## Warnings -/

def Extent.Warns (e : Extent) (d : Diagnostic) : Prop :=
  e.reachable = false ∧ d = unreachableCode e.stmt.span

/-- What is reported warns of statements, unless it was reported before. -/
def Noted (before after : List Diagnostic) (B : List Extent) : Prop :=
  ∀ d ∈ after, d ∈ before ∨ ∃ e ∈ B, e.Warns d

namespace Noted

variable {before after later : List Diagnostic} {B C : List Extent}

theorem silent (h : after = before) : Noted before after B := fun _ hd => .inl (h ▸ hd)

theorem trans (h : Noted before after B) (h' : Noted after later C) :
    Noted before later (B ++ C) := by
  intro d hd
  obtain hd | ⟨e, he, hwarns⟩ := h' d hd
  · obtain hd | ⟨e, he, hwarns⟩ := h d hd
    · exact .inl hd
    · exact .inr ⟨e, List.mem_append_left _ he, hwarns⟩
  · exact .inr ⟨e, List.mem_append_right _ he, hwarns⟩

theorem mono (h : Noted before after B) (hBC : ∀ e ∈ B, ∃ e' ∈ C, e'.stmt = e.stmt ∧
    e'.reachable = e.reachable) : Noted before after C := by
  intro d hd
  refine (h d hd).imp id ?_
  rintro ⟨e, he, hreachable, rfl⟩
  obtain ⟨e', he', hstmt, hsame⟩ := hBC e he
  exact ⟨e', he', hsame.trans hreachable, by rw [hstmt]⟩

theorem behind (h : Noted before after B) (n : Nat) : Noted before after (Layout.behind n B) :=
  h.mono fun _ he => ⟨_, List.mem_map_of_mem he, rfl, rfl⟩

theorem dropped (h : Noted before after B) : Noted before after (B.map .dropped) :=
  h.mono fun _ he => ⟨_, List.mem_map_of_mem he, rfl, rfl⟩

theorem cons (h : Noted before after B) (e : Extent) : Noted before after (e :: B) :=
  h.mono fun e he => ⟨e, List.mem_cons_of_mem _ he, rfl, rfl⟩

end Noted

mutual

/-- The warning about a statement goes to one in it that is not reached either. -/
theorem Lays.points {s : Stmt} {locals locals' : LocalScope} {F : Fragment} {x : Exits}
    {B : List Extent} {sp : Span} : Lays T site false s locals F locals' x B →
    firstSpan? s = some sp → s.span = sp ∨ ∃ e ∈ B, e.reachable = false ∧ e.stmt.span = sp
  | .block h, hsp => .inr (h.points (by simpa [firstSpan?] using hsp))
  | .decl _, hsp | .expr _, hsp | .ret .., hsp | .retVoid _, hsp | .breakLoop, hsp
  | .continueLoop, hsp | .ifThen .., hsp | .ifElse .., hsp | .whileLoop .., hsp | .doLoop .., hsp
  | .forLoop .., hsp => .inl (by simpa [firstSpan?] using hsp)
  | .empty, hsp => by simp [firstSpan?] at hsp

theorem Nests.points {s : Stmt} {locals locals' : LocalScope} {F : Fragment} {x : Exits}
    {B : List Extent} {sp : Span} : Nests T site false s locals F locals' x B →
    firstSpan? s = some sp → ∃ e ∈ B, e.reachable = false ∧ e.stmt.span = sp
  | .kept _ h, hsp => by
    obtain hspan | ⟨e, he, hreachable, hspan⟩ := h.points hsp
    · exact ⟨_, List.mem_cons_self, rfl, hspan⟩
    · exact ⟨e, List.mem_cons_of_mem _ he, hreachable, hspan⟩
  | .dropped _ h, hsp => by
    obtain hspan | ⟨e, he, hreachable, hspan⟩ := h.points hsp
    · exact ⟨_, List.mem_cons_self, rfl, hspan⟩
    · exact ⟨_, List.mem_cons_of_mem _ (List.mem_map_of_mem he), hreachable, hspan⟩

theorem LaysAll.points {ss : List Stmt} {locals locals' : LocalScope} {F : Fragment} {x : Exits}
    {B : List Extent} {sp : Span} : LaysAll T site false ss locals F locals' x B →
    firstSpanOf? ss = some sp → ∃ e ∈ B, e.reachable = false ∧ e.stmt.span = sp
  | .nil, hsp => by simp [firstSpanOf?] at hsp
  | .cons (s := s) (B := B) h hs, hsp => by
    have hx := h.dead
    subst hx
    rw [firstSpanOf?] at hsp
    cases hfirst : firstSpan? s with
    | some sp' =>
      rw [hfirst] at hsp
      cases hsp
      obtain ⟨e, he, hreachable, hspan⟩ := h.points hfirst
      exact ⟨e, List.mem_append_left _ he, hreachable, hspan⟩
    | none =>
      rw [hfirst] at hsp
      obtain ⟨e, he, hreachable, hspan⟩ := hs.points hsp
      exact ⟨_, List.mem_append_right _ (List.mem_map_of_mem he), hreachable, hspan⟩

end

end ClassScript.Layout
