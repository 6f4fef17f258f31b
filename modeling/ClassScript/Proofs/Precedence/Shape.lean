import ClassScript.Proofs.Nesting
import ClassScript.Proofs.Spelling.Tree
import Mathlib.Data.List.Forall2

/-!
The grammar of expressions, as a property of trees.

A tree is well shaped if every operator got the operands that the powers of the operators around it
leave to it: the operators at the left edge of a right operand bind at least as the operator asks for,
and those at the right edge of a left operand hold on to what they have. `Written` spells a tree and
settles which minus belongs to a number.
-/

namespace ClassScript

/-! ## Edges -/

namespace Expr

/-- The powers of a node that is an infix operator with its operands. -/
def powers? : Expr → Option (Nat × Nat)
  | binary op .. => some op.power
  | assign .. => some AssignOp.power
  | conditional .. => some conditionalPower
  | _ => none

/-- The nodes that begin where the expression begins. -/
def leftEdge : Expr → List Expr
  | binary op l r sp => binary op l r sp :: l.leftEdge
  | assign op t v sp => assign op t v sp :: t.leftEdge
  | conditional c y n sp => conditional c y n sp :: c.leftEdge
  | post op o sp => post op o sp :: o.leftEdge
  | call c args sp => call c args sp :: c.leftEdge
  | member o n sp => member o n sp :: o.leftEdge
  | e => [e]

/-- The nodes that end where the expression ends. -/
def rightEdge : Expr → List Expr
  | binary op l r sp => binary op l r sp :: r.rightEdge
  | assign op t v sp => assign op t v sp :: v.rightEdge
  | conditional c y n sp => conditional c y n sp :: n.rightEdge
  | unary op o sp => unary op o sp :: o.rightEdge
  | e => [e]

/-- The infix operators at the left edge bind at least with this power. -/
def LeftBinds (power : Nat) (e : Expr) : Prop :=
  ∀ x ∈ e.leftEdge, ∀ p, x.powers? = some p → power ≤ p.1

/-- The infix operators at the right edge do not give up their right operand to an operator of this
power. -/
def RightBinds (power : Nat) (e : Expr) : Prop :=
  ∀ x ∈ e.rightEdge, ∀ p, x.powers? = some p → power < p.2

/-- A literal, a name, `this`, a parenthesis, or what has an access, a call or a step at its end. -/
def isPostfix : Expr → Bool
  | literal .. | ident _ | this _ | post .. | call .. | member .. | paren .. => true
  | _ => false

end Expr

/-- The name of a type other than `void`, which can stand for its class. -/
structure Ident.IsTypeName (i : Ident) : Prop where
  isType : (TokenKind.ofText i.name).isType
  noVoid : TokenKind.ofText i.name ≠ .kwVoid

def Ident.IsName (i : Ident) : Prop := TokenKind.ofText i.name = .identifier

/-! ## Shapes -/

namespace Expr

/-- Every operator has the operands that the operators around it leave to it. -/
inductive WellShaped : Expr → Prop
  | literal {l : Literal} {sp : Span} : WellShaped (.literal l sp)
  | ident {i : Ident} (hname : i.IsName) : WellShaped (.ident i)
  | this {sp : Span} : WellShaped (.this sp)
  | paren {e : Expr} {sp : Span} (he : WellShaped e) : WellShaped (.paren e sp)
  | binary {op : BinaryOp} {l r : Expr} {sp : Span} (hl : WellShaped l) (hr : WellShaped r)
      (hleft : l.RightBinds op.power.1) (hright : r.LeftBinds op.power.2) :
      WellShaped (.binary op l r sp)
  | assign {op : AssignOp} {t v : Expr} {sp : Span} (ht : WellShaped t) (hv : WellShaped v)
      (hleft : t.RightBinds AssignOp.power.1) (hright : v.LeftBinds AssignOp.power.2) :
      WellShaped (.assign op t v sp)
  /-- Between the mark and the colon any expression stands. -/
  | conditional {c y n : Expr} {sp : Span} (hc : WellShaped c) (hy : WellShaped y)
      (hn : WellShaped n) (hleft : c.RightBinds conditionalPower.1)
      (hright : n.LeftBinds conditionalPower.2) : WellShaped (.conditional c y n sp)
  | unary {op : UnaryOp} {e : Expr} {sp : Span} (he : WellShaped e) (hoperand : e.powers? = none) :
      WellShaped (.unary op e sp)
  | post {op : PostfixOp} {e : Expr} {sp : Span} (he : WellShaped e) (hobject : e.isPostfix) :
      WellShaped (.post op e sp)
  | call {e : Expr} {args : List Expr} {sp : Span} (he : WellShaped e) (hobject : e.isPostfix)
      (hargs : ∀ a ∈ args, WellShaped a) : WellShaped (.call e args sp)
  | member {e : Expr} {i : Ident} {sp : Span} (he : WellShaped e) (hobject : e.isPostfix)
      (hname : i.IsName) : WellShaped (.member e i sp)
  /-- The keyword of a type stands only where a member is taken from it. -/
  | typeMember {t i : Ident} {sp : Span} (htype : t.IsTypeName) (hname : i.IsName) :
      WellShaped (.member (.ident t) i sp)

end Expr

/-! ## Tokens -/

/-- The kind of the first of some tokens; behind the last one is the end of the source. -/
def nextKind (ts : List Token) : TokenKind := (ts.head?.map (·.kind)).getD .eof

def TokenKind.isInteger : TokenKind → Bool
  | intLiteral | longLiteral => true
  | _ => false

/-- A number, with its minus, of which no member may be taken. -/
def SignedNumber (ts : List Token) : Prop :=
  ∃ minus t, ts = [minus, t] ∧ t.kind.isInteger

/-- A number begins here, of which no member is taken. -/
def BeginsWithNumber (ts : List Token) : Prop :=
  (nextKind ts).isInteger ∧ nextKind (ts.drop 1) ≠ .dot

inductive Continued : List (List Token) → List Token → Prop
  | nil : Continued [] []
  | cons {comma : Token} {ts us : List Token} {tss : List (List Token)} (hcomma : comma.Spells ",")
      (rest : Continued tss us) : Continued (ts :: tss) (comma :: (ts ++ us))

inductive Listed : List (List Token) → List Token → Prop
  | nil : Listed [] []
  | cons {ts us : List Token} {tss : List (List Token)} (rest : Continued tss us) :
      Listed (ts :: tss) (ts ++ us)

namespace Expr

/-- The tokens that an expression is written as. A minus right before an integer of which no member is
taken belongs to the number, any other one is an operator. -/
inductive Written : Expr → List Token → Prop
  | literal {l : Literal} {sp : Span} {ts : List Token} (h : l.Spelled ts) :
      Written (.literal l sp) ts
  | ident {i : Ident} {t : Token} (h : t.Spells i.name) : Written (.ident i) [t]
  | this {sp : Span} {t : Token} (h : t.Spells "this") : Written (.this sp) [t]
  | paren {e : Expr} {sp : Span} {left right : Token} {ts : List Token} (hleft : left.Spells "(")
      (he : Written e ts) (hright : right.Spells ")") :
      Written (.paren e sp) (left :: (ts ++ [right]))
  | binary {op : BinaryOp} {l r : Expr} {sp : Span} {t : Token} {ts us : List Token}
      (hl : Written l ts) (ht : t.Spells op.spelling) (hr : Written r us) :
      Written (.binary op l r sp) (ts ++ t :: us)
  | assign {op : AssignOp} {l r : Expr} {sp : Span} {t : Token} {ts us : List Token}
      (hl : Written l ts) (ht : t.Spells op.spelling) (hr : Written r us) :
      Written (.assign op l r sp) (ts ++ t :: us)
  | conditional {c y n : Expr} {sp : Span} {mark colon : Token} {ts us vs : List Token}
      (hc : Written c ts) (hmark : mark.Spells "?") (hy : Written y us) (hcolon : colon.Spells ":")
      (hn : Written n vs) : Written (.conditional c y n sp) (ts ++ mark :: (us ++ colon :: vs))
  | unary {op : UnaryOp} {e : Expr} {sp : Span} {t : Token} {ts : List Token}
      (ht : t.Spells op.spelling) (he : Written e ts)
      (hminus : op = .neg → ¬BeginsWithNumber ts) : Written (.unary op e sp) (t :: ts)
  | post {op : PostfixOp} {e : Expr} {sp : Span} {t : Token} {ts : List Token} (he : Written e ts)
      (ht : t.Spells op.spelling) : Written (.post op e sp) (ts ++ [t])
  | call {e : Expr} {args : List Expr} {sp : Span} {left right : Token} {ts us : List Token}
      {tss : List (List Token)} (he : Written e ts) (hleft : left.Spells "(")
      (hlength : args.length = tss.length)
      (hargs : ∀ a us, (a, us) ∈ args.zip tss → Written a us) (hlisted : Listed tss us)
      (hright : right.Spells ")") : Written (.call e args sp) (ts ++ left :: (us ++ [right]))
  | member {e : Expr} {i : Ident} {sp : Span} {dot t : Token} {ts : List Token} (he : Written e ts)
      (hsigned : ¬SignedNumber ts) (hdot : dot.Spells ".") (ht : t.Spells i.name) :
      Written (.member e i sp) (ts ++ [dot, t])

end Expr

/-! ## What comes next -/

namespace TokenKind

def powers? (k : TokenKind) : Option (Nat × Nat) :=
  match AssignOp.ofToken? k, BinaryOp.ofToken? k with
  | some _, _ => some AssignOp.power
  | none, some op => some op.power
  | none, none => if k = .question then some conditionalPower else none

/-- An access, a call or a step begins with such a token. -/
def isSuffix (k : TokenKind) : Bool :=
  k == .dot || k == .leftParen || (PostfixOp.ofToken? k).isSome

/-- An expression whose operators bind at least with `power` does not go on with such a token. -/
structure Ends (power : Nat) (next : TokenKind) : Prop where
  suffix : next.isSuffix = false
  weaker : ∀ p, next.powers? = some p → p.1 < power

/-- No expression goes on with such a token. -/
structure Closes (k : TokenKind) : Prop where
  suffix : k.isSuffix = false
  powers : k.powers? = none

instance (k : TokenKind) : Decidable k.Closes :=
  decidable_of_iff (k.isSuffix = false ∧ k.powers? = none)
    ⟨fun h => ⟨h.1, h.2⟩, fun h => ⟨h.suffix, h.powers⟩⟩

end TokenKind

/-- An expression whose operators bind at least with `power`, and its tokens, in front of a token that
no part of it goes on with. -/
structure Expr.Reading (power : Nat) (e : Expr) (ts : List Token) (next : TokenKind) : Prop where
  written : e.Written ts
  shaped : e.WellShaped
  left : e.LeftBinds power
  right : ∀ p, next.powers? = some p → e.RightBinds p.1
  ends : next.Ends power

theorem TokenKind.Ends.ne_dot {power : Nat} {next : TokenKind} (h : next.Ends power) :
    next ≠ .dot := by
  intro hdot
  have hsuffix := h.suffix
  rw [hdot] at hsuffix
  cases hsuffix

theorem TokenKind.powers?_lt {k : TokenKind} {p : Nat × Nat} (h : k.powers? = some p) :
    p.1 < UnaryOp.power := by
  have hall : ∀ q ∈ k.powers?, q.1 < UnaryOp.power := by
    cases k <;> simp [powers?, AssignOp.ofToken?, BinaryOp.ofToken?, BinaryOp.power, AssignOp.power,
      conditionalPower, UnaryOp.power]
  exact hall p h

/-! ## Numbers -/

theorem TokenKind.isInteger_iff {k : TokenKind} :
    k.isInteger ↔ k = .intLiteral ∨ k = .longLiteral := by
  cases k <;> simp [isInteger]

theorem nextKind_append {ts : List Token} (us : List Token) (hts : ts ≠ []) :
    nextKind (ts ++ us) = nextKind ts := by
  cases ts with
  | nil => exact absurd rfl hts
  | cons t ts => rfl

/-- Where no dot follows, a number begins whatever follows. -/
theorem beginsWithNumber_append {ts rest : List Token} (hts : ts ≠ []) (hrest : nextKind rest ≠ .dot) :
    BeginsWithNumber (ts ++ rest) ↔ BeginsWithNumber ts := by
  unfold BeginsWithNumber
  obtain _ | ⟨t, _ | ⟨u, ts⟩⟩ := ts
  · exact absurd rfl hts
  · exact and_congr_right fun _ => iff_of_true hrest nofun
  · exact Iff.rfl

/-! ## Edges of operands -/

namespace Expr

variable {e : Expr} {ts : List Token}

theorem powers?_of_isPostfix (h : e.isPostfix) : e.powers? = none := by
  cases e <;> first | rfl | cases h

theorem WellShaped.leftEdge (h : e.WellShaped) (he : e.powers? = none) :
    ∀ x ∈ e.leftEdge, x.powers? = none := by
  induction h with
  | literal | ident | this | paren | unary =>
    intro x hx
    obtain rfl := List.mem_singleton.mp hx
    exact he
  | binary | assign | conditional => cases he
  | typeMember =>
    intro x hx
    simp only [Expr.leftEdge, List.mem_cons, List.not_mem_nil, or_false] at hx
    obtain rfl | rfl := hx <;> rfl
  | post _ hobject ih | call _ hobject _ ih | member _ hobject _ ih =>
    intro x hx
    obtain rfl | hx := List.mem_cons.mp hx
    · rfl
    · exact ih (powers?_of_isPostfix hobject) x hx

theorem WellShaped.rightEdge (h : e.WellShaped) (he : e.powers? = none) :
    ∀ x ∈ e.rightEdge, x.powers? = none := by
  induction h with
  | literal | ident | this | paren | post | call | member | typeMember =>
    intro x hx
    obtain rfl := List.mem_singleton.mp hx
    exact he
  | binary | assign | conditional => cases he
  | unary _ hoperand ih =>
    intro x hx
    obtain rfl | hx := List.mem_cons.mp hx
    · rfl
    · exact ih hoperand x hx

/-- What is no infix operator has none at its edges. -/
theorem WellShaped.binds (h : e.WellShaped) (he : e.powers? = none) (power : Nat) :
    e.LeftBinds power ∧ e.RightBinds power := by
  constructor
  · intro x hx p hp
    rw [h.leftEdge he x hx] at hp
    cases hp
  · intro x hx p hp
    rw [h.rightEdge he x hx] at hp
    cases hp

/-- Operands of operators in front are no infix operators. -/
theorem powers?_of_leftBinds (h : e.LeftBinds UnaryOp.power) : e.powers? = none := by
  have hself : e ∈ e.leftEdge := by cases e <;> simp [Expr.leftEdge]
  cases e with
  | binary op l r sp =>
    have := h _ hself _ rfl
    cases op <;> exact absurd this (by decide)
  | assign => exact absurd (h _ hself _ rfl) (by decide)
  | conditional => exact absurd (h _ hself _ rfl) (by decide)
  | _ => rfl

theorem Written.ne_nil (h : e.Written ts) : ts ≠ [] := by
  induction h with
  | literal h => cases h <;> simp
  | _ => simp

end Expr

/-! ## Edges of operators -/

namespace Expr

variable {power : Nat} {e l r : Expr} {ts : List Token} {p : Nat × Nat} {next : TokenKind}

/-- An operator that binds at least with `power`, between operands that its powers leave to it. -/
theorem LeftBinds.over (hl : l.LeftBinds power) (hp : e.powers? = some p) (hpower : power ≤ p.1)
    (hedge : e.leftEdge = e :: l.leftEdge) : e.LeftBinds power := by
  intro x hx p' hp'
  rw [hedge] at hx
  obtain rfl | hx := List.mem_cons.mp hx
  · rw [hp] at hp'
    cases hp'
    exact hpower
  · exact hl x hx p' hp'

theorem Reading.rightBinds (hr : r.Reading p.2 ts next) (hp : e.powers? = some p)
    (hedge : e.rightEdge = e :: r.rightEdge) (p' : Nat × Nat) (hnext : next.powers? = some p') :
    e.RightBinds p'.1 := by
  intro x hx q hq
  rw [hedge] at hx
  obtain rfl | hx := List.mem_cons.mp hx
  · rw [hp] at hq
    cases hq
    exact hr.ends.weaker p' hnext
  · exact hr.right p' hnext x hx q hq

/-- No expression begins with a closing parenthesis. -/
theorem WellShaped.begins (h : e.WellShaped) (hwritten : e.Written ts) :
    nextKind ts ≠ .rightParen := by
  have hspells {t : Token} {text : String} {us : List Token} (ht : t.Spells text)
      (htext : TokenKind.ofText text ≠ .rightParen) : nextKind (t :: us) ≠ .rightParen := by
    show t.kind ≠ .rightParen
    rwa [ht.kind]
  induction h generalizing ts with
  | literal =>
    cases hwritten with
    | literal h =>
      cases h with
      | integer h =>
        cases h with
        | int hkind => simp [nextKind, hkind]
        | long hkind => obtain hkind | ⟨hkind, -⟩ := hkind <;> simp [nextKind, hkind]
      | negative hminus => exact hspells hminus (by decide)
      | real hkind | string hkind => simp [nextKind, hkind]
      | @bool b _ h => exact hspells h (by cases b <;> decide)
  | ident hname =>
    cases hwritten with
    | ident h => exact hspells h (by rw [hname]; decide)
  | this =>
    cases hwritten with
    | this h => exact hspells h (by decide)
  | paren =>
    cases hwritten with
    | paren hleft => exact hspells hleft (by decide)
  | @unary op =>
    cases hwritten with
    | unary ht => exact hspells ht (by cases op <;> decide)
  | binary _ _ _ _ ih | assign _ _ _ _ ih | conditional _ _ _ _ _ ih | post _ _ ih | call _ _ _ ih
    | member _ _ _ ih =>
    cases hwritten with
    | _ => 
      rw [nextKind_append _ (Written.ne_nil ‹_›)]
      exact ih ‹_›
  | typeMember htype =>
    cases hwritten with
    | member h =>
      cases h with
      | ident h =>
        refine hspells h fun hparen => ?_
        have := htype.isType
        rw [hparen] at this
        cases this

/-- Alone, an expression may have any operators. -/
theorem Written.reading (h : e.Written ts) (hshaped : e.WellShaped) (hnext : next.Closes) :
    e.Reading 0 ts next where
  written := h
  shaped := hshaped
  left := fun _ _ p _ => Nat.zero_le p.1
  right := by simp [hnext.powers]
  ends := ⟨hnext.suffix, by simp [hnext.powers]⟩

end Expr

/-! ## Writing -/

theorem Continued.snoc {tss : List (List Token)} {us ts : List Token} {comma : Token}
    (h : Continued tss us) (hcomma : comma.Spells ",") :
    Continued (tss ++ [ts]) (us ++ comma :: ts) := by
  induction h with
  | nil => simpa using Continued.cons hcomma .nil
  | cons hfirst _ ih => simpa using Continued.cons hfirst ih

theorem Continued.spelled {es : List Expr} {tss : List (List Token)} {us : List Token}
    (h : Continued tss us)
    (hes : List.Forall₂ (fun e ts => Spelled e.written ts) es tss) :
    Spelled (Expr.continued es) us := by
  induction h generalizing es with
  | nil =>
    cases hes
    exact .nil
  | cons hcomma _ ih =>
    cases hes with
    | cons he hes =>
      rw [Expr.continued, ← List.singleton_append]
      exact (Spelled.text hcomma).append (he.append (ih hes))

theorem Listed.spelled {es : List Expr} {tss : List (List Token)} {us : List Token}
    (h : Listed tss us) (hes : List.Forall₂ (fun e ts => Spelled e.written ts) es tss) :
    Spelled (Expr.listed es) us := by
  cases h with
  | nil =>
    cases hes
    exact .nil
  | cons rest =>
    cases hes with
    | cons he hes => exact he.append (rest.spelled hes)

/-- Trees are written as the tokens that they spell. -/
theorem Expr.Written.spelled {e : Expr} {ts : List Token} (h : e.Written ts) :
    Spelled e.written ts := by
  induction h with
  | literal h => exact .singleton (.literal h)
  | ident h => exact .text h
  | this h => exact .text h
  | paren hleft _ hright ih =>
    rw [Expr.written, ← List.singleton_append]
    exact (Spelled.text hleft).append (ih.append (.text hright))
  | binary _ ht _ ihl ihr | assign _ ht _ ihl ihr =>
    exact ihl.append ((Spelled.text ht).append ihr)
  | conditional _ hmark _ hcolon _ ihc ihy ihn =>
    exact ihc.append ((Spelled.text hmark).append (ihy.append ((Spelled.text hcolon).append ihn)))
  | unary ht _ _ ih => exact (Spelled.text ht).append ih
  | post _ ht ih => exact ih.append (.text ht)
  | call _ hleft hlength _ hlisted hright ih ihargs =>
    have hargs := hlisted.spelled
      (List.forall₂_iff_zip.mpr ⟨hlength, fun {a us} hmem => ihargs a us hmem⟩)
    exact ih.append ((Spelled.text hleft).append (hargs.append (.text hright)))
  | member _ _ hdot ht ih => exact ih.append ((Spelled.text hdot).append (.text ht))

end ClassScript
