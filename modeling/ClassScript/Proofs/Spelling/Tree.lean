import ClassScript.Double.Decimal
import ClassScript.SignedRange
import ClassScript.Token.Lexer
import ClassScript.Tree
import Mathlib.Data.List.Basic

/-!
Trees written back as tokens.

`written` lists what a tree spells in source order. Names, keywords and symbols have one token each.
The tree does not know how a number or a string was spelled nor in which order modifiers stood, so
`Spelled` leaves these open: a literal is spelled by any token that denotes it, a number by a minus
and a token as well, and modifiers by their tokens in any order.
-/

namespace ClassScript

/-! ## Tokens with one spelling -/

def TokenKind.ofText (text : String) : TokenKind :=
  ((ofKeyword? text).or (Lexer.symbols.lookup text.toList)).getD .identifier

def TokenKind.isPlain : TokenKind → Bool
  | intLiteral | longLiteral | doubleLiteral | stringLiteral | eof | error => false
  | _ => true

def TokenKind.text (k : TokenKind) : String :=
  (((keywords.find? (·.2 == k)).map (·.1)).or
    ((Lexer.symbols.find? (·.2 == k)).map fun s => String.ofList s.1)).getD ""

/-- Tokens of this kind are keywords or symbols with this text. -/
structure TokenKind.Writes (k : TokenKind) (text : String) : Prop where
  text : k.text = text
  plain : k.isPlain
  noName : k ≠ .identifier

instance (k : TokenKind) (text : String) : Decidable (k.Writes text) :=
  decidable_of_iff (k.text = text ∧ k.isPlain ∧ k ≠ .identifier)
    ⟨fun h => ⟨h.1, h.2.1, h.2.2⟩, fun h => ⟨h.text, h.plain, h.noName⟩⟩

/-- The token has this text and the kind that goes with it. -/
structure Token.Spells (t : Token) (text : String) : Prop where
  lexeme : t.lexeme = text
  kind : t.kind = TokenKind.ofText text

/-- A keyword or symbol has the text of its kind. -/
theorem TokenKind.text_ofText {text : String} (h : ofText text ≠ .identifier) :
    (ofText text).text = text := by
  have hwords : ∀ p ∈ keywords, p.2.text = p.1 := by decide
  have hsymbols : ∀ p ∈ Lexer.symbols, p.2.text = String.ofList p.1 := by decide
  unfold ofText at h ⊢
  cases hword : ofKeyword? text with
  | some k =>
    obtain ⟨before, after, hsplit, -⟩ := List.lookup_eq_some_iff.mp hword
    exact hwords (text, k) (hsplit ▸ List.mem_append_right _ List.mem_cons_self)
  | none =>
    cases hsymbol : Lexer.symbols.lookup text.toList with
    | some k =>
      obtain ⟨before, after, hsplit, -⟩ := List.lookup_eq_some_iff.mp hsymbol
      have htext := hsymbols (text.toList, k) (hsplit ▸ List.mem_append_right _ List.mem_cons_self)
      exact htext.trans String.ofList_toList
    | none => simp [hword, hsymbol] at h

/-! ## Numbers -/

def Token.magnitude (t : Token) : Nat := Double.digitsValue (t.lexeme.toList.filter Char.isDigit)

/-- The double that a token denotes, its suffix aside. -/
def Token.double? (t : Token) : Option Double :=
  Double.parse? (t.lexeme.toList.filter fun c => c ≠ 'd' ∧ c ≠ 'D')

namespace Literal

/-- The literal of the integer `n` from a token of this kind. Without a suffix it is a `long` only if
it does not fit into an `int`. -/
inductive IsInteger (kind : TokenKind) (n : Int) : Literal → Prop
  | int {m : Int32} (hkind : kind = .intLiteral) (hvalue : m.toInt = n) : IsInteger kind n (.int m)
  | long {m : Int64} (hkind : kind = .longLiteral ∨ kind = .intLiteral ∧ fitsSigned 32 n = false)
      (hvalue : m.toInt = n) : IsInteger kind n (.long m)

/-- Tokens that denote a literal. A minus before an integer belongs to it, be it that of a zero, which
alone denotes the same number with and without. -/
inductive Spelled : Literal → List Token → Prop
  | integer {l : Literal} {t : Token} (h : IsInteger t.kind t.magnitude l) : Spelled l [t]
  | negative {l : Literal} {minus t : Token} (hminus : minus.Spells "-")
      (h : IsInteger t.kind (-t.magnitude) l) : Spelled l [minus, t]
  | real {d : Double} {t : Token} (hkind : t.kind = .doubleLiteral) (hvalue : t.double? = some d) :
      Spelled (.double d) [t]
  | bool {b : Bool} {t : Token} (h : t.Spells (if b then "true" else "false")) : Spelled (.bool b) [t]
  | string {x : String} {t : Token} (hkind : t.kind = .stringLiteral) (hvalue : t.lexeme = x) :
      Spelled (.string x) [t]

end Literal

/-! ## Glyphs -/

/-- The modifiers that are there, in one order. -/
def Modifiers.texts (m : Modifiers) : List String :=
  m.visibility.toList.map (·.name) ++ (if m.isStatic then ["static"] else []) ++
    (if m.isReadonly then ["readonly"] else [])

inductive Glyph where
  /-- A name, a keyword or a symbol. -/
  | text (text : String)
  | literal (value : Literal)
  | modifiers (m : Modifiers)

inductive Glyph.Spelled : Glyph → List Token → Prop
  | text {text : String} {t : Token} (h : t.Spells text) : Spelled (.text text) [t]
  | literal {l : Literal} {ts : List Token} (h : l.Spelled ts) : Spelled (.literal l) ts
  | modifiers {m : Modifiers} {ts : List Token} (horder : (ts.map (·.lexeme)).Perm m.texts)
      (h : ∀ t ∈ ts, t.Spells t.lexeme) : Spelled (.modifiers m) ts

inductive Spelled : List Glyph → List Token → Prop
  | nil : Spelled [] []
  | cons {g : Glyph} {gs : List Glyph} {ts ts' : List Token} (head : g.Spelled ts)
      (tail : Spelled gs ts') : Spelled (g :: gs) (ts ++ ts')

namespace Spelled

variable {g : Glyph} {gs gs' : List Glyph} {ts ts' : List Token}

theorem append (h : Spelled gs ts) (h' : Spelled gs' ts') : Spelled (gs ++ gs') (ts ++ ts') := by
  induction h with
  | nil => exact h'
  | cons head tail ih => simpa only [List.cons_append, List.append_assoc] using cons head ih

theorem singleton (h : g.Spelled ts) : Spelled [g] ts := by
  simpa only [List.append_nil] using cons h nil

theorem text {t : Token} {text : String} (h : t.Spells text) : Spelled [.text text] [t] :=
  singleton (.text h)

end Spelled

/-! ## Trees -/

def separated {α : Type} (mark : String) (write : α → List Glyph) : List α → List Glyph
  | [] => []
  | a :: as => write a ++ as.flatMap fun b => .text mark :: write b

def optional {α : Type} (write : α → List Glyph) : Option α → List Glyph
  | none => []
  | some a => write a

def Ident.written (i : Ident) : List Glyph := [.text i.name]

def TypeExpr.written (t : TypeExpr) : List Glyph :=
  match t.kind with
  | .keyword type => [.text type.name]
  | .inferred => [.text "var"]
  | .named path => separated "." Ident.written path

namespace Expr

mutual

def written : Expr → List Glyph
  | literal value _ => [.literal value]
  | ident name => name.written
  | this _ => [.text "this"]
  | binary op left right _ => left.written ++ .text op.spelling :: right.written
  | unary op operand _ => .text op.spelling :: operand.written
  | post op operand _ => operand.written ++ [.text op.spelling]
  | assign op target value _ => target.written ++ .text op.spelling :: value.written
  | conditional c yes no _ =>
    c.written ++ .text "?" :: (yes.written ++ .text ":" :: no.written)
  | call callee args _ => callee.written ++ .text "(" :: (listed args ++ [.text ")"])
  | member object name _ => object.written ++ .text "." :: name.written
  | paren inner _ => .text "(" :: (inner.written ++ [.text ")"])

def listed : List Expr → List Glyph
  | [] => []
  | e :: es => e.written ++ continued es

def continued : List Expr → List Glyph
  | [] => []
  | e :: es => .text "," :: (e.written ++ continued es)

end

end Expr

def Declarator.written (d : Declarator) : List Glyph :=
  d.name.written ++ optional (fun e => .text "=" :: e.written) d.value

def VarDecl.written (d : VarDecl) : List Glyph :=
  d.type.written ++ separated "," Declarator.written d.vars

def ForInit.written : ForInit → List Glyph
  | decl d => d.written
  | exprs es => separated "," Expr.written es

namespace Stmt

mutual

def written : Stmt → List Glyph
  | block stmts _ => .text "\x7b" :: (listed stmts ++ [.text "\x7d"])
  | decl d => d.written ++ [.text ";"]
  | expr e _ => e.written ++ [.text ";"]
  | ifElse c yes no _ =>
    .text "if" :: .text "(" :: (c.written ++ .text ")" :: (yes.written ++ otherwise no))
  | whileLoop c body _ => .text "while" :: .text "(" :: (c.written ++ .text ")" :: body.written)
  | doLoop body c _ =>
    .text "do" :: (body.written ++
      .text "while" :: .text "(" :: (c.written ++ [.text ")", .text ";"]))
  | forLoop start c update body _ =>
    .text "for" :: .text "(" :: (optional ForInit.written start ++
      .text ";" :: (optional Expr.written c ++
        .text ";" :: (separated "," Expr.written update ++ .text ")" :: body.written)))
  | ret value _ => .text "return" :: (optional Expr.written value ++ [.text ";"])
  | breakLoop _ => [.text "break", .text ";"]
  | continueLoop _ => [.text "continue", .text ";"]
  | empty _ => [.text ";"]

def listed : List Stmt → List Glyph
  | [] => []
  | s :: ss => s.written ++ listed ss

def otherwise : Option Stmt → List Glyph
  | none => []
  | some s => .text "else" :: s.written

end

end Stmt

def Param.written (p : Param) : List Glyph := p.type.written ++ p.name.written

def Param.listed (ps : List Param) : List Glyph :=
  .text "(" :: (separated "," Param.written ps ++ [.text ")"])

def Body.written : Body → List Glyph
  | block stmts _ => .text "\x7b" :: (stmts.flatMap Stmt.written ++ [.text "\x7d"])
  | arrow e => .text "=>" :: (e.written ++ [.text ";"])

def Member.written : Member → List Glyph
  | field m type vars _ =>
    .modifiers m :: (type.written ++ separated "," Declarator.written vars ++ [.text ";"])
  | method m returns name params body _ =>
    .modifiers m :: (returns.written ++ name.written ++ Param.listed params ++ body.written)
  | constructor m name params body _ =>
    .modifiers m :: (name.written ++ Param.listed params ++ body.written)

def ClassDecl.written (c : ClassDecl) : List Glyph :=
  .modifiers c.modifiers :: .text "class" :: (c.name.written ++
    .text "\x7b" :: (c.members.flatMap Member.written ++ [.text "\x7d"]))

def UsingDirective.written (u : UsingDirective) : List Glyph :=
  .text "using" :: (separated "." Ident.written u.path ++ [.text ";"])

namespace Item

mutual

def written : Item → List Glyph
  | scope path usings items fileScoped _ =>
    .text "namespace" :: (separated "." Ident.written path ++
      if fileScoped then .text ";" :: (usings.flatMap UsingDirective.written ++ listed items)
      else .text "\x7b" :: (usings.flatMap UsingDirective.written ++ listed items ++ [.text "\x7d"]))
  | type decl => decl.written

def listed : List Item → List Glyph
  | [] => []
  | item :: items => item.written ++ listed items

end

end Item

/-- A script in source order. -/
def Script.written (s : Script) : List Glyph :=
  s.usings.flatMap UsingDirective.written ++ s.items.flatMap Item.written

end ClassScript
