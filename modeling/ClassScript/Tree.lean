import ClassScript.Operator
import ClassScript.Value
import ClassScript.Visibility

/-!
The syntax tree: what a source text spells, with the place of every part.
-/

namespace ClassScript

structure Ident where
  name : String
  span : Span
deriving DecidableEq, Inhabited

/-- A path of names with points between them. -/
def dottedText (path : List Ident) : String := ".".intercalate (path.map (·.name))

/-! ## Types and expressions -/

inductive TypeKind where
  | keyword (type : ValueType)
  /-- The type of the initializer. -/
  | inferred
  | named (path : List Ident)
deriving DecidableEq, Inhabited

structure TypeExpr where
  kind : TypeKind
  span : Span
deriving DecidableEq, Inhabited

/-- A type as it is written. -/
def TypeExpr.text (t : TypeExpr) : String :=
  match t.kind with
  | .keyword type => type.name
  | .inferred => "var"
  | .named path => dottedText path

inductive Literal where
  | int (n : Int32)
  | long (n : Int64)
  | double (d : Double)
  | bool (b : Bool)
  | string (s : String)
deriving DecidableEq, Inhabited

def Literal.value : Literal → Value
  | int n => .int n
  | long n => .long n
  | double d => .double d
  | bool b => .bool b
  | string s => .string s

inductive Expr where
  | literal (value : Literal) (span : Span)
  | ident (name : Ident)
  | this (span : Span)
  | binary (op : BinaryOp) (left right : Expr) (span : Span)
  | unary (op : UnaryOp) (operand : Expr) (span : Span)
  | post (op : PostfixOp) (operand : Expr) (span : Span)
  | assign (op : AssignOp) (target value : Expr) (span : Span)
  | conditional (condition yes no : Expr) (span : Span)
  | call (callee : Expr) (args : List Expr) (span : Span)
  | member (object : Expr) (name : Ident) (span : Span)
  | paren (inner : Expr) (span : Span)
deriving Inhabited

namespace Expr

def span : Expr → Span
  | ident name => name.span
  | literal _ s | this s | binary _ _ _ s | unary _ _ s | post _ _ s | assign _ _ _ s
  | conditional _ _ _ s | call _ _ s | member _ _ s | paren _ s => s

/-- The expression inside all parentheses around it. -/
def bare : Expr → Expr
  | paren inner _ => inner.bare
  | e => e

/-- The path that an expression spells if it holds only names and member accesses. -/
def path? : Expr → Option (List Ident)
  | ident name => some [name]
  | member object name _ => object.path?.map (· ++ [name])
  | _ => none

end Expr

/-! ## Statements -/

/-- A name that is declared, and its initializer. -/
structure Declarator where
  name : Ident
  value : Option Expr
  span : Span
deriving Inhabited

/-- Names declared with one type. -/
structure VarDecl where
  type : TypeExpr
  vars : List Declarator
  span : Span
deriving Inhabited

inductive ForInit where
  | decl (decl : VarDecl)
  | exprs (exprs : List Expr)
deriving Inhabited

inductive Stmt where
  | block (stmts : List Stmt) (span : Span)
  | decl (decl : VarDecl)
  | expr (expr : Expr) (span : Span)
  | ifElse (condition : Expr) (yes : Stmt) (no : Option Stmt) (span : Span)
  | whileLoop (condition : Expr) (body : Stmt) (span : Span)
  | doLoop (body : Stmt) (condition : Expr) (span : Span)
  | forLoop (start : Option ForInit) (condition : Option Expr) (update : List Expr) (body : Stmt)
      (span : Span)
  | ret (value : Option Expr) (span : Span)
  | breakLoop (span : Span)
  | continueLoop (span : Span)
  | empty (span : Span)
deriving Inhabited

def Stmt.span : Stmt → Span
  | decl d => d.span
  | block _ s | expr _ s | ifElse _ _ _ s | whileLoop _ _ s | doLoop _ _ s | forLoop _ _ _ _ s
  | ret _ s | breakLoop s | continueLoop s | empty s => s

/-! ## Declarations -/

/-- What is written in front of a declaration. -/
structure Modifiers where
  visibility : Option Visibility
  isStatic : Bool
  isReadonly : Bool
  span : Span
deriving DecidableEq, Inhabited

structure Param where
  type : TypeExpr
  name : Ident
  span : Span
deriving DecidableEq, Inhabited

inductive Body where
  | block (stmts : List Stmt) (span : Span)
  /-- `=> expr;` -/
  | arrow (expr : Expr)
deriving Inhabited

def Body.span : Body → Span
  | block _ s => s
  | arrow e => e.span

inductive Member where
  | field (modifiers : Modifiers) (type : TypeExpr) (vars : List Declarator) (span : Span)
  | method (modifiers : Modifiers) (returns : TypeExpr) (name : Ident) (params : List Param)
      (body : Body) (span : Span)
  | constructor (modifiers : Modifiers) (name : Ident) (params : List Param) (body : Body)
      (span : Span)
deriving Inhabited

structure ClassDecl where
  modifiers : Modifiers
  name : Ident
  members : List Member
  span : Span
deriving Inhabited

structure UsingDirective where
  path : List Ident
  span : Span
deriving DecidableEq, Inhabited

inductive Item where
  | scope (path : List Ident) (usings : List UsingDirective) (items : List Item)
      (fileScoped : Bool) (span : Span)
  | type (decl : ClassDecl)
deriving Inhabited

structure Script where
  usings : List UsingDirective
  items : List Item
  span : Span
deriving Inhabited

/-- A class of a script with the namespace around it and the usings in scope, outermost first. -/
structure PlacedClass where
  space : List Ident
  usings : List UsingDirective
  decl : ClassDecl
deriving Inhabited

namespace Item

mutual

/-- The classes of an item, in source order. -/
def classes (space : List Ident) (usings : List UsingDirective) : Item → List PlacedClass
  | .type decl => [⟨space, usings, decl⟩]
  | .scope path inner items _ _ => classesOf (space ++ path) (usings ++ inner) items

def classesOf (space : List Ident) (usings : List UsingDirective) : List Item → List PlacedClass
  | [] => []
  | item :: items => classes space usings item ++ classesOf space usings items

end

end Item

def Script.classes (s : Script) : List PlacedClass := Item.classesOf [] s.usings s.items

end ClassScript
