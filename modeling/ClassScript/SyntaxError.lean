import ClassScript.Diagnostic
import ClassScript.Text.Search
import ClassScript.Token

/-!
Syntax errors: what is wrong, where, and how it is reported.
-/

namespace ClassScript

/-- What a source text does wrong. Tokens that were found are kept as they are described. -/
inductive SyntaxFault where
  | unexpectedChar (c : Char)
  | unterminatedString
  | unterminatedComment
  | invalidEscape (c : Char)
  | invalidReal (text : String)
  | integerTooLarge
  | expectedToken (expected found : String)
  | missingSemicolon
  | expectedIdentifier (found : String)
  | missingBrace
  | expectedExpression (found : String)
  | expectedType (found : String)
  | varOutsideLocal
  | invalidMember (found : String)
  | missingReturnType
  | lateUsing
  | expectedDeclaration
  | expectedClass (found : String)
  | duplicateModifier (kind : TokenKind)
  | severalAccessModifiers
  | invalidModifier (kind : TokenKind)
  | nestingTooDeep (limit : Nat)
  | sourceTooLarge (bytes : Nat)
deriving DecidableEq, Inhabited

namespace SyntaxFault

/-- The code a fault is reported under. -/
def code : SyntaxFault → String
  | unexpectedChar _ => "QC1056"
  | unterminatedString => "QC1010"
  | unterminatedComment => "QC1035"
  | invalidEscape _ => "QC1009"
  | invalidReal _ | integerTooLarge => "QC1021"
  | expectedToken .. => "QC1003"
  | missingSemicolon => "QC1002"
  | expectedIdentifier _ => "QC1001"
  | missingBrace => "QC1513"
  | expectedExpression _ => "QC1525"
  | expectedType _ | varOutsideLocal => "QC1031"
  | invalidMember _ => "QC1519"
  | missingReturnType => "QC1520"
  | lateUsing | expectedDeclaration | expectedClass _ => "QC1022"
  | duplicateModifier _ => "QC1004"
  | severalAccessModifiers => "QC0107"
  | invalidModifier _ => "QC0106"
  | nestingTooDeep _ => "QC8078"
  | sourceTooLarge _ => "QC8079"

/-- The category a fault belongs to. -/
def category : SyntaxFault → String
  | unexpectedChar _ => "unexpected character"
  | unterminatedString => "unterminated string"
  | unterminatedComment => "unterminated comment"
  | invalidEscape _ => "invalid escape sequence"
  | invalidReal _ | integerTooLarge => "invalid literal"
  | expectedToken .. => "expected token"
  | missingSemicolon => "missing semicolon"
  | expectedIdentifier _ => "expected identifier"
  | missingBrace => "unexpected end of file"
  | expectedExpression _ => "expected expression"
  | expectedType _ | varOutsideLocal => "expected type"
  | invalidMember _ => "expected class member"
  | missingReturnType => "invalid declaration"
  | lateUsing | expectedDeclaration | expectedClass _ => "expected declaration"
  | duplicateModifier _ => "duplicate modifier"
  | severalAccessModifiers => "more than one protection modifier"
  | invalidModifier _ => "invalid modifier"
  | nestingTooDeep _ => "nesting too deep"
  | sourceTooLarge _ => "source too large"

def message : SyntaxFault → String
  | unexpectedChar c => "unexpected character '" ++ c.toString ++ "'"
  | unterminatedString => "newline in constant"
  | unterminatedComment => "end-of-file found, '*/' expected"
  | invalidEscape c => "unrecognized escape sequence '\\" ++ c.toString ++ "'"
  | invalidReal t => "invalid real literal '" ++ t ++ "'"
  | integerTooLarge => "integral constant is too large"
  | expectedToken e f => e ++ " expected, found " ++ f
  | missingSemicolon => "; expected"
  | expectedIdentifier f => "identifier expected, found " ++ f
  | missingBrace => "\x7d expected"
  | expectedExpression f => "invalid expression term " ++ f
  | expectedType f => "type expected, found " ++ f
  | varOutsideLocal =>
    "the contextual keyword 'var' may only appear within a local variable declaration"
  | invalidMember f => "invalid token " ++ f ++ " in class member declaration"
  | missingReturnType => "method must have a return type"
  | lateUsing => "a using clause must precede all other elements defined in the namespace"
  | expectedDeclaration => "type or namespace definition, or end-of-file expected"
  | expectedClass f => "class expected, found " ++ f
  | duplicateModifier k => "duplicate " ++ k.description ++ " modifier"
  | severalAccessModifiers => "more than one protection modifier"
  | invalidModifier k => "the modifier " ++ k.description ++ " is not valid for this item"
  | nestingTooDeep n => s!"nesting exceeds {n} levels"
  | sourceTooLarge n => s!"source of {n} bytes is too large to compile"

end SyntaxFault

structure SyntaxError where
  fault : SyntaxFault
  span : Span
deriving DecidableEq, Inhabited

namespace SyntaxError

def message (e : SyntaxError) : String := e.fault.message

def diagnostic (e : SyntaxError) : Diagnostic := ⟨.error, e.fault.code, e.message, e.span, false⟩

/-- One error per line, each behind its place. -/
def listText (errors : List SyntaxError) : String :=
  "\n".intercalate (errors.map fun e => e.span.text ++ " " ++ e.message)

/-- The lines of a text. A line ends at a line feed, of which a carriage return before it is part;
what follows the last line feed is a line unless it is empty. -/
def lines (source : List Char) : List String :=
  let pieces := Text.splitOn '\n' source
  let (closed, last) := (pieces.dropLast, pieces.getLastD [])
  (closed.map fun l => String.ofList (if l.getLast? = some '\r' then l.dropLast else l)) ++
    if last.isEmpty then [] else [String.ofList last]

/-- The error with its source line, if there is one, and carets under the place. -/
def rendered (source : List Char) (e : SyntaxError) : String :=
  let line := e.span.line.toNat
  let head := "error " ++ e.fault.code ++ s!" at {line}:{e.span.col}: " ++ e.message ++ "\n"
  match (lines source)[line - 1]? with
  | none => head
  | some text =>
    let number := toString line
    let pad := String.ofList (List.replicate (4 - number.length) ' ')
    let indent := String.ofList (List.replicate (e.span.col.toNat - 1) ' ')
    let carets := String.ofList (List.replicate (max e.span.len.toNat 1) '^')
    head ++ pad ++ number ++ " | " ++ text ++ "\n     | " ++ indent ++ carets ++ "\n"

end SyntaxError
end ClassScript
