import ClassScript.Span
import ClassScript.ValueType

/-!
Tokens: their kinds, spellings and descriptions.
-/

namespace ClassScript

inductive TokenKind where
  | intLiteral
  | longLiteral
  | doubleLiteral
  | stringLiteral
  | identifier
  | kwVoid
  | kwInt
  | kwLong
  | kwDouble
  | kwBool
  | kwString
  | kwVar
  | kwTrue
  | kwFalse
  | kwThis
  | kwIf
  | kwElse
  | kwWhile
  | kwDo
  | kwFor
  | kwBreak
  | kwContinue
  | kwReturn
  | kwUsing
  | kwNamespace
  | kwClass
  | kwPublic
  | kwPrivate
  | kwProtected
  | kwInternal
  | kwStatic
  | kwReadonly
  | plus
  | minus
  | star
  | slash
  | percent
  | equal
  | plusEqual
  | minusEqual
  | starEqual
  | slashEqual
  | percentEqual
  | equalEqual
  | bangEqual
  | less
  | lessEqual
  | greater
  | greaterEqual
  | ampAmp
  | pipePipe
  | bang
  | plusPlus
  | minusMinus
  | question
  | colon
  | dot
  | arrow
  | leftParen
  | rightParen
  | leftBracket
  | rightBracket
  | leftBrace
  | rightBrace
  | semicolon
  | comma
  | eof
  | error
deriving DecidableEq, Repr, Hashable, Inhabited

namespace TokenKind

/-- How a kind reads in a message. -/
def description : TokenKind → String
  | intLiteral => "integer literal"
  | longLiteral => "long literal"
  | doubleLiteral => "double literal"
  | stringLiteral => "string literal"
  | identifier => "identifier"
  | kwVoid => "'void'"
  | kwInt => "'int'"
  | kwLong => "'long'"
  | kwDouble => "'double'"
  | kwBool => "'bool'"
  | kwString => "'string'"
  | kwVar => "'var'"
  | kwTrue => "'true'"
  | kwFalse => "'false'"
  | kwThis => "'this'"
  | kwIf => "'if'"
  | kwElse => "'else'"
  | kwWhile => "'while'"
  | kwDo => "'do'"
  | kwFor => "'for'"
  | kwBreak => "'break'"
  | kwContinue => "'continue'"
  | kwReturn => "'return'"
  | kwUsing => "'using'"
  | kwNamespace => "'namespace'"
  | kwClass => "'class'"
  | kwPublic => "'public'"
  | kwPrivate => "'private'"
  | kwProtected => "'protected'"
  | kwInternal => "'internal'"
  | kwStatic => "'static'"
  | kwReadonly => "'readonly'"
  | plus => "'+'"
  | minus => "'-'"
  | star => "'*'"
  | slash => "'/'"
  | percent => "'%'"
  | equal => "'='"
  | plusEqual => "'+='"
  | minusEqual => "'-='"
  | starEqual => "'*='"
  | slashEqual => "'/='"
  | percentEqual => "'%='"
  | equalEqual => "'=='"
  | bangEqual => "'!='"
  | less => "'<'"
  | lessEqual => "'<='"
  | greater => "'>'"
  | greaterEqual => "'>='"
  | ampAmp => "'&&'"
  | pipePipe => "'||'"
  | bang => "'!'"
  | plusPlus => "'++'"
  | minusMinus => "'--'"
  | question => "'?'"
  | colon => "':'"
  | dot => "'.'"
  | arrow => "'=>'"
  | leftParen => "'('"
  | rightParen => "')'"
  | leftBracket => "'['"
  | rightBracket => "']'"
  | leftBrace => "'\x7b'"
  | rightBrace => "'\x7d'"
  | semicolon => "';'"
  | comma => "','"
  | eof => "end of file"
  | error => "invalid token"

/-- Reserved words. -/
def keywords : List (String × TokenKind) := [
  ("void", .kwVoid), ("int", .kwInt), ("long", .kwLong), ("double", .kwDouble), ("bool", .kwBool),
  ("string", .kwString), ("var", .kwVar), ("true", .kwTrue), ("false", .kwFalse), ("this", .kwThis),
  ("if", .kwIf), ("else", .kwElse), ("while", .kwWhile), ("do", .kwDo), ("for", .kwFor),
  ("break", .kwBreak), ("continue", .kwContinue), ("return", .kwReturn), ("using", .kwUsing),
  ("namespace", .kwNamespace), ("class", .kwClass), ("public", .kwPublic), ("private", .kwPrivate),
  ("protected", .kwProtected), ("internal", .kwInternal), ("static", .kwStatic), ("readonly", .kwReadonly)]

def ofKeyword? (word : String) : Option TokenKind := keywords.lookup word

def isLiteral : TokenKind → Bool
  | intLiteral | longLiteral | doubleLiteral | stringLiteral | kwTrue | kwFalse => true
  | _ => false

/-- The type a keyword names. -/
def valueType? : TokenKind → Option ValueType
  | kwVoid => some .void
  | kwInt => some .int
  | kwLong => some .long
  | kwDouble => some .double
  | kwBool => some .bool
  | kwString => some .string
  | _ => none

def isType (k : TokenKind) : Bool := k.valueType?.isSome

def isModifier : TokenKind → Bool
  | kwPublic | kwPrivate | kwProtected | kwInternal | kwStatic | kwReadonly => true
  | _ => false

end TokenKind

/-- A token. Its span covers the source text; the lexeme of a string literal is the text it
denotes, and that of any other token the source text itself. -/
structure Token where
  kind : TokenKind
  lexeme : String
  span : Span
deriving DecidableEq, Inhabited

/-- How a token reads in a message. -/
def Token.describe (t : Token) : String :=
  match t.kind with
  | .identifier => "'" ++ t.lexeme ++ "'"
  | k => if k.isLiteral then k.description ++ " " ++ t.lexeme else k.description

end ClassScript
