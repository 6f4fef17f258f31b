import ClassScript.Diagnostic
import ClassScript.Opcode
import ClassScript.ValueType

/-!
Semantic errors: what a well-formed script does wrong, where, and how it is reported.
-/

namespace ClassScript

/-- What the language has no support for. -/
inductive Limitation where
  | severalInferred
  | voidLocal
  | voidParameter
  | varElsewhere
  | classAsType (name : String)
  | staticConstructor
  | staticThroughThis (field : String)
  | thisAsValue
  | tooManyLocals
  | tooManyFields
  /-- More of these than an operand can count, in one module. -/
  | tooMany (what : String)
  | codeTooLarge (method : String)
  | folding (op : Opcode) (operands : List ValueType)
deriving DecidableEq, Inhabited

def Limitation.text : Limitation → String
  | severalInferred => "implicitly-typed variables with multiple declarators"
  | voidLocal => "a local variable of type 'void'"
  | voidParameter => "a 'void' parameter"
  | varElsewhere => "'var' outside a local variable declaration"
  | classAsType n => "using the class '" ++ n ++ "' as a value type"
  | staticConstructor => "static constructors"
  | staticThroughThis f => "accessing the static field '" ++ f ++ "' through 'this'"
  | thisAsValue => "'this' as a value"
  | tooManyLocals => "more than 65535 locals in one method"
  | tooManyFields => "more than 65535 fields in one class"
  | tooMany what => "more than 65535 " ++ what ++ " in one module"
  | codeTooLarge m => "'" ++ m ++ "': method body is too large to encode"
  | folding op ts => "folding " ++ op.name ++ " over " ++ ValueType.listText ts

inductive SemanticFault where
  | unknownName (name : String)
  | unknownType (name : String)
  | typeMismatch (source target : ValueType)
  | binaryOperands (op : String) (left right : ValueType)
  | unaryOperand (op : String) (operand : ValueType)
  | voidReturnsValue (method : String)
  | missingReturnValue (expected : ValueType)
  | notAllPathsReturn (method : String)
  | unknownMember (owner member : String)
  | noOverload (name : String) (count : Nat)
  /-- Arguments count from one. -/
  | argumentMismatch (index : Nat) (source target : ValueType)
  | ambiguousCall (first second : String)
  | duplicateMember (owner member : String)
  | duplicateType (space name : String)
  | duplicateLocal (name : String)
  | noEnclosingLoop
  | invalidTarget
  | uninitializedInferred
  | voidInferred
  | constantDivisionByZero
  | constantOverflow
  | instanceFromStatic (member : String)
  | readonlyAssignment
  | notInvocable (name : String)
  | methodAsValue (name : String)
  | invalidStatement
  | conditionalMismatch (first second : ValueType)
  | memberNamedLikeType (name : String)
  | voidField (owner : String)
  | namespaceAsValue (name : String)
  | typeAsValue (name : String)
  | duplicateDefinition (owner member : String)
  | inaccessible (name : String)
  | instanceInStaticClass (owner : String)
  | unsupported (limitation : Limitation)
  | tooComplex
  /-- A referenced library that no catalog has. -/
  | missingReference (name : String)
deriving DecidableEq, Inhabited

namespace SemanticFault

/-- The code a fault is reported under. -/
def code : SemanticFault → String
  | unknownName _ => "QC0103"
  | unknownType _ => "QC0246"
  | typeMismatch .. => "QC0029"
  | binaryOperands .. => "QC0019"
  | unaryOperand .. => "QC0023"
  | voidReturnsValue _ => "QC0127"
  | missingReturnValue _ => "QC0126"
  | notAllPathsReturn _ => "QC0161"
  | unknownMember .. => "QC0117"
  | noOverload .. => "QC1501"
  | argumentMismatch .. => "QC1503"
  | ambiguousCall .. => "QC0121"
  | duplicateMember .. => "QC0111"
  | duplicateType .. => "QC0101"
  | duplicateLocal _ => "QC0128"
  | noEnclosingLoop => "QC0139"
  | invalidTarget => "QC0131"
  | uninitializedInferred => "QC0818"
  | voidInferred => "QC0815"
  | constantDivisionByZero => "QC0020"
  | constantOverflow => "QC0220"
  | instanceFromStatic _ => "QC0120"
  | readonlyAssignment => "QC0191"
  | notInvocable _ => "QC1955"
  | methodAsValue _ => "QC0428"
  | invalidStatement => "QC0201"
  | conditionalMismatch .. => "QC0173"
  | memberNamedLikeType _ => "QC0542"
  | voidField _ => "QC0670"
  | namespaceAsValue _ => "QC0118"
  | typeAsValue _ => "QC0119"
  | duplicateDefinition .. => "QC0102"
  | inaccessible _ => "QC0122"
  | instanceInStaticClass _ => "QC0708"
  | unsupported _ => "QC8000"
  | tooComplex => "QC8078"
  | missingReference _ => "QC0006"

def message : SemanticFault → String
  | unknownName n => "the name '" ++ n ++ "' does not exist in the current context"
  | unknownType n => "the type or namespace name '" ++ n ++
      "' could not be found (are you missing a using directive or a reference?)"
  | typeMismatch f t => "cannot implicitly convert type '" ++ f.name ++ "' to '" ++ t.name ++ "'"
  | binaryOperands op l r => "operator '" ++ op ++ "' cannot be applied to operands of type '" ++
      l.name ++ "' and '" ++ r.name ++ "'"
  | unaryOperand op t => "operator '" ++ op ++ "' cannot be applied to operand of type '" ++
      t.name ++ "'"
  | voidReturnsValue m => "since '" ++ m ++
      "' returns void, a return keyword must not be followed by an object expression"
  | missingReturnValue t => "an object of a type convertible to '" ++ t.name ++ "' is required"
  | notAllPathsReturn m => "'" ++ m ++ "': not all code paths return a value"
  | unknownMember o m => "'" ++ o ++ "' does not contain a definition for '" ++ m ++ "'"
  | noOverload n c => "no overload for method '" ++ n ++ s!"' takes {c} arguments"
  | argumentMismatch i f t => s!"argument {i}: cannot convert from '" ++ f.name ++ "' to '" ++
      t.name ++ "'"
  | ambiguousCall a b => "the call is ambiguous between the following methods: '" ++ a ++
      "' and '" ++ b ++ "'"
  | duplicateMember o m => "type '" ++ o ++ "' already defines a member called '" ++ m ++
      "' with the same parameter types"
  | duplicateType s n => "the namespace '" ++ s ++ "' already contains a definition for '" ++ n ++
      "'"
  | duplicateLocal n => "a local variable named '" ++ n ++ "' is already defined in this scope"
  | noEnclosingLoop => "no enclosing loop out of which to break or continue"
  | invalidTarget =>
    "the left-hand side of an assignment must be a variable, property or indexer"
  | uninitializedInferred => "implicitly-typed variables must be initialized"
  | voidInferred => "cannot assign void to an implicitly-typed variable"
  | constantDivisionByZero => "division by constant zero"
  | constantOverflow => "the operation overflows at compile time in checked mode"
  | instanceFromStatic m =>
    "an object reference is required for the non-static field, method, or property '" ++ m ++ "'"
  | readonlyAssignment => "a readonly field cannot be assigned to (except in a constructor)"
  | notInvocable n => "non-invocable member '" ++ n ++ "' cannot be used like a method"
  | methodAsValue n => "cannot convert method group '" ++ n ++ "' to non-delegate type"
  | invalidStatement => "only assignment, call, increment, decrement, and new object expressions " ++
      "can be used as a statement"
  | conditionalMismatch a b => "type of conditional expression cannot be determined because " ++
      "there is no implicit conversion between '" ++ a.name ++ "' and '" ++ b.name ++ "'"
  | memberNamedLikeType n => "'" ++ n ++
      "': member names cannot be the same as their enclosing type"
  | voidField o => "the type '" ++ o ++ "' may not declare a field of type 'void'"
  | namespaceAsValue n => "'" ++ n ++ "' is a namespace but is used like a variable"
  | typeAsValue n => "'" ++ n ++ "' is a type, which is not valid in the given context"
  | duplicateDefinition o m => "the type '" ++ o ++ "' already contains a definition for '" ++ m ++
      "'"
  | inaccessible n => "'" ++ n ++ "' is inaccessible due to its protection level"
  | instanceInStaticClass o => "'" ++ o ++ "': cannot declare instance members in a static class"
  | unsupported l => l.text ++ " is not supported"
  | tooComplex => "an expression is too long or complex to compile"
  | missingReference n => "metadata file '" ++ n ++ "' could not be found"

end SemanticFault

structure SemanticError where
  fault : SemanticFault
  span : Span
deriving DecidableEq, Inhabited

def SemanticError.message (e : SemanticError) : String := e.fault.message

def SemanticError.diagnostic (e : SemanticError) : Diagnostic :=
  ⟨.error, e.fault.code, e.message, e.span, false⟩

end ClassScript
