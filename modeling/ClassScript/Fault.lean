import ClassScript.Code
import ClassScript.ValueType

/-!
What can go wrong while code runs: in a library function, and in the machine.
-/

namespace ClassScript

/-- Failures of library functions. -/
inductive NativeError where
  | argumentType (index : Nat) (expected found : ValueType)
  | missingArgument (index : Nat)
  | invalidArgument (message : String)
  | format (text : String)
  | overflow
  | output (message : String)
deriving DecidableEq, Repr, Inhabited

def NativeError.message : NativeError → String
  | argumentType i e f => s!"argument {i}: expected {e.name}, found {f.name}"
  | missingArgument i => s!"argument {i} is missing"
  | invalidArgument m => m
  | format t => "input string was not in a correct format: '" ++ t ++ "'"
  | overflow => "value was either too large or too small"
  | output m => "output error: " ++ m

/-- Failures of the instructions that compute values. -/
inductive EvalError where
  | overflow
  | divideByZero
  | typeMismatch (op : Opcode) (operands : List ValueType)
deriving DecidableEq, Repr, Inhabited

def EvalError.message : EvalError → String
  | overflow => "arithmetic overflow"
  | divideByZero => "division by zero"
  | typeMismatch op operands => op.name ++ " cannot be applied to " ++ ValueType.listText operands

/-- What the machine can find wrong with code it is given. -/
inductive CodeDefect where
  | noMethod (cls method : Nat)
  | argumentCount (signature : String) (expected found : Nat)
  | noFrame
  | stackUnderflow
  | noField (slot : Nat)
  | noStatic (slot : Nat)
  | ranPastEnd
  | undecodable (error : Code.DecodeError)
  | noConstant (index : Nat)
  | noLocal (slot : Nat)
  | notACondition (op : Opcode)
  | loopBeforeStart
  | noImport (index : Nat)
  | unboundImport (index : Nat)
  | operandTypes (op : Opcode) (operands : List ValueType)
  | resultType (signature : String) (found expected : ValueType)
deriving DecidableEq, Repr, Inhabited

def Code.DecodeError.message : Code.DecodeError → String
  | unknownOpcode b => "unknown opcode 0x" ++ hexByte b
  | operandsTruncated op => op.name ++ " operands truncated"

def CodeDefect.message : CodeDefect → String
  | noMethod c m => s!"no method {m} in class {c}"
  | argumentCount s e f => s ++ s!" takes {e} arguments, got {f}"
  | noFrame => "no active frame"
  | stackUnderflow => "value stack underflow"
  | noField i => s!"no instance field {i}"
  | noStatic i => s!"no static field {i}"
  | ranPastEnd => "ran past the end of the method"
  | undecodable e => e.message
  | noConstant i => s!"no constant {i}"
  | noLocal i => s!"no local {i}"
  | notACondition op => op.name ++ " on a non-bool"
  | loopBeforeStart => "loop before method start"
  | noImport i => s!"no import {i}"
  | unboundImport i => s!"import {i} is unbound"
  | operandTypes op ts => (EvalError.typeMismatch op ts).message
  | resultType s f e => s ++ " returned " ++ f.name ++ ", expected " ++ e.name

/-- Faults that end a run. -/
inductive Fault where
  | overflow
  | divideByZero
  | callDepthExceeded (limit : Nat)
  | native (function : String) (cause : NativeError)
  | invalidCode (offset : Nat) (defect : CodeDefect)
deriving DecidableEq, Repr, Inhabited

def Fault.message : Fault → String
  | overflow => "arithmetic operation resulted in an overflow"
  | divideByZero => "attempted to divide by zero"
  | callDepthExceeded n => s!"call depth exceeded {n} frames"
  | native f e => "call to '" ++ f ++ "' failed: " ++ e.message
  | invalidCode o d => s!"invalid bytecode at offset {o}: " ++ d.message

/-- The fault of a value instruction at `offset`. -/
def EvalError.fault (offset : Nat) : EvalError → Fault
  | overflow => .overflow
  | divideByZero => .divideByZero
  | typeMismatch op ts => .invalidCode offset (.operandTypes op ts)

end ClassScript
