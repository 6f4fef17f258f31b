import ClassScript.Fault
import ClassScript.Value

/-!
What a library function sees of a call: its arguments, the place for its result, and the output.
-/

namespace ClassScript

/-- Where output goes. A sink with a limit refuses a text that would go beyond it, as a whole. -/
structure Sink where
  /-- What was written, the last text first. -/
  chunks : List String
  /-- The number of bytes written. -/
  size : Nat
  limit : Option Nat
deriving DecidableEq, Inhabited

namespace Sink

def empty : Sink := ⟨[], 0, none⟩

/-- An empty sink that takes so many bytes. -/
def limited (limit : Option Nat) : Sink := ⟨[], 0, limit⟩

/-- All that was written. -/
def text (s : Sink) : String := String.join s.chunks.reverse

/-- The sink with a text added, unless the text does not fit. -/
def write? (s : Sink) (text : String) : Option Sink :=
  let size := s.size + text.utf8ByteSize
  if s.limit.any fun l => l < size then none else some ⟨text :: s.chunks, size, s.limit⟩

end Sink

structure CallContext where
  args : Array Value
  result : Value
  sink : Sink

/-- A library function at work. What it has written stays written when it fails. -/
abbrev Native (α : Type) : Type := ExceptT NativeError (StateM CallContext) α

namespace Native

def failWith {α : Type} (e : NativeError) : Native α := throw e

def count : Native Nat := do
  let c ← get
  pure c.args.size

/-- An argument of any type. -/
def any (i : Nat) : Native Value := do
  match (← get).args[i]? with
  | some v => pure v
  | none => throw (.missingArgument i)

def int (i : Nat) : Native Int32 := do
  match ← any i with
  | .int n => pure n
  | v => throw (.argumentType i .int v.type)

def long (i : Nat) : Native Int64 := do
  match ← any i with
  | .long n => pure n
  | v => throw (.argumentType i .long v.type)

def double (i : Nat) : Native Double := do
  match ← any i with
  | .double d => pure d
  | v => throw (.argumentType i .double v.type)

def bool (i : Nat) : Native Bool := do
  match ← any i with
  | .bool b => pure b
  | v => throw (.argumentType i .bool v.type)

def string (i : Nat) : Native String := do
  match ← any i with
  | .string s => pure s
  | v => throw (.argumentType i .string v.type)

/-- The characters of a string argument. -/
def chars (i : Nat) : Native (List Char) := do
  let s ← string i
  pure s.toList

/-- Sets the result of the call. -/
def give (v : Value) : Native Unit := modify fun
  | ⟨args, _, sink⟩ => ⟨args, v, sink⟩

def giveChars (cs : List Char) : Native Unit := give (.string (String.ofList cs))

/-- Writes a text to the output. -/
def write (text : String) : Native Unit := do
  match (← get).sink.write? text with
  | some sink => modify fun | ⟨args, result, _⟩ => ⟨args, result, sink⟩
  | none => throw (.output "sink is full")

/-- The outcome of a call: its result or its failure, and the sink afterwards. -/
def run (body : Native Unit) (args : Array Value) (sink : Sink) :
    Except NativeError Value × Sink :=
  match (ExceptT.run body).run ⟨args, .void, sink⟩ with
  | (.ok (), c) => (.ok c.result, c.sink)
  | (.error e, c) => (.error e, c.sink)

end Native
end ClassScript
