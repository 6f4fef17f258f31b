import ClassScript.Compile.Meaning
import ClassScript.Overload

/-!
Calls, once their arguments are pushed.

The callee pops its arguments. Methods of the script are named by the places of class and method,
library functions by their place among the imports. A method of a type gets the value it is called
on as a first argument; an instance method of a script class runs on the receiver of its caller.
-/

namespace ClassScript.Compile

/-- An argument that is pushed, and the offset at which its code ends. -/
structure Argument where
  pushed : Pushed
  stop : Nat
  span : Span

/-- Converts the arguments to their parameters, the last one first, so that the ends of those that
are still to come stay where they are. -/
def convertArguments : List Argument → List ValueType → Compiling Unit
  | a :: as, p :: ps => do
    convertArguments as ps
    discard (convertAt a.pushed (Conversion.widening? a.pushed.type p) p a.stop a.span)
  | _, _ => pure ()

/-- The error for a call that no overload fits. -/
def overloadFault (e : OverloadError) (name : String) (args : List Argument) (span : Span)
    (display : Nat → String) : SemanticError :=
  match e with
  | .noArity => ⟨.noOverload name args.length, span⟩
  | .mismatch i expected =>
    match args[i]? with
    | some a => ⟨.argumentMismatch (i + 1) a.pushed.type expected, a.span⟩
    | none => ⟨.noOverload name args.length, span⟩
  | .ambiguous a b => ⟨.ambiguousCall (display a) (display b), span⟩

/-- The candidate that a call means. -/
def choose {α : Type} (candidates : List α) (params : α → List ValueType) (display : α → String)
    (name : String) (args : List Argument) (span : Span) : Compiling α := do
  match Overload.resolve (candidates.map params) (args.map (·.pushed.type)) with
  | .ok i =>
    match candidates[i]? with
    | some c => pure c
    | none => fail (.noOverload name args.length) span
  | .error e =>
    throw (overloadFault e name args span fun i => (candidates[i]?).elim "" display)

/-- An operand that counts things of the module. -/
def countOperand (n : Nat) (what : String) (span : Span) : Compiling Unit :=
  if n ≤ Emitter.maxOperand then pure () else fail (.unsupported (.tooMany what)) span

/-- Calls a method of the script. -/
def callScript (site : Site) (start cls : Nat) (onThis : Bool) (name : String)
    (args : List Argument) (span : Span) : Compiling Pushed := do
  let c := classAt site cls
  let (m, i) ← choose (c.methodsNamed name) (·.1.params) (fun f => c.display f.1) name args span
  checkAccess site cls m.visibility (c.display m) span
  if !m.isStatic && (!onThis || site.isStatic) then
    fail (.instanceFromStatic (c.display m)) span
  convertArguments args m.params
  countOperand cls "classes" span
  countOperand i "methods in a class" span
  edit (·.emitCall cls i)
  pure (.unknown m.returns start)

/-- Calls one of several library functions. The call begins at `start`. -/
def callLibrary (candidates : List NativeFunction) (receiver : Option ValueType) (start : Nat)
    (name : String) (args : List Argument) (span : Span) : Compiling Pushed := do
  let f ← choose candidates (·.params) (·.signature) name args span
  convertArguments args f.params
  let i ← importFunction f receiver span
  emitWith .callNative i
  pure (.unknown f.returns start)

/-- Replaces a value by its text. -/
def callToText (p : Pushed) (name : String) (args : List Argument) (span : Span) :
    Compiling Pushed := do
  if !args.isEmpty then fail (.noOverload name args.length) span
  else if p.type = .string then pure p
  else
    match p.constant with
    | some v =>
      let text ← fold (Opcode.toStr.evalUnary true v) span
      replace p.start text
    | none =>
      emit .toStr
      pure (.unknown .string p.start)

/-- Calls whatever a name means. -/
def call (site : Site) (start : Nat) (callee : Callee) (name : String) (args : List Argument)
    (span : Span) : Compiling Pushed :=
  match callee with
  | .script cls onThis => callScript site start cls onThis name args span
  | .function c => callLibrary (c.functionsNamed name) none start name args span
  | .method c p => callLibrary (c.methodsNamed name) (some p.type) p.start name args span
  | .toText p => callToText p name args span

end ClassScript.Compile
