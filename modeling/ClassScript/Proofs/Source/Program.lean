import ClassScript.Compile.Module
import ClassScript.Proofs.Source.Evaluation

/-!
What statements, methods and scripts do, read off the syntax tree.

A statement completes at its end, or leaves what is around it: the innermost loop, the round of that
loop, or the method. What expressions mean is given. A local variable keeps its slot from its
declaration on, and every execution of the declaration stores its first value anew.

A world is a script with everything that its methods rely on. Calls in it nest only so deep: a method
that is called where no more frames may be fails at once. So what a method does is said by recursion on
the number of frames that are left.
-/

namespace ClassScript.Source

open Compile (ClassSite declaredType initializerSite methodSite)

structure Interpretation where
  /-- The value of an expression, and its type. -/
  value : Site → LocalScope → Expr → Option (ValueType × Action Store Value)
  /-- The value in another type. -/
  valueOf : Site → LocalScope → Expr → ValueType → Option (Action Store Value)
  /-- What an expression does whose value is not wanted. -/
  effect : Site → LocalScope → Expr → Option (Action Store Unit)

/-! ## Completions -/

inductive Completion where
  /-- At its end. -/
  | next
  /-- It leaves the innermost loop. -/
  | leave
  /-- It goes on with the next round of the innermost loop. -/
  | again
  /-- It leaves the method, with a value or without. -/
  | ret (value : Option Value)

namespace Completion

/-- How a loop completes when its body does; none if it goes on. -/
def ofBody : Completion → Option Completion
  | next | again => none
  | leave => some next
  | ret v => some (ret v)

def andThen (rest : Action Store Completion) : Completion → Action Store Completion
  | next => rest
  | c => pure c

def result : Completion → Value
  | ret (some v) => v
  | _ => .void

end Completion

def sequence (a b : Action Store Completion) : Action Store Completion := a >>= Completion.andThen b

/-- The body of a loop, and what is done in the same round behind it. -/
def roundOf (body : Action Store Completion) (rest : Action Store (Option Completion)) :
    Action Store (Option Completion) :=
  body >>= fun c => c.ofBody.elim rest fun c => pure (some c)

def completing (a : Action Store Unit) : Action Store Completion := a >>= fun _ => pure .next

section

variable (I : Interpretation) (site : Site)

/-! ## Parts of statements -/

def effects (locals : LocalScope) : List Expr → Option (Action Store Unit)
  | [] => some (pure ())
  | e :: es => do
    let a ← I.effect site locals e
    let rest ← effects locals es
    some (a >>= fun _ => rest)

/-- The first value of a variable, and the type of the variable. -/
def firstValue (locals : LocalScope) (declared : Option ValueType) (v : Declarator) :
    Option (ValueType × Action Store Value) :=
  match declared, v.value with
  | some type, some e => (I.valueOf site locals e type).map fun a => (type, a)
  | some type, none => some (type, pure type.default)
  | none, some e => I.value site locals e
  | none, none => none

/-- Declarations: each one stores the first value of its variable. -/
def declare (declared : Option ValueType) :
    List Declarator → LocalScope → Option (LocalScope × Action Store Unit)
  | [], locals => some (locals, pure ())
  | v :: vs, locals => do
    let (type, a) ← firstValue I site locals declared v
    let (slot, inner) := locals.add v.name.name type
    let (outer, rest) ← declare declared vs inner
    some (outer, do
      let w ← a
      setLocal slot w
      rest)

def declareAll (d : VarDecl) (locals : LocalScope) : Option (LocalScope × Action Store Unit) := do
  let declared ← (declaredType site d).toOption
  declare I site declared d.vars locals

def begin (first : Option ForInit) (locals : LocalScope) :
    Option (LocalScope × Action Store Unit) :=
  match first with
  | none => some (locals, pure ())
  | some (.decl d) => declareAll I site d locals
  | some (.exprs es) => (effects I site locals es).map fun a => (locals, a)

/-- The condition of a loop; without one it always holds. -/
def condition (locals : LocalScope) : Option Expr → Option (Action Store Value)
  | none => some (pure (.bool true))
  | some e => I.valueOf site locals e .bool

/-! ## Statements -/

variable (fuel : Nat)

mutual

/-- What a statement does, and the locals in scope behind it. A loop goes round `fuel` times at
most. -/
def mean : Stmt → LocalScope → Option (LocalScope × Action Store Completion)
  | .block stmts _, locals => do
    let (inner, a) ← meanAll stmts locals.open_
    some (inner.close, a)
  | .decl d, locals => do
    let (locals, a) ← declareAll I site d locals
    some (locals, completing a)
  | .expr e _, locals => do
    let a ← I.effect site locals e
    some (locals, completing a)
  | .ifElse cond yes no _, locals => do
    let c ← I.valueOf site locals cond .bool
    let (locals, a) ← mean yes locals
    match no with
    | none => some (locals, choose c a (pure .next))
    | some no => do
      let (locals, b) ← mean no locals
      some (locals, choose c a b)
  | .whileLoop cond body _, locals => do
    let c ← I.valueOf site locals cond .bool
    let (locals, a) ← mean body locals
    some (locals, .rounds (choose c (roundOf a (pure none)) (pure (some .next))) fuel)
  | .doLoop body cond _, locals => do
    let (locals, a) ← mean body locals
    let c ← I.valueOf site locals cond .bool
    some (locals, .rounds (roundOf a (choose c (pure none) (pure (some .next)))) fuel)
  | .forLoop first cond update body _, locals => do
    let (locals, init) ← begin I site first locals.open_
    let c ← condition I site locals cond
    let (locals, a) ← mean body locals
    let step ← effects I site locals update
    some (locals.close, init >>= fun _ =>
      .rounds (choose c (roundOf a (step >>= fun _ => pure none)) (pure (some .next))) fuel)
  | .ret none _, locals => some (locals, pure (.ret none))
  | .ret (some e) _, locals => do
    let a ← I.valueOf site locals e site.returns
    some (locals, a >>= fun v => pure (.ret (some v)))
  | .breakLoop _, locals => some (locals, pure .leave)
  | .continueLoop _, locals => some (locals, pure .again)
  | .empty _, locals => some (locals, pure .next)

def meanAll : List Stmt → LocalScope → Option (LocalScope × Action Store Completion)
  | [], locals => some (locals, pure .next)
  | s :: ss, locals => do
    let (locals, a) ← mean s locals
    let (locals, b) ← meanAll ss locals
    some (locals, sequence a b)

end

/-! ## Methods -/

def entered : List Param → List ValueType → LocalScope → LocalScope
  | p :: ps, t :: ts, locals => entered ps ts (locals.add p.name.name t).2
  | _, _, locals => locals

/-- What the body of a method does, and the locals behind it. -/
def runBody (locals : LocalScope) : Body → Option (LocalScope × Action Store Value)
  | .block stmts sp => do
    let (locals, a) ← mean I site fuel (.block stmts sp) locals
    some (locals, a >>= fun c => pure c.result)
  | .arrow e =>
    if site.returns.isVoid then
      (I.effect site locals e).map fun a => (locals, a >>= fun _ => pure .void)
    else (I.valueOf site locals e site.returns).map fun a => (locals, a)

def initializing (store : Nat → Value → Action Store Unit) :
    List FieldSymbol → Option (Action Store Unit)
  | [] => some (pure ())
  | f :: fs => do
    let rest ← initializing store fs
    match f.value with
    | none => some rest
    | some e => do
      let a ← I.valueOf site .start e f.type
      some do
        let v ← a
        store f.slot v
        rest

end

section

variable (I : Interpretation) (fuel : Nat) (c : ClassSite) (f : MethodSymbol)

/-- What a method does in front of its body: a constructor runs the initializers of the fields of the
instance, the initializer of a class those of the static ones. -/
def prologue : Option (Action Store Unit) :=
  match f.kind with
  | .method => some (pure ())
  | .constructor => initializing I (initializerSite c false) setField
      (c.owner.fields.toList.filter (·.isStatic == false))
  | .typeInitializer => initializing I (initializerSite c true) setStatic
      (c.owner.fields.toList.filter (·.isStatic == true))

/-- What a method does with its arguments: it has slots for all its locals, its parameters first. -/
def runMethod (args : List Value) : Option (Action Heap Value) := do
  let before ← prologue I c f
  match f.source with
  | .implied =>
    some (.within (Machine.frameLocals args 0) (before >>= fun _ => pure .void))
  | .declared params body _ => do
    let (locals, a) ← runBody I (methodSite c f) fuel (entered params f.params .start) body
    some (.within (Machine.frameLocals args locals.frameSize) (before >>= fun _ => a))

end

/-! ## Scripts -/

/-- Expressions mean what is read off their trees. -/
def interpretation (K : Surroundings) : Interpretation where
  value := evaluate K
  valueOf site locals e type := do
    let (t, a) ← evaluate K site locals e
    if suits t type then some (a >>= become t type) else none
  effect site locals e := do
    let (_, a) ← evaluate K site locals e
    some (a >>= fun _ => pure ())

/-- A script, and what its methods are run with. -/
structure World where
  symbols : Symbols
  /-- Whether the code of the methods leaves out what cannot be reached. What they do is the same. -/
  release : Bool
  /-- Integer arithmetic fails where it would wrap. -/
  checked : Bool
  /-- The library function that an import is bound to. -/
  native : NativeImport → Native Unit

namespace World

variable (W : World) (fuel : Nat)

/-- A call of a method, by class and place, where so many frames are left. Every loop goes round
`fuel` times at most. -/
def call : (frames : Nat) → Nat → Nat → List Value → Action Heap Value
  | 0, _, _, _ => throw (.callDepthExceeded Machine.maxFrames)
  | frames + 1, cls, method, args =>
    ((W.symbols.classes[cls]?).bind fun owner => (owner.methods[method]?).bind fun f =>
      runMethod (interpretation ⟨W.checked, call frames, W.native⟩) fuel
        ⟨W.symbols, W.release, cls, owner⟩ f args).getD (.blame (.noMethod cls method))

def surroundings (frames : Nat) : Surroundings := ⟨W.checked, W.call fuel frames, W.native⟩

def meanings (frames : Nat) : Interpretation := interpretation (W.surroundings fuel frames)

theorem call_succ {frames cls method : Nat} {args : List Value} {owner : ClassSymbol}
    {f : MethodSymbol} {a : Action Heap Value} (howner : W.symbols.classes[cls]? = some owner)
    (hf : owner.methods[method]? = some f)
    (ha : runMethod (W.meanings fuel frames) fuel ⟨W.symbols, W.release, cls, owner⟩ f args =
      some a) : W.call fuel (frames + 1) cls method args = a := by
  simp only [meanings, surroundings] at ha
  simp only [call, howner, hf, Option.bind_some, ha, Option.getD_some]

end World
end ClassScript.Source
