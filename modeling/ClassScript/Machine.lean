import ClassScript.Evaluation
import ClassScript.Image
import ClassScript.Native

/-!
The stack machine.

A run executes one method of a module, and the methods that it calls, until the first one returns or
a fault ends it. All frames share one stack of values. Instance fields are those of the one receiver
the run was started on. Fields, static slots and output keep what was written before a fault.
-/

namespace ClassScript

/-- A module whose imports are bound to library functions. -/
structure Program where
  image : Image
  /-- The body of every import. -/
  natives : Array (Native Unit)

def Program.method? (p : Program) (cls method : Nat) : Option MethodImage :=
  (p.image.classes[cls]?).bind fun c => c.methods[method]?

/-- A method that is being executed. -/
structure Frame where
  cls : Nat
  method : Nat
  /-- The offset of the next instruction. -/
  ip : Nat
  locals : Array Value

structure Machine where
  /-- The innermost call first. -/
  frames : List Frame
  /-- The value on top first. -/
  stack : List Value
  /-- The fields of the receiver, if there is one. -/
  fields : Option (Array Value)
  statics : Array Value
  sink : Sink

/-- What executing an instruction leads to. -/
inductive Step where
  | next (m : Machine)
  /-- The outermost method has returned. -/
  | done (result : Value) (m : Machine)
  | fault (f : Fault) (m : Machine)

namespace Machine

/-- A machine in which no method is executed. -/
def idle (fields : Option (Array Value)) (statics : Array Value) (sink : Sink) : Machine :=
  ⟨[], [], fields, statics, sink⟩

/-- Frames that a chain of calls can have. -/
def maxFrames : Nat := 1024

/-- The machine finds something wrong with the code at an offset. -/
def refuse (m : Machine) (offset : Nat) (defect : CodeDefect) : Step :=
  .fault (.invalidCode offset defect) m

/-! ## The stack -/

def push (m : Machine) (v : Value) : Machine :=
  match m with
  | ⟨frames, stack, fields, statics, sink⟩ => ⟨frames, v :: stack, fields, statics, sink⟩

/-- Takes a value from the stack. -/
@[inline] def pop (m : Machine) (offset : Nat) (k : Value → Machine → Step) : Step :=
  match m with
  | ⟨frames, v :: stack, fields, statics, sink⟩ => k v ⟨frames, stack, fields, statics, sink⟩
  | ⟨frames, [], fields, statics, sink⟩ =>
    refuse ⟨frames, [], fields, statics, sink⟩ offset .stackUnderflow

/-- The uppermost `n` values, the lowest of them first, in front of `above`, and the values below
them. -/
def takeArgs : Nat → List Value → List Value → Option (List Value × List Value)
  | 0, above, stack => some (above, stack)
  | _ + 1, _, [] => none
  | n + 1, above, v :: stack => takeArgs n (v :: above) stack

/-- Takes the arguments of a call from the stack. -/
@[inline] def popArgs (m : Machine) (n offset : Nat) (k : List Value → Machine → Step) : Step :=
  match m with
  | ⟨frames, stack, fields, statics, sink⟩ =>
    match takeArgs n [] stack with
    | some (args, stack) => k args ⟨frames, stack, fields, statics, sink⟩
    | none => refuse ⟨frames, stack, fields, statics, sink⟩ offset .stackUnderflow

/-! ## Frames -/

/-- The locals of a new frame: the arguments, and slots that nothing was stored in. -/
def frameLocals (args : List Value) (size : Nat) : Array Value :=
  ((args ++ List.replicate (size - args.length) Value.void).take size).toArray

/-- Begins the execution of a method. -/
def enter (p : Program) (cls method : Nat) (args : List Value) (m : Machine) : Step :=
  if maxFrames ≤ m.frames.length then .fault (.callDepthExceeded maxFrames) m
  else
    match p.method? cls method with
    | none => m.refuse 0 (.noMethod cls method)
    | some f =>
      if args.length ≠ f.params.length then
        m.refuse 0 (.argumentCount f.signature f.params.length args.length)
      else
        match m with
        | ⟨frames, stack, fields, statics, sink⟩ =>
          .next ⟨⟨cls, method, 0, frameLocals args f.locals.toNat⟩ :: frames, stack, fields,
            statics, sink⟩

/-- Ends the innermost method with a result; `void` is not pushed. -/
def leave (m : Machine) (result : Option Value) : Step :=
  match m with
  | ⟨_ :: frames, stack, fields, statics, sink⟩ =>
    match frames with
    | [] => .done (result.getD .void) ⟨[], stack, fields, statics, sink⟩
    | f :: frames => .next ⟨f :: frames, result.toList ++ stack, fields, statics, sink⟩
  | ⟨[], stack, fields, statics, sink⟩ =>
    .done (result.getD .void) ⟨[], stack, fields, statics, sink⟩

/-- Goes on at another offset of the innermost method. -/
def goTo (m : Machine) (ip : Nat) : Machine :=
  match m with
  | ⟨⟨cls, method, _, locals⟩ :: frames, stack, fields, statics, sink⟩ =>
    ⟨⟨cls, method, ip, locals⟩ :: frames, stack, fields, statics, sink⟩
  | ⟨[], stack, fields, statics, sink⟩ => ⟨[], stack, fields, statics, sink⟩

/-! ## Slots -/

def local? (m : Machine) (slot : Nat) : Option Value :=
  match m.frames with
  | f :: _ => f.locals[slot]?
  | [] => none

def field? (m : Machine) (slot : Nat) : Option Value := m.fields.bind fun fs => fs[slot]?

/-- Pushes the value of a slot, if there is one. -/
def pushSlot (m : Machine) (offset : Nat) (v : Option Value) (missing : CodeDefect) : Step :=
  match v with
  | some v => .next (m.push v)
  | none => m.refuse offset missing

def setLocal (m : Machine) (offset slot : Nat) (v : Value) : Step :=
  match m with
  | ⟨⟨cls, method, ip, locals⟩ :: frames, stack, fields, statics, sink⟩ =>
    if slot < locals.size then
      .next ⟨⟨cls, method, ip, locals.setIfInBounds slot v⟩ :: frames, stack, fields, statics, sink⟩
    else
      refuse ⟨⟨cls, method, ip, locals⟩ :: frames, stack, fields, statics, sink⟩ offset
        (.noLocal slot)
  | ⟨[], stack, fields, statics, sink⟩ =>
    refuse ⟨[], stack, fields, statics, sink⟩ offset (.noLocal slot)

def setField (m : Machine) (offset slot : Nat) (v : Value) : Step :=
  match m with
  | ⟨frames, stack, some fields, statics, sink⟩ =>
    if slot < fields.size then
      .next ⟨frames, stack, some (fields.setIfInBounds slot v), statics, sink⟩
    else refuse ⟨frames, stack, some fields, statics, sink⟩ offset (.noField slot)
  | ⟨frames, stack, none, statics, sink⟩ =>
    refuse ⟨frames, stack, none, statics, sink⟩ offset (.noField slot)

def setStatic (m : Machine) (offset slot : Nat) (v : Value) : Step :=
  match m with
  | ⟨frames, stack, fields, statics, sink⟩ =>
    if slot < statics.size then
      .next ⟨frames, stack, fields, statics.setIfInBounds slot v, sink⟩
    else refuse ⟨frames, stack, fields, statics, sink⟩ offset (.noStatic slot)

/-! ## Instructions -/

/-- Calls a library function. Its result is pushed unless the import is declared without one. -/
def callNative (p : Program) (m : Machine) (offset i : Nat) : Step :=
  match p.image.imports[i]? with
  | none => m.refuse offset (.noImport i)
  | some import_ =>
    match p.natives[i]? with
    | none => m.refuse offset (.unboundImport i)
    | some body =>
      m.popArgs import_.params.length offset fun args m =>
        match m with
        | ⟨frames, stack, fields, statics, sink⟩ =>
          match body.run args.toArray sink with
          | (.error e, sink) =>
            .fault (.native import_.name e) ⟨frames, stack, fields, statics, sink⟩
          | (.ok v, sink) =>
            let stack := if import_.returns.isVoid then stack else v :: stack
            .next ⟨frames, stack, fields, statics, sink⟩

/-- Pushes a computed value. -/
def pushResult (m : Machine) (offset : Nat) (r : Except EvalError Value) : Step :=
  match r with
  | .ok v => .next (m.push v)
  | .error e => .fault (e.fault offset) m

/-- Pops a condition and jumps if it is `wanted`. -/
def branch (m : Machine) (offset target : Nat) (op : Opcode) (wanted : Bool) : Step :=
  m.pop offset fun v m =>
    match v with
    | .bool b => .next (if b = wanted then m.goTo target else m)
    | _ => m.refuse offset (.notACondition op)

/-- Executes the instruction at `offset`. The machine is to go on at `after`, behind it. -/
def execute (p : Program) (i : Code.Instruction) (offset after : Nat) (m : Machine) : Step :=
  match i.op with
  | .constant =>
    m.pushSlot offset ((p.image.constants[i.first]?).map Constant.value) (.noConstant i.first)
  | .pushTrue => .next (m.push (.bool true))
  | .pushFalse => .next (m.push (.bool false))
  | .pop => m.pop offset fun _ m => .next m
  | .dup => m.pushSlot offset m.stack.head? .stackUnderflow
  | .getLocal => m.pushSlot offset (m.local? i.first) (.noLocal i.first)
  | .setLocal => m.pop offset fun v m => m.setLocal offset i.first v
  | .getField => m.pushSlot offset (m.field? i.first) (.noField i.first)
  | .setField => m.pop offset fun v m => m.setField offset i.first v
  | .getStatic => m.pushSlot offset m.statics[i.first]? (.noStatic i.first)
  | .setStatic => m.pop offset fun v m => m.setStatic offset i.first v
  | .jump => .next (m.goTo (after + i.first))
  | .jumpIfFalse => m.branch offset (after + i.first) i.op false
  | .jumpIfTrue => m.branch offset (after + i.first) i.op true
  | .loop =>
    if i.first ≤ after then .next (m.goTo (after - i.first))
    else m.refuse offset .loopBeforeStart
  | .call =>
    match p.method? i.first i.second with
    | none => m.refuse 0 (.noMethod i.first i.second)
    | some f => m.popArgs f.params.length offset fun args m => enter p i.first i.second args m
  | .callNative => m.callNative p offset i.first
  | .ret => m.pop offset fun v m => m.leave (some v)
  | .retVoid => m.leave none
  | op =>
    if op.isUnary then
      m.pop offset fun v m => m.pushResult offset (op.evalUnary p.image.checked v)
    else
      m.pop offset fun right m =>
        m.pop offset fun left m => m.pushResult offset (op.evalBinary p.image.checked left right)

/-- Executes the next instruction. -/
def step (p : Program) (m : Machine) : Step :=
  match m.frames with
  | [] => m.refuse 0 .noFrame
  | f :: _ =>
    match p.method? f.cls f.method with
    | none => m.refuse 0 (.noMethod f.cls f.method)
    | some method =>
      match method.code[f.ip]? with
      | none => m.refuse f.ip .ranPastEnd
      | some byte =>
        match method.code.instructionAt f.ip byte with
        | .error e => m.refuse f.ip (.undecodable e)
        | .ok i => execute p i f.ip (f.ip + i.op.width) (m.goTo (f.ip + i.op.width))

/-! ## Runs -/

/-- How a run ends, and the machine at its end. -/
structure Outcome where
  result : Except Fault Value
  machine : Machine

/-- Runs a machine for so many instructions at most. -/
def run (p : Program) : Nat → Machine → Option Outcome
  | 0, _ => none
  | fuel + 1, m =>
    match step p m with
    | .next m => run p fuel m
    | .done v m => some ⟨.ok v, m⟩
    | .fault f m => some ⟨.error f, m⟩

/-- Runs a method from its beginning on an idle machine. -/
def call (p : Program) (fuel cls method : Nat) (args : List Value) (m : Machine) :
    Option Outcome :=
  match enter p cls method args m with
  | .next m => run p fuel m
  | .done v m => some ⟨.ok v, m⟩
  | .fault f m => some ⟨.error f, m⟩

end Machine
end ClassScript
