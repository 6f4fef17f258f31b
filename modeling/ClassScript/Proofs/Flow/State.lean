import ClassScript.Evaluation
import ClassScript.Image.Verify
import ClassScript.Proofs.Assembly

/-!
What is known between two instructions of a method, and what every instruction does to it.

`Executes Γ s i w` tells that the instruction `i` names things that exist, may be executed where `s`
is known, and leads to the states `w`. Types on the stack count only if calls of library functions
are known to pass what they take, `Γ.sane`; which locals are stored is known in any case.
-/

namespace ClassScript

open Code (Instruction)

/-! ## Types in an image -/

namespace Image

def method? (m : Image) (cls method : Nat) : Option MethodImage :=
  (m.classes[cls]?).bind fun c => c.methods[method]?

def staticTypes (m : Image) : List ValueType :=
  m.classes.toList.flatMap fun c => (c.fields.toList.filter (·.isStatic)).map (·.type)

def fieldTypes (m : Image) (cls : Nat) : List ValueType :=
  ((m.classes[cls]?).map fun c => c.instanceFields.map (·.type)).getD []

end Image

namespace Opcode

def unaryType? : Opcode → ValueType → Option ValueType
  | negI32, .int => some .int
  | negI64, .long => some .long
  | negF64, .double => some .double
  | not, .bool => some .bool
  | i32ToI64, .int => some .long
  | i32ToF64, .int => some .double
  | i64ToF64, .long => some .double
  | strLen, .string => some .int
  | toStr, t => if t.isVoid then none else some .string
  | _, _ => none

def binaryType? (op : Opcode) (left right : ValueType) : Option ValueType :=
  match op.arith?, op.order? with
  | some (t, _), _ => if left = t ∧ right = t then some t else none
  | none, some (t, _) => if left = t ∧ right = t then some .bool else none
  | none, none =>
    match op with
    | .concat => if left = .string ∧ right = .string then some .string else none
    | .eq | .ne => if left = right ∧ left ≠ .void then some .bool else none
    | _ => none

end Opcode

def returned (t : ValueType) : List ValueType := if t.isVoid then [] else [t]

namespace Flow

/-! ## States -/

structure State where
  /-- The types on the stack, the top first. -/
  stack : List ValueType
  /-- The value on top, if it was pushed just now and is a known condition. -/
  top : Option Bool
  /-- The place can be reached. -/
  live : Bool
  /-- The locals that are stored. -/
  stored : Nat → Prop

namespace State

def restack (s : State) (stack : List ValueType) : State := ⟨stack, none, s.live, s.stored⟩

@[simp] theorem stack_restack (s : State) (ts : List ValueType) : (s.restack ts).stack = ts := rfl

@[simp] theorem top_restack (s : State) (ts : List ValueType) : (s.restack ts).top = none := rfl

@[simp] theorem live_restack (s : State) (ts : List ValueType) : (s.restack ts).live = s.live := rfl

@[simp] theorem stored_restack (s : State) (ts : List ValueType) : (s.restack ts).stored = s.stored := rfl

@[simp] theorem restack_restack (s : State) (ts us : List ValueType) : (s.restack ts).restack us = s.restack us := rfl

end State

structure Context where
  image : Image
  cls : Nat
  /-- There is no receiver. -/
  isStatic : Bool
  returns : ValueType
  /-- The types of the slots of a frame. -/
  locals : List ValueType
  /-- Slots that may be read before they are stored. -/
  loose : Nat → Prop
  /-- Calls of library functions pass what they take. -/
  sane : Prop

variable {Γ : Context} {s t u : State}

/-- Whatever is known in `t` is known in `s`. -/
structure Below (Γ : Context) (s t : State) : Prop where
  stack : Γ.sane → s.stack = t.stack
  top : t.top = none ∨ t.top = s.top
  live : s.live = true → t.live = true
  stored : s.live = true → ∀ n, t.stored n → s.stored n

namespace Below

theorem refl (s : State) : Below Γ s s := ⟨fun _ => rfl, .inr rfl, id, fun _ _ => id⟩

theorem trans (h : Below Γ s t) (h' : Below Γ t u) : Below Γ s u where
  stack hs := (h.stack hs).trans (h'.stack hs)
  top := by
    obtain hu | hu := h'.top
    · exact .inl hu
    · rw [hu]
      exact h.top
  live hs := h'.live (h.live hs)
  stored hs n hn := h.stored hs n (h'.stored (h.live hs) n hn)

end Below

/-! ## Instructions -/

/-- Where an instruction leads: to the one behind it and to the target of its jump, or not. -/
structure Ways where
  next : Option State
  jump : Option State

def Ways.on (s : State) : Ways := ⟨some s, none⟩

/-- The ways behind a condition that is popped; it jumps if it is `wanted`. -/
def Ways.branch (s : State) (stack : List ValueType) (wanted : Bool) : Ways where
  next := some ⟨stack, none, s.live && s.top != some wanted, s.stored⟩
  jump := some ⟨stack, none, s.live && s.top != some !wanted, s.stored⟩

/-- An instruction names things that exist, may be executed in a state, and leads to others. -/
inductive Executes (Γ : Context) (s : State) : Instruction → Ways → Prop
  | constant {n : Nat} {c : Constant} (h : Γ.image.constants[n]? = some c) :
      Executes Γ s (.unary .constant n) (.on (s.restack (c.type :: s.stack)))
  | pushTrue : Executes Γ s (.plain .pushTrue) (.on ⟨.bool :: s.stack, some true, s.live, s.stored⟩)
  | pushFalse :
      Executes Γ s (.plain .pushFalse) (.on ⟨.bool :: s.stack, some false, s.live, s.stored⟩)
  | pop {t : ValueType} {ts : List ValueType} (hs : Γ.sane → s.stack = t :: ts) :
      Executes Γ s (.plain .pop) (.on (s.restack ts))
  | dup {t : ValueType} {ts : List ValueType} (hs : Γ.sane → s.stack = t :: ts) :
      Executes Γ s (.plain .dup) (.on (s.restack (t :: t :: ts)))
  | getLocal {n : Nat} {t : ValueType} (h : Γ.locals[n]? = some t)
      (hread : s.live = true → s.stored n ∨ Γ.loose n) :
      Executes Γ s (.unary .getLocal n) (.on (s.restack (t :: s.stack)))
  | setLocal {n : Nat} {t : ValueType} {ts : List ValueType} (h : Γ.locals[n]? = some t)
      (hs : Γ.sane → s.stack = t :: ts) :
      Executes Γ s (.unary .setLocal n) (.on ⟨ts, none, s.live, fun k => k = n ∨ s.stored k⟩)
  | getField {n : Nat} {t : ValueType} (h : (Γ.image.fieldTypes Γ.cls)[n]? = some t)
      (hr : Γ.isStatic = false) :
      Executes Γ s (.unary .getField n) (.on (s.restack (t :: s.stack)))
  | setField {n : Nat} {t : ValueType} {ts : List ValueType}
      (h : (Γ.image.fieldTypes Γ.cls)[n]? = some t) (hr : Γ.isStatic = false)
      (hs : Γ.sane → s.stack = t :: ts) :
      Executes Γ s (.unary .setField n) (.on (s.restack ts))
  | getStatic {n : Nat} {t : ValueType} (h : Γ.image.staticTypes[n]? = some t) :
      Executes Γ s (.unary .getStatic n) (.on (s.restack (t :: s.stack)))
  | setStatic {n : Nat} {t : ValueType} {ts : List ValueType}
      (h : Γ.image.staticTypes[n]? = some t) (hs : Γ.sane → s.stack = t :: ts) :
      Executes Γ s (.unary .setStatic n) (.on (s.restack ts))
  | unary {op : Opcode} {t t' : ValueType} {ts : List ValueType} (h : op.unaryType? t = some t')
      (hs : Γ.sane → s.stack = t :: ts) : Executes Γ s (.plain op) (.on (s.restack (t' :: ts)))
  | binary {op : Opcode} {l r t : ValueType} {ts : List ValueType} (h : op.binaryType? l r = some t)
      (hs : Γ.sane → s.stack = r :: l :: ts) : Executes Γ s (.plain op) (.on (s.restack (t :: ts)))
  | jump {d : Nat} : Executes Γ s (.unary .jump d) ⟨none, some s⟩
  | loop {d : Nat} : Executes Γ s (.unary .loop d) ⟨none, some s⟩
  | jumpIfFalse {d : Nat} {ts : List ValueType} (hs : Γ.sane → s.stack = .bool :: ts) :
      Executes Γ s (.unary .jumpIfFalse d) (.branch s ts false)
  | jumpIfTrue {d : Nat} {ts : List ValueType} (hs : Γ.sane → s.stack = .bool :: ts) :
      Executes Γ s (.unary .jumpIfTrue d) (.branch s ts true)
  | call {c j : Nat} {f : MethodImage} {ts : List ValueType} (h : Γ.image.method? c j = some f)
      (hr : f.isStatic = true ∨ c = Γ.cls ∧ Γ.isStatic = false)
      (hs : Γ.sane → s.stack = f.params.reverse ++ ts) :
      Executes Γ s ⟨.call, c, j⟩ (.on (s.restack (returned f.returns ++ ts)))
  | callNative {n : Nat} {i : NativeImport} {ts : List ValueType}
      (h : Γ.image.imports[n]? = some i) (hs : Γ.sane → s.stack = i.params.reverse ++ ts) :
      Executes Γ s (.unary .callNative n) (.on (s.restack (returned i.returns ++ ts)))
  | ret (hr : Γ.returns ≠ .void) (hs : Γ.sane → s.stack = [Γ.returns]) :
      Executes Γ s (.plain .ret) ⟨none, none⟩
  | retVoid (hr : Γ.returns = .void) (hs : Γ.sane → s.stack = []) :
      Executes Γ s (.plain .retVoid) ⟨none, none⟩

end Flow
end ClassScript
