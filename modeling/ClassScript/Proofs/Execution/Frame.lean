import ClassScript.Machine
import ClassScript.Proofs.Execution.Values
import ClassScript.Proofs.Flow.Method

/-!
Machines that run annotated code.

`fetch?` is the instruction that a machine executes next. `Reaches` follows a run and lists, for
every frame, the slots that were stored by it so far; nothing is stored in a frame when it begins.

`Running W b m stored` tells that every frame of `m` that lies above the frames of `b` stands at a
place of its method where a state is known, and that its part of the stack, its locals and the slots
outside are as the state says. How much that is depends on the `Setting`: whether the heights of
stacks are kept track of, and whether types of values are.
-/

namespace ClassScript

open Code (Instruction)

/-! ## Runs step by step -/

namespace Machine

variable {p : Program} {m m' : Machine} {i : Instruction}

def fetch? (p : Program) (m : Machine) : Option Instruction :=
  match m.frames with
  | [] => none
  | f :: _ =>
    (p.method? f.cls f.method).bind fun method =>
      (method.code[f.ip]?).bind fun byte => (method.code.instructionAt f.ip byte).toOption

/-- The slots stored in every frame, the innermost first, after an instruction. -/
def storedBy (i : Instruction) (stored : List (List Nat)) : List (List Nat) :=
  match i.op, stored with
  | .setLocal, slots :: rest => (i.first :: slots) :: rest
  | .call, _ => [] :: stored
  | .ret, _ :: rest | .retVoid, _ :: rest => rest
  | _, _ => stored

/-- A slot of the innermost frame is a parameter, or was stored in it. -/
def HasStored (p : Program) (m : Machine) (stored : List (List Nat)) (n : Nat) : Prop :=
  match m.frames, stored with
  | f :: _, slots :: _ =>
    ∃ method, p.method? f.cls f.method = some method ∧ (n < method.params.length ∨ n ∈ slots)
  | _, _ => False

inductive Reaches (p : Program) (m : Machine) (stored : List (List Nat)) :
    Machine → List (List Nat) → Prop
  | refl : Reaches p m stored m stored
  | step {m' m'' : Machine} {stored' : List (List Nat)} {i : Instruction}
      (h : Reaches p m stored m' stored') (hi : m'.fetch? p = some i)
      (hstep : step p m' = .next m'') : Reaches p m stored m'' (storedBy i stored')

/-- A machine with an instruction executes it in front of the place behind it. -/
theorem step_of_fetch (h : m.fetch? p = some i) : ∃ f fs, m.frames = f :: fs ∧
    step p m = execute p i f.ip (f.ip + i.width) (m.goTo (f.ip + i.width)) := by
  unfold fetch? at h
  split at h
  · cases h
  · next f fs hframes =>
    obtain ⟨method, hmethod, h⟩ := Option.bind_eq_some_iff.mp h
    obtain ⟨byte, hbyte, h⟩ := Option.bind_eq_some_iff.mp h
    refine ⟨f, fs, hframes, ?_⟩
    cases hi : method.code.instructionAt f.ip byte with
    | error e =>
      rw [hi] at h
      cases h
    | ok j =>
      rw [hi] at h
      cases h
      unfold step
      simp only [hframes, hmethod, hbyte, hi]
      rfl

/-- Code that spells an instruction behind others has it there. -/
theorem fetch_of_spells {f : Frame} {fs : List Frame} {g : MethodImage} {front back : Asm}
    (hframes : m.frames = f :: fs) (hmethod : p.method? f.cls f.method = some g)
    (hspells : Layout.Spells g.code (front ++ i :: back)) (hip : f.ip = front.size) :
    m.fetch? p = some i := by
  obtain ⟨hcode, hfits⟩ := hspells
  have hi : i.Fits := hfits i (List.mem_append_right _ List.mem_cons_self)
  rw [Asm.bytes_append, Asm.bytes_cons] at hcode
  have hdecode := Code.instructionAt_of_toList _ _ hi hcode
  have hbyte : g.code[front.bytes.length]? = some i.op.byte :=
    Code.getElem?_of_toList _ (i.operands ++ Asm.bytes back) hcode
  rw [Asm.length_bytes, ← hip] at hdecode hbyte
  unfold fetch?
  rw [hframes]
  simp only [hmethod, Option.bind_some, hbyte, hdecode]
  rfl

end Machine

/-- Every import is bound to a function whose results have the type that the import declares. -/
def Program.Sound (p : Program) : Prop :=
  ∀ (j : Nat) (i : NativeImport), p.image.imports[j]? = some i → ∃ body, p.natives[j]? = some body ∧
    ∀ args sink v sink', body.run args sink = (.ok v, sink') → v.type = i.returns

namespace Flow

open Machine

/-! ## Settings -/

structure Note where
  /-- The types of the slots of a frame. -/
  types : List ValueType
  /-- Slots that may be read before they are stored. -/
  loose : List Nat
  code : Asm
  /-- Where its statements stand. -/
  statements : List Layout.Extent
  known : Nat → Option State

structure Notes (m : Image) (sane : Prop) where
  note : Nat → Nat → Note
  annotated : ∀ (c i : Nat) (f : MethodImage), m.method? c i = some f →
    Annotated (contextOf m c f (note c i).types (note c i).loose sane) f (note c i).code
      (note c i).statements (note c i).known

structure Setting where
  program : Program
  /-- The heights of stacks are. -/
  sane : Prop
  /-- The types of values are. -/
  strict : Prop
  notes : Notes program.image sane
  /-- The class of the receiver, if there is one. -/
  home : Option Nat
  sane_of_strict : strict → sane
  sound : strict → program.Sound

namespace Setting

variable (W : Setting)

abbrev note (c i : Nat) : Note := W.notes.note c i

abbrev context (f : Frame) (g : MethodImage) : Context :=
  contextOf W.program.image f.cls g (W.note f.cls f.method).types (W.note f.cls f.method).loose W.sane

abbrev known (f : Frame) : Nat → Option State := (W.note f.cls f.method).known

end Setting

variable {W : Setting}

/-! ## The stack -/

/-- Values of some types lie on a stack above the rest of it. -/
def Upon (W : Setting) (rest stack : List Value) (ts : List ValueType) : Prop :=
  W.sane → ∃ vs, stack = vs ++ rest ∧ HoldsAll W.strict vs ts

namespace Upon

variable {rest stack : List Value} {t : ValueType} {ts us : List ValueType} {v : Value}

theorem push (h : Upon W rest stack ts) (hv : Holds W.strict v t) :
    Upon W rest (v :: stack) (t :: ts) := by
  intro hsane
  obtain ⟨vs, rfl, hvs⟩ := h hsane
  exact ⟨v :: vs, rfl, .cons hv hvs⟩

theorem pop (h : Upon W rest (v :: stack) us) (hs : W.sane → us = t :: ts) :
    Holds W.strict v t ∧ Upon W rest stack ts := by
  have popped (hsane : W.sane) : Holds W.strict v t ∧ Upon W rest stack ts := by
    obtain ⟨vs, hvs, hall⟩ := h hsane
    rw [hs hsane] at hall
    cases hall with
    | cons hv htail =>
      obtain ⟨rfl, rfl⟩ := List.cons.inj hvs
      exact ⟨hv, fun _ => ⟨_, rfl, htail⟩⟩
  exact ⟨fun hstrict => (popped (W.sane_of_strict hstrict)).1 hstrict,
    fun hsane => (popped hsane).2 hsane⟩

/-- A stack with a value on it is not empty. -/
theorem ne_nil (h : Upon W rest [] us) (hs : W.sane → us = t :: ts) : ¬ W.sane := by
  intro hsane
  obtain ⟨vs, hvs, hall⟩ := h hsane
  rw [hs hsane] at hall
  cases hall
  cases hvs

theorem below {us : List ValueType} (h : Upon W rest stack us) (hs : W.sane → us = ts) :
    Upon W rest stack ts := by
  intro hsane
  rw [← hs hsane]
  exact h hsane

/-- Arguments that are taken from a stack. -/
theorem take {params : List ValueType} {taken : List Value} (h : Upon W rest (taken ++ stack) us)
    (hlength : taken.length = params.length) (hs : W.sane → us = params.reverse ++ ts) :
    (W.strict → taken.reverse.map (·.type) = params) ∧ Upon W rest stack ts := by
  have split (hsane : W.sane) : HoldsAll W.strict taken.reverse params ∧ Upon W rest stack ts := by
    obtain ⟨vs, hvs, hall⟩ := h hsane
    rw [hs hsane] at hall
    obtain ⟨as, bs, rfl, has, hbs⟩ := hall.split
    have hlengths : taken.length = as.length := by
      rw [hlength, has.length_eq, List.length_reverse]
    rw [List.append_assoc] at hvs
    obtain ⟨rfl, rfl⟩ := List.append_inj hvs hlengths
    exact ⟨by simpa using has.reverse, fun _ => ⟨bs, rfl, hbs⟩⟩
  exact ⟨fun hstrict => (split (W.sane_of_strict hstrict)).1.types hstrict,
    fun hsane => (split hsane).2 hsane⟩

/-- As many values as are known lie on a stack. -/
theorem length_le {n : Nat} (h : Upon W rest stack us) (hs : W.sane → n ≤ us.length)
    (hsane : W.sane) : n ≤ stack.length := by
  obtain ⟨vs, rfl, hall⟩ := h hsane
  have := hs hsane
  rw [List.length_append, hall.length_eq]
  omega

end Upon

/-! ## Slots outside of frames -/

/-- Fields of the receiver and static slots hold values of their types. -/
structure Kept (W : Setting) (fields : Option (Array Value)) (statics : Array Value) : Prop where
  statics : W.strict → statics.toList.map (·.type) = W.program.image.staticTypes
  fields : W.strict → ∀ c, W.home = some c →
    ∃ fs, fields = some fs ∧ fs.toList.map (·.type) = W.program.image.fieldTypes c

theorem types_setIfInBounds {vs : Array Value} {ts : List ValueType} {n : Nat} {v : Value}
    (h : vs.toList.map (·.type) = ts) (ht : ts[n]? = some v.type) :
    (vs.setIfInBounds n v).toList.map (·.type) = ts := by
  obtain ⟨hn, ht⟩ := List.getElem?_eq_some_iff.mp ht
  rw [Array.toList_setIfInBounds, List.map_set, h, ← ht, List.set_getElem_self]

theorem type_of_getElem? {vs : Array Value} {ts : List ValueType} {n : Nat} {t : ValueType}
    (h : vs.toList.map (·.type) = ts) (ht : ts[n]? = some t) :
    ∃ v, vs[n]? = some v ∧ v.type = t := by
  rw [← h, List.getElem?_map] at ht
  obtain ⟨v, hv, rfl⟩ := Option.map_eq_some_iff.mp ht
  exact ⟨v, Array.getElem?_toList ▸ hv, rfl⟩

/-! ## Frames -/

/-- A frame stands at a place of its method where a state is known. -/
structure Stands (W : Setting) (f : Frame) (slots : List Nat) (g : MethodImage) (s : State) :
    Prop where
  method : W.program.method? f.cls f.method = some g
  known : W.known f f.ip = some s
  live : s.live = true
  stored : ∀ n, s.stored n → n < g.params.length ∨ n ∈ slots
  size : f.locals.size = (W.note f.cls f.method).types.length
  locals : ∀ n v t, n < g.params.length ∨ n ∈ slots → f.locals[n]? = some v →
    (W.note f.cls f.method).types[n]? = some t → Holds W.strict v t
  home : g.isStatic = false → W.home = some f.cls

/-- Where a run begins: the frames and the stack that it leaves alone, and the type of the result
of the call above them. -/
structure Base where
  frames : List Frame
  stored : List (List Nat)
  stack : List Value
  returns : ValueType

/-- Frames of suspended calls. Each expects the result of the call above it. -/
inductive Callers (W : Setting) (b : Base) :
    List Frame → List (List Nat) → List Value → ValueType → Prop
  | base : Callers W b b.frames b.stored b.stack b.returns
  | frame {f : Frame} {fs : List Frame} {slots : List Nat} {stored : List (List Nat)}
      {g : MethodImage} {s : State} {r : ValueType} {ts : List ValueType} {stack rest : List Value}
      (hstands : Stands W f slots g s) (htop : s.top = none)
      (hs : W.sane → s.stack = returned r ++ ts) (hstack : Upon W rest stack ts)
      (h : Callers W b fs stored rest g.returns) : Callers W b (f :: fs) (slots :: stored) stack r

inductive Running (W : Setting) (b : Base) : Machine → List (List Nat) → Prop
  | intro {f : Frame} {fs : List Frame} {slots : List Nat} {stored : List (List Nat)}
      {g : MethodImage} {s : State} {stack rest : List Value} {fields : Option (Array Value)}
      {statics : Array Value} {sink : Sink} (hstands : Stands W f slots g s)
      (htop : ∀ c, s.top = some c → stack.head? = some (.bool c))
      (hstack : Upon W rest stack s.stack) (hcallers : Callers W b fs stored rest g.returns)
      (hkept : Kept W fields statics) :
      Running W b ⟨f :: fs, stack, fields, statics, sink⟩ (slots :: stored)

/-! ## Outcomes of a step -/

def Permitted (W : Setting) : Fault → Prop
  | .invalidCode _ d => ¬ W.strict ∧ (W.sane → d ≠ .stackUnderflow)
  | _ => True

inductive Proceeds (W : Setting) (b : Base) (stored : List (List Nat)) : Step → Prop
  | next {m : Machine} (h : Running W b m stored) : Proceeds W b stored (.next m)
  /-- The frames of the run are left, with the result of the lowest one on the stack. -/
  | left {result : Option Value} {stack : List Value} {fields : Option (Array Value)}
      {statics : Array Value} {sink : Sink} (hframes : b.frames ≠ [])
      (hresult : HoldsAll W.strict result.toList (returned b.returns))
      (hstack : W.sane → stack = result.toList ++ b.stack) (hkept : Kept W fields statics) :
      Proceeds W b stored (.next ⟨b.frames, stack, fields, statics, sink⟩)
  | done {v : Value} {m : Machine} (hframes : b.frames = []) (hv : Holds W.strict v b.returns)
      (hkept : Kept W m.fields m.statics) : Proceeds W b stored (.done v m)
  | fault {e : Fault} {m : Machine} (he : Permitted W e) (hkept : Kept W m.fields m.statics) :
      Proceeds W b stored (.fault e m)

end Flow
end ClassScript
