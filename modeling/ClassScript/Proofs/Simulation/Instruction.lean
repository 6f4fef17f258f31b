import ClassScript.Proofs.Flow.Expression
import ClassScript.Proofs.Simulation.Run
import ClassScript.Proofs.Source.Expression

/-!
Instructions that do what actions say.

`A.Performs n is before a after` tells that the code `is`, wherever it stands in the method of the
activation `A`, takes the values `before` from the stack, does what the action `a` says, and leaves
the values `after` in their place. Pieces of code are put together as the actions are.
-/

namespace ClassScript

open Code (Instruction)
open Machine (Does GoesTo)

/-- A method at work: the frame that executes it, but for its locals and the place where it stands,
and the frames of its callers. -/
structure Activation where
  program : Program
  cls : Nat
  method : Nat
  image : MethodImage
  found : program.method? cls method = some image
  callers : List Frame

namespace Activation

variable (A : Activation)

def machine (ip : Nat) (stack : List Value) (s : Store) : Machine :=
  ⟨⟨A.cls, A.method, ip, s.locals⟩ :: A.callers, stack, s.heap.fields, s.heap.statics, s.heap.sink⟩

def op? (o : Nat) : Option Instruction := A.image.code.decode? o

def Has : Nat → Asm → Prop
  | _, [] => True
  | o, i :: is => A.op? o = some i ∧ Has (o + i.width) is

/-- Code does what an action says, wherever it stands. -/
def Performs {α : Type} (n : Nat) (is : Asm) (before : List Value) (a : Action Store α)
    (after : α → List Value) : Prop :=
  ∀ ip stack s, A.Has ip is → Does A.program n (A.machine ip (before ++ stack) s)
    (fun x t m => m = A.machine (ip + is.size) (after x ++ stack) t) (a.on s)

variable {A} {o ip n : Nat} {is js ks : Asm} {i : Instruction} {stack : List Value} {s t : Store}

@[simp] theorem has_nil : A.Has o [] := trivial

@[simp] theorem has_cons : A.Has o (i :: is) ↔ A.op? o = some i ∧ A.Has (o + i.width) is := .rfl

@[simp] theorem has_append : A.Has o (is ++ js) ↔ A.Has o is ∧ A.Has (o + is.size) js := by
  induction is generalizing o with
  | nil => simp
  | cons i is ih => simp [ih, and_assoc, Nat.add_assoc]

/-- Code that is spelled stands where it is spelled. -/
theorem has_of_spells {front is back : Asm}
    (h : Layout.Spells A.image.code (front ++ is ++ back)) : A.Has front.size is := by
  induction is generalizing front with
  | nil => trivial
  | cons i is ih =>
    have hfirst : Layout.Spells A.image.code (front ++ i :: (is ++ back)) := by simpa using h
    have hrest : Layout.Spells A.image.code (front ++ [i] ++ is ++ back) := by simpa using h
    refine ⟨Code.decode?_of_spells hfirst, ?_⟩
    simpa using ih hrest

theorem has_of_spells_all {is : Asm} (h : Layout.Spells A.image.code is) : A.Has 0 is := by
  have hall : Layout.Spells A.image.code ([] ++ is ++ []) := by simpa using h
  exact has_of_spells hall

theorem step_eq (h : A.op? ip = some i) : Machine.step A.program (A.machine ip stack s) =
    Machine.execute A.program i ip (ip + i.width) (A.machine (ip + i.width) stack s) := by
  have hfetch : (A.machine ip stack s).fetch? A.program = some i :=
    (Machine.fetch?_eq (f := ⟨A.cls, A.method, ip, s.locals⟩) rfl A.found).trans h
  obtain ⟨f, fs, hframes, hstep⟩ := Machine.step_of_fetch hfetch
  cases hframes
  exact hstep

/-- A conditional jump jumps if the condition is what it waits for. -/
theorem does_truth {α : Type} {op : Opcode} (wanted : Bool) {d : Nat} {v : Value}
    {f : Bool → Action Store α} {post : α → Store → Machine → Prop}
    (hwanted : op = .jumpIfFalse ∧ wanted = false ∨ op = .jumpIfTrue ∧ wanted = true)
    (hop : A.op? ip = some (.unary op d))
    (hf : ∀ b, v = .bool b →
      Does A.program n (A.machine (if b = wanted then ip + 3 + d else ip + 3) stack s) post
        ((f b).on s)) :
    Does A.program n (A.machine ip (v :: stack) s) post ((Action.truth op v >>= f).on s) := by
  have hstep : Machine.step A.program (A.machine ip (v :: stack) s) =
      (A.machine (ip + 3) (v :: stack) s).branch ip (ip + 3 + d) op wanted := by
    obtain ⟨rfl, rfl⟩ | ⟨rfl, rfl⟩ := hwanted <;> exact step_eq hop
  cases v with
  | bool b =>
    refine .step ?_ (hf b rfl)
    rw [hstep]
    by_cases hb : b = wanted
    · simp [Machine.branch, Machine.pop, machine, Machine.goTo, hb]
    · simp [Machine.branch, Machine.pop, machine, hb]
  | _ =>
    rw [Action.on_bind]
    exact .fault hstep rfl rfl

namespace Performs

variable {α β : Type} {a : Action Store α} {f : α → Action Store β} {before more : List Value}
  {after mid : α → List Value} {after' : β → List Value}

/-! ## Code in general -/

theorem nil (after : α → List Value) (x : α) : A.Performs n [] (after x) (pure x) after :=
  fun _ _ _ _ => .pure rfl

/-- One piece of code behind another one. -/
theorem bind (h : A.Performs n is before a mid)
    (hf : ∀ x, A.Performs n js (mid x) (f x) after') :
    A.Performs n (is ++ js) before (a >>= f) after' := by
  intro ip stack s hhas
  obtain ⟨hi, hj⟩ := has_append.mp hhas
  refine (h ip stack s hi).bind fun x t m hm => ?_
  subst hm
  rw [Asm.size_append, ← Nat.add_assoc]
  exact hf x _ stack t hj

/-- Values below those that are taken stay. -/
theorem above (h : A.Performs n is before a after) (more : List Value) :
    A.Performs n is (before ++ more) a (fun x => after x ++ more) := by
  intro ip stack s hhas
  rw [List.append_assoc]
  refine (h ip (more ++ stack) s hhas).imp fun x t m hm => ?_
  rw [hm, List.append_assoc]

/-- The values that are left, said in another way. -/
theorem leaves {a' : Action Store α} {after' : α → List Value} (h : A.Performs n is before a after)
    (ha : a = a') (hafter : ∀ x, after x = after' x) : A.Performs n is before a' after' := by
  obtain rfl : after = after' := funext hafter
  exact ha ▸ h

/-- An instruction that leads to the next one. -/
theorem next {i : Instruction} (after : α → List Value) (v : α)
    (h : ∀ ip stack s, A.op? ip = some i →
    Machine.step A.program (A.machine ip (before ++ stack) s) =
      .next (A.machine (ip + i.width) (after v ++ stack) s)) :
    A.Performs n [i] before (pure v) after :=
  fun ip stack s hhas => .step (h ip stack s hhas.1) (.pure rfl)

/-! ## Values -/

variable {v w : Value}

theorem pop : A.Performs n [.plain .pop] [v] (pure ()) fun _ => [] :=
  .next _ () fun _ _ _ hop => step_eq hop

theorem dup : A.Performs n [.plain .dup] [v] (pure ()) fun _ => [v, v] :=
  .next _ () fun _ _ _ hop => step_eq hop

/-- What is left of a value of a type: nothing if the type is `void`. -/
def left (type : ValueType) (v : Value) : List Value := if type.isVoid then [] else [v]

theorem left_of_ne {type : ValueType} (h : type ≠ .void) (v : Value) : left type v = [v] := by
  cases type <;> first | exact (h rfl).elim | rfl

theorem pushes {T : Tables} (hT : T.constants = A.program.image.constants) (h : Pushes T v is) :
    A.Performs n is [] (pure v) (left v.type) := by
  cases h with
  | void => exact .nil (left ValueType.void) Value.void
  | yes => exact .next _ _ fun _ _ _ hop => step_eq hop
  | no => exact .next _ _ fun _ _ _ hop => step_eq hop
  | @constant j c hc =>
    rw [hT] at hc
    refine .next _ _ fun ip stack s hop => ?_
    have hvalue : (A.program.image.constants[j]?).map Constant.value = some c.value := by rw [hc]; rfl
    have hleft : left c.value.type c.value = [c.value] := by cases c <;> rfl
    rw [step_eq hop, hleft]
    change Machine.pushSlot _ _ ((A.program.image.constants[j]?).map Constant.value) _ = _
    rw [hvalue]
    rfl

/-- An instruction that computes a value. -/
theorem computes {r : Except EvalError Value} (h : ∀ ip stack s, A.op? ip = some i →
    Machine.step A.program (A.machine ip (before ++ stack) s) =
      (A.machine (ip + i.width) stack s).pushResult ip r) :
    A.Performs n [i] before (.compute r) fun w => [w] := by
  intro ip stack s hhas
  have hstep := h ip stack s hhas.1
  cases r with
  | ok w => exact .step hstep (.pure rfl)
  | error e => cases e <;> exact .fault hstep rfl rfl

theorem unary {op : Opcode} {u u' : ValueType} (h : op.unaryType? u = some u') :
    A.Performs n [.plain op] [v] (.compute (op.evalUnary A.program.image.checked v))
      fun w => [w] :=
  computes fun ip stack s hop => by
    rw [step_eq hop, Flow.execute_unary h]
    rfl

theorem binary {op : Opcode} {l r u : ValueType} (h : op.binaryType? l r = some u) :
    A.Performs n [.plain op] [w, v] (.compute (op.evalBinary A.program.image.checked v w))
      fun x => [x] :=
  computes fun ip stack s hop => by
    rw [step_eq hop, Flow.execute_binary h]
    rfl

/-! ## Places -/

/-- An instruction that pushes what is found. -/
theorem finds {a : Action Store Value} {d : CodeDefect} (o : Store → Option Value)
    (ha : ∀ s, a.on s = (Action.found d (o s) : Action Store Value).on s)
    (h : ∀ ip stack s, A.op? ip = some i → Machine.step A.program (A.machine ip stack s) =
      (A.machine (ip + i.width) stack s).pushSlot ip (o s) d) :
    A.Performs n [i] [] a fun v => [v] := by
  intro ip stack s hhas
  have hstep := h ip stack s hhas.1
  rw [ha]
  cases ho : o s with
  | none =>
    rw [ho] at hstep
    exact .fault hstep rfl rfl
  | some v =>
    rw [ho] at hstep
    exact .step hstep (.pure rfl)

theorem loading (place : Place) : A.Performs n [Layout.loading place] [] (Source.read place)
    fun v => [v] := by
  cases place with
  | localVar slot type =>
    refine .finds (d := .noLocal slot) (fun s => s.locals[slot]?) (fun s => ?_)
      fun ip stack s hop => step_eq hop
    simp [Source.read, Action.on_bind]
  | field f =>
    cases hstatic : f.isStatic with
    | true =>
      refine .finds (d := .noStatic f.slot) (fun s => s.heap.statics[f.slot]?) (fun s => ?_)
        fun ip stack s hop => ?_
      · simp [Source.read, hstatic, Action.on_bind]
      · rw [step_eq hop]
        simp only [Layout.loading, Compile.loadOp, hstatic, if_true]
        rfl
    | false =>
      refine .finds (d := .noField f.slot) (fun s => s.heap.fields.bind fun fs => fs[f.slot]?)
        (fun s => ?_) fun ip stack s hop => ?_
      · simp [Source.read, hstatic, Action.on_bind]
      · rw [step_eq hop]
        simp only [Layout.loading, Compile.loadOp, hstatic]
        rfl

/-- An instruction that stores a value, or finds no slot for it. -/
theorem stores {a : Action Store Unit} {d : CodeDefect}
    (h : ∀ ip stack s, A.op? ip = some i →
      (∃ t, a.on s = some (.ok (), t) ∧ Machine.step A.program (A.machine ip (v :: stack) s) =
        .next (A.machine (ip + i.width) stack t)) ∨
      a.on s = (Action.blame d : Action Store Unit).on s ∧
        Machine.step A.program (A.machine ip (v :: stack) s) =
          (A.machine (ip + i.width) stack s).refuse ip d) :
    A.Performs n [i] [v] a fun _ => [] := by
  intro ip stack s hhas
  obtain ⟨t, ha, hstep⟩ | ⟨ha, hstep⟩ := h ip stack s hhas.1
  · rw [ha]
    exact .step hstep (.comes .refl rfl)
  · rw [ha]
    exact .fault hstep rfl rfl

theorem setLocal (slot : Nat) (v : Value) :
    A.Performs n [.unary .setLocal slot] [v] (Source.setLocal slot v) fun _ => [] := by
  refine .stores (d := .noLocal slot) fun ip stack s hop => ?_
  have hstep : Machine.step A.program (A.machine ip (v :: stack) s) =
    (A.machine (ip + 3) stack s).setLocal ip slot v := step_eq hop
  rw [hstep]
  by_cases hslot : slot < s.locals.size
  · exact .inl ⟨{ s with locals := s.locals.setIfInBounds slot v },
      by simp [Source.setLocal, Action.on_bind, hslot], by simp [Machine.setLocal, machine, hslot]; rfl⟩
  · exact .inr ⟨by simp [Source.setLocal, Action.on_bind, hslot],
      by simp [Machine.setLocal, machine, hslot]; rfl⟩

theorem setStatic (slot : Nat) (v : Value) :
    A.Performs n [.unary .setStatic slot] [v] (Source.setStatic slot v) fun _ => [] := by
  refine .stores (d := .noStatic slot) fun ip stack s hop => ?_
  have hstep : Machine.step A.program (A.machine ip (v :: stack) s) =
    (A.machine (ip + 3) stack s).setStatic ip slot v := step_eq hop
  rw [hstep]
  by_cases hslot : slot < s.heap.statics.size
  · exact .inl ⟨{ s with heap.statics := s.heap.statics.setIfInBounds slot v },
      by simp [Source.setStatic, Action.on_bind, hslot], by simp [Machine.setStatic, machine, hslot]; rfl⟩
  · exact .inr ⟨by simp [Source.setStatic, Action.on_bind, hslot],
      by simp [Machine.setStatic, machine, hslot]; rfl⟩

theorem setField (slot : Nat) (v : Value) :
    A.Performs n [.unary .setField slot] [v] (Source.setField slot v) fun _ => [] := by
  refine .stores (d := .noField slot) fun ip stack s hop => ?_
  have hstep : Machine.step A.program (A.machine ip (v :: stack) s) =
    (A.machine (ip + 3) stack s).setField ip slot v := step_eq hop
  rw [hstep]
  obtain ⟨locals, fields, statics, sink⟩ := s
  cases fields with
  | none => exact .inr ⟨by simp [Source.setField, Action.on_bind], rfl⟩
  | some fields =>
    by_cases hslot : slot < fields.size
    · exact .inl ⟨⟨locals, some (fields.setIfInBounds slot v), statics, sink⟩,
        by simp [Source.setField, Action.on_bind, hslot], by simp [Machine.setField, machine, hslot]; rfl⟩
    · exact .inr ⟨by simp [Source.setField, Action.on_bind, hslot],
        by simp [Machine.setField, machine, hslot]; rfl⟩

theorem storing (place : Place) (v : Value) :
    A.Performs n [Layout.storing place] [v] (Source.write place v) fun _ => [] := by
  cases place with
  | localVar slot type => exact .setLocal slot v
  | field f =>
    cases hstatic : f.isStatic with
    | true => simpa [Layout.storing, Compile.storeOp, Source.write, hstatic] using .setStatic f.slot v
    | false => simpa [Layout.storing, Compile.storeOp, Source.write, hstatic] using .setField f.slot v

/-! ## Branches -/

/-- One of two pieces of code, as the condition says. -/
theorem choice {b : Action Store α} (hyes : A.Performs n js before a after)
    (hno : A.Performs n ks before b after) (v : Value) :
    A.Performs n (.unary .jumpIfFalse (js.size + 3) :: js ++ .unary .jump ks.size :: ks)
      (v :: before) (Action.truth .jumpIfFalse v >>= fun c => if c then a else b) after := by
  intro ip stack s hhas
  simp only [List.cons_append, has_cons, has_append, Instruction.width_unary,
    Instruction.width_jumpIfFalse, Instruction.width_jump] at hhas
  obtain ⟨hbranch, hj, hjump, hk⟩ := hhas
  refine does_truth false (.inl ⟨rfl, rfl⟩) hbranch fun c _ => ?_
  have hsize : ip + Asm.size (Instruction.unary .jumpIfFalse (js.size + 3) :: js ++
      .unary .jump ks.size :: ks) = ip + 3 + js.size + 3 + ks.size := by
    simp only [List.cons_append, Asm.size_cons, Asm.size_append, Instruction.width_unary,
      Instruction.width_jumpIfFalse, Instruction.width_jump]
    omega
  rw [hsize]
  cases c with
  | true =>
    refine (hyes (ip + 3) stack s hj).onward fun x t m hm => ?_
    subst hm
    exact ⟨_, .step (step_eq hjump) .refl, rfl⟩
  | false =>
    refine (hno _ stack s hk).imp fun x t m hm => ?_
    rw [hm]

/-- `&&` or `||` behind its left operand, which decides or is dropped. -/
theorem shortCircuit {b : Action Store Value} {op : BinaryOp}
    (h : A.Performs n js [] b fun w => [w]) (v : Value) :
    A.Performs n (.plain .dup ::
        .unary (if op = .logicalAnd then .jumpIfFalse else .jumpIfTrue) (1 + js.size) ::
        .plain .pop :: js) [v]
      (Action.truth (if op = .logicalAnd then .jumpIfFalse else .jumpIfTrue) v >>= fun c =>
        if c = (op == .logicalAnd) then b else pure v) fun w => [w] := by
  intro ip stack s hhas
  have hwidth : (Instruction.unary (if op = .logicalAnd then .jumpIfFalse else .jumpIfTrue)
      (1 + js.size)).width = 3 := by
    rw [Instruction.width_unary]
    split <;> rfl
  have hdup : (Instruction.plain .dup).width = 1 := rfl
  have hpop : (Instruction.plain .pop).width = 1 := rfl
  simp only [has_cons, hwidth, hdup, hpop] at hhas
  obtain ⟨hcopy, hbranch, hdrop, hj⟩ := hhas
  simp only [Asm.size_cons, hwidth, hdup, hpop]
  refine .step (step_eq hcopy) (does_truth (!(op == .logicalAnd)) ?_ hbranch fun c hc => ?_)
  · by_cases hop : op = .logicalAnd <;> simp [hop]
  · subst hc
    by_cases hcond : c = (op == .logicalAnd)
    · rw [if_pos hcond, if_neg (by simp [hcond])]
      refine .step (step_eq hdrop) ?_
      refine (h _ stack s hj).imp fun x t m hm => ?_
      rw [hm]
      congr 1
      omega
    · rw [if_neg hcond, if_pos (by simpa [Bool.eq_not] using hcond)]
      refine .comes .refl ?_
      congr 1
      omega

/-! ## Calls -/

variable {K : Source.Surroundings}

theorem callNative {j : Nat} {imp : NativeImport} {args : List Value}
    (himport : A.program.image.imports[j]? = some imp)
    (hnative : A.program.natives[j]? = some (K.native imp))
    (hargs : args.length = imp.params.length) :
    A.Performs n [.unary .callNative j] args.reverse (Source.callNative K imp args).beside
      (left imp.returns) := by
  intro ip stack s hhas
  have hstep : Machine.step A.program (A.machine ip (args.reverse ++ stack) s) =
    (A.machine (ip + 3) (args.reverse ++ stack) s).callNative A.program ip j := step_eq hhas.1
  have htake := Machine.takeArgs_append args.reverse [] stack
  rw [List.length_reverse, hargs, List.reverse_reverse, List.append_nil] at htake
  simp only [machine, Machine.callNative, himport, hnative, Machine.popArgs, htake] at hstep
  refine .beside ?_
  simp only [Source.callNative, Action.on_bind, Action.on_get, Option.bind_some, Action.follow_ok,
    Action.on_set]
  cases hrun : (K.native imp).run args.toArray s.heap.sink with
  | mk r sink =>
    simp only [hrun] at hstep
    cases r with
    | error e => exact .fault hstep rfl rfl
    | ok v =>
      refine .step hstep (.comes .refl ?_)
      simp only [left, machine]
      split <;> rfl

end Performs

/-- Entering a method does what an action says, and comes back to the caller. -/
def Calls (A : Activation) (n c i : Nat) (args : List Value) (returns : ValueType)
    (a : Action Heap Value) : Prop :=
  ∀ ip stack s m, Machine.step A.program m = Machine.enter A.program c i args (A.machine ip stack s) →
    Does A.program n m (fun v h m' => m' = A.machine ip (Performs.left returns v ++ stack) ⟨s.locals, h⟩)
      (a.on s.heap)

theorem Performs.call {c i : Nat} {f : MethodImage} {args : List Value} {a : Action Heap Value}
    (hf : A.program.method? c i = some f) (hargs : args.length = f.params.length)
    (h : A.Calls n c i args f.returns a) :
    A.Performs n [⟨.call, c, i⟩] args.reverse a.beside (left f.returns) := by
  intro ip stack s hhas
  have hstep : Machine.step A.program (A.machine ip (args.reverse ++ stack) s) =
    Machine.execute A.program ⟨.call, c, i⟩ ip (ip + 5) (A.machine (ip + 5) (args.reverse ++ stack) s) :=
      step_eq hhas.1
  have htake := Machine.takeArgs_append args.reverse [] stack
  rw [List.length_reverse, hargs, List.reverse_reverse, List.append_nil] at htake
  simp only [machine, Machine.execute, hf, Machine.popArgs, htake] at hstep
  exact .beside (h (ip + 5) stack s _ hstep)

end Activation
end ClassScript
