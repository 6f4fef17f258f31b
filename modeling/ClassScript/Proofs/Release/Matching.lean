import ClassScript.Proofs.Release.Layout
import ClassScript.Proofs.Simulation.Statement

/-!
Places in two pieces of code from which the same is executed.

`Matches f g k known o p` tells that machines which stand at the offsets `o` and `p` of two methods
go through the same `k` instructions, but for the distances of their jumps. Where a condition was
pushed just now it is `known`, and the way that it does not take need not match. The code of an
expression matches itself wherever it stands. The code of a statement that is reached matches its
code in a release: `Parallels` is closed under the ways statements are put together, and what is not
reached has no part in it.
-/

namespace ClassScript

open Code (Instruction)
open Compile Layout Flow
open Layout.Fragment

/-! ## Instructions -/

namespace Opcode

def isStraight : Opcode → Bool
  | jump | jumpIfFalse | jumpIfTrue | loop | ret | retVoid => false
  | _ => true

def pushes? : Opcode → Option Bool
  | pushTrue => some true
  | pushFalse => some false
  | _ => none

def awaits? : Opcode → Option Bool
  | jumpIfFalse => some false
  | jumpIfTrue => some true
  | _ => none

theorem isStraight_of_unaryType? {op : Opcode} {a b : ValueType} (h : op.unaryType? a = some b) :
    op.isStraight = true := by
  cases op <;> first | rfl | simp [unaryType?] at h

theorem isStraight_of_binaryType? {op : Opcode} {a b c : ValueType}
    (h : op.binaryType? a b = some c) : op.isStraight = true := by
  cases op <;> first | rfl | simp [binaryType?, arith?, order?] at h

theorem isStraight_loadOp (f : FieldSymbol) : (loadOp f).isStraight = true := by
  unfold loadOp
  split <;> rfl

theorem isStraight_storeOp (f : FieldSymbol) : (storeOp f).isStraight = true := by
  unfold storeOp
  split <;> rfl

end Opcode

/-! ## Matching places -/

def JumpsTo (f : Nat → Option Instruction) (o target : Nat) : Prop :=
  (∃ d, f o = some (.unary .jump d) ∧ target = o + 3 + d) ∨
    ∃ d, f o = some (.unary .loop d) ∧ o + 3 = target + d

/-- The same instruction stands at two places, and leads to places that `R` relates. -/
inductive Meet (f g : Nat → Option Instruction) (R : Option Bool → Nat → Nat → Prop)
    (known : Option Bool) (o p : Nat) : Prop
  | straight {i : Instruction} (hf : f o = some i) (hg : g p = some i)
      (hi : i.op.isStraight = true) (hnext : R i.op.pushes? (o + i.width) (p + i.width)) :
      Meet f g R known o p
  | returns {op : Opcode} (hf : f o = some (.plain op)) (hg : g p = some (.plain op))
      (hop : op = .ret ∨ op = .retVoid) : Meet f g R known o p
  | jumps {o' p' : Nat} (hf : JumpsTo f o o') (hg : JumpsTo g p p') (hnext : R none o' p') :
      Meet f g R known o p
  | branches {op : Opcode} {d e : Nat} {wanted : Bool} (hop : op.awaits? = some wanted)
      (hf : f o = some (.unary op d)) (hg : g p = some (.unary op e))
      (hjump : known ≠ some !wanted → R none (o + 3 + d) (p + 3 + e))
      (hnext : known ≠ some wanted → R none (o + 3) (p + 3)) : Meet f g R known o p

/-- From two places on the same `k` instructions are executed, but for the distances of jumps. -/
def Matches (f g : Nat → Option Instruction) : Nat → Option Bool → Nat → Nat → Prop
  | 0, _, _, _ => True
  | k + 1, known, o, p => Meet f g (Matches f g k) known o p

variable {f g : Nat → Option Instruction} {known : Option Bool} {k o p : Nat}

theorem Meet.imp {R S : Option Bool → Nat → Nat → Prop} (h : Meet f g R known o p)
    (hRS : ∀ known o p, R known o p → S known o p) : Meet f g S known o p := by
  cases h with
  | straight hf hg hi hnext => exact .straight hf hg hi (hRS _ _ _ hnext)
  | returns hf hg hop => exact .returns hf hg hop
  | jumps hf hg hnext => exact .jumps hf hg (hRS _ _ _ hnext)
  | branches hop hf hg hjump hnext =>
    exact .branches hop hf hg (fun h => hRS _ _ _ (hjump h)) fun h => hRS _ _ _ (hnext h)

namespace Matches

theorem of_succ (h : Matches f g (k + 1) known o p) : Matches f g k known o p := by
  induction k generalizing known o p with
  | zero => trivial
  | succ k ih => exact Meet.imp h fun _ _ _ => ih

theorem meet (h : Meet f g (Matches f g k) known o p) : Matches f g k known o p :=
  of_succ (k := k) h

/-- Where nothing is known, something may be known as well. -/
theorem knowing (h : Matches f g k none o p) (known : Option Bool) :
    Matches f g k known o p := by
  cases k with
  | zero => trivial
  | succ k =>
    cases h with
    | straight hf hg hi hnext => exact .straight hf hg hi hnext
    | returns hf hg hop => exact .returns hf hg hop
    | jumps hf hg hnext => exact .jumps hf hg hnext
    | branches hop hf hg hjump hnext =>
      exact .branches hop hf hg (fun _ => hjump (by simp)) fun _ => hnext (by simp)

/-- Jumps match one instruction earlier than the places they lead to. -/
theorem jump {o' p' : Nat} (hf : JumpsTo f o o') (hg : JumpsTo g p p')
    (h : Matches f g k none o' p') : Matches f g (k + 1) none o p := .jumps hf hg h

end Matches

/-! ## The code of expressions -/

/-- Code that is left at its end only: its jumps lead forward to places in it. -/
inductive Onward : Asm → Prop
  | nil : Onward []
  | straight {i : Instruction} {is : Asm} (hi : i.op.isStraight = true) (h : Onward is) :
      Onward (i :: is)
  | jump {d : Nat} {is : Asm} (hd : Boundary (ops is) d) (h : Onward is) :
      Onward (.unary .jump d :: is)
  | branch {op : Opcode} {d : Nat} {wanted : Bool} {is : Asm} (hop : op.awaits? = some wanted)
      (hd : Boundary (ops is) d) (h : Onward is) : Onward (.unary op d :: is)

namespace Onward

variable {is js : Asm}

theorem append (h : Onward is) (h' : Onward js) : Onward (is ++ js) := by
  induction h with
  | nil => exact h'
  | straight hi _ ih => exact .straight hi ih
  | jump hd _ ih => exact .jump (by simpa using hd.left (ops js)) ih
  | branch hop hd _ ih => exact .branch hop (by simpa using hd.left (ops js)) ih

theorem single {i : Instruction} (hi : i.op.isStraight = true) : Onward [i] := .straight hi .nil

theorem converted {a b : ValueType} {code : Option Opcode} (h : Turns a b code) :
    Onward (Layout.converted code) := by
  cases code with
  | none => exact .nil
  | some op => exact .single (Opcode.isStraight_of_unaryType? h)

theorem widening (a b : ValueType) : Onward (Layout.converted (Conversion.widening? a b)) := by
  cases h : Conversion.implicit? a b with
  | none =>
    rw [Conversion.widening?, h]
    exact .nil
  | some c =>
    rw [Conversion.widening?, h]
    exact .converted (implicit_turns h).1

theorem loading (place : Place) : Onward [Layout.loading place] := by
  cases place with
  | localVar => exact .single rfl
  | field f => exact .single (Opcode.isStraight_loadOp f)

theorem storing (place : Place) : Onward [Layout.storing place] := by
  cases place with
  | localVar => exact .single rfl
  | field f => exact .single (Opcode.isStraight_storeOp f)

theorem kept (wanted : Bool) : Onward (Layout.kept wanted) := by
  cases wanted with
  | false => exact .nil
  | true => exact .single rfl

theorem counting {place : Place} (hn : place.type.isNumeric = true) (up front : Bool) (use : Use)
    (h : Onward is) : Onward (Layout.counting place up front use is) := by
  have hstep : Onward [Instruction.plain (stepOp place.type up)] :=
    .single (Opcode.isStraight_of_binaryType? (stepOp_typed up hn))
  have := (loading place).append (((kept (!front && use != .discarded)).append h).append
    (hstep.append ((kept (front && use != .discarded)).append (storing place))))
  simpa [Layout.counting] using this

theorem compound {plan : BinaryPlan} {a b : ValueType} (hplan : PlanTyped plan a b)
    (h : Onward is) (h' : Onward js) (place : Place) (wanted : Bool) :
    Onward (is ++ Layout.loading place :: Layout.converted plan.left ++
      (js ++ Layout.converted plan.right) ++ .plain plan.op :: Layout.kept wanted ++
      [Layout.storing place]) := by
  have hop : Onward [Instruction.plain plan.op] :=
    .single (Opcode.isStraight_of_binaryType? hplan.op)
  have hleft := (loading place).append (converted hplan.left)
  have hright := h'.append (converted hplan.right)
  have hstore := hop.append ((kept wanted).append (storing place))
  simpa using h.append (hleft.append (hright.append hstore))

theorem passing {items : List (Asm × Pushed)} (h : ∀ x ∈ items, Onward x.1) (ts : List ValueType) :
    Onward (Layout.passing items ts) := by
  induction items generalizing ts with
  | nil => exact .nil
  | cons x items ih =>
    have hfirst := h x List.mem_cons_self
    have hrest (ts) := ih (fun y hy => h y (List.mem_cons_of_mem _ hy)) ts
    cases ts with
    | nil => exact hfirst.append (hrest [])
    | cons t ts => exact (hfirst.append (widening _ _)).append (hrest ts)

/-- One piece of code or another one. -/
theorem choice (h : Onward is) (h' : Onward js) :
    Onward (.unary .jumpIfFalse (is.size + 3) :: is ++ .unary .jump js.size :: js) := by
  have hjump : Onward (.unary .jump js.size :: js) :=
    .jump (by simpa using Boundary.size (ops js)) h'
  have hop : Opcode.jumpIfFalse.awaits? = some false := rfl
  refine .branch hop ?_ (h.append hjump)
  have hstart : Boundary (ops (.unary .jump js.size :: js)) 3 :=
    .inr ⟨0, rfl, .zero _⟩
  simpa using hstart.right (ops is)

/-- A second condition that is looked at only if the first one does not decide. -/
theorem shortCircuit {op : Opcode} {wanted : Bool} (hop : op.awaits? = some wanted)
    (h : Onward is) :
    Onward (.plain .dup :: .unary op (1 + is.size) :: .plain .pop :: is) := by
  refine .straight rfl (.branch hop ?_ (.straight rfl h))
  have hstop := Boundary.size (ops is)
  rw [size_ops] at hstop
  exact .inr ⟨is.size, rfl, hstop⟩

end Onward

namespace Layout

variable {T : Tables} {site : Site} {locals : LocalScope} {p p' : Pushed}

/-- Code of a value that is left at its end only. A known value is pushed by itself. -/
structure Sheer (T : Tables) (is : Asm) (p : Pushed) : Prop where
  onward : Onward is
  known : ∀ v, p.constant = some v → p.type = v.type ∧ Pushes T v is

/-- Code that is left at its end only, of an expression that means what is proper. -/
structure SheerName (T : Tables) (site : Site) (locals : LocalScope) (is : Asm) (m : Meaning) :
    Prop where
  proper : Proper site locals m
  onward : Onward is
  settled : Settled T is m

theorem Sheer.pushes {v : Value} {is : Asm} (h : Pushes T v is) (o : Nat) :
    Sheer T is (.known v o) where
  onward := by
    cases h with
    | void => exact .nil
    | yes | no | constant => exact .single rfl
  known w hw := by
    cases hw
    exact ⟨rfl, h⟩

theorem Sheer.unknown {is : Asm} (h : Onward is) (type : ValueType) (o : Nat) :
    Sheer T is (.unknown type o) := ⟨h, nofun⟩

theorem Sheer.name {is : Asm} (h : Sheer T is p) : SheerName T site locals is (.value p) :=
  ⟨trivial, h.onward, h.known⟩

theorem Sheer.coerces {is js : Asm} (h : Sheer T is p) {type : ValueType}
    (hc : Coerces T p is type js p') : Sheer T js p' := by
  cases hc with
  | identity => exact h
  | widen hi => exact .unknown (h.onward.append (.converted (implicit_turns hi).1)) _ _
  | known _ _ _ hjs => exact .pushes hjs _

namespace SheerName

variable {is js : Asm} {m : Meaning}

/-- Nothing is written for a name. -/
theorem nil (h : Proper site locals m ∧ isPushed m = false) : SheerName T site locals [] m :=
  ⟨h.1, .nil, settled_nil h.2⟩

theorem materializes (h : SheerName T site locals is m) (hp : Materializes T m js p) :
    Sheer T (is ++ js) p := by
  cases hp with
  | localVar => exact .unknown (h.onward.append (.single rfl)) _ _
  | field => exact .unknown (h.onward.append (.single (Opcode.isStraight_loadOp _))) _ _
  | constant hv =>
    obtain rfl : is = [] := h.settled
    exact .pushes hv _
  | value =>
    rw [List.append_nil]
    exact ⟨h.onward, h.settled⟩

theorem calls {target : Callee} {name : String} {items : List (Asm × Pushed)}
    (h : SheerName T site locals is (.methods target name)) (hitems : ∀ x ∈ items, Onward x.1)
    (hcall : Calls T site is name items target js p) : Sheer T js p := by
  have passes {i : Instruction} (ts : List ValueType) (hi : i.op.isStraight = true) :
      Onward (is ++ passing items ts ++ [i]) :=
    (h.onward.append (.passing hitems ts)).append (.single hi)
  cases hcall with
  | script | function | method => exact .unknown (passes _ rfl) _ _
  | string => exact ⟨h.onward, h.settled⟩
  | text => exact .unknown (h.onward.append (.single rfl)) _ _
  | textKnown _ _ _ _ hjs => exact .pushes hjs _

end SheerName

mutual

/-- The code of an expression is left at its end only. -/
theorem Means.sheer (howner : site.owner = classAt site site.cls) {use : Use} {e : Expr} {is : Asm}
    {m : Meaning} : Means T site locals use e is m → SheerName T site locals is m
  | .literal h => (Sheer.pushes h _).name
  | .ident h => .nil (proper_name howner h)
  | .this h => .nil (proper_this h)
  | .member h hm hm' => by
    have hobject := h.sheer howner
    obtain rfl := hobject.settled.nil_of_name hm
    exact .nil (proper_member howner hm hobject.proper hm')
  | .length h _ _ _ => (Sheer.unknown ((h.sheer howner).onward.append (.single rfl)) _ _).name
  | .lengthKnown _ _ _ _ _ hjs => (Sheer.pushes hjs _).name
  | .text h hp _ => ⟨hp, (h.sheer howner).onward, (h.sheer howner).known⟩
  | .methods h _ _ _ => ⟨trivial, (h.sheer howner).onward, trivial⟩
  | .bare h => h.sheer howner
  | .paren _ h => (h.sheer howner).name
  | .logical _ hl hr _ _ _ => by
    refine (Sheer.unknown ((hl.sheer howner).onward.append ?_) _ _).name
    split
    · exact .shortCircuit rfl (hr.sheer howner).onward
    · exact .shortCircuit rfl (hr.sheer howner).onward
  | .logicalKnown _ _ _ _ _ _ _ hks => (Sheer.pushes hks _).name
  | .binary _ hl hr hplan _ _ _ => by
    have htyped := plan_typed hplan
    have hleft := (hl.sheer howner).onward.append (.converted htyped.left)
    have hright := (hr.sheer howner).onward.append (.converted htyped.right)
    refine (Sheer.unknown ((hleft.append hright).append (.single ?_)) _ _).name
    exact Opcode.isStraight_of_binaryType? htyped.op
  | .binaryKnown _ _ _ _ _ _ _ _ _ hks => (Sheer.pushes hks _).name
  | .same h _ => (h.sheer howner).name
  | .unary h hop _ => by
    refine (Sheer.unknown ((h.sheer howner).onward.append (.single ?_)) _ _).name
    exact Opcode.isStraight_of_unaryType? (unaryOp_typed hop)
  | .unaryKnown _ _ _ _ hjs => (Sheer.pushes hjs _).name
  | .before _ h _ hn hjs => by
    refine (Sheer.unknown ((h.sheer howner).onward.append ?_) _ _).name
    exact .counting hn _ _ _ (Sheer.pushes hjs 0).onward
  | .behind h _ hn hjs => by
    refine (Sheer.unknown ((h.sheer howner).onward.append ?_) _ _).name
    exact .counting hn _ _ _ (Sheer.pushes hjs 0).onward
  | .assign _ h _ hv hc => by
    have hvalue := (h.sheer howner).onward.append ((hv.sheer howner).coerces hc).onward
    exact (Sheer.unknown ((hvalue.append (.kept _)).append (.storing _)) _ _).name
  | .compound _ h _ hv hplan _ _ =>
    (Sheer.unknown (.compound (plan_typed hplan) (h.sheer howner).onward (hv.sheer howner).onward _ _)
      _ _).name
  | .conditional h hc hyes hno htype _ => by
    obtain ⟨-, ⟨-, ha⟩, -, hb⟩ := branch_turns htype
    have hcondition := (h.sheer howner).coerces hc
    have hfirst := (hyes.sheer howner).onward.append (.converted ha)
    have hsecond := (hno.sheer howner).onward.append (.converted hb)
    have hcode := hcondition.onward.append (hfirst.choice hsecond)
    refine (Sheer.unknown ?_ _ _).name
    simpa using hcode
  | .conditionalKnown _ _ _ _ _ _ _ _ _ hls => (Sheer.pushes hls _).name
  | .call h hargs hcall => ((h.sheer howner).calls (hargs.onward howner) hcall).name

theorem Values.sheer (howner : site.owner = classAt site site.cls) {e : Expr} {is : Asm}
    {p : Pushed} : Values T site locals e is p → Sheer T is p
  | .intro h hp => (h.sheer howner).materializes hp

theorem Passes.onward (howner : site.owner = classAt site site.cls) {es : List Expr}
    {items : List (Asm × Pushed)} : Passes T site locals es items → ∀ x ∈ items, Onward x.1
  | .nil => nofun
  | .cons h hs => by
    intro x hx
    obtain rfl | hx := List.mem_cons.mp hx
    · exact (h.sheer howner).onward
    · exact hs.onward howner x hx

end

end Layout
end ClassScript
