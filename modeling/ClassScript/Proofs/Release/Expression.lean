import ClassScript.Proofs.Layout.Operation
import Mathlib.Data.List.Forall2
import Mathlib.Data.List.Nodup

/-!
Compiling an expression twice.

What compiling an expression does to the tables of a module does not depend on the code in front of
it. `Parallel R x y` tells that `x` and `y`, run from states that share the tables, give answers that
`R` relates or fail both, and leave states that share the tables again. The answers of the compiler
are the same but for the offsets at which values start.
-/

namespace ClassScript

open Compile

/-! ## Answers -/

/-- The same value, wherever its code begins. -/
structure Pushed.Like (p q : Pushed) : Prop where
  type : p.type = q.type
  constant : p.constant = q.constant

inductive Callee.Like : Callee → Callee → Prop
  | script (cls : Nat) (onThis : Bool) : Like (.script cls onThis) (.script cls onThis)
  | function (c : NativeClass) : Like (.function c) (.function c)
  | method (c : NativeClass) {p q : Pushed} (h : p.Like q) : Like (.method c p) (.method c q)
  | toText {p q : Pushed} (h : p.Like q) : Like (.toText p) (.toText q)

inductive Meaning.Like : Meaning → Meaning → Prop
  | localVar (slot : Nat) (type : ValueType) : Like (.localVar slot type) (.localVar slot type)
  | field (cls : Nat) (f : FieldSymbol) : Like (.field cls f) (.field cls f)
  | constant (v : Value) : Like (.constant v) (.constant v)
  | methods {c d : Callee} (h : c.Like d) (name : String) : Like (.methods c name) (.methods d name)
  | type (c : ClassRef) : Like (.type c) (.type c)
  | space (name : String) : Like (.space name) (.space name)
  | value {p q : Pushed} (h : p.Like q) : Like (.value p) (.value q)
  | this : Like .this .this

theorem Pushed.Like.refl (p : Pushed) : p.Like p := ⟨rfl, rfl⟩

theorem Meaning.Like.refl (m : Meaning) : m.Like m := by
  cases m with
  | methods c name =>
    refine .methods ?_ name
    cases c with
    | script cls onThis => exact .script cls onThis
    | function c => exact .function c
    | method c p => exact .method c (.refl p)
    | toText p => exact .toText (.refl p)
  | value p => exact .value (.refl p)
  | localVar slot type => exact .localVar slot type
  | field cls f => exact .field cls f
  | constant v => exact .constant v
  | type c => exact .type c
  | space name => exact .space name
  | this => exact .this

theorem Pushed.Like.unknown (type : ValueType) (o o' : Nat) :
    (Pushed.unknown type o).Like (.unknown type o') := ⟨rfl, rfl⟩

theorem Pushed.Like.known (v : Value) (o o' : Nat) : (Pushed.known v o).Like (.known v o') :=
  ⟨rfl, rfl⟩

/-! ## Runs -/

structure CodeState.Shares (s t : CodeState) : Prop where
  pool : s.emitter.pool = t.emitter.pool
  imports : s.imports = t.imports
  constants : s.emitter.pool.Distinct
  functions : s.imports.Distinct

theorem CodeState.Shares.symm {s t : CodeState} (h : s.Shares t) : t.Shares s :=
  ⟨h.pool.symm, h.imports.symm, h.pool ▸ h.constants, h.imports ▸ h.functions⟩

inductive EndsAlike {α : Type} (R : α → α → Prop) :
    Except SemanticError α × CodeState → Except SemanticError α × CodeState → Prop
  | ok {a b : α} {s t : CodeState} (h : R a b) (hs : s.Shares t) : EndsAlike R (.ok a, s) (.ok b, t)
  | error {e f : SemanticError} {s t : CodeState} (hs : s.Shares t) :
      EndsAlike R (.error e, s) (.error f, t)

def Parallel {α : Type} (R : α → α → Prop) (x y : Compiling α) : Prop :=
  ∀ s t : CodeState, s.Shares t → EndsAlike R ((ExceptT.run x).run s) ((ExceptT.run y).run t)

/-- Answers of which nothing is known. -/
def Whatever {α : Type} (_ _ : α) : Prop := True

namespace Parallel

variable {α β : Type} {R : α → α → Prop} {S : β → β → Prop} {p q : Pushed} {site : Site}
  {sp sp' : Span}

theorem pure {a b : α} (h : R a b) : Parallel R (Pure.pure a) (Pure.pure b) :=
  fun _ _ hs => .ok h hs

theorem fail (f g : SemanticFault) (sp sp' : Span) :
    Parallel R (Compile.fail f sp) (Compile.fail g sp') := fun _ _ hs => .error hs

theorem throw (e f : SemanticError) : Parallel R (throw e) (throw f) := fun _ _ hs => .error hs

theorem bind {x y : Compiling α} {f g : α → Compiling β} (h : Parallel R x y)
    (hf : ∀ a b, R a b → Parallel S (f a) (g b)) : Parallel S (x >>= f) (y >>= g) := by
  intro s t hs
  rw [ExceptT.run_bind, ExceptT.run_bind, StateT.run_bind, StateT.run_bind]
  have hx := h s t hs
  generalize (ExceptT.run x).run s = a at hx ⊢
  generalize (ExceptT.run y).run t = b at hx ⊢
  cases hx with
  | ok hR hs => exact hf _ _ hR _ _ hs
  | error hs => exact .error hs

theorem discard {x y : Compiling α} (h : Parallel R x y) :
    Parallel Eq (Functor.discard x) (Functor.discard y) :=
  bind h fun _ _ _ => pure rfl

/-- A look-up gives one answer only. -/
theorem lookup {x : Compiling α} (hx : Returns.IsLookup x) (h : ∀ a, R a a) : Parallel R x x := by
  obtain ⟨a, rfl⟩ | ⟨e, rfl⟩ := hx
  · exact pure (h a)
  · exact throw e e

/-! ## Writing code -/

/-- Edits that do not look at the pool. -/
theorem edit {f g : Emitter → Emitter} (hf : ∀ e, (f e).pool = e.pool)
    (hg : ∀ e, (g e).pool = e.pool) : Parallel Eq (Compile.edit f) (Compile.edit g) := by
  intro s t hs
  refine .ok rfl ⟨(hf _).trans (hs.pool.trans (hg _).symm), hs.imports, ?_, hs.functions⟩
  change (f s.emitter).pool.Distinct
  rw [hf]
  exact hs.constants

theorem emit (op op' : Opcode) : Parallel Eq (Compile.emit op) (Compile.emit op') :=
  edit (fun _ => rfl) fun _ => rfl

theorem emitWith (op op' : Opcode) (n n' : Nat) :
    Parallel Eq (Compile.emitWith op n) (Compile.emitWith op' n') :=
  edit (fun _ => rfl) fun _ => rfl

theorem land (o o' : Nat) : Parallel Eq (Compile.land o) (Compile.land o') :=
  edit (fun _ => rfl) fun _ => rfl

theorem offset : Parallel Whatever Compile.offset Compile.offset := fun _ _ hs => .ok trivial hs

theorem jump (op op' : Opcode) : Parallel Whatever (Compile.jump op) (Compile.jump op') :=
  fun _ _ hs => .ok trivial ⟨hs.pool, hs.imports, hs.constants, hs.functions⟩

theorem cut (o o' : Nat) : Parallel Whatever (Compile.cut o) (Compile.cut o') :=
  fun _ _ hs => .ok trivial ⟨hs.pool, hs.imports, hs.constants, hs.functions⟩

theorem emitConstant (c : Constant) :
    Parallel Eq (Compile.edit (·.emitConstant c)) (Compile.edit (·.emitConstant c)) := by
  intro s t hs
  refine .ok rfl ⟨?_, hs.imports, hs.constants.add c, hs.functions⟩
  change (s.emitter.pool.add c).2 = (t.emitter.pool.add c).2
  rw [hs.pool]

theorem emitValue (v : Value) : Parallel Eq (Compile.emitValue v) (Compile.emitValue v) :=
  match v with
  | .void => edit (fun _ => rfl) fun _ => rfl
  | .bool true => emit .pushTrue .pushTrue
  | .bool false => emit .pushFalse .pushFalse
  | .int n => emitConstant (.int n)
  | .long n => emitConstant (.long n)
  | .double d => emitConstant (.double d)
  | .string x => emitConstant (.string x)

theorem importFunction (f : NativeFunction) (r : Option ValueType) (sp : Span) :
    Parallel Eq (Compile.importFunction f r sp) (Compile.importFunction f r sp) := by
  have added : Parallel Eq
      (modifyGet fun s => ((s.imports.add f r).1, ⟨s.emitter, (s.imports.add f r).2⟩) :
        Compiling (Option Nat))
      (modifyGet fun s => ((s.imports.add f r).1, ⟨s.emitter, (s.imports.add f r).2⟩)) := by
    intro s t hs
    refine .ok ?_ ⟨hs.pool, ?_, hs.constants, hs.functions.add f r⟩
    · rw [hs.imports]
    · change (s.imports.add f r).2 = (t.imports.add f r).2
      rw [hs.imports]
  refine bind added fun a b hab => ?_
  subst hab
  cases a with
  | some i => exact pure rfl
  | none => exact fail _ _ _ _

/-! ## Values -/

theorem fold {r r' : Except EvalError Value} (h : r = r') :
    Parallel Eq (Compile.fold r sp) (Compile.fold r' sp') := by
  subst h
  cases r with
  | ok v => exact pure rfl
  | error e => exact fail _ _ _ _

theorem push (v : Value) : Parallel Pushed.Like (Compile.push v) (Compile.push v) :=
  bind offset fun o o' _ => bind (emitValue v) fun _ _ _ => pure (.known v o o')

theorem replace (o o' : Nat) (v : Value) :
    Parallel Pushed.Like (Compile.replace o v) (Compile.replace o' v) :=
  bind (edit (fun _ => rfl) fun _ => rfl) fun _ _ _ =>
    bind (emitValue v) fun _ _ _ => pure (.known v o o')

theorem convertAt (h : p.Like q) (op : Option Opcode) (target : ValueType) (o o' : Nat) :
    Parallel Pushed.Like (Compile.convertAt p op target o sp)
      (Compile.convertAt q op target o' sp') := by
  obtain ⟨type, constant, start⟩ := p
  obtain ⟨type', constant', start'⟩ := q
  obtain ⟨rfl, rfl⟩ := h
  unfold Compile.convertAt
  cases op with
  | none => exact pure ⟨rfl, rfl⟩
  | some op =>
    have written (c : Option Value) : Parallel Pushed.Like
        (do
          let here ← Compile.offset
          if o = here then Compile.emit op else Compile.edit (·.insert o op)
          return ⟨target, c, start⟩)
        (do
          let here ← Compile.offset
          if o' = here then Compile.emit op else Compile.edit (·.insert o' op)
          return ⟨target, c, start'⟩) := by
      refine bind offset fun _ _ _ => ?_
      split <;> split <;>
        exact bind (edit (fun _ => rfl) fun _ => rfl) fun _ _ _ => pure ⟨rfl, rfl⟩
    cases constant with
    | none => exact written none
    | some v => exact bind (fold rfl) fun a b hab => hab ▸ written (some a)

theorem coerce (h : p.Like q) (target : ValueType) :
    Parallel Pushed.Like (Compile.coerce p target sp) (Compile.coerce q target sp') := by
  obtain ⟨type, constant, start⟩ := p
  obtain ⟨type', constant', start'⟩ := q
  obtain ⟨rfl, rfl⟩ := h
  unfold Compile.coerce
  dsimp only
  split
  · exact fail _ _ _ _
  · exact pure ⟨rfl, rfl⟩
  · cases constant with
    | none => exact bind (emit _ _) fun _ _ _ => pure (.unknown target _ _)
    | some v =>
      dsimp only
      split
      · exact replace _ _ _
      · exact fail _ _ _ _

/-! ## Names and members -/

theorem materialize {m m' : Meaning} (h : m.Like m') :
    Parallel Pushed.Like (Compile.materialize site m sp) (Compile.materialize site m' sp') := by
  refine bind offset fun o o' _ => ?_
  cases h with
  | localVar slot type => exact bind (emitWith _ _ _ _) fun _ _ _ => pure (.unknown type o o')
  | field cls f => exact bind (emitWith _ _ _ _) fun _ _ _ => pure (.unknown f.type o o')
  | constant v => exact push v
  | value h => exact pure h
  | methods | type | space | this => exact fail _ _ _ _

theorem lengthOf (h : p.Like q) :
    Parallel Meaning.Like (Compile.lengthOf p sp) (Compile.lengthOf q sp') := by
  obtain ⟨type, constant, start⟩ := p
  obtain ⟨type', constant', start'⟩ := q
  obtain ⟨rfl, rfl⟩ := h
  unfold Compile.lengthOf
  cases constant with
  | none => exact bind (emit _ _) fun _ _ _ => pure (.value (.unknown .int _ _))
  | some v =>
    refine bind (fold rfl) fun a b hab => ?_
    subst hab
    exact bind (replace _ _ a) fun _ _ hp => pure (.value hp)

theorem valueMember (h : p.Like q) (name : Ident) :
    Parallel Meaning.Like (Compile.valueMember site p name) (Compile.valueMember site q name) := by
  obtain ⟨type, constant, start⟩ := p
  obtain ⟨type', constant', start'⟩ := q
  obtain ⟨rfl, rfl⟩ := h
  have h : Pushed.Like ⟨type, constant, start⟩ ⟨type, constant, start'⟩ := ⟨rfl, rfl⟩
  unfold Compile.valueMember
  dsimp only
  split
  · exact lengthOf h
  · split
    · exact pure (.methods (.toText h) _)
    · split
      · split
        · exact fail _ _ _ _
        · exact pure (.methods (.method _ h) _)
      · exact fail _ _ _ _

theorem memberMeaning {m m' : Meaning} (h : m.Like m') (name : Ident) :
    Parallel Meaning.Like (Compile.memberMeaning site m sp name)
      (Compile.memberMeaning site m' sp name) := by
  have ofValue {m m' : Meaning} (h : m.Like m') : Parallel Meaning.Like
      (do Compile.valueMember site (← Compile.materialize site m sp) name)
      (do Compile.valueMember site (← Compile.materialize site m' sp) name) :=
    bind (materialize h) fun _ _ hp => valueMember hp name
  cases h with
  | localVar slot type => exact ofValue (.localVar slot type)
  | field cls f => exact ofValue (.field cls f)
  | constant v => exact ofValue (.constant v)
  | value h => exact ofValue (.value h)
  | methods => exact fail _ _ _ _
  | type | space | this => exact lookup (Layout.isLookup_member rfl name) .refl

/-- A place has no offset. -/
theorem placeOf {m m' : Meaning} (h : m.Like m') :
    Parallel Eq (Compile.placeOf site m sp) (Compile.placeOf site m' sp) := by
  cases h with
  | methods | value => exact fail _ _ _ _
  | _ => exact lookup Layout.isLookup_placeOf fun _ => rfl

theorem load (place : Place) : Parallel Eq (Compile.load place) (Compile.load place) := by
  cases place <;> exact emitWith _ _ _ _

theorem store (place : Place) : Parallel Eq (Compile.store place) (Compile.store place) := by
  cases place <;> exact emitWith _ _ _ _

/-! ## Calls -/

end Parallel

def Compile.Argument.Like (a b : Argument) : Prop := a.pushed.Like b.pushed

namespace Parallel

variable {args args' : List Argument}

theorem types_of_like (h : List.Forall₂ Argument.Like args args') :
    args.map (·.pushed.type) = args'.map (·.pushed.type) := by
  induction h with
  | nil => rfl
  | cons h _ ih => rw [List.map_cons, List.map_cons, ih, h.type]

theorem convertArguments (h : List.Forall₂ Argument.Like args args') (ts : List ValueType) :
    Parallel Eq (Compile.convertArguments args ts) (Compile.convertArguments args' ts) := by
  induction h generalizing ts with
  | nil => exact pure rfl
  | @cons a b args args' h _ ih =>
    cases ts with
    | nil => exact pure rfl
    | cons t ts =>
      refine bind (ih ts) fun _ _ _ => ?_
      rw [h.type]
      exact discard (convertAt h _ t _ _)

theorem choose {candidates : List α} (params : α → List ValueType) (display : α → String)
    (name : String) (h : List.Forall₂ Argument.Like args args') :
    Parallel Eq (Compile.choose candidates params display name args sp)
      (Compile.choose candidates params display name args' sp') := by
  unfold Compile.choose
  rw [types_of_like h]
  generalize Overload.resolve _ _ = r
  cases r with
  | ok i =>
    dsimp only
    split
    · exact pure rfl
    · exact fail _ _ _ _
  | error e => exact throw _ _

theorem countOperand (n : Nat) (what : String) :
    Parallel Eq (Compile.countOperand n what sp) (Compile.countOperand n what sp') := by
  unfold Compile.countOperand
  split
  · exact pure rfl
  · exact fail _ _ _ _

theorem callScript (o o' cls : Nat) (onThis : Bool) (name : String)
    (h : List.Forall₂ Argument.Like args args') :
    Parallel Pushed.Like (Compile.callScript site o cls onThis name args sp)
      (Compile.callScript site o' cls onThis name args' sp) := by
  refine bind (choose _ _ name h) fun c c' hc => ?_
  subst hc
  obtain ⟨m, i⟩ := c
  refine bind (lookup (Layout.isLookup_checkAccess site cls _ _ _) fun _ => rfl) fun _ _ _ => ?_
  have called : Parallel Pushed.Like
      (do
        Compile.convertArguments args m.params
        Compile.countOperand cls "classes" sp
        Compile.countOperand i "methods in a class" sp
        Compile.edit (·.emitCall cls i)
        return .unknown m.returns o)
      (do
        Compile.convertArguments args' m.params
        Compile.countOperand cls "classes" sp
        Compile.countOperand i "methods in a class" sp
        Compile.edit (·.emitCall cls i)
        return .unknown m.returns o') :=
    bind (convertArguments h _) fun _ _ _ => bind (countOperand _ _) fun _ _ _ =>
      bind (countOperand _ _) fun _ _ _ => bind (edit (fun _ => rfl) fun _ => rfl) fun _ _ _ =>
        pure (.unknown m.returns o o')
  split
  · exact bind (fail _ _ _ _) fun a b (_ : Eq a b) => called
  · exact called

theorem callLibrary (candidates : List NativeFunction) (r : Option ValueType) (o o' : Nat)
    (name : String) (h : List.Forall₂ Argument.Like args args') :
    Parallel Pushed.Like (Compile.callLibrary candidates r o name args sp)
      (Compile.callLibrary candidates r o' name args' sp) := by
  refine bind (choose _ _ name h) fun f f' hf => ?_
  subst hf
  exact bind (convertArguments h _) fun _ _ _ => bind (importFunction f r sp) fun _ _ _ =>
    bind (emitWith _ _ _ _) fun _ _ _ => pure (.unknown f.returns o o')

theorem callToText (hp : p.Like q) (name : String) (h : List.Forall₂ Argument.Like args args') :
    Parallel Pushed.Like (Compile.callToText p name args sp) (Compile.callToText q name args' sp) := by
  have hempty : args.isEmpty = args'.isEmpty := by cases h <;> rfl
  obtain ⟨type, constant, start⟩ := p
  obtain ⟨type', constant', start'⟩ := q
  obtain ⟨rfl, rfl⟩ := hp
  have hp : Pushed.Like ⟨type, constant, start⟩ ⟨type, constant, start'⟩ := ⟨rfl, rfl⟩
  unfold Compile.callToText
  rw [hempty]
  dsimp only
  split
  · exact fail _ _ _ _
  · split
    · exact pure hp
    · cases constant with
      | none => exact bind (emit _ _) fun _ _ _ => pure (.unknown .string _ _)
      | some v =>
        refine bind (fold rfl) fun a b hab => ?_
        subst hab
        exact replace _ _ a

theorem call (o o' : Nat) {c d : Callee} (hc : c.Like d) (name : String)
    (h : List.Forall₂ Argument.Like args args') :
    Parallel Pushed.Like (Compile.call site o c name args sp)
      (Compile.call site o' d name args' sp) := by
  cases hc with
  | script cls onThis => exact callScript o o' cls onThis name h
  | function c => exact callLibrary _ _ o o' name h
  | method c hp =>
    simp only [Compile.call, hp.type]
    exact callLibrary _ _ _ _ name h
  | toText hp => exact callToText hp name h

/-! ## Operators -/

theorem applyBinary (op : BinaryOp) {l l' r r' : Pushed} (hl : l.Like l') (hr : r.Like r')
    (o o' : Nat) :
    Parallel Pushed.Like (Compile.applyBinary op l o r sp) (Compile.applyBinary op l' o' r' sp) := by
  unfold Compile.applyBinary
  rw [hl.type, hr.type]
  split
  · exact fail _ _ _ _
  · next plan _ =>
    refine bind offset fun _ _ _ => bind (convertAt hr _ _ _ _) fun r r' hr =>
      bind (convertAt hl _ _ _ _) fun l l' hl => ?_
    obtain ⟨type, a, start⟩ := l
    obtain ⟨type', a', start'⟩ := l'
    obtain ⟨rfl, rfl⟩ := hl
    obtain ⟨rtype, b, rstart⟩ := r
    obtain ⟨rtype', b', rstart'⟩ := r'
    obtain ⟨rfl, rfl⟩ := hr
    dsimp only
    split
    · exact fail _ _ _ _
    · split
      · refine bind (fold rfl) fun v w hv => ?_
        subst hv
        exact replace _ _ v
      · exact bind (emit _ _) fun _ _ _ => pure (.unknown plan.result _ _)

theorem beginLogical (op : BinaryOp) :
    Parallel Whatever (Compile.beginLogical op) (Compile.beginLogical op) :=
  bind (emit _ _) fun _ _ _ => bind (jump _ _) fun _ _ _ => bind (emit _ _) fun _ _ _ => pure trivial

theorem endLogical (op : BinaryOp) {l l' r r' : Pushed} (hl : l.Like l') (hr : r.Like r')
    (o o' : Nat) :
    Parallel Pushed.Like (Compile.endLogical op l o r sp) (Compile.endLogical op l' o' r' sp) := by
  obtain ⟨type, a, start⟩ := l
  obtain ⟨type', a', start'⟩ := l'
  obtain ⟨rfl, rfl⟩ := hl
  obtain ⟨rtype, b, rstart⟩ := r
  obtain ⟨rtype', b', rstart'⟩ := r'
  obtain ⟨rfl, rfl⟩ := hr
  refine bind (land _ _) fun _ _ _ => ?_
  dsimp only
  split
  · exact fail _ _ _ _
  · split
    · exact replace _ _ _
    · exact pure (.unknown .bool _ _)

theorem applyUnary (op : UnaryOp) (h : p.Like q) :
    Parallel Pushed.Like (Compile.applyUnary op p sp) (Compile.applyUnary op q sp) := by
  obtain ⟨type, constant, start⟩ := p
  obtain ⟨type', constant', start'⟩ := q
  obtain ⟨rfl, rfl⟩ := h
  have h : Pushed.Like ⟨type, constant, start⟩ ⟨type, constant, start'⟩ := ⟨rfl, rfl⟩
  unfold Compile.applyUnary
  dsimp only
  split
  · exact fail _ _ _ _
  · exact pure h
  · cases constant with
    | none => exact bind (emit _ _) fun _ _ _ => pure (.unknown type _ _)
    | some v =>
      refine bind (fold rfl) fun a b hab => ?_
      subst hab
      exact replace _ _ a

/-- A step that is taken or not. -/
theorem when {c : Bool} {x y : Compiling Unit} {f g : Unit → Compiling β} (h : Parallel Eq x y)
    (hf : Parallel S (f ()) (g ())) :
    Parallel S (if c = true then x >>= f else f ()) (if c = true then y >>= g else g ()) := by
  split
  · exact bind h fun _ _ _ => hf
  · exact hf

theorem countPlace (place : Place) (up front : Bool) (use : Use) :
    Parallel Pushed.Like (Compile.countPlace place up front use sp)
      (Compile.countPlace place up front use sp) := by
  unfold Compile.countPlace
  dsimp only
  split
  · exact fail _ _ _ _
  · refine bind offset fun o o' _ => bind (load place) fun _ _ _ => when (emit _ _) ?_
    refine bind (emitValue _) fun _ _ _ => bind (emit _ _) fun _ _ _ => when (emit _ _) ?_
    exact bind (store place) fun _ _ _ => pure (.unknown _ o o')

theorem applyCompound (op : AssignOp) (binary : BinaryOp) (type : ValueType) (o o' : Nat)
    {r r' : Pushed} (hr : r.Like r') :
    Parallel Eq (Compile.applyCompound op binary type o r sp)
      (Compile.applyCompound op binary type o' r' sp) := by
  unfold Compile.applyCompound
  rw [hr.type]
  split
  · exact fail _ _ _ _
  · next plan _ =>
    split
    · exact fail _ _ _ _
    · refine bind offset fun _ _ _ => bind (convertAt hr _ _ _ _) fun r r' hr => ?_
      dsimp only
      have ended : Parallel Eq
          (if (plan.divides binary && r.constant.any (·.isIntegerZero)) = true then
            Compile.fail .constantDivisionByZero sp
          else Compile.emit plan.op)
          (if (plan.divides binary && r'.constant.any (·.isIntegerZero)) = true then
            Compile.fail .constantDivisionByZero sp
          else Compile.emit plan.op) := by
        rw [hr.constant]
        split
        · exact fail _ _ _ _
        · exact emit _ _
      cases plan.left with
      | some widen => exact bind (edit (fun _ => rfl) fun _ => rfl) fun _ _ _ => ended
      | none => exact ended

theorem endAssign (place : Place) (use : Use) (o o' : Nat) :
    Parallel Pushed.Like (Compile.endAssign place use o) (Compile.endAssign place use o') := by
  unfold Compile.endAssign
  exact when (emit _ _) (bind (store place) fun _ _ _ => pure (.unknown _ o o'))

theorem layBranch (code code' : Code) (h : p.Like q) (type : ValueType) :
    Parallel Eq (Compile.layBranch code p type) (Compile.layBranch code' q type) := by
  refine bind (edit (fun _ => rfl) fun _ => rfl) fun _ _ _ => ?_
  rw [h.type]
  split
  · exact emit _ _
  · exact pure rfl

theorem endConditional (o o' : Nat) {c c' a a' b b' : Pushed} (hc : c.Like c') (ha : a.Like a')
    (hb : b.Like b') (l l' : Nat) (yes yes' no no' : Code) :
    Parallel Pushed.Like (Compile.endConditional o c l a yes b no sp)
      (Compile.endConditional o' c' l' a' yes' b' no' sp) := by
  unfold Compile.endConditional
  rw [ha.type, hb.type, hc.constant, ha.constant, hb.constant]
  split
  · exact fail _ _ _ _
  · next type _ =>
    split
    · split
      · exact replace _ _ _
      · exact fail _ _ _ _
    · exact bind (layBranch _ _ ha type) fun _ _ _ => bind (jump _ _) fun _ _ _ =>
        bind (land _ _) fun _ _ _ => bind (layBranch _ _ hb type) fun _ _ _ =>
          bind (land _ _) fun _ _ _ => pure (.unknown type o o')

/-! ## The walk -/

variable {k k' : Nat → Compiling Meaning} {e : Expr} {locals : LocalScope} {depth : Nat}

theorem enter (levels : Nat) (h : ∀ d, Parallel Meaning.Like (k d) (k' d)) :
    Parallel Meaning.Like (Compile.enter depth levels sp k) (Compile.enter depth levels sp k') := by
  unfold Compile.enter
  split
  · exact fail _ _ _ _
  · exact h _

theorem asValue (h : ∀ d, Parallel Meaning.Like (k d) (k' d)) :
    Parallel Pushed.Like (Compile.asValue site depth e k) (Compile.asValue site depth e k') :=
  bind (enter _ h) fun _ _ hm => materialize hm

theorem asName {other other' : Compiling Meaning} (ho : Parallel Meaning.Like other other')
    (h : ∀ d, Parallel Meaning.Like (k d) (k' d)) :
    Parallel Meaning.Like (Compile.asName depth e other k) (Compile.asName depth e other' k') := by
  unfold Compile.asName
  split
  · exact h _
  · exact enter _ h
  · exact ho

theorem asPlace (h : ∀ d, Parallel Meaning.Like (k d) (k' d)) :
    Parallel Eq (Compile.asPlace site depth e k) (Compile.asPlace site depth e k') :=
  bind (asName (fail _ _ _ _) h) fun _ _ hm => placeOf hm

mutual

/-- An expression means the same wherever its code is written. -/
theorem meaning (site : Site) (locals : LocalScope) (depth : Nat) (use : Use) : (e : Expr) →
    Parallel Meaning.Like (Compile.meaning site locals depth use e)
      (Compile.meaning site locals depth use e)
  | .literal lit _ => by
    simp only [Compile.meaning]
    exact bind (push _) fun _ _ hp => pure (.value hp)
  | .ident name => by
    simp only [Compile.meaning]
    exact lookup (Layout.isLookup_name name) .refl
  | .this sp => by
    simp only [Compile.meaning]
    exact lookup Layout.isLookup_this .refl
  | .member object name _ => by
    simp only [Compile.meaning]
    exact bind (enter _ fun d => meaning site locals d .value object) fun _ _ hm =>
      memberMeaning hm name
  | .paren inner _ => by
    simp only [Compile.meaning]
    split
    · exact meaning site locals depth .bare inner
    · exact bind (asValue fun d => meaning site locals d .value inner) fun _ _ hp => pure (.value hp)
  | .binary op left right sp => by
    have hleft := fun d => meaning site locals d .value left
    have hright := fun d => meaning site locals d .value right
    have ended {l l' : Pushed} (hl : l.Like l') : Parallel Meaning.Like
        (if op.isLogical = true then do
          let label ← Compile.beginLogical op
          let r ← Compile.asValue site depth right fun d => Compile.meaning site locals d .value right
          let p ← Compile.endLogical op l label r sp
          return .value p
        else do
          let stop ← Compile.offset
          let r ← Compile.asValue site depth right fun d => Compile.meaning site locals d .value right
          let p ← Compile.applyBinary op l stop r sp
          return .value p)
        (if op.isLogical = true then do
          let label ← Compile.beginLogical op
          let r ← Compile.asValue site depth right fun d => Compile.meaning site locals d .value right
          let p ← Compile.endLogical op l' label r sp
          return .value p
        else do
          let stop ← Compile.offset
          let r ← Compile.asValue site depth right fun d => Compile.meaning site locals d .value right
          let p ← Compile.applyBinary op l' stop r sp
          return .value p) := by
      split
      · exact bind (beginLogical op) fun _ _ _ => bind (asValue hright) fun _ _ hr =>
          bind (endLogical op hl hr _ _) fun _ _ hp => pure (.value hp)
      · exact bind offset fun _ _ _ => bind (asValue hright) fun _ _ hr =>
          bind (applyBinary op hl hr _ _) fun _ _ hp => pure (.value hp)
    unfold Compile.meaning
    dsimp only
    split
    · exact bind (hleft _) fun _ _ hm => bind (materialize hm) fun _ _ hl => ended hl
    · exact bind (asValue hleft) fun _ _ hl => ended hl
  | .unary op operand sp => by
    simp only [Compile.meaning]
    split
    · exact bind (asPlace fun d => meaning site locals d .bare operand) fun place _ hp => hp ▸
        bind (countPlace place _ true use) fun _ _ hp => pure (.value hp)
    · exact bind (asValue fun d => meaning site locals d .value operand) fun _ _ hp =>
        bind (applyUnary op hp) fun _ _ hp => pure (.value hp)
  | .post op operand sp => by
    simp only [Compile.meaning]
    exact bind (asPlace fun d => meaning site locals d .bare operand) fun place _ hp => hp ▸
      bind (countPlace place _ false use) fun _ _ hp => pure (.value hp)
  | .assign op target value sp => by
    simp only [Compile.meaning]
    refine bind (asPlace fun d => meaning site locals d .bare target) fun place _ hp => hp ▸
      bind offset fun o o' _ => ?_
    have ended : Parallel Meaning.Like
        (do return .value (← Compile.endAssign place use o))
        (do return .value (← Compile.endAssign place use o')) :=
      bind (endAssign place use o o') fun _ _ hp => pure (.value hp)
    split
    · exact bind (asValue fun d => meaning site locals d .value value) fun _ _ hv =>
        bind (discard (coerce hv _)) fun _ _ _ => ended
    · exact bind (load place) fun _ _ _ => bind offset fun _ _ _ =>
        bind (asValue fun d => meaning site locals d .value value) fun _ _ hv =>
          bind (applyCompound op _ _ _ _ hv) fun _ _ _ => ended
  | .conditional condition yes no sp => by
    simp only [Compile.meaning]
    exact bind offset fun _ _ _ =>
      bind (asValue fun d => meaning site locals d .value condition) fun _ _ hc =>
        bind (coerce hc .bool) fun _ _ hc => bind (jump _ _) fun _ _ _ => bind offset fun _ _ _ =>
          bind (asValue fun d => meaning site locals d .value yes) fun _ _ ha =>
            bind (cut _ _) fun _ _ _ =>
              bind (asValue fun d => meaning site locals d .value no) fun _ _ hb =>
                bind (cut _ _) fun _ _ _ =>
                  bind (endConditional _ _ hc ha hb _ _ _ _ _ _) fun _ _ hp => pure (.value hp)
  | .call callee args sp => by
    simp only [Compile.meaning]
    refine bind offset fun o o' _ =>
      bind (asName (fail _ _ _ _) fun d => meaning site locals d .bare callee) fun m m' hm => ?_
    cases hm with
    | methods hc name =>
      exact bind (arguments site locals depth args) fun _ _ hargs =>
        bind (call o o' hc name hargs) fun _ _ hp => pure (.value hp)
    | _ => exact fail _ _ _ _

theorem arguments (site : Site) (locals : LocalScope) (depth : Nat) : (es : List Expr) →
    Parallel (List.Forall₂ Argument.Like) (Compile.arguments site locals depth es)
      (Compile.arguments site locals depth es)
  | [] => by
    simp only [Compile.arguments]
    exact pure .nil
  | e :: es => by
    simp only [Compile.arguments]
    exact bind (asValue fun d => meaning site locals d .value e) fun _ _ hp =>
      bind offset fun _ _ _ => bind (arguments site locals depth es) fun _ _ hargs =>
        pure (.cons hp hargs)

end

theorem value (site : Site) (locals : LocalScope) (e : Expr) :
    Parallel Pushed.Like (Compile.value site locals e) (Compile.value site locals e) :=
  asValue fun d => meaning site locals d .value e

theorem valueOf (site : Site) (locals : LocalScope) (e : Expr) (type : ValueType) :
    Parallel Pushed.Like (Compile.valueOf site locals e type)
      (Compile.valueOf site locals e type) :=
  bind (value site locals e) fun _ _ hp => coerce hp type

theorem effect (site : Site) (locals : LocalScope) (e : Expr) :
    Parallel Eq (Compile.effect site locals e) (Compile.effect site locals e) := by
  unfold Compile.effect
  split
  · refine bind (meaning site locals 0 .discarded e) fun _ _ hm =>
      bind (materialize hm) fun _ _ hp => ?_
    rw [hp.type]
    split
    · exact emit _ _
    · exact pure rfl
  · exact fail _ _ _ _

end Parallel

/-! ## Releases -/

namespace Compile

variable {site : Site} {r : Bool} {locals : LocalScope}

mutual

/-- An expression means the same in a release. -/
theorem meaning_release (depth : Nat) (use : Use) : (e : Expr) →
    meaning { site with release := r } locals depth use e = meaning site locals depth use e
  | .literal .. => by simp only [meaning]
  | .ident _ | .this _ => by
    simp only [meaning]
    rfl
  | .member object name _ => by
    have hobject := fun d => meaning_release d .value object
    simp only [meaning, hobject]
    rfl
  | .paren inner _ => by
    have hinner := fun d use => meaning_release d use inner
    simp only [meaning, hinner]
    rfl
  | .binary op left right sp => by
    have hleft := fun d => meaning_release d .value left
    have hright := fun d => meaning_release d .value right
    unfold meaning
    dsimp only
    split <;> simp only [hleft, hright] <;> rfl
  | .unary op operand sp => by
    have hoperand := fun d use => meaning_release d use operand
    simp only [meaning, hoperand]
    rfl
  | .post op operand sp => by
    have hoperand := fun d => meaning_release d .bare operand
    simp only [meaning, hoperand]
    rfl
  | .assign op target value sp => by
    have htarget := fun d => meaning_release d .bare target
    have hvalue := fun d => meaning_release d .value value
    simp only [meaning, htarget, hvalue]
    rfl
  | .conditional condition yes no sp => by
    have hcondition := fun d => meaning_release d .value condition
    have hyes := fun d => meaning_release d .value yes
    have hno := fun d => meaning_release d .value no
    simp only [meaning, hcondition, hyes, hno]
    rfl
  | .call callee args sp => by
    have hcallee := fun d => meaning_release d .bare callee
    simp only [meaning, hcallee, arguments_release depth args]
    rfl

theorem arguments_release (depth : Nat) : (es : List Expr) →
    arguments { site with release := r } locals depth es = arguments site locals depth es
  | [] => by simp only [arguments]
  | e :: es => by
    have he := fun d => meaning_release d .value e
    simp only [arguments, he, arguments_release depth es]
    rfl

end

theorem value_release (e : Expr) : value { site with release := r } locals e = value site locals e := by
  have he (d : Nat) : meaning { site with release := r } locals d .value e =
      meaning site locals d .value e := meaning_release d .value e
  simp only [value, he]
  rfl

theorem valueOf_release (e : Expr) (type : ValueType) :
    valueOf { site with release := r } locals e type = valueOf site locals e type := by
  rw [valueOf, value_release, valueOf]

theorem effect_release (e : Expr) :
    effect { site with release := r } locals e = effect site locals e := by
  simp only [effect, meaning_release]
  rfl

end Compile
end ClassScript
