import ClassScript.Proofs.Capacity.Recording

/-!
Compiling expressions as steps of drafts.

One rule for every step of the compiler of expressions, and the walk over a tree puts them together.
Where locals and fields have slots that are operands, so has every meaning and every place. The
branches of a conditional are pieces that were cut out, so they can be laid down again.
-/

namespace ClassScript

open Compile
open Emitter (maxOperand)

/-! ## Slots -/

/-- Every field that can be named has a slot that is an operand. -/
structure Site.Narrow (site : Site) : Prop where
  owner : ∀ f ∈ site.owner.fields, f.slot ≤ maxOperand
  classes : ∀ cls, ∀ f ∈ (classAt site cls).fields, f.slot ≤ maxOperand

/-- Every local in scope has a slot that is an operand. -/
def LocalScope.Narrow (l : LocalScope) : Prop := ∀ name v, l.find? name = some v → v.slot ≤ maxOperand

def Meaning.Narrow : Meaning → Prop
  | localVar slot _ => slot ≤ maxOperand
  | field _ f => f.slot ≤ maxOperand
  | constant _ | methods .. | type _ | space _ | value _ | this => True

def Place.Narrow : Place → Prop
  | localVar slot _ => slot ≤ maxOperand
  | field f => f.slot ≤ maxOperand

namespace Recorded

variable {α β : Type} {R : β → Prop} {p : Pushed} {site : Site} {locals : LocalScope} {sp : Span}
  {name : Ident}

/-- A step that is taken or not. -/
theorem when {c : Bool} {x : Compiling Unit} {f : Unit → Compiling β} (h : Recorded x fun _ => True)
    (hf : Recorded (f ()) R) : Recorded (if c = true then x >>= f else f ()) R := by
  split
  · exact h.andThen fun _ => hf
  · exact hf

/-! ## Names -/

theorem thisMeaning : Recorded (Compile.thisMeaning site sp) Meaning.Narrow := by
  unfold Compile.thisMeaning
  split
  · exact fail _
  · exact pure trivial

theorem outerMeaning : Recorded (Compile.outerMeaning site name) Meaning.Narrow := by
  unfold Compile.outerMeaning
  split
  · exact pure trivial
  · split
    · exact pure trivial
    · split
      · exact pure trivial
      · exact fail _

theorem nameMeaning (h : site.Narrow) (hlocals : locals.Narrow) :
    Recorded (Compile.nameMeaning site locals name) Meaning.Narrow := by
  unfold Compile.nameMeaning
  split
  · next v hv => exact pure (hlocals _ v hv)
  · split
    · next f hf =>
      split
      · exact fail _
      · exact pure (h.owner f (Array.mem_of_find?_eq_some hf))
    · split
      · exact pure trivial
      · exact outerMeaning

theorem materialize {m : Meaning} (h : m.Narrow) :
    Recorded (Compile.materialize site m sp) fun _ => True := by
  refine offset.andThen fun start => ?_
  cases m with
  | localVar slot type => exact (emitWith _ h).andThen fun _ => pure trivial
  | field cls f => exact (emitWith _ h).andThen fun _ => pure trivial
  | constant v => exact push v
  | value p => exact pure trivial
  | methods | type | space | this => exact fail _

/-! ## Members -/

theorem checkAccess (owner : Nat) (v : Visibility) (text : String) :
    Recorded (Compile.checkAccess site owner v text sp) fun _ => True := by
  unfold Compile.checkAccess
  split
  · exact fail _
  · exact pure trivial

theorem spaceMember (space : String) :
    Recorded (Compile.spaceMember site space name) Meaning.Narrow := by
  unfold Compile.spaceMember
  dsimp only
  split
  · exact pure trivial
  · split
    · exact pure trivial
    · exact fail _

theorem scriptMember (h : site.Narrow) (cls : Nat) :
    Recorded (Compile.scriptMember site cls name) Meaning.Narrow := by
  unfold Compile.scriptMember
  dsimp only
  split
  · next f hf =>
    refine (checkAccess _ _ _).andThen fun _ => ?_
    split
    · exact pure (h.classes cls f (Array.mem_of_find?_eq_some hf))
    · exact fail _
  · split
    · exact pure trivial
    · exact fail _

theorem libraryMember (c : NativeClass) : Recorded (Compile.libraryMember c name) Meaning.Narrow := by
  unfold Compile.libraryMember
  split
  · exact pure trivial
  · split
    · exact pure trivial
    · split
      · exact fail _
      · exact fail _

theorem thisMember (h : site.Narrow) : Recorded (Compile.thisMember site name) Meaning.Narrow := by
  unfold Compile.thisMember
  split
  · next f hf =>
    split
    · exact fail _
    · exact pure (h.owner f (Array.mem_of_find?_eq_some hf))
  · split
    · exact pure trivial
    · exact fail _

theorem lengthOf (p : Pushed) : Recorded (Compile.lengthOf p sp) Meaning.Narrow := by
  unfold Compile.lengthOf
  split
  · exact (fold _).andThen fun n => (replace _ n).andThen fun _ => pure trivial
  · exact (emit _).andThen fun _ => pure trivial

theorem valueMember (p : Pushed) : Recorded (Compile.valueMember site p name) Meaning.Narrow := by
  unfold Compile.valueMember
  split
  · exact lengthOf p
  · split
    · exact pure trivial
    · split
      · split
        · exact fail _
        · exact pure trivial
      · exact fail _

theorem memberMeaning (h : site.Narrow) {m : Meaning} (hm : m.Narrow) :
    Recorded (Compile.memberMeaning site m sp name) Meaning.Narrow := by
  cases m with
  | localVar | field | constant | value => exact (materialize hm).andThen fun p => valueMember p
  | methods => exact fail _
  | type c =>
    cases c with
    | script i => exact scriptMember h i
    | native c => exact libraryMember c
  | space n => exact spaceMember n
  | this => exact thisMember h

/-! ## Places -/

theorem placeOf {m : Meaning} (hm : m.Narrow) : Recorded (Compile.placeOf site m sp) Place.Narrow := by
  cases m with
  | localVar slot type => exact pure hm
  | field cls f =>
    unfold Compile.placeOf
    dsimp only
    split
    · exact pure hm
    · exact fail _
  | _ => exact fail _

theorem load {place : Place} (h : place.Narrow) : Recorded (Compile.load place) fun _ => True := by
  cases place <;> exact emitWith _ h

theorem store {place : Place} (h : place.Narrow) : Recorded (Compile.store place) fun _ => True := by
  cases place <;> exact emitWith _ h

/-! ## Calls -/

theorem convertArguments (args : List Argument) (ts : List ValueType) :
    Recorded (Compile.convertArguments args ts) fun _ => True := by
  induction args generalizing ts with
  | nil => exact pure trivial
  | cons a args ih =>
    cases ts with
    | nil => exact pure trivial
    | cons t ts => exact (ih ts).andThen fun _ => discard (convertAt _ _ _ _)

theorem choose {as : List α} {params : α → List ValueType} {display : α → String} {text : String}
    {args : List Argument} : Recorded (Compile.choose as params display text args sp) fun _ => True := by
  unfold Compile.choose
  split
  · split
    · exact pure trivial
    · exact fail _
  · exact throw _

theorem countOperand (n : Nat) (what : String) :
    Recorded (Compile.countOperand n what sp) fun _ => n ≤ maxOperand := by
  unfold Compile.countOperand
  split
  · next hn => exact pure hn
  · exact fail _

theorem callScript (o cls : Nat) (onThis : Bool) (text : String) (args : List Argument) :
    Recorded (Compile.callScript site o cls onThis text args sp) fun _ => True := by
  refine choose.andThen fun found => (checkAccess _ _ _).andThen fun _ => ?_
  obtain ⟨m, i⟩ := found
  have called : Recorded (do
      Compile.convertArguments args m.params
      Compile.countOperand cls "classes" sp
      Compile.countOperand i "methods in a class" sp
      Compile.edit (·.emitCall cls i)
      return Pushed.unknown m.returns o) fun _ => True :=
    (convertArguments _ _).andThen fun _ => (countOperand _ _).bind fun _ hcls =>
      (countOperand _ _).bind fun _ hi => (emitCall hcls hi).andThen fun _ => pure trivial
  dsimp only
  split
  · exact Recorded.andThen (Q := fun _ => True) (fail _) fun _ => called
  · exact called

theorem callLibrary (candidates : List NativeFunction) (r : Option ValueType) (o : Nat) (text : String)
    (args : List Argument) :
    Recorded (Compile.callLibrary candidates r o text args sp) fun _ => True :=
  choose.andThen fun f => (convertArguments _ _).andThen fun _ => (importFunction f r).bind fun _ hi =>
    (emitWith _ hi).andThen fun _ => pure trivial

theorem callToText (p : Pushed) (text : String) (args : List Argument) :
    Recorded (Compile.callToText p text args sp) fun _ => True := by
  unfold Compile.callToText
  split
  · exact fail _
  · split
    · exact pure trivial
    · split
      · exact (fold _).andThen fun v => replace _ v
      · exact (emit _).andThen fun _ => pure trivial

theorem call (o : Nat) (callee : Callee) (text : String) (args : List Argument) :
    Recorded (Compile.call site o callee text args sp) fun _ => True := by
  cases callee with
  | script cls onThis => exact callScript o cls onThis text args
  | function c => exact callLibrary _ _ o text args
  | method c p => exact callLibrary _ _ _ text args
  | toText p => exact callToText p text args

/-! ## Operators -/

theorem applyBinary (op : BinaryOp) (l r : Pushed) (o : Nat) :
    Recorded (Compile.applyBinary op l o r sp) fun _ => True := by
  unfold Compile.applyBinary
  split
  · exact fail _
  · refine offset.andThen fun here => (convertAt _ _ _ _).andThen fun r =>
      (convertAt _ _ _ _).andThen fun l => ?_
    split
    · exact fail _
    · split
      · exact (fold _).andThen fun v => replace _ v
      · exact (emit _).andThen fun _ => pure trivial

theorem beginLogical (op : BinaryOp) : Recorded (Compile.beginLogical op) fun _ => True :=
  (emit _).andThen fun _ => (jump _).andThen fun _ => (emit _).andThen fun _ => pure trivial

theorem endLogical (op : BinaryOp) (l r : Pushed) (o : Nat) :
    Recorded (Compile.endLogical op l o r sp) fun _ => True := by
  refine (land _).andThen fun _ => ?_
  split
  · exact fail _
  · split
    · exact replace _ _
    · exact pure trivial

theorem applyUnary (op : UnaryOp) (p : Pushed) :
    Recorded (Compile.applyUnary op p sp) fun _ => True := by
  unfold Compile.applyUnary
  split
  · exact fail _
  · exact pure trivial
  · split
    · exact (fold _).andThen fun v => replace _ v
    · exact (emit _).andThen fun _ => pure trivial

theorem countPlace {place : Place} (h : place.Narrow) (up front : Bool) (use : Use) :
    Recorded (Compile.countPlace place up front use sp) fun _ => True := by
  unfold Compile.countPlace
  dsimp only
  split
  · exact fail _
  · refine offset.andThen fun o => (load h).andThen fun _ => when (emit _) ?_
    refine (emitValue _).andThen fun _ => (emit _).andThen fun _ => when (emit _) ?_
    exact (store h).andThen fun _ => pure trivial

theorem applyCompound (op : AssignOp) (binary : BinaryOp) (type : ValueType) (o : Nat) (r : Pushed) :
    Recorded (Compile.applyCompound op binary type o r sp) fun _ => True := by
  unfold Compile.applyCompound
  split
  · exact fail _
  · next plan _ =>
    split
    · exact fail _
    · refine offset.andThen fun here => (convertAt _ _ _ _).andThen fun r => ?_
      have ended : Recorded (if (plan.divides binary && r.constant.any (·.isIntegerZero)) = true then
          Compile.fail .constantDivisionByZero sp else Compile.emit plan.op) fun _ => True := by
        split
        · exact fail _
        · exact emit _
      cases plan.left with
      | some widen => exact (insert o widen).andThen fun _ => ended
      | none => exact ended

theorem endAssign {place : Place} (h : place.Narrow) (use : Use) (o : Nat) :
    Recorded (Compile.endAssign place use o) fun _ => True := by
  unfold Compile.endAssign
  exact when (emit _) ((store h).andThen fun _ => pure trivial)

variable {d : Draft} {t : ImportTable}

theorem layBranch {code : Code} (h : d.Has code) (p : Pushed) (type : ValueType) :
    RecordsFrom d t (Compile.layBranch code p type) fun _ _ => True := by
  obtain ⟨piece, hpiece, hcode⟩ := h
  refine (RecordsFrom.edit (.single (.lay hpiece hcode)) rfl).bind fun _ d' t' _ _ => ?_
  split
  · exact emit _ d' t'
  · exact .pure trivial

theorem endConditional {yes no : Code} (hyes : d.Has yes) (hno : d.Has no) (o l : Nat)
    (c a b : Pushed) :
    RecordsFrom d t (Compile.endConditional o c l a yes b no sp) fun _ _ => True := by
  unfold Compile.endConditional
  split
  · exact .fail _
  · split
    · split
      · exact replace _ _ d t
      · exact .fail _
    · refine (layBranch hyes a _).bind fun _ d₁ t₁ h₁ _ => (jump _ d₁ t₁).bind fun _ d₂ t₂ h₂ _ => ?_
      refine (land _ d₂ t₂).bind fun _ d₃ t₃ h₃ _ => ?_
      have hno : d₃.Has no := ((hno.steps h₁).steps h₂).steps h₃
      refine (layBranch hno b _).bind fun _ d₄ t₄ _ _ => (land _ d₄ t₄).bind fun _ _ _ _ _ => ?_
      exact .pure trivial

/-! ## The walk -/

variable {k : Nat → Compiling Meaning} {e : Expr} {depth : Nat}

theorem enter (levels : Nat) (h : ∀ d, Recorded (k d) Meaning.Narrow) :
    Recorded (Compile.enter depth levels sp k) Meaning.Narrow := by
  unfold Compile.enter
  split
  · exact fail _
  · exact h _

theorem asValue (h : ∀ d, Recorded (k d) Meaning.Narrow) :
    Recorded (Compile.asValue site depth e k) fun _ => True :=
  (enter _ h).bind fun _ hm => materialize hm

theorem asObject (h : ∀ d, Recorded (k d) Meaning.Narrow) :
    Recorded (Compile.asObject depth e k) Meaning.Narrow := enter _ h

theorem asName {other : Compiling Meaning} (hother : Recorded other Meaning.Narrow)
    (h : ∀ d, Recorded (k d) Meaning.Narrow) :
    Recorded (Compile.asName depth e other k) Meaning.Narrow := by
  unfold Compile.asName
  split
  · exact h _
  · exact enter _ h
  · exact hother

theorem asPlace (h : ∀ d, Recorded (k d) Meaning.Narrow) :
    Recorded (Compile.asPlace site depth e k) Place.Narrow :=
  (asName (fail _) h).bind fun _ hm => placeOf hm

mutual

/-- What an expression means is found by steps, and its slots are operands. -/
theorem meaning (h : site.Narrow) (hlocals : locals.Narrow) (depth : Nat) (use : Use) :
    (e : Expr) → Recorded (Compile.meaning site locals depth use e) Meaning.Narrow
  | .literal lit _ => by
    simp only [Compile.meaning]
    exact (push _).andThen fun _ => pure trivial
  | .ident name => by
    simp only [Compile.meaning]
    exact nameMeaning h hlocals
  | .this sp => by
    simp only [Compile.meaning]
    exact thisMeaning
  | .member object name _ => by
    have ih := fun d => meaning h hlocals d .value object
    simp only [Compile.meaning]
    exact (asObject ih).bind fun _ hm => memberMeaning h hm
  | .paren inner _ => by
    have ih := fun d use => meaning h hlocals d use inner
    rw [meaning_paren]
    split
    · exact ih depth .bare
    · exact (asValue fun d => ih d .value).andThen fun _ => pure trivial
  | .binary op left right sp => by
    have ihl := fun d => meaning h hlocals d .value left
    have ihr := fun d => meaning h hlocals d .value right
    have hleft : Recorded (leftOperand site locals depth left) fun _ => True := by
      unfold leftOperand
      split
      · exact (ihl depth).bind fun _ hm => materialize hm
      · exact asValue ihl
    rw [meaning_binary]
    refine hleft.andThen fun l => ?_
    split
    · exact (beginLogical op).andThen fun _ => (asValue ihr).andThen fun _ =>
        (endLogical op _ _ _).andThen fun _ => pure trivial
    · exact offset.andThen fun _ => (asValue ihr).andThen fun _ =>
        (applyBinary op _ _ _).andThen fun _ => pure trivial
  | .unary op operand sp => by
    have ih := fun d use => meaning h hlocals d use operand
    simp only [Compile.meaning]
    split
    · exact (asPlace fun d => ih d .bare).bind fun _ hplace =>
        (countPlace hplace _ true use).andThen fun _ => pure trivial
    · exact (asValue fun d => ih d .value).andThen fun _ =>
        (applyUnary op _).andThen fun _ => pure trivial
  | .post op operand sp => by
    have ih := fun d => meaning h hlocals d .bare operand
    simp only [Compile.meaning]
    exact (asPlace ih).bind fun _ hplace =>
      (countPlace hplace _ false use).andThen fun _ => pure trivial
  | .assign op target value sp => by
    have iht := fun d => meaning h hlocals d .bare target
    have ihv := fun d => meaning h hlocals d .value value
    simp only [Compile.meaning]
    refine (asPlace iht).bind fun place hplace => offset.andThen fun o => ?_
    have ended : Recorded (do return .value (← Compile.endAssign place use o)) Meaning.Narrow :=
      (endAssign hplace use o).andThen fun _ => pure trivial
    split
    · exact (asValue ihv).andThen fun _ => (discard (coerce _ _)).andThen fun _ => ended
    · exact (load hplace).andThen fun _ => offset.andThen fun _ => (asValue ihv).andThen fun _ =>
        (applyCompound op _ _ _ _).andThen fun _ => ended
  | .conditional condition yes no sp => by
    have ihc := fun d => meaning h hlocals d .value condition
    have ihy := fun d => meaning h hlocals d .value yes
    have ihn := fun d => meaning h hlocals d .value no
    simp only [Compile.meaning]
    refine offset.andThen fun _ => (asValue ihc).andThen fun _ => (coerce _ .bool).andThen fun _ =>
      (jump _).andThen fun _ => offset.andThen fun _ => (asValue ihy).andThen fun _ => ?_
    intro d t
    refine (cut _ d t).bind fun yes d₁ t₁ _ hyes => (asValue ihn d₁ t₁).bind fun _ d₂ t₂ h₂ _ => ?_
    refine (cut _ d₂ t₂).bind fun no d₃ t₃ h₃ hno => ?_
    exact (endConditional ((hyes.steps h₂).steps h₃) hno _ _ _ _ _).bind fun _ _ _ _ _ => .pure trivial
  | .call callee args sp => by
    have ihc := fun d => meaning h hlocals d .bare callee
    simp only [Compile.meaning]
    refine offset.andThen fun o => (asName (fail _) ihc).andThen fun m => ?_
    split
    · exact (arguments h hlocals depth args).andThen fun _ =>
        (call o _ _ _).andThen fun _ => pure trivial
    · exact fail _

theorem arguments (h : site.Narrow) (hlocals : locals.Narrow) (depth : Nat) : (es : List Expr) →
    Recorded (Compile.arguments site locals depth es) fun _ => True
  | [] => by
    simp only [Compile.arguments]
    exact pure trivial
  | e :: es => by
    have ih := fun d => meaning h hlocals d .value e
    simp only [Compile.arguments]
    exact (asValue ih).andThen fun _ => offset.andThen fun _ =>
      (arguments h hlocals depth es).andThen fun _ => pure trivial

end

section

variable (h : site.Narrow) (hlocals : locals.Narrow) (e : Expr)

include h hlocals

theorem value : Recorded (Compile.value site locals e) fun _ => True :=
  asValue fun d => meaning h hlocals d .value e

theorem valueOf (type : ValueType) : Recorded (Compile.valueOf site locals e type) fun _ => True :=
  (value h hlocals e).andThen fun _ => coerce _ type

theorem effect : Recorded (Compile.effect site locals e) fun _ => True := by
  unfold Compile.effect
  split
  · refine (meaning h hlocals 0 .discarded e).bind fun _ hm => (materialize hm).andThen fun _ => ?_
    split
    · exact emit _
    · exact pure trivial
  · exact fail _

end

end Recorded
end ClassScript
