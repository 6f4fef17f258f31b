import ClassScript.Proofs.Reorder.Following

/-!
Expressions compile in both orders.

One lemma for every step of the compiler of expressions tells that it follows the same step at the
other site; the walk over two trees that are the same but for places puts them together. Values are
pushed at the same offsets, so the answers are equal but for the places of fields in the source.
-/

namespace ClassScript

open Compile

/-! ## Symbols that differ in places -/

theorem FieldSymbol.eq_of_placeless {f f' : FieldSymbol} (h : f.placeless = f'.placeless) :
    f.type = f'.type ∧ f.visibility = f'.visibility ∧ f.isStatic = f'.isStatic ∧
      f.isReadonly = f'.isReadonly ∧ f.slot = f'.slot := by
  obtain ⟨-, htype, hvisibility, hstatic, hreadonly, hslot, -⟩ := FieldSymbol.mk.inj h
  exact ⟨htype, hvisibility, hstatic, hreadonly, hslot⟩

theorem MethodSymbol.eq_of_placeless {f f' : MethodSymbol} (h : f.placeless = f'.placeless) :
    f.visibility = f'.visibility ∧ f.isStatic = f'.isStatic ∧ f.params = f'.params ∧
      f.returns = f'.returns := by
  obtain ⟨-, -, hvisibility, hstatic, hparams, hreturns, -⟩ := MethodSymbol.mk.inj h
  exact ⟨hvisibility, hstatic, hparams, hreturns⟩

/-! ## Answers -/

/-- The same meaning, of a field that may stand elsewhere in the source. -/
inductive Meaning.Akin : Meaning → Meaning → Prop
  | field (cls : Nat) {f f' : FieldSymbol} (h : f.placeless = f'.placeless) :
      Akin (.field cls f) (.field cls f')
  | same (m : Meaning) : Akin m m

inductive Place.Akin : Place → Place → Prop
  | field {f f' : FieldSymbol} (h : f.placeless = f'.placeless) : Akin (.field f) (.field f')
  | same (p : Place) : Akin p p

theorem Place.Akin.type {p p' : Place} (h : p.Akin p') : p.type = p'.type := by
  cases h with
  | field h => exact (FieldSymbol.eq_of_placeless h).1
  | same => rfl

structure Compile.Argument.Akin (a b : Argument) : Prop where
  pushed : a.pushed = b.pushed
  stop : a.stop = b.stop

/-- The chosen methods are the same, and the second one is where it is said to be. -/
def SameMethod (c : ClassSymbol) (m m' : MethodSymbol × Nat) : Prop :=
  m.1.placeless = m'.1.placeless ∧ c.methods[m'.2]? = some m'.1

namespace Follows

variable {α : Type} {p : Pushed} {site site' : Site} {sp sp' : Span} {name name' : Ident}

/-! ## Values -/

theorem fold (r : Except EvalError Value) :
    Follows Eq (Compile.fold r sp) (Compile.fold r sp') := by
  cases r with
  | ok v => exact pure rfl
  | error e => exact fail _ _ _

theorem push (v : Value) : Follows Eq (Compile.push v) (Compile.push v) :=
  bind offset fun _ _ ho => ho ▸ bind (emitValue v) fun _ _ _ => pure rfl

theorem replace (o : Nat) (v : Value) : Follows Eq (Compile.replace o v) (Compile.replace o v) :=
  bind (edit (.truncate o)) fun _ _ _ => bind (emitValue v) fun _ _ _ => pure rfl

theorem convertAt (p : Pushed) (op : Option Opcode) (target : ValueType) (o : Nat) :
    Follows Eq (Compile.convertAt p op target o sp) (Compile.convertAt p op target o sp') := by
  unfold Compile.convertAt
  cases op with
  | none => exact pure rfl
  | some op =>
    have written (c : Option Value) : Follows Eq
        (do
          let here ← Compile.offset
          if o = here then Compile.emit op else Compile.edit (·.insert o op)
          return (⟨target, c, p.start⟩ : Pushed))
        (do
          let here ← Compile.offset
          if o = here then Compile.emit op else Compile.edit (·.insert o op)
          return (⟨target, c, p.start⟩ : Pushed)) := by
      refine bind offset fun here _ hhere => ?_
      subst hhere
      split
      · exact bind (emit op) fun _ _ _ => pure rfl
      · exact bind (edit (.insert o op)) fun _ _ _ => pure rfl
    cases p.constant with
    | none => exact written none
    | some v => exact bind (fold _) fun a _ ha => ha ▸ written (some a)

theorem coerce (p : Pushed) (target : ValueType) :
    Follows Eq (Compile.coerce p target sp) (Compile.coerce p target sp') := by
  unfold Compile.coerce
  split
  · exact fail _ _ _
  · exact pure rfl
  · split
    · exact bind (emit _) fun _ _ _ => pure rfl
    · split
      · exact replace _ _
      · exact fail _ _ _

/-! ## Names -/

theorem thisMeaning (h : site.Akin site') :
    Follows Meaning.Akin (Compile.thisMeaning site sp) (Compile.thisMeaning site' sp') := by
  unfold Compile.thisMeaning
  rw [h.isStatic]
  split
  · exact fail _ _ _
  · exact pure (.same _)

theorem keywordMeaning?_eq (h : site.Akin site') (text : String) :
    keywordMeaning? site text = keywordMeaning? site' text := by
  unfold keywordMeaning?
  rw [h.symbols.keywordClass?]

theorem outerMeaning (h : site.Akin site') (hname : name.placeless = name'.placeless) :
    Follows Meaning.Akin (Compile.outerMeaning site name) (Compile.outerMeaning site' name') := by
  unfold Compile.outerMeaning
  rw [← Ident.name_eq hname, h.symbols.lookupClass? h.owner, h.symbols.lookupNamespace? h.owner,
    keywordMeaning?_eq h]
  split
  · exact pure (.same _)
  · split
    · exact pure (.same _)
    · split
      · exact pure (.same _)
      · exact fail _ _ _

theorem nameMeaning (h : site.Akin site') (hname : name.placeless = name'.placeless)
    (locals : LocalScope) : Follows Meaning.Akin (Compile.nameMeaning site locals name)
      (Compile.nameMeaning site' locals name') := by
  unfold Compile.nameMeaning
  rw [← Ident.name_eq hname]
  split
  · exact pure (.same _)
  · have hfield := h.owner.field? name.name
    generalize site.owner.field? name.name = f at hfield ⊢
    generalize site'.owner.field? name.name = f' at hfield ⊢
    cases hfield with
    | @some f f' hf =>
      obtain ⟨-, -, hstatic, -⟩ := FieldSymbol.eq_of_placeless hf
      dsimp only
      rw [hstatic, h.isStatic, h.cls]
      split
      · exact fail _ _ _
      · exact pure (.field _ hf)
    | none =>
      dsimp only
      rw [h.owner.hasMethod, h.cls]
      split
      · exact pure (.same _)
      · exact outerMeaning h hname

theorem loadOp_eq {f f' : FieldSymbol} (h : f.placeless = f'.placeless) : loadOp f = loadOp f' := by
  rw [loadOp, loadOp, (FieldSymbol.eq_of_placeless h).2.2.1]

theorem loadField {f f' : FieldSymbol} (h : f.placeless = f'.placeless) :
    Follows Eq (Compile.emitWith (loadOp f) f.slot) (Compile.emitWith (loadOp f') f'.slot) := by
  obtain ⟨-, -, -, -, hslot⟩ := FieldSymbol.eq_of_placeless h
  rw [loadOp_eq h, hslot]
  exact emitWith _ id

theorem materialize {m m' : Meaning} (h : m.Akin m') :
    Follows Eq (Compile.materialize site m sp) (Compile.materialize site' m' sp') := by
  refine bind offset fun o _ ho => ?_
  subst ho
  cases h with
  | field cls hf =>
    obtain ⟨htype, -⟩ := FieldSymbol.eq_of_placeless hf
    exact bind (loadField hf) fun _ _ _ => pure (by rw [htype])
  | same m =>
    cases m with
    | localVar slot type => exact bind (emitWith _ id) fun _ _ _ => pure rfl
    | field cls f => exact bind (emitWith _ id) fun _ _ _ => pure rfl
    | constant v => exact push v
    | value p => exact pure rfl
    | methods | type | space | this => exact fail _ _ _

/-! ## Members -/

theorem checkAccess (h : site.Akin site') (owner : Nat) (v : Visibility) (text text' : String) :
    Follows Eq (Compile.checkAccess site owner v text sp)
      (Compile.checkAccess site' owner v text' sp') := by
  unfold Compile.checkAccess
  rw [h.cls]
  split
  · exact fail _ _ _
  · exact pure rfl

theorem spaceMember (h : site.Akin site') (space : String) (hname : name.placeless = name'.placeless) :
    Follows Meaning.Akin (Compile.spaceMember site space name)
      (Compile.spaceMember site' space name') := by
  unfold Compile.spaceMember
  rw [← Ident.name_eq hname, h.symbols.findClass?, h.symbols.isNamespace]
  dsimp only
  split
  · exact pure (.same _)
  · split
    · exact pure (.same _)
    · exact fail _ _ _

theorem scriptMember (h : site.Akin site') (cls : Nat) (hname : name.placeless = name'.placeless) :
    Follows Meaning.Akin (Compile.scriptMember site cls name)
      (Compile.scriptMember site' cls name') := by
  have hclass := h.classAt cls
  have hfield := hclass.field? name.name
  unfold Compile.scriptMember
  dsimp only
  rw [← Ident.name_eq hname, hclass.hasMethod]
  generalize (classAt site cls).field? name.name = f at hfield ⊢
  generalize (classAt site' cls).field? name.name = f' at hfield ⊢
  cases hfield with
  | @some f f' hf =>
    obtain ⟨-, hvisibility, hstatic, -⟩ := FieldSymbol.eq_of_placeless hf
    dsimp only
    rw [hvisibility, hstatic]
    refine bind (checkAccess h _ _ _ _) fun _ _ _ => ?_
    split
    · exact pure (.field cls hf)
    · exact fail _ _ _
  | none =>
    dsimp only
    split
    · exact pure (.same _)
    · exact fail _ _ _

theorem libraryMember (c : NativeClass) (hname : name.placeless = name'.placeless) :
    Follows Meaning.Akin (Compile.libraryMember c name) (Compile.libraryMember c name') := by
  unfold Compile.libraryMember
  rw [← Ident.name_eq hname]
  split
  · exact pure (.same _)
  · split
    · exact pure (.same _)
    · split
      · exact fail _ _ _
      · exact fail _ _ _

theorem thisMember (h : site.Akin site') (hname : name.placeless = name'.placeless) :
    Follows Meaning.Akin (Compile.thisMember site name) (Compile.thisMember site' name') := by
  have hfield := h.owner.field? name.name
  unfold Compile.thisMember
  rw [← Ident.name_eq hname, h.owner.hasMethod, h.cls]
  generalize site.owner.field? name.name = f at hfield ⊢
  generalize site'.owner.field? name.name = f' at hfield ⊢
  cases hfield with
  | @some f f' hf =>
    obtain ⟨-, -, hstatic, -⟩ := FieldSymbol.eq_of_placeless hf
    dsimp only
    rw [hstatic]
    split
    · exact fail _ _ _
    · exact pure (.field _ hf)
  | none =>
    dsimp only
    split
    · exact pure (.same _)
    · exact fail _ _ _

theorem lengthOf (p : Pushed) :
    Follows Meaning.Akin (Compile.lengthOf p sp) (Compile.lengthOf p sp') := by
  unfold Compile.lengthOf
  split
  · exact bind (fold _) fun a _ ha => ha ▸ bind (replace _ a) fun _ _ hp => hp ▸ pure (.same _)
  · exact bind (emit _) fun _ _ _ => pure (.same _)

theorem valueMember (h : site.Akin site') (p : Pushed) (hname : name.placeless = name'.placeless) :
    Follows Meaning.Akin (Compile.valueMember site p name)
      (Compile.valueMember site' p name') := by
  unfold Compile.valueMember
  rw [← Ident.name_eq hname, h.symbols.keywordClass?]
  split
  · exact lengthOf p
  · split
    · exact pure (.same _)
    · split
      · split
        · exact fail _ _ _
        · exact pure (.same _)
      · exact fail _ _ _

theorem memberMeaning (h : site.Akin site') {m m' : Meaning} (hm : m.Akin m')
    (hname : name.placeless = name'.placeless) :
    Follows Meaning.Akin (Compile.memberMeaning site m sp name)
      (Compile.memberMeaning site' m' sp' name') := by
  have ofValue {m m' : Meaning} (hm : m.Akin m') : Follows Meaning.Akin
      (do Compile.valueMember site (← Compile.materialize site m sp) name)
      (do Compile.valueMember site' (← Compile.materialize site' m' sp') name') :=
    bind (materialize hm) fun p _ hp => hp ▸ valueMember h p hname
  cases hm with
  | field cls hf => exact ofValue (.field cls hf)
  | same m =>
    cases m with
    | localVar | field | constant | value => exact ofValue (.same _)
    | methods => exact fail _ _ _
    | type c =>
      cases c with
      | script i => exact scriptMember h i hname
      | native c => exact libraryMember c hname
    | space n => exact spaceMember h n hname
    | this => exact thisMember h hname

/-! ## Places -/

theorem isWritable_eq (h : site.Akin site') (cls : Nat) {f f' : FieldSymbol}
    (hf : f.placeless = f'.placeless) : isWritable site cls f = isWritable site' cls f' := by
  obtain ⟨-, -, hstatic, hreadonly, -⟩ := FieldSymbol.eq_of_placeless hf
  unfold isWritable
  rw [hreadonly, hstatic, h.cls, h.kind]

theorem placeOf (h : site.Akin site') {m m' : Meaning} (hm : m.Akin m') :
    Follows Place.Akin (Compile.placeOf site m sp) (Compile.placeOf site' m' sp') := by
  have ofField (cls : Nat) {f f' : FieldSymbol} (hf : f.placeless = f'.placeless) : Follows Place.Akin
      (if isWritable site cls f then Pure.pure (.field f) else Compile.fail .readonlyAssignment sp)
      (if isWritable site' cls f' then Pure.pure (.field f')
        else Compile.fail .readonlyAssignment sp') := by
    rw [isWritable_eq h cls hf]
    split
    · exact pure (.field hf)
    · exact fail _ _ _
  cases hm with
  | field cls hf => exact ofField cls hf
  | same m =>
    cases m with
    | localVar slot type => exact pure (.same _)
    | field cls f => exact ofField cls rfl
    | _ => exact fail _ _ _

theorem load {place place' : Place} (h : place.Akin place') :
    Follows Eq (Compile.load place) (Compile.load place') := by
  cases h with
  | field hf => exact loadField hf
  | same place => cases place <;> exact emitWith _ id

theorem store {place place' : Place} (h : place.Akin place') :
    Follows Eq (Compile.store place) (Compile.store place') := by
  cases h with
  | @field f f' hf =>
    obtain ⟨-, -, hstatic, -, hslot⟩ := FieldSymbol.eq_of_placeless hf
    unfold Compile.store
    dsimp only
    rw [storeOp, storeOp, hstatic, hslot]
    exact emitWith _ id
  | same place => cases place <;> exact emitWith _ id

/-! ## Calls -/

variable {args args' : List Argument}

theorem map_type_eq (h : List.Forall₂ Argument.Akin args args') :
    args.map (·.pushed.type) = args'.map (·.pushed.type) := by
  induction h with
  | nil => rfl
  | cons h _ ih => rw [List.map_cons, List.map_cons, ih, h.pushed]

theorem convertArguments (h : List.Forall₂ Argument.Akin args args') (ts : List ValueType) :
    Follows Eq (Compile.convertArguments args ts) (Compile.convertArguments args' ts) := by
  induction h generalizing ts with
  | nil => exact pure rfl
  | @cons a b args args' h _ ih =>
    cases ts with
    | nil => exact pure rfl
    | cons t ts =>
      refine bind (ih ts) fun _ _ _ => ?_
      rw [h.pushed, h.stop]
      exact discard (convertAt _ _ _ _)

/-- Candidates in two orders. -/
theorem choose {as bs : List α} {params : α → List ValueType} {display display' : α → String}
    {text text' : String} {Q : α → α → Prop} (hargs : List.Forall₂ Argument.Akin args args')
    (h : ∀ i a ts, Overload.resolve (as.map params) ts = .ok i → as[i]? = some a →
      ∃ j b, Overload.resolve (bs.map params) ts = .ok j ∧ bs[j]? = some b ∧ Q a b) :
    Follows Q (Compile.choose as params display text args sp)
      (Compile.choose bs params display' text' args' sp') := by
  unfold Compile.choose
  rw [← map_type_eq hargs]
  cases hi : Overload.resolve (as.map params) (args.map (·.pushed.type)) with
  | error e => exact throw _ _
  | ok i =>
    dsimp only
    cases ha : as[i]? with
    | none => exact fail _ _ _
    | some a =>
      obtain ⟨j, b, hj, hb, hab⟩ := h i a _ hi ha
      rw [hj]
      dsimp only
      rw [hb]
      exact pure hab

theorem chooseMethod (h : site.Akin site') (cls : Nat) (text : String)
    {display display' : MethodSymbol × Nat → String} (hargs : List.Forall₂ Argument.Akin args args') : Follows (SameMethod (classAt site' cls))
      (Compile.choose ((classAt site cls).methodsNamed text) (·.1.params) display text args sp)
      (Compile.choose ((classAt site' cls).methodsNamed text) (·.1.params) display' text args' sp') := by
  refine choose hargs fun i a ts hi ha => ?_
  have hperm := (h.classAt cls).methodsNamed text
  have hkey (f : MethodSymbol × Nat) : f.1.params = MethodSymbol.params f.1.placeless := rfl
  obtain ⟨j, b, hj, hb, hab⟩ := Overload.resolve_perm hkey hperm hi ha
  exact ⟨j, b, hj, hb, hab, ClassSymbol.mem_methodsNamed (List.mem_of_getElem? hb)⟩

theorem countOperand {n n' : Nat} (what : String)
    (h : n ≤ Emitter.maxOperand → n' ≤ Emitter.maxOperand) :
    Follows Eq (Compile.countOperand n what sp) (Compile.countOperand n' what sp') := by
  unfold Compile.countOperand
  split
  · next hn =>
    rw [if_pos (h hn)]
    exact pure rfl
  · exact fail _ _ _

theorem callScript (h : site.Akin site') (o cls : Nat) (onThis : Bool) (text : String)
    (hargs : List.Forall₂ Argument.Akin args args') :
    Follows Eq (Compile.callScript site o cls onThis text args sp)
      (Compile.callScript site' o cls onThis text args' sp') := by
  refine bind (chooseMethod h cls text hargs) fun c c' hc => ?_
  obtain ⟨m, i⟩ := c
  obtain ⟨m', i'⟩ := c'
  obtain ⟨hm, hplace⟩ := hc
  have hfits : i ≤ Emitter.maxOperand → i' ≤ Emitter.maxOperand := fun _ =>
    Nat.lt_succ_iff.mp (Nat.lt_of_lt_of_le (Array.getElem?_eq_some_iff.mp hplace).1 (h.few cls))
  obtain ⟨hvisibility, hstatic, hparams, hreturns⟩ := MethodSymbol.eq_of_placeless hm
  dsimp only
  rw [hvisibility, hstatic, h.isStatic]
  refine bind (checkAccess h _ _ _ _) fun _ _ _ => ?_
  have called : Follows Eq
      (do
        Compile.convertArguments args m.params
        Compile.countOperand cls "classes" sp
        Compile.countOperand i "methods in a class" sp
        Compile.edit (·.emitCall cls i)
        return Pushed.unknown m.returns o)
      (do
        Compile.convertArguments args' m'.params
        Compile.countOperand cls "classes" sp'
        Compile.countOperand i' "methods in a class" sp'
        Compile.edit (·.emitCall cls i')
        return Pushed.unknown m'.returns o) := by
    rw [hparams, hreturns]
    exact bind (convertArguments hargs _) fun _ _ _ => bind (countOperand _ id) fun _ _ _ =>
      bind (countOperand _ hfits) fun _ _ _ => bind (edit (.emitCall cls hfits)) fun _ _ _ => pure rfl
  split
  · exact bind (fail (Q := Eq) _ _ _) fun _ _ _ => called
  · exact called

theorem callLibrary (candidates : List NativeFunction) (r : Option ValueType) (o : Nat)
    (text : String) (hargs : List.Forall₂ Argument.Akin args args') :
    Follows Eq (Compile.callLibrary candidates r o text args sp)
      (Compile.callLibrary candidates r o text args' sp') := by
  refine bind (choose (Q := Eq) hargs fun i a _ hi ha => ⟨i, a, hi, ha, rfl⟩) fun f _ hf => ?_
  subst hf
  exact bind (convertArguments hargs _) fun _ _ _ => bind (importFunction f r) fun _ _ hj =>
    bind (emitWith _ fun _ => hj) fun _ _ _ => pure rfl

theorem callToText (p : Pushed) (text : String) (hargs : List.Forall₂ Argument.Akin args args') :
    Follows Eq (Compile.callToText p text args sp) (Compile.callToText p text args' sp') := by
  have hempty : args.isEmpty = args'.isEmpty := by cases hargs <;> rfl
  unfold Compile.callToText
  rw [hempty]
  split
  · exact fail _ _ _
  · split
    · exact pure rfl
    · split
      · exact bind (fold _) fun a _ ha => ha ▸ replace _ a
      · exact bind (emit _) fun _ _ _ => pure rfl

theorem call (h : site.Akin site') (o : Nat) (callee : Callee) (text : String)
    (hargs : List.Forall₂ Argument.Akin args args') :
    Follows Eq (Compile.call site o callee text args sp)
      (Compile.call site' o callee text args' sp') := by
  cases callee with
  | script cls onThis => exact callScript h o cls onThis text hargs
  | function c => exact callLibrary _ _ o text hargs
  | method c p => exact callLibrary _ _ _ text hargs
  | toText p => exact callToText p text hargs

/-! ## Operators -/

theorem applyBinary (op : BinaryOp) (l r : Pushed) (o : Nat) :
    Follows Eq (Compile.applyBinary op l o r sp) (Compile.applyBinary op l o r sp') := by
  unfold Compile.applyBinary
  split
  · exact fail _ _ _
  · refine bind offset fun here _ hhere => hhere ▸ bind (convertAt _ _ _ _) fun r _ hr => hr ▸
      bind (convertAt _ _ _ _) fun l _ hl => hl ▸ ?_
    split
    · exact fail _ _ _
    · split
      · exact bind (fold _) fun v _ hv => hv ▸ replace _ v
      · exact bind (emit _) fun _ _ _ => pure rfl

theorem beginLogical (op : BinaryOp) :
    Follows Eq (Compile.beginLogical op) (Compile.beginLogical op) :=
  bind (emit _) fun _ _ _ => bind (jump _) fun _ _ hlabel => hlabel ▸
    bind (emit _) fun _ _ _ => pure rfl

theorem endLogical (op : BinaryOp) (l r : Pushed) (o : Nat) :
    Follows Eq (Compile.endLogical op l o r sp) (Compile.endLogical op l o r sp') := by
  refine bind (land _) fun _ _ _ => ?_
  split
  · exact fail _ _ _
  · split
    · exact replace _ _
    · exact pure rfl

theorem applyUnary (op : UnaryOp) (p : Pushed) :
    Follows Eq (Compile.applyUnary op p sp) (Compile.applyUnary op p sp') := by
  unfold Compile.applyUnary
  split
  · exact fail _ _ _
  · exact pure rfl
  · split
    · exact bind (fold _) fun v _ hv => hv ▸ replace _ v
    · exact bind (emit _) fun _ _ _ => pure rfl

theorem countPlace {place place' : Place} (h : place.Akin place') (up front : Bool) (use : Use) :
    Follows Eq (Compile.countPlace place up front use sp)
      (Compile.countPlace place' up front use sp') := by
  unfold Compile.countPlace
  rw [h.type]
  dsimp only
  split
  · exact fail _ _ _
  · refine bind offset fun o _ ho => ho ▸ bind (load h) fun _ _ _ => when (emit _) ?_
    refine bind (emitValue _) fun _ _ _ => bind (emit _) fun _ _ _ => when (emit _) ?_
    exact bind (store h) fun _ _ _ => pure rfl

theorem applyCompound (op : AssignOp) (binary : BinaryOp) (type : ValueType) (o : Nat) (r : Pushed) :
    Follows Eq (Compile.applyCompound op binary type o r sp)
      (Compile.applyCompound op binary type o r sp') := by
  unfold Compile.applyCompound
  split
  · exact fail _ _ _
  · next plan _ =>
    split
    · exact fail _ _ _
    · refine bind offset fun here _ hhere => hhere ▸ bind (convertAt _ _ _ _) fun r _ hr => hr ▸ ?_
      have ended : Follows Eq
          (if (plan.divides binary && r.constant.any (·.isIntegerZero)) = true then
            Compile.fail .constantDivisionByZero sp
          else Compile.emit plan.op)
          (if (plan.divides binary && r.constant.any (·.isIntegerZero)) = true then
            Compile.fail .constantDivisionByZero sp'
          else Compile.emit plan.op) := by
        split
        · exact fail _ _ _
        · exact emit _
      cases plan.left with
      | some widen => exact bind (edit (.insert o widen)) fun _ _ _ => ended
      | none => exact ended

theorem endAssign {place place' : Place} (h : place.Akin place') (use : Use) (o : Nat) :
    Follows Eq (Compile.endAssign place use o) (Compile.endAssign place' use o) := by
  unfold Compile.endAssign
  rw [h.type]
  exact when (emit _) (bind (store h) fun _ _ _ => pure rfl)

theorem layBranch {code code' : Code} (h : code.size = code'.size) (p : Pushed) (type : ValueType) :
    Follows Eq (Compile.layBranch code p type) (Compile.layBranch code' p type) := by
  refine bind (bytes h) fun _ _ _ => ?_
  split
  · exact emit _
  · exact pure rfl

theorem endConditional (o l : Nat) (c a b : Pushed) {yes yes' no no' : Code}
    (hyes : yes.size = yes'.size) (hno : no.size = no'.size) :
    Follows Eq (Compile.endConditional o c l a yes b no sp)
      (Compile.endConditional o c l a yes' b no' sp') := by
  unfold Compile.endConditional
  split
  · exact fail _ _ _
  · split
    · split
      · exact replace _ _
      · exact fail _ _ _
    · exact bind (layBranch hyes a _) fun _ _ _ => bind (jump _) fun _ _ hlabel => hlabel ▸
        bind (land _) fun _ _ _ => bind (layBranch hno b _) fun _ _ _ => bind (land _) fun _ _ _ =>
          pure rfl

/-! ## The walk -/

variable {k k' : Nat → Compiling Meaning} {e e' : Expr} {locals : LocalScope} {depth : Nat}

theorem enter (levels : Nat) (h : ∀ d, Follows Meaning.Akin (k d) (k' d)) :
    Follows Meaning.Akin (Compile.enter depth levels sp k) (Compile.enter depth levels sp' k') := by
  unfold Compile.enter
  split
  · exact fail _ _ _
  · exact h _

theorem valueLevels_eq (he : e.placeless = e'.placeless) : valueLevels e = valueLevels e' := by
  cases e <;> cases e' <;> first | rfl | simp [Expr.placeless] at he

theorem objectLevels_eq (he : e.placeless = e'.placeless) : objectLevels e = objectLevels e' := by
  cases e <;> cases e' <;> first | rfl | simp [Expr.placeless] at he

theorem asValue (he : e.placeless = e'.placeless) (h : ∀ d, Follows Meaning.Akin (k d) (k' d)) :
    Follows Eq (Compile.asValue site depth e k) (Compile.asValue site' depth e' k') := by
  unfold Compile.asValue
  rw [valueLevels_eq he]
  exact bind (enter _ h) fun _ _ hm => materialize hm

theorem asObject (he : e.placeless = e'.placeless) (h : ∀ d, Follows Meaning.Akin (k d) (k' d)) :
    Follows Meaning.Akin (Compile.asObject depth e k) (Compile.asObject depth e' k') := by
  unfold Compile.asObject
  rw [objectLevels_eq he]
  exact enter _ h

theorem asName (he : e.placeless = e'.placeless) {fault : SemanticFault} {other : Compiling Meaning}
    (h : ∀ d, Follows Meaning.Akin (k d) (k' d)) :
    Follows Meaning.Akin (Compile.asName depth e (Compile.fail fault sp) k)
      (Compile.asName depth e' other k') := by
  have hbare := Expr.bare_eq he
  unfold Compile.asName
  generalize e.bare = b at hbare ⊢
  generalize e'.bare = b' at hbare ⊢
  cases b with
  | ident =>
    obtain ⟨_, rfl, -⟩ := Expr.of_ident hbare
    exact h _
  | member =>
    obtain ⟨_, _, _, rfl, -, -⟩ := Expr.of_member hbare
    exact enter _ h
  | _ => exact fail _ _ _

theorem asPlace (hsite : site.Akin site') (he : e.placeless = e'.placeless)
    (h : ∀ d, Follows Meaning.Akin (k d) (k' d)) :
    Follows Place.Akin (Compile.asPlace site depth e k) (Compile.asPlace site' depth e' k') :=
  bind (asName he h) fun _ _ hm => placeOf hsite hm

end Follows

namespace Follows

variable {site site' : Site}

mutual

/-- The same expression means the same at both sites. -/
theorem meaning (h : site.Akin site') (locals : LocalScope) (depth : Nat) (use : Use) :
    (e e' : Expr) → e.placeless = e'.placeless → Follows Meaning.Akin (Compile.meaning site locals depth use e)
      (Compile.meaning site' locals depth use e')
  | .literal lit _, e', he => by
    obtain ⟨_, rfl⟩ := Expr.of_literal he
    simp only [Compile.meaning]
    exact bind (push _) fun _ _ hp => hp ▸ pure (.same _)
  | .ident name, e', he => by
    obtain ⟨_, rfl, hname⟩ := Expr.of_ident he
    simp only [Compile.meaning]
    exact nameMeaning h hname locals
  | .this sp, e', he => by
    obtain ⟨_, rfl⟩ := Expr.of_this he
    simp only [Compile.meaning]
    exact thisMeaning h
  | .member object name _, e', he => by
    obtain ⟨object', _, _, rfl, hobject, hname⟩ := Expr.of_member he
    have ih := fun d => meaning h locals d .value object object' hobject
    simp only [Compile.meaning]
    exact bind (asObject hobject ih) fun _ _ hm => memberMeaning h hm hname
  | .paren inner _, e', he => by
    obtain ⟨inner', _, rfl, hinner⟩ := Expr.of_paren he
    have ih := fun d use => meaning h locals d use inner inner' hinner
    rw [meaning_paren, meaning_paren]
    split
    · exact ih depth .bare
    · exact bind (asValue hinner fun d => ih d .value) fun _ _ hp => hp ▸ pure (.same _)
  | .binary op left right sp, e', he => by
    obtain ⟨left', right', _, rfl, hl, hr⟩ := Expr.of_binary he
    have ihl := fun d => meaning h locals d .value left left' hl
    have ihr := fun d => meaning h locals d .value right right' hr
    have hleft : Follows Eq (leftOperand site locals depth left) (leftOperand site' locals depth left') := by
      have hvalue : Follows Eq (Compile.asValue site depth left fun d => Compile.meaning site locals d .value left)
          (Compile.asValue site' depth left' fun d => Compile.meaning site' locals d .value left') :=
        asValue hl ihl
      cases left with
      | binary =>
        obtain ⟨_, _, _, rfl, -, -⟩ := Expr.of_binary hl
        exact bind (ihl depth) fun _ _ hm => materialize hm
      | literal => obtain ⟨_, rfl⟩ := Expr.of_literal hl; exact hvalue
      | ident => obtain ⟨_, rfl, -⟩ := Expr.of_ident hl; exact hvalue
      | this => obtain ⟨_, rfl⟩ := Expr.of_this hl; exact hvalue
      | unary => obtain ⟨_, _, rfl, -⟩ := Expr.of_unary hl; exact hvalue
      | post => obtain ⟨_, _, rfl, -⟩ := Expr.of_post hl; exact hvalue
      | assign => obtain ⟨_, _, _, rfl, -⟩ := Expr.of_assign hl; exact hvalue
      | conditional => obtain ⟨_, _, _, _, rfl, -⟩ := Expr.of_conditional hl; exact hvalue
      | call => obtain ⟨_, _, _, rfl, -⟩ := Expr.of_call hl; exact hvalue
      | member => obtain ⟨_, _, _, rfl, -⟩ := Expr.of_member hl; exact hvalue
      | paren => obtain ⟨_, _, rfl, -⟩ := Expr.of_paren hl; exact hvalue
    rw [meaning_binary, meaning_binary]
    refine bind hleft fun l _ hl => hl ▸ ?_
    split
    · exact bind (beginLogical op) fun _ _ hlabel => hlabel ▸ bind (asValue hr ihr) fun _ _ hr => hr ▸
        bind (endLogical op _ _ _) fun _ _ hp => hp ▸ pure (.same _)
    · exact bind offset fun _ _ ho => ho ▸ bind (asValue hr ihr) fun _ _ hr => hr ▸
        bind (applyBinary op _ _ _) fun _ _ hp => hp ▸ pure (.same _)
  | .unary op operand sp, e', he => by
    obtain ⟨operand', _, rfl, ho⟩ := Expr.of_unary he
    have ih := fun d use => meaning h locals d use operand operand' ho
    simp only [Compile.meaning]
    split
    · exact bind (asPlace h ho fun d => ih d .bare) fun _ _ hplace =>
        bind (countPlace hplace _ true use) fun _ _ hp => hp ▸ pure (.same _)
    · exact bind (asValue ho fun d => ih d .value) fun _ _ hp => hp ▸
        bind (applyUnary op _) fun _ _ hp => hp ▸ pure (.same _)
  | .post op operand sp, e', he => by
    obtain ⟨operand', _, rfl, ho⟩ := Expr.of_post he
    have ih := fun d => meaning h locals d .bare operand operand' ho
    simp only [Compile.meaning]
    exact bind (asPlace h ho ih) fun _ _ hplace =>
      bind (countPlace hplace _ false use) fun _ _ hp => hp ▸ pure (.same _)
  | .assign op target value sp, e', he => by
    obtain ⟨target', value', _, rfl, ht, hv⟩ := Expr.of_assign he
    have iht := fun d => meaning h locals d .bare target target' ht
    have ihv := fun d => meaning h locals d .value value value' hv
    simp only [Compile.meaning]
    refine bind (asPlace h ht iht) fun place place' hplace => bind offset fun o _ ho => ?_
    subst ho
    have ended : Follows Meaning.Akin (do return .value (← Compile.endAssign place use o))
        (do return .value (← Compile.endAssign place' use o)) :=
      bind (endAssign hplace use o) fun _ _ hp => hp ▸ pure (.same _)
    rw [hplace.type]
    split
    · exact bind (asValue hv ihv) fun _ _ hp => hp ▸
        bind (discard (coerce _ _)) fun _ _ _ => ended
    · exact bind (load hplace) fun _ _ _ => bind offset fun _ _ ho => ho ▸
        bind (asValue hv ihv) fun _ _ hp => hp ▸
          bind (applyCompound op _ _ _ _) fun _ _ _ => ended
  | .conditional condition yes no sp, e', he => by
    obtain ⟨condition', yes', no', _, rfl, hc, hy, hn⟩ := Expr.of_conditional he
    have ihc := fun d => meaning h locals d .value condition condition' hc
    have ihy := fun d => meaning h locals d .value yes yes' hy
    have ihn := fun d => meaning h locals d .value no no' hn
    simp only [Compile.meaning]
    exact bind offset fun _ _ ho => ho ▸ bind (asValue hc ihc) fun _ _ hp => hp ▸
      bind (coerce _ .bool) fun _ _ hp => hp ▸ bind (jump _) fun _ _ hlabel => hlabel ▸
        bind offset fun _ _ ho => ho ▸ bind (asValue hy ihy) fun _ _ ha => ha ▸
          bind (cut _) fun _ _ hyes => bind (asValue hn ihn) fun _ _ hb => hb ▸
            bind (cut _) fun _ _ hno => bind (endConditional _ _ _ _ _ hyes hno) fun _ _ hp => hp ▸
              pure (.same _)
  | .call callee args sp, e', he => by
    obtain ⟨callee', args', _, rfl, hc, hargs⟩ := Expr.of_call he
    have ihc := fun d => meaning h locals d .bare callee callee' hc
    simp only [Compile.meaning]
    refine bind offset fun o _ ho => ho ▸ bind (asName hc ihc) fun m m' hm => ?_
    cases hm with
    | field => exact fail _ _ _
    | same m =>
      cases m with
      | methods target name =>
        exact bind (arguments h locals depth args args' hargs) fun _ _ hargs =>
          bind (call h o target name hargs) fun _ _ hp => hp ▸ pure (.same _)
      | _ => exact fail _ _ _

theorem arguments (h : site.Akin site') (locals : LocalScope) (depth : Nat) : (es es' : List Expr) →
    Expr.placelessAll es = Expr.placelessAll es' → Follows (List.Forall₂ Argument.Akin)
      (Compile.arguments site locals depth es) (Compile.arguments site' locals depth es')
  | [], es', hes => by
    obtain rfl := Expr.of_nil hes
    simp only [Compile.arguments]
    exact pure .nil
  | e :: es, es', hes => by
    obtain ⟨e', es', rfl, he, hes⟩ := Expr.of_cons hes
    have ih := fun d => meaning h locals d .value e e' he
    simp only [Compile.arguments]
    exact bind (asValue he ih) fun _ _ hp => bind offset fun _ _ ho =>
      bind (arguments h locals depth es es' hes) fun _ _ hargs => pure (.cons ⟨hp, ho⟩ hargs)

end

variable (h : site.Akin site') (locals : LocalScope) {e e' : Expr} (he : e.placeless = e'.placeless)

include h he

theorem value : Follows Eq (Compile.value site locals e) (Compile.value site' locals e') :=
  asValue he fun d => meaning h locals d .value e e' he

theorem valueOf (type : ValueType) :
    Follows Eq (Compile.valueOf site locals e type) (Compile.valueOf site' locals e' type) :=
  bind (value h locals he) fun _ _ hp => hp ▸ coerce _ type

theorem effect : Follows Eq (Compile.effect site locals e) (Compile.effect site' locals e') := by
  have heffect : isEffect e = isEffect e' := by
    cases e <;> cases e' <;> simp_all [Expr.placeless, isEffect]
  unfold Compile.effect
  rw [heffect]
  split
  · refine bind (meaning h locals 0 .discarded e e' he) fun _ _ hm => bind (materialize hm) fun _ _ hp => ?_
    subst hp
    split
    · exact emit _
    · exact pure rfl
  · exact fail _ _ _

end Follows
end ClassScript
