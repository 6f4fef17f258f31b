import ClassScript.Proofs.Layout.Operation

/-!
Operators, assignments, conditionals and calls write what the layout of their form says.
-/

namespace ClassScript.Layout

open Code (Instruction)
open Compile

variable {site : Site} {locals : LocalScope} {use : Use} {s t u v w : CodeState} {m : Meaning}
  {p p' q r : Pushed} {sp : Span}

/-! ## Growth -/

namespace Grows

theorem applyBinary (op : BinaryOp) (left : Pushed) (stop : Nat) (right : Pushed) (sp : Span) :
    Grows (Compile.applyBinary op left stop right sp) := by
  unfold Compile.applyBinary
  split
  · exact fail _ _
  · refine bind offset fun _ => bind (convertAt _ _ _ _ _) fun _ =>
      bind (convertAt _ _ _ _ _) fun _ => ?_
    split
    · exact fail _ _
    · split
      · exact bind (fold _ _) fun _ => replace _ _
      · exact bind (emit _) fun _ => pure _

theorem applyUnary (op : UnaryOp) (p : Pushed) (sp : Span) : Grows (Compile.applyUnary op p sp) := by
  unfold Compile.applyUnary
  split
  · exact fail _ _
  · exact pure _
  · split
    · exact bind (fold _ _) fun _ => replace _ _
    · exact bind (emit _) fun _ => pure _

theorem endLogical (op : BinaryOp) (left : Pushed) (label : Nat) (right : Pushed) (sp : Span) :
    Grows (Compile.endLogical op left label right sp) := by
  unfold Compile.endLogical
  refine bind (land _) fun _ => ?_
  split
  · exact fail _ _
  · split
    · exact replace _ _
    · exact pure _

theorem layBranch (code : Code) (p : Pushed) (type : ValueType) :
    Grows (Compile.layBranch code p type) := by
  unfold Compile.layBranch
  refine bind (edit fun _ => rfl) fun _ => ?_
  split
  · exact emit _
  · exact pure _

theorem endConditional (start : Nat) (c : Pushed) (toElse : Nat) (yes : Pushed) (yesCode : Code)
    (no : Pushed) (noCode : Code) (sp : Span) :
    Grows (Compile.endConditional start c toElse yes yesCode no noCode sp) := by
  unfold Compile.endConditional
  split
  · exact fail _ _
  · split
    · split
      · exact replace _ _
      · exact fail _ _
    · exact bind (layBranch _ _ _) fun _ => bind (jump _) fun _ => bind (land _) fun _ =>
        bind (layBranch _ _ _) fun _ => bind (land _) fun _ => pure _

theorem applyCompound (op : AssignOp) (binary : BinaryOp) (type : ValueType) (stop : Nat)
    (right : Pushed) (sp : Span) : Grows (Compile.applyCompound op binary type stop right sp) := by
  unfold Compile.applyCompound
  split
  · exact fail _ _
  · split
    · exact fail _ _
    · next plan _ _ =>
      refine bind offset fun _ => bind (convertAt _ _ _ _ _) fun right => ?_
      have ended : Grows (if (plan.divides binary && right.constant.any (·.isIntegerZero)) = true
          then Compile.fail .constantDivisionByZero sp else Compile.emit plan.op) := by
        split
        · exact fail _ _
        · exact emit _
      cases plan.left with
      | some widen => exact bind (edit fun _ => rfl) fun _ => ended
      | none => exact ended

theorem convertArguments (args : List Argument) (params : List ValueType) :
    Grows (Compile.convertArguments args params) := by
  induction args generalizing params with
  | nil => cases params <;> exact pure _
  | cons a as ih =>
    cases params with
    | nil => exact pure _
    | cons param params => exact bind (ih params) fun _ => bind (convertAt _ _ _ _ _) fun _ => pure _

theorem choose {α : Type} (candidates : List α) (params : α → List ValueType)
    (display : α → String) (name : String) (args : List Argument) (sp : Span) :
    Grows (Compile.choose candidates params display name args sp) := by
  unfold Compile.choose
  split
  · split
    · exact pure _
    · exact fail _ _
  · exact throw _

theorem checkAccess (owner : Nat) (v : Visibility) (name : String) (sp : Span) :
    Grows (Compile.checkAccess site owner v name sp) := by
  unfold Compile.checkAccess
  split
  · exact fail _ _
  · exact pure _

theorem countOperand (n : Nat) (what : String) (sp : Span) :
    Grows (Compile.countOperand n what sp) := by
  unfold Compile.countOperand
  split
  · exact pure _
  · exact fail _ _

theorem importFunction (f : NativeFunction) (receiver : Option ValueType) (sp : Span) :
    Grows (Compile.importFunction f receiver sp) := by
  unfold Compile.importFunction
  refine bind (fun s a t h => ?_) fun added => ?_
  · obtain ⟨emitter, imports, places⟩ := s
    cases h
    refine ⟨List.prefix_rfl, ?_⟩
    dsimp only
    split
    · exact List.prefix_rfl
    · split <;> simp
  · split
    · exact pure _
    · exact fail _ _

theorem callScript (start cls : Nat) (onThis : Bool) (name : String) (args : List Argument)
    (sp : Span) : Grows (Compile.callScript site start cls onThis name args sp) := by
  unfold Compile.callScript
  refine bind (choose _ _ _ _ _ _) fun _ => bind (checkAccess _ _ _ _) fun _ => ?_
  split
  · exact bind (fail _ _) fun _ => bind (convertArguments _ _) fun _ =>
      bind (countOperand _ _ _) fun _ => bind (countOperand _ _ _) fun _ =>
        bind (edit fun _ => rfl) fun _ => pure _
  · exact bind (convertArguments _ _) fun _ =>
      bind (countOperand _ _ _) fun _ => bind (countOperand _ _ _) fun _ =>
        bind (edit fun _ => rfl) fun _ => pure _

theorem call (start : Nat) (target : Callee) (name : String) (args : List Argument) (sp : Span) :
    Grows (Compile.call site start target name args sp) := by
  have library (candidates : List NativeFunction) (receiver : Option ValueType) (start : Nat) :
      Grows (callLibrary candidates receiver start name args sp) :=
    bind (choose _ _ _ _ _ _) fun _ => bind (convertArguments _ _) fun _ =>
      bind (importFunction _ _ _) fun _ => bind (emitWith _ _) fun _ => pure _
  cases target with
  | script cls onThis => exact callScript _ _ _ _ _ _
  | function c => exact library _ _ _
  | method c p => exact library _ _ _
  | toText p =>
    simp only [Compile.call, callToText]
    split
    · exact fail _ _
    · split
      · exact pure _
      · split
        · exact bind (fold _ _) fun _ => replace _ _
        · exact bind (emit _) fun _ => pure _

end Grows

/-! ## Operators on values -/

theorem applyBinary_written (locals : LocalScope) (a b : Expr)
    (hs : s.Sound site.symbols.libraries) {op : BinaryOp} {is js : Asm} (hop : op.isLogical = false) (hl : Wrote site.symbols.libraries s t is)
    (hr : Wrote site.symbols.libraries t u js) (hp : p.start = s.emitter.offset)
    (h : Returns (applyBinary op p t.emitter.offset q sp) u r v) :
    r.start = s.emitter.offset ∧ ∃ ks, Wrote site.symbols.libraries s v ks ∧
      ∀ T, v.Within T → Values T site locals a is p → Values T site locals b js q →
        ∀ use sp', Means T site locals use (.binary op a b sp') ks (.value r) := by
  unfold applyBinary at h
  split at h
  · simp at h
  · next plan hplan =>
    obtain ⟨hleft, hright, hcode⟩ := plan_operandCount hplan
    simp only [Returns.bind_iff, Returns.offset_iff] at h
    obtain ⟨_, _, ⟨rfl, rfl⟩, r', u₁, hr', l', u₂, hl', h⟩ := h
    have hboth := hl.trans hr
    have hstop := hboth.offset
    obtain ⟨hw₁, hconv₁, -⟩ := convertAt_written hs _ [] (by simpa using hboth)
      hstop hright hr'
    obtain ⟨hw₂, hconv₂, hstart⟩ := convertAt_written hs is (js ++ converted plan.right)
      (by simpa using hw₁) hl.offset hleft hl'
    split at h
    · simp at h
    · split at h
      · next x y hx hy =>
        simp only [Returns.bind_iff, Returns.fold_iff] at h
        obtain ⟨w, _, ⟨hw, rfl⟩, h⟩ := h
        obtain ⟨rfl, ks, hk, hpush⟩ := replace_written hs hw₂ (hstart.trans hp) h
        exact ⟨rfl, ks, hk, fun T hT ha hb use sp' =>
          .binaryKnown hop ha hb hplan hconv₂ hconv₁ hx hy hw (hpush T hT)⟩
      · next hnot =>
        simp only [Returns.bind_iff, Returns.emit_iff, Returns.pure_iff] at h
        obtain ⟨_, _, rfl, rfl, rfl⟩ := h
        have hc : l'.constant = none ∨ r'.constant = none := by
          cases hx : l'.constant with
          | none => exact .inl rfl
          | some x =>
            cases hy : r'.constant with
            | none => exact .inr rfl
            | some y => exact (hnot x y hx hy).elim
        refine ⟨hstart.trans hp, _, hw₂.trans (Wrote.emit hw₂.sound _ hcode), ?_⟩
        exact fun T hT ha hb use sp' => .binary hop ha hb hplan hconv₂ hconv₁ hc

theorem applyUnary_written (locals : LocalScope) (a : Expr)
    (hs : s.Sound site.symbols.libraries) {op : UnaryOp} {is : Asm}
    (hw : Wrote site.symbols.libraries s t is) (hp : p.start = s.emitter.offset)
    (h : Returns (applyUnary op p sp) t r u) :
    r.start = s.emitter.offset ∧ ∃ ks, Wrote site.symbols.libraries s u ks ∧
      ∀ T, u.Within T → Values T site locals a is p →
        ∀ use sp', Means T site locals use (.unary op a sp') ks (.value r) := by
  unfold applyUnary at h
  split at h
  · simp at h
  · next hop =>
    obtain ⟨rfl, rfl⟩ := Returns.pure_iff.mp h
    exact ⟨hp, is, hw, fun T hT ha use sp' => .same ha hop⟩
  · next code hop =>
    split at h
    · next x hx =>
      simp only [Returns.bind_iff, Returns.fold_iff] at h
      obtain ⟨w, _, ⟨hval, rfl⟩, h⟩ := h
      obtain ⟨rfl, ks, hk, hpush⟩ := replace_written hs hw hp h
      exact ⟨rfl, ks, hk, fun T hT ha use sp' => .unaryKnown ha hop hx hval (hpush T hT)⟩
    · next hx =>
      simp only [Returns.bind_iff, Returns.emit_iff, Returns.pure_iff] at h
      obtain ⟨_, _, rfl, rfl, rfl⟩ := h
      exact ⟨hp, _, hw.trans (Wrote.emit hw.sound _ (unaryOp_operandCount hop)),
        fun T hT ha use sp' => .unary ha hop hx⟩

/-! ## Logical operators -/

def skipping (op : BinaryOp) : Opcode := if op = .logicalAnd then .jumpIfFalse else .jumpIfTrue

theorem skipping_operandCount (op : BinaryOp) : (skipping op).operandCount = 1 := by
  unfold skipping
  split <;> rfl

theorem beginLogical_written {op : BinaryOp} {label : Nat} (ht : t.Sound site.symbols.libraries)
    (h : Returns (beginLogical op) t label u) :
    label = t.emitter.offset + 2 ∧
      Wrote site.symbols.libraries t u [.plain .dup, Wrote.openJump (skipping op), .plain .pop] := by
  simp only [beginLogical, Returns.bind_iff, Returns.emit_iff, Returns.jump_iff,
    Returns.pure_iff] at h
  obtain ⟨_, _, rfl, _, _, ⟨rfl, rfl⟩, _, _, rfl, rfl, rfl⟩ := h
  have hdup := Wrote.emit ht .dup rfl
  obtain ⟨hjump, hlabel⟩ := Wrote.emitJump hdup.sound _ (skipping_operandCount op)
  have hpop := Wrote.emit hjump.sound .pop rfl
  refine ⟨?_, (hdup.trans hjump).trans hpop⟩
  have := hdup.offset
  simp only [Asm.size_cons, Asm.size_nil] at this
  change (Emitter.emitJump _ (skipping op)).1 = _
  rw [hlabel, this]
  rfl

theorem endLogical_written (locals : LocalScope) (a b : Expr)
    (hs : s.Sound site.symbols.libraries) {op : BinaryOp} {is js : Asm} {label : Nat} (hop : op.isLogical = true) (hl : Wrote site.symbols.libraries s t is)
    (hbegin : Wrote site.symbols.libraries t u
      [.plain .dup, Wrote.openJump (skipping op), .plain .pop])
    (hr : Wrote site.symbols.libraries u v js) (hlabel : label = t.emitter.offset + 2)
    (hp : p.start = s.emitter.offset) (h : Returns (endLogical op p label q sp) v r w) :
    r.start = s.emitter.offset ∧ ∃ ks, Wrote site.symbols.libraries s w ks ∧
      ∀ T, w.Within T → Values T site locals a is p → Values T site locals b js q →
        ∀ use sp', Means T site locals use (.binary op a b sp') ks (.value r) := by
  have hall : Wrote site.symbols.libraries s v
      ((is ++ [.plain .dup]) ++ Wrote.openJump (skipping op) :: (.plain .pop :: js)) := by
    simpa using (hl.trans hbegin).trans hr
  have hplace : label = s.emitter.offset + Asm.size (is ++ [.plain .dup]) + 1 := by
    rw [hlabel, hl.offset]
    simp [Instruction.plain, Instruction.width, Opcode.width, Opcode.operandCount]
    omega
  have hland := Wrote.land (skipping_operandCount op) hall hplace
  unfold endLogical at h
  simp only [Returns.bind_iff, Returns.land_iff] at h
  obtain ⟨_, _, rfl, h⟩ := h
  split at h
  · simp at h
  · next htypes =>
    simp only [not_or, Decidable.not_not] at htypes
    split at h
    · next x y hx hy =>
      obtain ⟨rfl, ks, hk, hpush⟩ := replace_written hs hland hp h
      exact ⟨rfl, ks, hk, fun T hT ha hb use sp' =>
        .logicalKnown hop ha hb htypes.1 htypes.2 hx hy (hpush T hT)⟩
    · next hnot =>
      obtain ⟨rfl, rfl⟩ := Returns.pure_iff.mp h
      refine ⟨hp, _, hland, fun T hT ha hb use sp' => ?_⟩
      have : Means T site locals use (.binary op a b sp') _ (.value (.unknown .bool p.start)) :=
        .logical hop ha hb htypes.1 htypes.2 fun x y hx hy => hnot x y hx hy
      simpa [Asm.size_cons, Instruction.plain, Instruction.width, Opcode.width,
        Opcode.operandCount, skipping] using this

/-! ## Places -/

theorem kept_written {wanted : Bool} {x : Unit} (ht : t.Sound site.symbols.libraries)
    (h : Returns (if wanted = true then emit .dup else pure ()) t x u) :
    Wrote site.symbols.libraries t u (kept wanted) := by
  cases wanted with
  | false =>
    obtain ⟨-, rfl⟩ := Returns.pure_iff.mp h
    exact Wrote.refl ht
  | true =>
    obtain rfl := Returns.emit_iff.mp h
    exact Wrote.emit ht _ rfl

theorem load_written {place : Place} {x : Unit} (ht : t.Sound site.symbols.libraries)
    (h : Returns (load place) t x u) : Wrote site.symbols.libraries t u [loading place] := by
  cases place with
  | localVar slot type =>
    obtain rfl := Returns.emitWith_iff.mp h
    exact Wrote.emitWith ht _ rfl slot
  | field f =>
    obtain rfl := Returns.emitWith_iff.mp h
    exact Wrote.emitWith ht _ (by unfold loadOp; split <;> rfl) f.slot

theorem store_written {place : Place} {x : Unit} (ht : t.Sound site.symbols.libraries)
    (h : Returns (store place) t x u) : Wrote site.symbols.libraries t u [storing place] := by
  cases place with
  | localVar slot type =>
    obtain rfl := Returns.emitWith_iff.mp h
    exact Wrote.emitWith ht _ rfl slot
  | field f =>
    obtain rfl := Returns.emitWith_iff.mp h
    exact Wrote.emitWith ht _ (by unfold storeOp; split <;> rfl) f.slot

theorem countPlace_written {place : Place} {up front : Bool} (ht : t.Sound site.symbols.libraries)
    (h : Returns (countPlace place up front use sp) t r u) :
    place.type.isNumeric = true ∧ r = .unknown (storedType use place.type) t.emitter.offset ∧
      ∃ js, Wrote site.symbols.libraries t u (counting place up front use js) ∧
        ∀ T, u.Within T → Pushes T (one place.type) js := by
  unfold countPlace at h
  simp only at h
  split at h
  · simp at h
  · next hnum =>
    obtain ⟨_, _, hoff, h⟩ := Returns.bind h
    obtain ⟨rfl, rfl⟩ := Returns.offset_iff.mp hoff
    obtain ⟨_, _, hload, h⟩ := Returns.bind h
    obtain ⟨_, hold, h⟩ := Returns.when_iff.mp h
    obtain ⟨_, _, hone, h⟩ := Returns.bind h
    obtain ⟨_, _, hstep, h⟩ := Returns.bind h
    obtain ⟨_, hnew, h⟩ := Returns.when_iff.mp h
    obtain ⟨_, _, hstore, h⟩ := Returns.bind h
    obtain ⟨rfl, rfl⟩ := Returns.pure_iff.mp h
    have h₁ := load_written ht hload
    have h₂ := kept_written h₁.sound hold
    obtain rfl := Returns.emitValue_iff.mp hone
    obtain ⟨js, h₃, hpush⟩ := Wrote.emitValue h₂.sound (one place.type)
    obtain rfl := Returns.emit_iff.mp hstep
    have h₄ := Wrote.emit h₃.sound _ (stepOp_operandCount place.type up)
    have h₅ := kept_written h₄.sound hnew
    have h₆ := store_written h₅.sound hstore
    refine ⟨by simpa using hnum, rfl, js, ?_, ?_⟩
    · simpa [counting] using ((((h₁.trans h₂).trans h₃).trans h₄).trans h₅).trans h₆
    · intro T hT
      exact hpush T (((h₄.trans h₅).trans h₆).grew.within hT)

/-! ## Assignments -/

theorem endAssign_written {place : Place} {start : Nat} (ht : t.Sound site.symbols.libraries)
    (h : Returns (endAssign place use start) t r u) :
    r = .unknown (storedType use place.type) start ∧
      Wrote site.symbols.libraries t u (kept (use != .discarded) ++ [storing place]) := by
  unfold endAssign at h
  obtain ⟨_, hkept, h⟩ := Returns.when_iff.mp h
  obtain ⟨_, _, hstore, h⟩ := Returns.bind h
  obtain ⟨rfl, rfl⟩ := Returns.pure_iff.mp h
  have h₁ := kept_written ht hkept
  exact ⟨rfl, h₁.trans (store_written h₁.sound hstore)⟩

theorem applyCompound_written {op : AssignOp} {binary : BinaryOp} {type : ValueType} {is js : Asm}
    {x : Unit} (hs : s.Sound site.symbols.libraries) (hl : Wrote site.symbols.libraries s t is)
    (hr : Wrote site.symbols.libraries t u js)
    (h : Returns (applyCompound op binary type t.emitter.offset q sp) u x v) :
    ∃ plan q', binary.plan? type q.type = some plan ∧ plan.result = type ∧
      Converts plan.operand q plan.right q' ∧
      Wrote site.symbols.libraries s v
        (is ++ converted plan.left ++ (js ++ converted plan.right) ++ [.plain plan.op]) := by
  unfold applyCompound at h
  split at h
  · simp at h
  · next plan hplan =>
    obtain ⟨hleft, hright, hcode⟩ := plan_operandCount hplan
    split at h
    · simp at h
    · next hres =>
      obtain ⟨_, _, hoff, h⟩ := Returns.bind h
      obtain ⟨rfl, rfl⟩ := Returns.offset_iff.mp hoff
      obtain ⟨q', u₁, hq', h⟩ := Returns.bind h
      have hboth := hl.trans hr
      obtain ⟨hw₁, hconv, -⟩ := convertAt_written hs _ [] (by simpa using hboth)
        hboth.offset hright hq'
      refine ⟨plan, q', hplan, by simpa using hres, hconv, ?_⟩
      have ended {u₂ : CodeState} (hw₂ : Wrote site.symbols.libraries s u₂
          (is ++ converted plan.left ++ (js ++ converted plan.right)))
          (h : Returns (if (plan.divides binary && q'.constant.any (·.isIntegerZero)) = true
            then fail .constantDivisionByZero sp else emit plan.op) u₂ x v) :
          Wrote site.symbols.libraries s v
            (is ++ converted plan.left ++ (js ++ converted plan.right) ++ [.plain plan.op]) := by
        split at h
        · simp at h
        · obtain rfl := Returns.emit_iff.mp h
          exact hw₂.trans (Wrote.emit hw₂.sound _ hcode)
      have hw₁ : Wrote site.symbols.libraries s u₁ (is ++ (js ++ converted plan.right)) := by
        simpa using hw₁
      cases hwiden : plan.left with
      | some widen =>
        simp only [hwiden] at h
        obtain ⟨_, _, hins, h⟩ := Returns.bind h
        obtain rfl := Returns.edit_iff.mp hins
        rw [hwiden] at ended
        refine ended ?_ h
        simpa [converted] using Wrote.insert hs hw₁ hl.offset (hleft widen hwiden)
      | none =>
        simp only [hwiden] at h
        rw [hwiden] at ended
        exact ended (by simpa [converted] using hw₁) h

/-! ## Conditionals -/

theorem layBranch_written {is : Asm} {code : Code} {type : ValueType} {x : Unit}
    (ht : t.Sound site.symbols.libraries) (hcode : code.toList = is.bytes)
    (hfits : t.emitter.oversized = false → is.Fits) (h : Returns (layBranch code p type) t x u) :
    Wrote site.symbols.libraries t u (is ++ converted (Conversion.widening? p.type type)) := by
  unfold layBranch at h
  obtain ⟨_, _, hbytes, h⟩ := Returns.bind h
  obtain rfl := Returns.edit_iff.mp hbytes
  have hw := Wrote.bytes ht hcode hfits
  split at h
  · next op hop =>
    obtain rfl := Returns.emit_iff.mp h
    simpa [hop, converted] using hw.trans (Wrote.emit hw.sound _ (widening_operandCount hop))
  · next hop =>
    obtain ⟨-, rfl⟩ := Returns.pure_iff.mp h
    simpa [hop, converted] using hw

theorem endConditional_written (locals : LocalScope) (a b c : Expr) (c₀ : Pushed)
    (hs : s.Sound site.symbols.libraries) {is is' js ks : Asm} {start label : Nat} {yesCode noCode : Code}
    (hc : Wrote site.symbols.libraries s t (is' ++ [Wrote.openJump .jumpIfFalse]))
    (hstart : start = s.emitter.offset) (hlabel : label = s.emitter.offset + is'.size + 1)
    (hyes : yesCode.toList = js.bytes) (hyf : t.emitter.oversized = false → js.Fits)
    (hno : noCode.toList = ks.bytes) (hnf : t.emitter.oversized = false → ks.Fits)
    (h : Returns (endConditional start p label q yesCode r noCode sp) t p' u) :
    p'.start = s.emitter.offset ∧ ∃ ls, Wrote site.symbols.libraries s u ls ∧
      ∀ T, u.Within T → Values T site locals c is c₀ → Coerces T c₀ is .bool is' p →
        Values T site locals a js q → Values T site locals b ks r →
          ∀ use sp', Means T site locals use (.conditional c a b sp') ls (.value p') := by
  subst hstart
  unfold endConditional at h
  split at h
  · simp at h
  · next type htype =>
    split at h
    · next x y z hx hy hz =>
      split at h
      · next v hv =>
        obtain ⟨rfl, ls, hl, hpush⟩ := replace_written hs hc rfl h
        exact ⟨rfl, ls, hl, fun T hT hcond hcoerce ha hb use sp' =>
          .conditionalKnown hcond hcoerce ha hb htype hx hy hz hv (hpush T hT)⟩
      · simp at h
    · next hnot =>
      have hknown : p.constant = none ∨ q.constant = none ∨ r.constant = none := by
        cases hx : p.constant with
        | none => exact .inl rfl
        | some x =>
          cases hy : q.constant with
          | none => exact .inr (.inl rfl)
          | some y =>
            cases hz : r.constant with
            | none => exact .inr (.inr rfl)
            | some z => exact (hnot x y z hx hy hz).elim
      obtain ⟨_, _, h₁, h⟩ := Returns.bind h
      obtain ⟨_, _, h₂, h⟩ := Returns.bind h
      obtain ⟨_, _, h₃, h⟩ := Returns.bind h
      obtain ⟨_, u₄, h₄, h⟩ := Returns.bind h
      obtain ⟨_, _, h₅, h⟩ := Returns.bind h
      obtain ⟨rfl, rfl⟩ := Returns.pure_iff.mp h
      have hw₁ := layBranch_written hc.sound hyes hyf h₁
      obtain ⟨rfl, rfl⟩ := Returns.jump_iff.mp h₂
      obtain ⟨hw₂, htoEnd⟩ := Wrote.emitJump hw₁.sound .jump rfl
      obtain rfl := Returns.land_iff.mp h₃
      have hskipped := (hc.trans hw₁).trans hw₂
      rw [List.append_assoc, List.append_assoc, List.singleton_append] at hskipped
      have hw₃ := Wrote.land rfl hskipped hlabel
      have hw₄ := layBranch_written hw₃.sound hno
        (fun hb => hnf ((hw₁.trans hw₂).fits (Wrote.oversized_of_land hb)).1) h₄
      obtain rfl := Returns.land_iff.mp h₅
      have hwidth : (Wrote.openJump .jump).width = 3 := rfl
      have hboth : Wrote site.symbols.libraries s u₄ ((is' ++ .unary .jumpIfFalse
          ((js ++ converted (Conversion.widening? q.type type)).size + 3) ::
          (js ++ converted (Conversion.widening? q.type type))) ++
          Wrote.openJump .jump :: (ks ++ converted (Conversion.widening? r.type type))) := by
        simpa [hwidth, Nat.add_assoc] using hw₃.trans hw₄
      have hplace := htoEnd
      rw [(hc.trans hw₁).offset] at hplace
      have hw₅ := Wrote.land rfl hboth (hplace.trans (by
        simp [Wrote.openJump, Instruction.unary, Instruction.width, Opcode.width,
          Opcode.operandCount]))
      refine ⟨rfl, _, hw₅, fun T hT hcond hcoerce ha hb use sp' => ?_⟩
      exact .conditional hcond hcoerce ha hb htype hknown

/-! ## Calls -/

/-- Arguments that are pushed one after the other from an offset on. -/
inductive Laid : Nat → List Argument → List (Asm × Pushed) → Prop
  | nil {o : Nat} : Laid o [] []
  | cons {o : Nat} {a : Argument} {as : List Argument} {is : Asm} {items : List (Asm × Pushed)}
      (hstop : a.stop = o + is.size) (hs : Laid a.stop as items) :
      Laid o (a :: as) ((is, a.pushed) :: items)

theorem Laid.types {o : Nat} {args : List Argument} {items : List (Asm × Pushed)}
    (h : Laid o args items) : args.map (·.pushed.type) = items.map (·.2.type) := by
  induction h with
  | nil => rfl
  | cons _ _ ih => simp [ih]

theorem passing_nil (items : List (Asm × Pushed)) : passing items [] = items.flatMap (·.1) := by
  induction items with
  | nil => rfl
  | cons item items ih => simp [passing, ih]

/-- Conversions are inserted behind the arguments. -/
theorem convertArguments_written (hs : s.Sound site.symbols.libraries) {args : List Argument}
    {items : List (Asm × Pushed)} {is : Asm} {o : Nat} (hlaid : Laid o args items)
    (ho : o = s.emitter.offset + is.size) {params : List ValueType} {x : Unit}
    (hw : Wrote site.symbols.libraries s t (is ++ items.flatMap (·.1)))
    (h : Returns (convertArguments args params) t x u) :
    Wrote site.symbols.libraries s u (is ++ passing items params) := by
  induction hlaid generalizing is params x u with
  | nil =>
    cases params <;>
    · obtain ⟨-, rfl⟩ := Returns.pure_iff.mp h
      exact hw
  | @cons o a as js items hstop _ ih =>
    cases params with
    | nil =>
      obtain ⟨-, rfl⟩ := Returns.pure_iff.mp h
      simpa [passing_nil] using hw
    | cons param params =>
      obtain ⟨_, u₁, hrest, hlast⟩ := Returns.bind h
      obtain ⟨p', hlast⟩ := Returns.discard_iff.mp hlast
      have hw' : Wrote site.symbols.libraries s t ((is ++ js) ++ items.flatMap (·.1)) := by
        simpa using hw
      have hw₁ := ih (by simp [hstop, ho, Nat.add_assoc]) hw' hrest
      obtain ⟨hw₂, -, -⟩ := convertAt_written hs _ _ hw₁ (by simp [hstop, ho, Nat.add_assoc])
        (fun _ => widening_operandCount) hlast
      simpa [passing] using hw₂

theorem choose_returns {α : Type} {candidates : List α} {params : α → List ValueType}
    {display : α → String} {name : String} {args : List Argument} {items : List (Asm × Pushed)}
    {a : α} (htypes : args.map (·.pushed.type) = items.map (·.2.type))
    (h : Returns (choose candidates params display name args sp) s a t) :
    Chooses candidates params items a ∧ s = t := by
  unfold choose at h
  split at h
  · next i hi =>
    split at h
    · next c hc =>
      obtain ⟨rfl, rfl⟩ := Returns.pure_iff.mp h
      exact ⟨⟨i, htypes ▸ hi, hc⟩, rfl⟩
    · simp at h
  · simp at h

theorem Chooses.mem {α : Type} {candidates : List α} {params : α → List ValueType}
    {items : List (Asm × Pushed)} {a : α} (h : Chooses candidates params items a) :
    a ∈ candidates := by
  obtain ⟨i, -, hi⟩ := h.resolves
  exact List.mem_of_getElem? hi

theorem countOperand_returns {n : Nat} {what : String} {x : Unit}
    (h : Returns (countOperand n what sp) s x t) : s = t := by
  unfold countOperand at h
  split at h
  · exact (Returns.pure_iff.mp h).2
  · simp at h

theorem importFunction_written {f : NativeFunction} {receiver : Option ValueType} {i : Nat}
    (ht : t.Sound site.symbols.libraries) (hf : Callable site.symbols.libraries f receiver)
    (h : Returns (importFunction f receiver sp) t i u) :
    Wrote site.symbols.libraries t u [] ∧
      ∀ T, u.Within T → Imports T site.symbols.libraries f receiver i := by
  obtain ⟨emitter, imports⟩ := t
  obtain ⟨added, t', hadd, h⟩ := Returns.bind h
  have hadd : added = (imports.add f receiver).1 ∧ t' = ⟨emitter, (imports.add f receiver).2⟩ := by
    cases hadd
    exact ⟨rfl, rfl⟩
  obtain ⟨rfl, rfl⟩ := hadd
  split at h
  · next j hj =>
    obtain ⟨rfl, rfl⟩ := Returns.pure_iff.mp h
    obtain ⟨hsound, himp, hpre⟩ := ImportTable.add_spec ht.imports hf (Prod.ext hj rfl)
    refine ⟨⟨by simp, rfl, ⟨List.prefix_rfl, hpre⟩, fun hb => ⟨hb, by simp⟩,
      ⟨ht.pool, hsound, ht.labels⟩⟩, fun T hT => ⟨hf, ?_⟩⟩
    obtain ⟨imp, hget, hid⟩ := himp
    exact ⟨imp, getElem?_of_isPrefix hT.imports hget, hid⟩
  · simp at h

theorem callLibrary_written (hs : s.Sound site.symbols.libraries) {candidates : List NativeFunction}
    {receiver : Option ValueType} {name : String} {args : List Argument}
    {items : List (Asm × Pushed)} {is : Asm} {o start : Nat} (hlaid : Laid o args items)
    (ho : o = s.emitter.offset + is.size)
    (hw : Wrote site.symbols.libraries s t (is ++ items.flatMap (·.1)))
    (hcandidates : ∀ f ∈ candidates, Callable site.symbols.libraries f receiver)
    (h : Returns (callLibrary candidates receiver start name args sp) t r u) :
    ∃ f i, r = .unknown f.returns start ∧ Chooses candidates (·.params) items f ∧
      (∀ T, u.Within T → Imports T site.symbols.libraries f receiver i) ∧
      Wrote site.symbols.libraries s u (is ++ passing items f.params ++ [.unary .callNative i]) := by
  unfold callLibrary at h
  obtain ⟨f, _, hchoose, h⟩ := Returns.bind h
  obtain ⟨hf, rfl⟩ := choose_returns hlaid.types hchoose
  obtain ⟨_, _, hconv, h⟩ := Returns.bind h
  obtain ⟨i, _, himp, h⟩ := Returns.bind h
  obtain ⟨_, _, hemit, h⟩ := Returns.bind h
  obtain ⟨rfl, rfl⟩ := Returns.pure_iff.mp h
  obtain rfl := Returns.emitWith_iff.mp hemit
  have h₁ := convertArguments_written hs hlaid ho hw hconv
  obtain ⟨h₂, hplace⟩ := importFunction_written h₁.sound (hcandidates f hf.mem) himp
  have h₃ := Wrote.emitWith h₂.sound .callNative rfl i
  exact ⟨f, i, rfl, hf, fun T hT => hplace T (h₃.grew.within hT),
    by simpa using (h₁.trans h₂).trans h₃⟩

theorem callScript_written (hs : s.Sound site.symbols.libraries) {cls : Nat} {onThis : Bool}
    {name : String} {args : List Argument} {items : List (Asm × Pushed)} {is : Asm} {o start : Nat}
    (hlaid : Laid o args items) (ho : o = s.emitter.offset + is.size)
    (hw : Wrote site.symbols.libraries s t (is ++ items.flatMap (·.1)))
    (h : Returns (callScript site start cls onThis name args sp) t r u) :
    ∃ js, Wrote site.symbols.libraries s u js ∧
      r.start = start ∧ ∀ T, Calls T site is name items (.script cls onThis) js r := by
  unfold callScript at h
  obtain ⟨⟨m, i⟩, _, hchoose, h⟩ := Returns.bind h
  obtain ⟨hm, rfl⟩ := choose_returns hlaid.types hchoose
  obtain ⟨_, _, hcheck, h⟩ := Returns.bind h
  obtain ⟨haccess, rfl⟩ := checkAccess_returns hcheck
  simp only at h
  split at h
  · obtain ⟨_, _, hfail, -⟩ := Returns.bind h
    simp at hfail
  · next hreceiver =>
    obtain ⟨_, _, hconv, h⟩ := Returns.bind h
    obtain ⟨_, _, hcls, h⟩ := Returns.bind h
    obtain rfl := countOperand_returns hcls
    obtain ⟨_, _, hmethod, h⟩ := Returns.bind h
    obtain rfl := countOperand_returns hmethod
    obtain ⟨_, _, hcall, h⟩ := Returns.bind h
    obtain ⟨rfl, rfl⟩ := Returns.pure_iff.mp h
    obtain rfl := Returns.edit_iff.mp hcall
    have h₁ := convertArguments_written hs hlaid ho hw hconv
    have h₂ := Wrote.emitCall h₁.sound cls i
    refine ⟨_, h₁.trans h₂, rfl, fun T => .script hm haccess ?_⟩
    cases hstatic : m.isStatic with
    | true => exact .inl rfl
    | false => exact .inr (by simpa [hstatic] using hreceiver)

theorem callToText_written (hs : s.Sound site.symbols.libraries) {name : String}
    {args : List Argument} {items : List (Asm × Pushed)} {is : Asm} {o : Nat}
    (hlaid : Laid o args items) (hw : Wrote site.symbols.libraries s t (is ++ items.flatMap (·.1)))
    (hp : p.start = s.emitter.offset) (h : Returns (callToText p name args sp) t r u) :
    ∃ js, Wrote site.symbols.libraries s u js ∧ r.start = s.emitter.offset ∧
      ∀ T, u.Within T → Calls T site is name items (.toText p) js r := by
  unfold callToText at h
  split at h
  · simp at h
  · next hargs =>
    have hitems : items = [] := by
      cases hlaid with
      | nil => rfl
      | cons => simp at hargs
    subst hitems
    have hw : Wrote site.symbols.libraries s t is := by simpa using hw
    split at h
    · next hstring =>
      obtain ⟨rfl, rfl⟩ := Returns.pure_iff.mp h
      exact ⟨is, hw, hp, fun T hT => .string rfl hstring⟩
    · next hstring =>
      split at h
      · next x hx =>
        obtain ⟨w, _, hfold, h⟩ := Returns.bind h
        obtain ⟨hval, rfl⟩ := Returns.fold_iff.mp hfold
        obtain ⟨rfl, js, hj, hpush⟩ := replace_written hs hw hp h
        exact ⟨js, hj, rfl, fun T hT => .textKnown rfl hstring hx hval (hpush T hT)⟩
      · next hx =>
        obtain ⟨_, _, hemit, h⟩ := Returns.bind h
        obtain ⟨rfl, rfl⟩ := Returns.pure_iff.mp h
        obtain rfl := Returns.emit_iff.mp hemit
        exact ⟨_, hw.trans (Wrote.emit hw.sound _ rfl), hp, fun T hT => .text rfl hstring hx⟩

/-- A call whose callee was found since `s`. -/
theorem call_written (hs : s.Sound site.symbols.libraries) {target : Callee} {name : String}
    {args : List Argument} {items : List (Asm × Pushed)} {is : Asm} {o : Nat}
    (hlaid : Laid o args items) (ho : o = s.emitter.offset + is.size)
    (hw : Wrote site.symbols.libraries s t (is ++ items.flatMap (·.1)))
    (hstart : StartsAt s.emitter.offset (.methods target name))
    (hknown : Known site.symbols.libraries (.methods target name))
    (h : Returns (call site s.emitter.offset target name args sp) t r u) :
    ∃ js, Wrote site.symbols.libraries s u js ∧ r.start = s.emitter.offset ∧
      ∀ T, u.Within T → Calls T site is name items target js r := by
  unfold call at h
  cases target with
  | script cls onThis =>
    obtain ⟨js, hj, hr, hcalls⟩ := callScript_written hs hlaid ho hw h
    exact ⟨js, hj, hr, fun T _ => hcalls T⟩
  | function c =>
    obtain ⟨l, hl, hc⟩ := hknown
    obtain ⟨f, i, rfl, hf, hplace, hj⟩ := callLibrary_written hs hlaid ho hw (by
      intro f hf
      obtain ⟨hmem, hkind⟩ := List.mem_filter.mp hf
      exact ⟨l, hl, c, hc, hmem, by simpa using (Bool.and_eq_true_iff.mp hkind).1, by simp⟩) h
    exact ⟨_, hj, rfl, fun T hT => .function hf (hplace T hT)⟩
  | method c p =>
    obtain ⟨l, hl, hc, hkey⟩ := hknown
    obtain ⟨f, i, rfl, hf, hplace, hj⟩ := callLibrary_written hs hlaid ho hw (by
      intro f hf
      obtain ⟨hmem, hkind⟩ := List.mem_filter.mp hf
      exact ⟨l, hl, c, hc, hmem, by simpa using (Bool.and_eq_true_iff.mp hkind).1,
        fun t ht => by cases ht; exact hkey⟩) h
    exact ⟨_, hj, hstart, fun T hT => .method hf (hplace T hT)⟩
  | toText p => exact callToText_written hs hlaid hw hstart h

end ClassScript.Layout
