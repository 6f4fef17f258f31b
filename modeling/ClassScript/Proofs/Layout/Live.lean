import ClassScript.Compile.Module
import ClassScript.Proofs.Layout.Writing

/-!
Compiling statements without errors.

`Runs` is put together here, where the layout of statements takes it apart. Each statement that can be
reached leaves the code of its parts, with its own jumps around them; of one that cannot be reached
the warning is left, and in a release nothing else.
-/

namespace ClassScript.Layout.Runs

open Compile

variable {α β : Type} {x : Writing α} {site : Site} {s t u : BodyState} {code code' : CodeState}
  {locals : LocalScope} {reports : List Diagnostic} {e : Expr} {stmt : Stmt} {stmts : List Stmt}
  {span : Span} {live ends : Bool} {start : Nat}

theorem andThen {f : α → Writing β} {a : α} {b : β} (h : Runs x s a u) (hf : Runs (f a) u b t) :
    Runs (x >>= f) s b t := by
  unfold Runs at h
  rw [Runs, StateT.run_bind, h]
  exact hf

theorem discarded {a : α} (h : Runs x s a t) : Runs (Functor.discard x) s () t := by
  unfold Runs at *
  rw [show (Functor.discard x).run s = ((), (x.run s).2) from rfl, h]

/-! ## Parts of statements -/

/-- A condition that is not known. -/
theorem condition (h : Returns (valueOf site locals e .bool) code (.unknown .bool start) code') :
    Runs (Compile.condition site e) ⟨code, locals, reports⟩ (none, code.emitter.offset)
      ⟨code', locals, reports⟩ :=
  .andThen (u := ⟨code, locals, reports⟩) (a := code.emitter.offset) rfl (.andThen (attempted h) rfl)

theorem loopJump {f : Emitter → Bool × Emitter} (h : (f code.emitter).1 = true) :
    Runs (Compile.loopJump f span) ⟨code, locals, reports⟩ ()
      ⟨⟨(f code.emitter).2, code.imports⟩, locals, reports⟩ := by
  refine .andThen (u := ⟨⟨(f code.emitter).2, code.imports⟩, locals, reports⟩) (a := true) ?_ rfl
  exact withCode_iff.mpr ⟨h.symm, rfl⟩

/-- What can be reached is compiled as if it stood alone. -/
theorem reached {parent : Bool} {k : Writing Bool} (h : Runs k s ends t) :
    Runs (nested site true parent stmt k) s ends t := by
  have hnested : nested site true parent stmt k = k := by simp [nested, codeOffset]
  rwa [hnested]

/-- What cannot be reached is warned about, and its code is dropped in a release. -/
theorem unreached {k : Writing Bool} (hspan : firstSpan? stmt = some span)
    (h : Runs k ⟨s.code, s.locals, unreachableCode span :: s.reports⟩ ends t) :
    Runs (nested site false true stmt k) s ends
      ⟨⟨if site.release then t.code.emitter.truncate s.code.emitter.offset else t.code.emitter,
        t.code.imports⟩, t.locals, t.reports⟩ := by
  rw [nested, hspan]
  refine .andThen rfl (.andThen rfl (.andThen h ?_))
  cases site.release <;> rfl

/-! ## Statements -/

theorem expr (h : Returns (effect site locals e) code () code') :
    Runs (statement site live (.expr e span)) ⟨code, locals, reports⟩ live ⟨code', locals, reports⟩ := by
  rw [statement]
  exact .andThen (discarded (attempted h)) rfl

theorem ifThen (h : Returns (valueOf site locals e .bool) code (.unknown .bool start) code')
    (hyes : Runs (statement site true stmt)
      ⟨⟨(code'.emitter.emitJump .jumpIfFalse).2, code'.imports⟩, locals, reports⟩ ends t) :
    Runs (statement site true (.ifElse e stmt none span)) ⟨code, locals, reports⟩ true
      ⟨⟨t.code.emitter.land (code'.emitter.emitJump .jumpIfFalse).1, t.code.imports⟩, t.locals,
        t.reports⟩ := by
  rw [statement]
  refine .andThen (condition h) ?_
  refine .andThen (a := (code'.emitter.emitJump .jumpIfFalse).1) rfl (.andThen (reached hyes) ?_)
  cases ends <;> rfl

theorem whileLoop (h : Returns (valueOf site locals e .bool) code (.unknown .bool start) code')
    (hbody : Runs (statement site true stmt)
      ⟨⟨(code'.emitter.emitJump .jumpIfFalse).2.enterLoop (some code.emitter.offset), code'.imports⟩,
        locals, reports⟩ ends t) :
    Runs (statement site true (.whileLoop e stmt span)) ⟨code, locals, reports⟩ true
      ⟨⟨((t.code.emitter.emitLoop code.emitter.offset).land
          (code'.emitter.emitJump .jumpIfFalse).1).exitLoop.2, t.code.imports⟩, t.locals,
        t.reports⟩ := by
  rw [statement]
  refine .andThen (condition h) ?_
  refine .andThen (a := some (code'.emitter.emitJump .jumpIfFalse).1) rfl (.andThen rfl ?_)
  exact .andThen (discarded (reached hbody)) rfl

theorem breakLoop (h : (code.emitter.emitBreak true).1 = true) :
    Runs (statement site true (.breakLoop span)) ⟨code, locals, reports⟩ false
      ⟨⟨(code.emitter.emitBreak true).2, code.imports⟩, locals, reports⟩ := by
  rw [statement]
  exact .andThen (loopJump h) rfl

theorem continueLoop (h : (code.emitter.emitContinue true).1 = true) :
    Runs (statement site true (.continueLoop span)) ⟨code, locals, reports⟩ false
      ⟨⟨(code.emitter.emitContinue true).2, code.imports⟩, locals, reports⟩ := by
  rw [statement]
  exact .andThen (loopJump h) rfl

theorem ret {p : Pushed} (hreturns : site.returns.isVoid = false)
    (h : Returns (valueOf site locals e site.returns) code p code') :
    Runs (statement site live (.ret (some e) span)) ⟨code, locals, reports⟩ false
      ⟨⟨code'.emitter.emit .ret, code'.imports⟩, locals, reports⟩ := by
  rw [statement, returnValue, hreturns]
  refine .andThen (a := ()) (u := ⟨⟨code'.emitter.emit .ret, code'.imports⟩, locals, reports⟩) ?_ rfl
  exact .andThen (attempted h) rfl

theorem retVoid (hreturns : site.returns.isVoid = true) :
    Runs (statement site live (.ret none span)) ⟨code, locals, reports⟩ false
      ⟨⟨code.emitter.emit .retVoid, code.imports⟩, locals, reports⟩ := by
  rw [statement, returnValue, hreturns]
  exact .andThen (a := ()) (u := ⟨⟨code.emitter.emit .retVoid, code.imports⟩, locals, reports⟩) rfl rfl

theorem block (h : Runs (statements site true true false stmts)
      ⟨s.code, s.locals.open_, s.reports⟩ ends t) :
    Runs (statement site true (.block stmts span)) s ends ⟨t.code, t.locals.close, t.reports⟩ := by
  rw [statement]
  exact .andThen rfl (.andThen h rfl)

/-! ## Blocks and methods -/

theorem done : Runs (statements site true live false []) s live s := by
  rw [statements]
  rfl

theorem next {stays : Bool} (h : Runs (statement site true stmt) s ends u)
    (hs : Runs (statements site true ends false stmts) u stays t) :
    Runs (statements site true true false (stmt :: stmts)) s stays t := by
  rw [statements]
  exact .andThen (reached h) hs

/-- A statement at the end of a block that nothing leads to. -/
theorem deadEnd (hspan : firstSpan? stmt = some span)
    (h : Runs (statement site false stmt)
      ⟨s.code, s.locals, unreachableCode span :: s.reports⟩ ends t) :
    Runs (statements site true false false [stmt]) s ends
      ⟨⟨if site.release then t.code.emitter.truncate s.code.emitter.offset else t.code.emitter,
        t.code.imports⟩, t.locals, t.reports⟩ := by
  rw [statements]
  refine .andThen (unreached hspan h) ?_
  rw [statements]
  rfl

/-- A method whose code fits is written as its code and the size of its frame. -/
theorem writeMethod {write : Writing Unit} {m : ModuleState} (h : Runs write (beginMethod m) () t)
    (hfits : t.code.emitter.oversized = false) :
    Compile.writeMethod site span write m = (⟨t.code.emitter.code, t.locals.frameSize⟩,
      ⟨t.code.emitter.pool, t.code.imports, t.reports⟩) := by
  unfold Runs at h
  rw [Compile.writeMethod, h]
  simp [finishMethod, Emitter.finish?, hfits]

/-- So is an ordinary method of a class. -/
theorem method {c : ClassSite} {instanceCode staticCode : Code} {f : MethodSymbol} {m : ModuleState}
    (hkind : f.kind = .method) (h : Runs (methodCode (methodSite c f) f #[]) (beginMethod m) () t)
    (hfits : t.code.emitter.oversized = false) :
    Compile.method c instanceCode staticCode f m = (⟨f.name, f.kind, f.visibility, f.isStatic, f.params,
        f.returns, UInt16.ofNat t.locals.frameSize, t.code.emitter.code⟩,
      ⟨t.code.emitter.pool, t.code.imports, t.reports⟩) := by
  simp only [Compile.method, hkind, writeMethod h hfits]

end ClassScript.Layout.Runs
