import ClassScript.Proofs.Flow.Method
import ClassScript.Proofs.Simulation.Expression
import ClassScript.Proofs.Simulation.Statement
import ClassScript.Proofs.Source.Agreement
import ClassScript.Proofs.Source.Program

/-!
Programs that are compiled do what their scripts say.

`A.Finishes n is a` tells that the code `is` does what the action `a` says and comes to a return with
its answer. The code in front of a body and the body are put together to the code of a method, and a
call of the method does what the method means with the arguments in its first slots.

`p.Implements W` tells that the program `p` is compiled from the script of the world `W` and bound to
its library functions. Of such a program, a call does what its method says with as many frames as are
left on the call stack (`Program.Implements.calls`): inside a method one frame less is left, so the
induction is on the frames. Expressions of its methods then do what is read off their trees
(`Compilation.expression_performs`), and its methods what their bodies say
(`Compilation.method_finishes`).
-/

namespace ClassScript

open Code (Instruction)
open Compile Layout Flow
open Layout.Fragment
open Machine (Does GoesTo)
open Source (Completion Surroundings Interpretation World)

/-! ## Code that finishes -/

namespace Activation

open Performs (left left_of_ne)

/-- Code does what an action says, wherever it stands, and is about to return the answer. -/
def Finishes (A : Activation) (n : Nat) (is : Asm) (a : Action Store Value) : Prop :=
  ∀ ip stack s, A.Has ip is → Does A.program n (A.machine ip stack s)
    (fun v t m => ∃ r, A.Returning stack r t m ∧ v = r.getD .void) (a.on s)

variable {A : Activation} {n : Nat} {is js : Asm} {T : Tables} {I : Interpretation}
  {stack : List Value}

/-- Code in front of code that returns. -/
theorem Finishes.behind {before : Action Store Unit} {a : Action Store Value}
    (hbefore : A.Performs n is [] before fun _ => []) (h : A.Finishes n js a) :
    A.Finishes n (is ++ js) (before >>= fun _ => a) := by
  intro ip stack s hhas
  obtain ⟨hi, hj⟩ := has_append.mp hhas
  refine (hbefore ip stack s hi).bind fun _ t m hm => ?_
  rw [hm]
  exact h _ stack t hj

/-- A return without a value. -/
theorem Finishes.void {a : Action Store Unit} (hr : A.image.returns.isVoid = true)
    (h : A.Performs n is [] a fun _ => []) :
    A.Finishes n (is ++ [.plain .retVoid]) (a >>= fun _ => pure .void) := by
  refine .behind h fun ip stack s hhas => ?_
  exact .pure ⟨none, .void hr hhas.1, rfl⟩

/-- A return with a value. -/
theorem Finishes.value {a : Action Store Value} (hr : A.image.returns.isVoid = false)
    (h : A.Performs n is [] a fun v => [v]) : A.Finishes n (is ++ [.plain .ret]) a := by
  intro ip stack s hhas
  obtain ⟨hi, hret, -⟩ := has_append.mp hhas
  refine (h ip stack s hi).imp fun v t m hm => ?_
  rw [hm]
  exact ⟨some v, .value hr hret, rfl⟩

end Activation

namespace Layout

open Activation

variable {A : Activation} {n : Nat} {T : Tables} {I : Interpretation} {site : Site} {is : Asm}
  {l l' : LocalScope} {B : List Extent}

/-! ## Bodies -/

/-- The code of a body does what the body means. -/
theorem LaysBody.finishes (hI : A.Interprets n T site I) (hreturns : site.returns = A.image.returns)
    (hl : l.Valued) {b : Body} (h : LaysBody T site l b is l' B) :
    ∃ a, Source.runBody I site n l b = some (l', a) ∧ A.Finishes n is a := by
  cases h with
  | @falls stmts sp is _ x _ h hends hr =>
    obtain ⟨a, ha, hexec⟩ := h.executes hI hreturns hl
    refine ⟨a >>= fun c => pure c.result, ?_, fun ip stack s hhas => ?_⟩
    · simp only [Source.runBody, ha, Option.bind_eq_bind, Option.bind_some]
    obtain ⟨hi, hret, -⟩ := has_append.mp hhas
    -- a body is inside no loop, so no jump in it leads out of one
    refine (hexec rfl (fun _ => False) (fun _ => False) ip stack s (holds_ops.mpr hi)).bind
      fun c t m hm => ?_
    cases hm with
    | next =>
      rw [size_ops]
      exact .pure ⟨none, .void (hreturns ▸ hr) hret, rfl⟩
    | leave _ h => exact h.elim
    | again _ h => exact h.elim
    | @ret r _ _ h => exact .pure ⟨r, h, by cases r <;> rfl⟩
  | @returns stmts sp is _ x _ h hends =>
    obtain ⟨a, ha, hexec⟩ := h.executes hI hreturns hl
    refine ⟨a >>= fun c => pure c.result, ?_, fun ip stack s hhas => ?_⟩
    · simp only [Source.runBody, ha, Option.bind_eq_bind, Option.bind_some]
    refine (hexec rfl (fun _ => False) (fun _ => False) ip stack s (holds_ops.mpr hhas)).bind
      fun c t m hm => ?_
    cases hm with
    | next hx => simp [hends] at hx
    | leave _ h => exact h.elim
    | again _ h => exact h.elim
    | @ret r _ _ h => exact .pure ⟨r, h, by cases r <;> rfl⟩
  | effect hr h =>
    obtain ⟨a, ha, hperforms⟩ := hI.effect hl h
    refine ⟨a >>= fun _ => pure .void, ?_, .void (hreturns ▸ hr) hperforms⟩
    simp only [Source.runBody, if_pos hr, ha, Option.map_some]
  | value hr h =>
    obtain ⟨a, ha, hperforms, -⟩ := hI.valueOf hl h
    refine ⟨a, ?_, .value (hreturns ▸ hr) hperforms⟩
    simp only [Source.runBody, hr, Bool.false_eq_true, if_false, ha, Option.map_some]

/-! ## Initializers -/

theorem valued_start : LocalScope.start.Valued := by
  intro name v hv
  simp [LocalScope.start, LocalScope.find?] at hv

/-- Initializers store what their expressions mean. -/
theorem Initializes.performs (hI : A.Interprets n T site I) {op : Opcode}
    {store : Nat → Value → Action Store Unit}
    (hstore : ∀ slot v, A.Performs n [.unary op slot] [v] (store slot v) fun _ => [])
    {fs : List FieldSymbol} (h : Initializes T site op fs is) :
    ∃ a, Source.initializing I site store fs = some a ∧ A.Performs n is [] a fun _ => [] := by
  induction h with
  | nil => exact ⟨pure (), rfl, .nil (fun _ => []) ()⟩
  | unset hv _ ih =>
    obtain ⟨rest, hrest, hothers⟩ := ih
    exact ⟨rest, by simp only [Source.initializing, hrest, hv, Option.bind_eq_bind, Option.bind_some],
      hothers⟩
  | @set f fs e is js p hv he _ ih =>
    obtain ⟨rest, hrest, hothers⟩ := ih
    obtain ⟨a, ha, hperforms, -⟩ := hI.valueOf valued_start he
    refine ⟨a >>= fun v => store f.slot v >>= fun _ => rest, ?_, ?_⟩
    · simp only [Source.initializing, hrest, hv, ha, Option.bind_eq_bind, Option.bind_some]
    · exact hperforms.bind fun v => (hstore f.slot v).bind fun _ => hothers

/-- The code in front of a body runs the initializers that the method has to run. -/
theorem Prologue.performs {c : ClassSite} {f : MethodSymbol}
    (hI : ∀ isStatic, A.Interprets n T (initializerSite c isStatic) I)
    (h : Prologue T c f.kind is) :
    ∃ a, Source.prologue I c f = some a ∧ A.Performs n is [] a fun _ => [] := by
  unfold Source.prologue
  generalize f.kind = kind at h
  cases kind with
  | method =>
    obtain rfl := h
    exact ⟨pure (), rfl, .nil (fun _ => []) ()⟩
  | constructor => exact Initializes.performs (hI false) (fun slot v => .setField slot v) h
  | typeInitializer => exact Initializes.performs (hI true) (fun slot v => .setStatic slot v) h

/-! ## Methods -/

theorem Enters.entered {ps : List Param} {ts : List ValueType} (h : Enters ps ts l l') :
    Source.entered ps ts l = l' := by
  induction h with
  | none hnil => obtain rfl | rfl := hnil <;> simp [Source.entered]
  | cons _ _ ih => exact ih

variable {c : ClassSite} {f : MethodSymbol}

/-- The code of a method does what the method means, in a frame for all its locals. -/
theorem LaysMethod.finishes (hf : f.Sound) (hI : A.Interprets n T (methodSite c f) I)
    (hinit : ∀ isStatic, A.Interprets n T (initializerSite c isStatic) I)
    (hreturns : f.returns = A.image.returns) (h : LaysMethod T c f is l B) :
    ∃ a, (∀ args, Source.runMethod I n c f args =
      some (.within (Machine.frameLocals args l.frameSize) a)) ∧ A.Finishes n is a := by
  cases h with
  | declared hsource henters his hb =>
    obtain ⟨before, hbefore, hfirst⟩ := Prologue.performs hinit his
    obtain ⟨names, hscoped⟩ := Flow.Enters.scoped henters (hf.declared _ _ _ hsource) hf.params
    obtain ⟨a, ha, hfinishes⟩ := hb.finishes hI hreturns (hscoped.valued valued_start)
    refine ⟨before >>= fun _ => a, fun args => ?_, .behind hfirst hfinishes⟩
    simp only [Source.runMethod, hbefore, hsource, henters.entered, ha, Option.bind_eq_bind,
      Option.bind_some]
  | implied hsource his =>
    obtain ⟨before, hbefore, hfirst⟩ := Prologue.performs hinit his
    obtain ⟨hvoid, -⟩ := hf.implied hsource
    refine ⟨before >>= fun _ => pure .void, fun args => ?_, .void ?_ hfirst⟩
    · simp only [Source.runMethod, hbefore, hsource, Option.bind_eq_bind, Option.bind_some]
      rfl
    · rw [← hreturns, hvoid]
      rfl

/-- The locals of a method have room in its frame. -/
theorem LaysMethod.frameSize_le (hf : f.Sound) (h : LaysMethod T c f is l B) :
    l.frameSize ≤ LocalScope.maxSlots := by
  cases h with
  | declared hsource henters _ hb =>
    obtain ⟨names, hparams⟩ := Flow.Enters.scoped henters (hf.declared _ _ _ hsource) hf.params
    obtain ⟨new, names', hs, -⟩ := LaysBody.flows hb
    exact hs.bound (hparams.bound (Nat.zero_le _))
  | implied => exact Nat.zero_le _

end Layout

/-! ## Calls -/

namespace Activation

open Performs (left left_of_ne)

variable {A : Activation} {n c i : Nat} {is : Asm} {g : MethodImage} {args : List Value}

def callee (A : Activation) (c i : Nat) (g : MethodImage) (hg : A.program.method? c i = some g)
    (callers : List Frame) : Activation := ⟨A.program, c, i, g, hg, callers⟩

/-- A call does what the method means, if its code does. -/
theorem calls (hdepth : A.callers.length + 1 < Machine.maxFrames)
    (hg : A.program.method? c i = some g) (hargs : args.length = g.params.length)
    (hspells : Spells g.code is) {a : Action Heap Value}
    (h : ∀ callers, callers.length = A.callers.length + 1 →
      ∃ body, a = .within (Machine.frameLocals args g.locals.toNat) body ∧
        (A.callee c i g hg callers).Finishes n is body) :
    A.Calls n c i args g.returns a := by
  intro ip stack s m hstep
  let caller : Frame := ⟨A.cls, A.method, ip, s.locals⟩
  obtain ⟨body, rfl, hbody⟩ := h (caller :: A.callers) rfl
  have henter : Machine.enter A.program c i args (A.machine ip stack s) =
      .next ((A.callee c i g hg (caller :: A.callers)).machine 0 stack
        ⟨Machine.frameLocals args g.locals.toNat, s.heap⟩) := by
    have hframes : ¬ Machine.maxFrames ≤ (A.machine ip stack s).frames.length :=
      Nat.not_le.mpr hdepth
    simp only [Machine.enter, if_neg hframes, hg, hargs, ne_eq, not_true_eq_false, if_false]
    rfl
  have hhas : (A.callee c i g hg (caller :: A.callers)).Has 0 is := has_of_spells_all hspells
  refine .step (hstep.trans henter) (.within ?_)
  refine (hbody 0 stack _ hhas).onward fun v t m' hm => ?_
  obtain ⟨r, hr, rfl⟩ := hm
  cases hr with
  | @value o v t hvalue hop =>
    have hleft : left g.returns v = [v] := if_neg (ne_true_of_eq_false hvalue)
    refine ⟨_, .step (step_eq hop) .refl, ?_⟩
    rw [Option.getD_some, hleft]
    rfl
  | @void o t hvoid hop =>
    have hleft : left g.returns .void = [] := if_pos hvoid
    refine ⟨_, .step (step_eq hop) .refl, ?_⟩
    rw [Option.getD_none, hleft]
    rfl

/-- A call from the innermost frame that there may be fails. -/
theorem calls_tooDeep (hdepth : Machine.maxFrames ≤ A.callers.length + 1) {returns : ValueType} :
    A.Calls n c i args returns (throw (.callDepthExceeded Machine.maxFrames)) := by
  intro ip stack s m hstep
  refine .fault (hstep.trans (if_pos ?_)) rfl rfl
  exact hdepth

end Activation

/-! ## Expressions -/

namespace Activation

open Performs (left left_of_ne)

variable {A : Activation} {n : Nat} {K : Surroundings} {T : Tables} {site : Site}
  {locals : LocalScope} {is js : Asm} {m : Meaning} {p : Pushed} {s : Source.Sense}

/-- Where code is supported, the code of expressions does what is read off their trees. -/
theorem Supports.interprets (hS : Supports A n K T site) :
    A.Interprets n T site (Source.interpretation K) where
  constants := hS.constants
  value hl h := by
    obtain ⟨a, ha, hgives⟩ := h.gives hS hl
    exact ⟨a, Source.evaluate_of_value ha, hgives.performs⟩
  valueOf hl h := by
    obtain ⟨h, hc⟩ := h
    obtain ⟨a, ha, hgives⟩ := h.gives hS hl
    obtain ⟨hvalue, htype, hne, hconverts⟩ := hgives.coerces hS hc
    refine ⟨_, ?_, hvalue.typed (htype ▸ hne), fun v hv => (hvalue.known v hv).1⟩
    simp only [Source.interpretation, Source.evaluate_of_value ha, Option.bind_eq_bind,
      Option.bind_some, Source.suits_eq, hconverts, if_true, Source.widen_eq]
  effect hl h := by
    obtain ⟨h, hp⟩ := h
    obtain ⟨s, hs, hr⟩ := h.realizes hS hl
    obtain ⟨type, a, ha, hgives, -⟩ := hr.materializes hS hl hp
    refine ⟨a >>= fun _ => pure (), ?_, hgives.performs.bind fun v => ?_⟩
    · have hvalue : Source.value K site _ _ = some (type, a) :=
        Option.bind_eq_some_iff.mpr ⟨s, hs, ha⟩
      simp only [Source.interpretation, Source.evaluate_of_value hvalue, Option.bind_eq_bind,
        Option.bind_some]
    · unfold popping left
      split
      · exact .nil (fun _ => []) ()
      · exact .pop

/-- A method of a program is at work, and so many frames may be put on it. -/
structure WorksIn (A : Activation) (p : Program) (frames : Nat) : Prop where
  program : A.program = p
  frames : A.callers.length + 1 + frames = Machine.maxFrames

end Activation

/-! ## Programs -/

/-- A program is compiled from the script of a world, and its imports are bound to the functions of
the world. -/
structure Program.Implements (p : Program) (W : World) : Prop where
  sound : W.symbols.Sound W.symbols.libraries
  laid : LaidImage W.symbols W.release p.image
  checked : W.checked = p.image.checked
  natives : ∀ (j : Nat) (imp : NativeImport), p.image.imports[j]? = some imp →
    p.natives[j]? = some (W.native imp)
  distinct : DistinctFunctions W.symbols.libraries
  keywords : ValueKeywords W.symbols.libraries

namespace Program.Implements

variable {p : Program} {W : World} (h : p.Implements W)

include h

/-- What a method relies on is there, if calls of methods do what they mean. -/
theorem supports {A : Activation} (hA : A.program = p) {n : Nat} {K : Surroundings} {site : Site}
    (hsymbols : site.symbols = W.symbols) (howner : W.symbols.classes[site.cls]? = some site.owner)
    (hchecked : K.checked = W.checked) (hnative : K.native = W.native)
    (hscript : ∀ c i f args, A.program.method? c i = some f → args.length = f.params.length →
      A.Calls n c i args f.returns (K.script c i args)) :
    A.Supports n K ⟨p.image.constants, p.image.imports⟩ site := by
  subst hA
  have hserves : Serves ⟨A.program.image, site.cls, site.isStatic, .void, [], fun _ => True, True⟩
      ⟨A.program.image.constants, A.program.image.imports⟩ site :=
    serves_of_laid h.sound h.laid rfl hsymbols rfl howner id fun _ => ⟨h.distinct, h.keywords⟩
  refine ⟨rfl, rfl, hchecked.trans h.checked, hserves.owner, hserves.types, fun c i m hm => ?_,
    hserves.callable, hserves.distinct trivial, hserves.keywords trivial, fun j imp himp => ?_, hscript⟩
  · obtain ⟨f, hf, hparams, hreturns, -⟩ := hserves.methods c i m hm
    exact ⟨f, hf, hparams, hreturns⟩
  · rw [hnative]
    exact h.natives j imp himp

/-- A call does what its method means, as many frames as are left. -/
theorem calls {A : Activation} {n frames : Nat} (hA : A.WorksIn p frames) {c i : Nat}
    {g : MethodImage} {args : List Value} (hg : A.program.method? c i = some g)
    (hargs : args.length = g.params.length) :
    A.Calls n c i args g.returns (W.call n frames c i args) := by
  induction frames generalizing A c i g args with
  | zero => exact Activation.calls_tooDeep (Nat.le_of_eq hA.frames.symm)
  | succ frames ih =>
    obtain ⟨rfl, hframes⟩ := hA
    obtain ⟨owner, f, howner, hf, hcompiled⟩ := symbol_of_laid h.laid hg
    obtain ⟨is, l, B, hlays, hspells, hlocals⟩ := hcompiled.laid
    have hsound : f.Sound := (h.sound.classes owner (Array.mem_toList_iff.mpr
      (Array.mem_of_getElem? howner))).methods f (Array.mem_toList_iff.mpr (Array.mem_of_getElem? hf))
    -- inside the method one frame less is left, of which the induction tells
    have hmeans (callers : List Frame) (hcallers : callers.length = A.callers.length + 1)
        {site : Site} (hsymbols : site.symbols = W.symbols) (hcls : site.cls = c)
        (hsite : site.owner = owner) :
        (A.callee c i g hg callers).Interprets n ⟨A.program.image.constants, A.program.image.imports⟩
          site (W.meanings n frames) := by
      have hworks : (A.callee c i g hg callers).WorksIn A.program frames := by
        refine ⟨rfl, ?_⟩
        change callers.length + 1 + frames = _
        omega
      exact (h.supports hworks.program (K := W.surroundings n frames) hsymbols
        (by rw [hcls, hsite, howner]) rfl rfl fun _ _ _ _ hg' hargs' => ih hworks hg' hargs').interprets
    refine Activation.calls (by omega) hg hargs hspells fun callers hcallers => ?_
    obtain ⟨body, hbody, hfinishes⟩ := LaysMethod.finishes (c := ⟨W.symbols, W.release, c, owner⟩)
      hsound (hmeans callers hcallers rfl rfl rfl) (fun _ => hmeans callers hcallers rfl rfl rfl)
      hcompiled.returns.symm hlays
    refine ⟨body, ?_, hfinishes⟩
    rw [hlocals, toNat_frameSize (hlays.frameSize_le hsound)]
    exact W.call_succ n howner hf (hbody args)

/-- Expressions mean what their code does, wherever a method is at work. -/
theorem interprets {A : Activation} {n frames : Nat} (hA : A.WorksIn p frames) {site : Site}
    (hsymbols : site.symbols = W.symbols) (howner : W.symbols.classes[site.cls]? = some site.owner) :
    A.Interprets n ⟨p.image.constants, p.image.imports⟩ site (W.meanings n frames) :=
  (h.supports hA.program (K := W.surroundings n frames) hsymbols howner rfl rfl
    fun _ _ _ _ hg hargs => h.calls hA hg hargs).interprets

end Program.Implements

/-- A script that is compiled, beside the library functions that it is run with. -/
def Source.World.ofScript (options : Options) (libraries : List Library) (script : Script)
    (native : NativeImport → Native Unit) : World :=
  ⟨symbolsOf options libraries script, options.release, options.checked, native⟩

/-! ### The sample -/

namespace Watch

/-- The scope in the body of the loop. -/
def inLoop : LocalScope := ⟨scope, [[], ["seen"], ["quick"]], 2⟩

/-- `seen = Gate.Flip()` and `this.awake = Bell.Ring(!seen)` -/
def assignments : List Expr := [
  .assign .assign seen (.call (.member (.ident ⟨"Gate", {}⟩) ⟨"Flip", {}⟩ {}) [] {}) {},
  .assign .assign awake (.call (.member (.ident ⟨"Bell", {}⟩) ⟨"Ring", {}⟩ {})
    [.unary .not seen {}] {}) {}]

def activation (native : Native Unit) : Activation where
  program := ⟨image true, #[native]⟩
  cls := 0
  method := 0
  image := ⟨"Watch", .method, .pub, false, [.bool], .bool, 2, watchCode⟩
  found := rfl
  callers := []

theorem symbolsOf_owner : (symbolsOf {} [bells] script).classes[0]? = some post := by
  rw [symbolsOf_script]
  rfl

theorem natives_image (native : NativeImport → Native Unit) (j : Nat) (imp : NativeImport)
    (h : (image true).imports[j]? = some imp) : #[native ringImport][j]? = some (native imp) := by
  cases j with
  | zero =>
    cases h
    rfl
  | succ j => cases h

theorem valued_inLoop : inLoop.Valued := by
  intro name v h
  rw [inLoop, LocalScope.find?, scope] at h
  rw [Std.HashMap.getElem?_insert, Std.HashMap.getElem?_insert, Std.HashMap.getElem?_empty] at h
  split at h
  · cases h
    exact ValueType.noConfusion
  · split at h
    · cases h
      exact ValueType.noConfusion
    · cases h

theorem returns_assignments {e : Expr} (h : e ∈ assignments) :
    ∃ t, Returns (effect (watchSite true) inLoop e) (codeOf .start) () t ∧
      t.Within ⟨(image true).constants, (image true).imports⟩ := by
  rcases List.mem_pair.mp h with rfl | rfl
  · exact ⟨_, returns_flip find_seen (find_none (by decide) (by decide)), List.nil_prefix,
      List.nil_prefix⟩
  · exact ⟨_, returns_ring rfl find_seen (find_none (by decide) (by decide)), List.nil_prefix,
      List.prefix_rfl⟩

end Watch

section

variable {name : String} {options : Options} {libraries : List Library} {script : Script} {m : Image}
  {p : Program} {native : NativeImport → Native Unit}

/-- A compiled program implements its script. -/
theorem Compilation.implements (h : (Compilation.ofScript name options libraries script).image = some m)
    (hp : p.image = m) (hfunctions : DistinctFunctions libraries)
    (hkeywords : ValueKeywords libraries)
    (hnatives : ∀ (j : Nat) (imp : NativeImport), m.imports[j]? = some imp →
      p.natives[j]? = some (native imp)) :
    p.Implements (.ofScript options libraries script native) := by
  subst hp
  have hs := symbolsOf_sound options libraries script
  have hchecked : options.checked = p.image.checked := by rw [image_eq h]
  refine ⟨?_, laid_of_compiled h, hchecked, hnatives, ?_, ?_⟩
  · exact hs.libraries.symm ▸ hs
  · exact hs.libraries.symm ▸ hfunctions
  · exact hs.libraries.symm ▸ hkeywords

/-- A method of a compiled program does what its body says, if the code of its expressions does what
they mean: the machine comes to a return with the same answer and the same state, stops with the same
fault, or runs on as long. -/
theorem Compilation.method_finishes
    (h : (Compilation.ofScript name options libraries script).image = some m) {A : Activation}
    (hA : A.program.image = m) {owner : ClassSymbol} {f : MethodSymbol}
    (howner : (symbolsOf options libraries script).classes[A.cls]? = some owner)
    (hf : owner.methods[A.method]? = some f) {c : ClassSite}
    (hc : c = ⟨symbolsOf options libraries script, options.release, A.cls, owner⟩)
    {n : Nat} {I : Interpretation}
    (hI : ∀ site ∈ [methodSite c f, initializerSite c false, initializerSite c true],
      A.Interprets n ⟨m.constants, m.imports⟩ site I)
    (args : List Value) (stack : List Value) (s : Heap) :
    ∃ a, Source.runMethod I n c f args = some a ∧
      Does A.program n (A.machine 0 stack ⟨Machine.frameLocals args A.image.locals.toNat, s⟩)
        (fun v t m' => ∃ r locals, A.Returning stack r ⟨locals, t⟩ m' ∧ v = r.getD .void) (a.on s) := by
  subst hA hc
  have hs := symbolsOf_sound options libraries script
  have hsound : f.Sound := (hs.classes owner (Array.mem_toList_iff.mpr
    (Array.mem_of_getElem? howner))).methods f (Array.mem_toList_iff.mpr (Array.mem_of_getElem? hf))
  obtain ⟨g, hg, hcompiled⟩ := method_of_laid (laid_of_compiled h) howner hf
  obtain rfl : A.image = g := Option.some.inj (A.found.symm.trans hg)
  obtain ⟨is, l, B, hlays, hspells, hsize⟩ := hcompiled.laid
  obtain ⟨a, ha, hfinishes⟩ := LaysMethod.finishes hsound (hI _ (by simp))
    (fun isStatic => hI _ (by cases isStatic <;> simp)) hcompiled.returns.symm hlays
  refine ⟨_, ha args, .within ?_⟩
  rw [hsize, toNat_frameSize (hlays.frameSize_le hsound)]
  refine (hfinishes 0 stack _ (Activation.has_of_spells_all hspells)).imp fun v t m' hm => ?_
  obtain ⟨r, hr, hv⟩ := hm
  exact ⟨r, t.locals, hr, hv⟩

theorem Compilation.method_finishes_watch :
    (Compilation.ofScript "m" {} [bells] Watch.script).image = some (Watch.image true) ∧
    ∀ native quick n s, ∃ a, Source.runMethod
        ((World.ofScript {} [bells] Watch.script native).meanings n 1023) n (Watch.postSite true)
          Watch.watchMethod [.bool quick] = some a ∧
      Does ⟨Watch.image true, #[native Watch.ringImport]⟩ n
        ((Watch.activation (native Watch.ringImport)).machine 0 [] ⟨#[.bool quick, .void], s⟩)
        (fun v t m => ∃ r locals,
          (Watch.activation (native Watch.ringImport)).Returning [] r ⟨locals, t⟩ m ∧ v = r.getD .void)
        (a.on s) := by
  refine ⟨Watch.compiled true, fun native quick n s => ?_⟩
  have himplements : Program.Implements ⟨Watch.image true, #[native Watch.ringImport]⟩
      (.ofScript {} [bells] Watch.script native) :=
    Compilation.implements (Watch.compiled true) rfl Watch.distinctFunctions Watch.valueKeywords
      (Watch.natives_image native)
  refine Compilation.method_finishes (Watch.compiled true)
    (A := Watch.activation (native Watch.ringImport)) rfl Watch.symbolsOf_owner
    (f := Watch.watchMethod) rfl (by rw [Watch.symbolsOf_script]; rfl) (fun site hsite => ?_)
    [.bool quick] [] s
  refine himplements.interprets ⟨rfl, rfl⟩ ?_ ?_ <;>
    simp only [List.mem_cons, List.not_mem_nil, or_false] at hsite <;>
    obtain rfl | rfl | rfl := hsite <;>
    first | exact Watch.symbolsOf_script.symm | exact Watch.symbolsOf_owner

end

end ClassScript
