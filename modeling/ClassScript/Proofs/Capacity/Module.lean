import ClassScript.Proofs.Capacity.Statement
import ClassScript.Proofs.Layout.Live
import ClassScript.Proofs.Simulation.Program

/-!
When a method is too large.

Every body of a module is written by steps of a draft, over the pool that the bodies before it have
left. So a body is too large exactly if some operand of it does not fit, in the code that stands or in
code that was dropped, cut out or written over; and that operand is the distance of a jump, or the
module refers to more constants than operands can tell apart, where again the code that was taken out
counts.
-/

namespace ClassScript

open Compile
open Emitter (maxOperand)

namespace Drafted

variable {site : Site}

/-! ## Bodies -/

theorem body (h : site.Narrow) (sp : Span) (b : Body) : Drafted (Compile.body site sp b) := by
  cases b with
  | block stmts blockSpan =>
    refine (statement h true (.block stmts blockSpan)).bind fun ends => ?_
    split
    · split
      · exact emit _
      · exact report _
    · exact pure _
  | arrow e =>
    simp only [Compile.body]
    split
    · refine (attempt fun _ hl => Recorded.effect h hl e).bind fun r => ?_
      cases r with
      | none => exact pure _
      | some => exact emit _
    · refine (attempt fun _ hl => Recorded.valueOf h hl e site.returns).bind fun r => ?_
      cases r with
      | none => exact pure _
      | some => exact emit _

theorem initializers (h : site.Narrow) (op : Opcode) (fs : List FieldSymbol)
    (hfs : ∀ f ∈ fs, f.slot ≤ maxOperand) : Drafted (Compile.initializers site op fs) := by
  induction fs with
  | nil => exact pure _
  | cons f fs ih =>
    have hrest := ih fun g hg => hfs g (List.mem_cons_of_mem _ hg)
    simp only [Compile.initializers]
    split
    · refine (attempt fun _ hl => Recorded.valueOf h hl _ f.type).bind fun r => ?_
      cases r with
      | none => exact hrest
      | some => exact (emitWith op (hfs f List.mem_cons_self)).bind fun _ => hrest
    · exact hrest

end Drafted

/-- Parameters are declared without writing code. -/
theorem Compile.declareParams_holds {s : BodyState} {d : Draft} (ps : List Param) (ts : List ValueType)
    (hs : s.Holds d) : ((declareParams ps ts).run s).2.Holds d := by
  induction ps generalizing ts s with
  | nil => exact hs
  | cons p ps ih =>
    cases ts with
    | nil => exact hs
    | cons t ts =>
      obtain ⟨code, locals, reports⟩ := s
      refine ih ts ?_
      dsimp only
      split
      · exact ⟨hs.emitter, hs.imports, hs.locals⟩
      · next hfree => exact ⟨hs.emitter, hs.imports, (hs.locals.add hfree t).2⟩

/-- From a draft without code `x` takes steps. -/
def Begun (x : Writing Unit) : Prop := ∀ (s : BodyState) (d : Draft), d.cells = [] → d.Spells → s.Holds d →
  ∃ d', d.Steps d' ∧ (x.run s).2.Holds d'

theorem Begun.prologue (code : Code) {x : Writing Unit} (hx : Drafted x) :
    Begun (do editCode (·.bytes code); x) := by
  intro s d hnil hd hs
  have hstep : d.Step _ := .prologue code hnil
  have hs' : ((editCode (·.bytes code)).run s).2.Holds
      ⟨d.emitter.bytes code, code.toList.map .byte, d.removed⟩ :=
    ⟨congrArg (·.bytes code) hs.emitter, hs.imports, hs.locals⟩
  obtain ⟨d', hsteps, hs''⟩ := hx _ _ (hd.steps (.single hstep)) hs'
  exact ⟨d', .head hstep hsteps, hs''⟩

theorem Begun.methodCode {site : Site} (h : site.Narrow) (f : MethodSymbol) (prologue : Code) :
    Begun (Compile.methodCode site f prologue) := by
  unfold Compile.methodCode
  split
  · next params b sp _ =>
    intro s d hnil hd hs
    exact Begun.prologue prologue (Drafted.body h f.span b) _ d hnil hd (declareParams_holds _ _ hs)
  · exact Begun.prologue prologue (Drafted.emit .retVoid)

/-! ## Modules -/

def Compile.prologueOf (f : MethodSymbol) (instanceCode staticCode : Code) : Code :=
  match f.kind with
  | .constructor => instanceCode
  | .typeInitializer => staticCode
  | .method => #[]

/-- What is compiled as a body of a class: its initializers of fields, and its methods. -/
inductive Compile.ClassSite.Writes (c : ClassSite) : Site → Span → Writing Unit → Prop
  | fields (isStatic : Bool) : Writes c (initializerSite c isStatic) c.owner.decl.name.span
      (initializers (initializerSite c isStatic) (if isStatic then .setStatic else .setField)
        (c.owner.fields.toList.filter (·.isStatic == isStatic)))
  | method {f : MethodSymbol} (h : f ∈ c.owner.methods) (instanceCode staticCode : Code) :
    Writes c (methodSite c f) (methodSpan f)
      (methodCode (methodSite c f) f (prologueOf f instanceCode staticCode))

/-- `d` is the draft of what `write` writes in a module that is as far as `m`. -/
structure Compile.DraftOf (m : ModuleState) (write : Writing Unit) (d : Draft) : Prop where
  steps : (Draft.start m.pool).Steps d
  emitter : (write.run (beginMethod m)).2.code.emitter = d.emitter

/-- A module is as far as `m`, and `ds` are the drafts of its bodies, the last one first. -/
inductive Compile.Bodies (classes : List ClassSite) : ModuleState → List Draft → Prop
  | start : Bodies classes .start []
  | body {m : ModuleState} {ds : List Draft} {c : ClassSite} {site : Site} {span : Span}
    {write : Writing Unit} {d : Draft} (h : Bodies classes m ds) (hc : c ∈ classes)
    (hwrite : c.Writes site span write) (hd : DraftOf m write d) :
    Bodies classes (writeMethod site span write m).2 (d :: ds)

variable {m : ModuleState} {ds : List Draft} {c : ClassSite} {site : Site} {span : Span}
  {write : Writing Unit} {d : Draft}

theorem Compile.writeMethod_pool (site : Site) (span : Span) (write : Writing Unit) (m : ModuleState) :
    (writeMethod site span write m).2.pool = (write.run (beginMethod m)).2.code.emitter.pool := by
  unfold writeMethod finishMethod
  dsimp only
  split <;> rfl

theorem Compile.writeMethod_imports (site : Site) (span : Span) (write : Writing Unit) (m : ModuleState) :
    (writeMethod site span write m).2.imports = (write.run (beginMethod m)).2.code.imports := by
  unfold writeMethod finishMethod
  dsimp only
  split <;> rfl

/-- The code of a draft refers to a constant, or some of it did that was taken out. -/
def Draft.Refers (d : Draft) (c : Constant) : Prop := ∃ i, .constant c i ∈ d.written

/-- The drafts `ds` account for the tables of a module. -/
structure ModuleState.Accounted (m : ModuleState) (ds : List Draft) : Prop where
  sound : m.pool.Sound
  distinct : m.pool.Distinct
  imports : m.imports.Narrow
  referred : ∀ k ∈ m.pool.entries.toList, ∃ d ∈ ds, d.Refers k

theorem ModuleState.accounted_start : start.Accounted [] where
  sound := Pool.sound_empty
  distinct := Pool.distinct_empty
  imports := ImportTable.narrow_empty
  referred k hk := by cases hk

namespace ModuleState.Accounted

theorem holds (h : m.Accounted ds) : (beginMethod m).Holds (.start m.pool) :=
  ⟨rfl, h.imports, LocalScope.narrow_start⟩

theorem draft (h : m.Accounted ds) (hwrite : Begun write) : ∃ d, DraftOf m write d := by
  obtain ⟨d, hsteps, hd⟩ := hwrite _ _ rfl (Draft.spells_start m.pool) h.holds
  exact ⟨d, hsteps, hd.emitter⟩

theorem accounts (h : m.Accounted ds) (hd : DraftOf m write d) : d.Accounts m.pool :=
  (Draft.accounts_start h.sound h.distinct).steps hd.steps

/-- A constant that is in the pool behind a body is referred to by one of the drafts. -/
theorem refers (h : m.Accounted ds) (hd : DraftOf m write d) {k : Constant}
    (hk : k ∈ d.emitter.pool.entries.toList) : ∃ d' ∈ d :: ds, d'.Refers k := by
  obtain hbase | hk := (h.accounts hd).referred k hk
  · obtain ⟨d', hd', hrefers⟩ := h.referred k hbase
    exact ⟨d', List.mem_cons_of_mem _ hd', hrefers⟩
  · exact ⟨d, List.mem_cons_self, hk⟩

theorem body (h : m.Accounted ds) (hwrite : Begun write) (hd : DraftOf m write d) :
    (writeMethod site span write m).2.Accounted (d :: ds) := by
  have hpool : (writeMethod site span write m).2.pool = d.emitter.pool := by
    rw [writeMethod_pool, hd.emitter]
  have haccounts := h.accounts hd
  obtain ⟨d', -, hd'⟩ := hwrite _ _ rfl (Draft.spells_start m.pool) h.holds
  refine ⟨hpool ▸ haccounts.sound, hpool ▸ haccounts.distinct, ?_, fun k hk => ?_⟩
  · rw [writeMethod_imports]
    exact hd'.imports
  · rw [hpool] at hk
    exact h.refers hd hk

end ModuleState.Accounted

/-! ## A sample

Behind a return stands an assignment that is dropped again. Its right operand is longer than a jump can
lead over. -/

/-- `this.b` -/
def flag : Expr := .member (.this {}) ⟨"b", {}⟩ {}

/-- `this.b == this.b == … == this.b`, with so many operators. -/
def chain : Nat → Expr
  | 0 => flag
  | n + 1 => .binary .equal (chain n) flag {}

/-- `return; this.b = this.b && this.b == … == this.b;` -/
def chainBody (n : Nat) : Body :=
  .block [
    .ret none {},
    .expr (.assign .assign flag (.binary .logicalAnd flag (chain n) {}) {}) {}] {}

/-- `public class T { bool b; public void M() { … } }` -/
def chainScript (n : Nat) : Script where
  usings := []
  items := [.type {
    modifiers := ⟨some .pub, false, false, {}⟩
    name := ⟨"T", {}⟩
    members := [
      .field ⟨none, false, false, {}⟩ ⟨.keyword .bool, {}⟩ [⟨⟨"b", {}⟩, none, {}⟩] {},
      .method ⟨some .pub, false, false, {}⟩ ⟨.keyword .void, {}⟩ ⟨"M", {}⟩ [] (chainBody n) {}]
    span := {} }]
  span := {}

def chainField : FieldSymbol := ⟨"b", .bool, .priv, false, false, 0, none, {}⟩

def chainMethod (n : Nat) : MethodSymbol :=
  ⟨"M", .method, .pub, false, [], .void, .declared [] (chainBody n) {}, {}⟩

def chainClass (n : Nat) : ClassSymbol where
  name := ⟨"T", []⟩
  visibility := .pub
  isStatic := false
  usings := []
  decl := ((chainScript n).classes.map (·.decl)).headD default
  fields := #[chainField]
  methods := #[chainMethod n, ⟨".ctor", .constructor, .pub, false, [], .void, .implied, {}⟩]

def chainOwner (n : Nat) : ClassSite :=
  ⟨Layout.symbolsOf {} [] (chainScript n), true, 0, chainClass n⟩

def chainSite (n : Nat) : Site := methodSite (chainOwner n) (chainMethod n)

open Registration in
theorem classes_chainScript (n : Nat) :
    (Layout.symbolsOf {} [] (chainScript n)).classes = #[chainClass n] := by
  simp [Layout.symbolsOf, ofScript, chainScript, chainClass, chainField, chainMethod, Script.classes,
    Item.classesOf, Item.classes, spacesOf, spaces, usingsOf, usings, Symbols.start, addClasses,
    classError?, classSymbol, addClass, List.range_succ, addMembers, members, member, Registration.method,
    paramTypes, Symbols.resolveType, methodFault?, field, declarator, fieldFault?, Members.start,
    Members.hasSignature, Members.addMethod, Members.addField, MethodSymbol.isInvocable, withImplied,
    impliedMethod, constructorName, ValueType.isVoid, maxSlots]

namespace Emitter

def link (e : Emitter) : Emitter := (e.emitWith .getField 0).emit .eq

/-- `this.b && this.b == … == this.b` -/
def both (e : Emitter) (n : Nat) : Emitter :=
  let (label, e) := ((e.emitWith .getField 0).emit .dup).emitJump .jumpIfFalse
  (link^[n] ((e.emit .pop).emitWith .getField 0)).land label

theorem offset_links (e : Emitter) (n : Nat) : (link^[n] e).offset = e.offset + 4 * n := by
  induction n with
  | zero => rfl
  | succ n ih =>
    have hlink (e : Emitter) : e.link.offset = e.offset + 4 := by
      simp [link, emitWith, emit, byte, operand, offset]
    rw [Function.iterate_succ_apply', hlink, ih]
    omega

variable (e : Emitter) {n : Nat}

theorem offset_right : (((((e.emitWith .getField 0).emit .dup).emitJump .jumpIfFalse).2.emit
    .pop).emitWith .getField 0).offset = e.offset + 11 := by
  simp [emitJump, emitWith, emit, byte, operand, offset]

/-- The jump over the right operand leads too far. -/
theorem oversized_both (h : 16383 ≤ n) : (e.both n).oversized = true := by
  have hlabel : (((e.emitWith .getField 0).emit .dup).emitJump .jumpIfFalse).1 = e.offset + 5 := by
    simp [emitJump, emitWith, emit, byte, operand, offset]
  simp only [both, land, overwrite, offset_links, hlabel, offset_right, Bool.or_eq_true,
    decide_eq_true_eq]
  refine .inr ?_
  unfold maxOperand
  omega

end Emitter

section

variable {site : Site} {locals : LocalScope} {depth : Nat} {s : CodeState}
  (hthis : site.isStatic = false) (hfield : site.owner.field? "b" = some chainField)

include hthis hfield

theorem returns_flag (hdepth : depth ≤ maxDepth) (use : Use) :
    Returns (meaning site locals depth use flag) s (.field site.cls chainField) s := by
  simp [flag, meaning, asObject, Returns.bind_iff, Returns.enter_iff, objectLevels, thisMeaning, hthis,
    memberMeaning, thisMember, hfield, hdepth, chainField]

theorem returns_flagValue (hdepth : depth + 2 ≤ maxDepth) :
    Returns (asValue site depth flag fun d => meaning site locals d .value flag) s
      (.unknown .bool s.emitter.offset) ⟨s.emitter.emitWith .getField 0, s.imports⟩ := by
  refine .andThen (Returns.enter_iff.mpr ⟨hdepth, returns_flag hthis hfield hdepth _⟩) ?_
  simp [materialize, Returns.bind_iff, loadOp, chainField, -bind_pure_comp]

theorem returns_chain (hdepth : depth + 2 ≤ maxDepth) (n : Nat) :
    Returns (leftOperand site locals depth (chain n)) s (.unknown .bool s.emitter.offset)
      ⟨Emitter.link^[n] (s.emitter.emitWith .getField 0), s.imports⟩ := by
  induction n with
  | zero => exact returns_flagValue hthis hfield hdepth
  | succ n ih =>
    rw [chain, leftOperand, meaning_binary]
    refine .andThen (a := .value (.unknown .bool s.emitter.offset)) (.andThen ih ?_) .pure
    rw [if_neg (by decide)]
    refine .andThen (Returns.offset_iff.mpr ⟨rfl, rfl⟩) ?_
    refine .andThen (returns_flagValue hthis hfield hdepth) ?_
    rw [Function.iterate_succ_apply']
    simp [Emitter.link, applyBinary, Returns.bind_iff, BinaryOp.plan?, Pushed.unknown,
      ValueType.isVoid, ValueType.equalityType?, ValueType.promotion?, ValueType.isNumeric,
      BinaryPlan.widening, Conversion.widening?, Conversion.implicit?, Conversion.op?, convertAt,
      BinaryPlan.divides, ValueType.isIntegral, -bind_pure_comp]

theorem returns_chainValue (hdepth : depth + 3 ≤ maxDepth) (n : Nat) :
    Returns (asValue site depth (chain n) fun d => meaning site locals d .value (chain n)) s
      (.unknown .bool s.emitter.offset)
      ⟨Emitter.link^[n] (s.emitter.emitWith .getField 0), s.imports⟩ := by
  cases n with
  | zero => exact returns_flagValue hthis hfield (by omega)
  | succ n =>
    obtain ⟨m, u, hm, hvalue⟩ := Returns.bind (returns_chain hthis hfield hdepth (n + 1))
    exact .andThen (Returns.enter_iff.mpr ⟨show depth + 1 ≤ maxDepth by omega, hm⟩) hvalue

theorem returns_both (hdepth : depth + 3 ≤ maxDepth) (n : Nat) :
    Returns (meaning site locals depth .value (.binary .logicalAnd flag (chain n) {})) s
      (.value (.unknown .bool s.emitter.offset)) ⟨s.emitter.both n, s.imports⟩ := by
  have hbegin : Returns (beginLogical .logicalAnd) ⟨s.emitter.emitWith .getField 0, s.imports⟩
      (((s.emitter.emitWith .getField 0).emit .dup).emitJump .jumpIfFalse).1
      ⟨(((s.emitter.emitWith .getField 0).emit .dup).emitJump .jumpIfFalse).2.emit .pop,
        s.imports⟩ := by
    simp [beginLogical, Returns.bind_iff, -bind_pure_comp]
  rw [meaning_binary]
  refine .andThen (returns_flagValue hthis hfield (by omega)) ?_
  rw [if_pos (by rfl)]
  refine .andThen hbegin (.andThen (returns_chainValue hthis hfield hdepth n) ?_)
  simp [endLogical, Returns.bind_iff, Pushed.unknown, Emitter.both, -bind_pure_comp]

theorem returns_chainAssign (n : Nat) :
    Returns (effect site locals (.assign .assign flag (.binary .logicalAnd flag (chain n) {}) {})) s ()
      ⟨(s.emitter.both n).emitWith .setField 0, s.imports⟩ := by
  have hplace : Returns (asPlace site 0 flag fun d => meaning site locals d .bare flag) s
      (.field chainField) s := by
    refine .andThen (a := .field site.cls chainField) (u := s) ?_ ?_
    · change Returns (enter 0 1 {} fun d => meaning site locals d .bare flag) s _ s
      exact Returns.enter_iff.mpr ⟨by decide, returns_flag hthis hfield (by decide) _⟩
    · simp [placeOf, isWritable, chainField]
  have hvalue : Returns (asValue site 0 (.binary .logicalAnd flag (chain n) {}) fun d =>
      meaning site locals d .value (.binary .logicalAnd flag (chain n) {})) s
      (.unknown .bool s.emitter.offset) ⟨s.emitter.both n, s.imports⟩ := by
    refine .andThen (a := .value _) (Returns.enter_iff.mpr ⟨?_, returns_both hthis hfield ?_ n⟩) .pure
    · simp [valueLevels, maxDepth]
    · simp [valueLevels, maxDepth]
  have hmeaning : Returns (meaning site locals 0 .discarded
      (.assign .assign flag (.binary .logicalAnd flag (chain n) {}) {})) s
      (.value (.unknown .void s.emitter.offset))
      ⟨(s.emitter.both n).emitWith .setField 0, s.imports⟩ := by
    simp only [meaning, AssignOp.binary?]
    refine .andThen hplace (.andThen (Returns.offset_iff.mpr ⟨rfl, rfl⟩) (.andThen hvalue ?_))
    simp [Returns.bind_iff, coerce, Pushed.unknown, Conversion.implicit?, Place.type, chainField,
      endAssign, store, storeOp, storedType, -bind_pure_comp]
  rw [effect, if_pos (by rfl)]
  refine .andThen hmeaning ?_
  simp [Returns.bind_iff, materialize, Pushed.unknown, ValueType.isVoid, -bind_pure_comp]

theorem emitter_chainBody (hreturns : site.returns = .void) (hrelease : site.release = true)
    (sp : Span) (s : BodyState) (n : Nat) :
    ((Compile.body site sp (chainBody n)).run s).2.code.emitter =
      (((s.code.emitter.emit .retVoid).both n).emitWith .setField 0).truncate
        (s.code.emitter.emit .retVoid).offset := by
  have hruns : Layout.Runs (Compile.body site sp (chainBody n)) s () _ := .andThen
    (.block (.next (.retVoid (by rw [hreturns]; rfl))
      (.deadEnd rfl (.expr (returns_chainAssign hthis hfield n))))) rfl
  rw [show (Compile.body site sp (chainBody n)).run s = _ from hruns, hrelease]
  rfl

end

/-- All that remains of the sample is its return, and still it is not finished. -/
theorem emitter_chainMethod {n : Nat} {e : Emitter} (h : 16383 ≤ n)
    (he : ((methodCode (chainSite n) (chainMethod n) #[]).run (beginMethod .start)).2.code.emitter = e) :
    e.offset = 1 ∧ e.finish? = none := by
  have hbody : ((Compile.body (chainSite n) {} (chainBody n)).run (beginMethod .start)).2.code.emitter = _ :=
    emitter_chainBody rfl rfl rfl rfl {} (beginMethod .start) n
  have hrun : (methodCode (chainSite n) (chainMethod n) #[]).run (beginMethod .start) =
      (Compile.body (chainSite n) {} (chainBody n)).run (beginMethod .start) := rfl
  have hone : ((beginMethod .start).code.emitter.emit .retVoid).offset = 1 := rfl
  rw [hrun, hbody, hone] at he
  subst he
  refine ⟨?_, ?_⟩
  · simp [Emitter.truncate, Emitter.emitWith, Emitter.emit, Emitter.byte, Emitter.operand,
      Emitter.offset]
  · rw [Emitter.finish?, if_pos]
    simp [Emitter.truncate, Emitter.emitWith, Emitter.emit, Emitter.byte, Emitter.operand,
      Emitter.oversized_both _ h]

/-! ## Scripts -/

namespace Compilation

open Layout (sites symbolsOf classesOf)

variable {options : Options} {libraries : List Library} {script : Script}

/-- Fields of a script have slots that are operands, whatever is wrong with the script. -/
theorem slot_le (hc : c ∈ sites (symbolsOf options libraries script) options.release) :
    c.symbols = symbolsOf options libraries script ∧ ∀ f ∈ c.owner.fields, f.slot ≤ maxOperand := by
  obtain ⟨⟨k, i⟩, hk, rfl⟩ := List.mem_map.mp hc
  refine ⟨rfl, fun f hf => Nat.le_of_lt ?_⟩
  exact (Layout.symbolsOf_sound options libraries script).slot_lt (List.fst_mem_of_mem_zipIdx hk) hf

theorem narrow_of_sites (hc : c ∈ sites (symbolsOf options libraries script) options.release)
    (howner : site.owner = c.owner) (hsymbols : site.symbols = c.symbols) : site.Narrow where
  owner := howner ▸ (slot_le hc).2
  classes cls f hf := by
    rw [classAt, hsymbols, (slot_le hc).1, Array.getD_eq_getD_getElem?] at hf
    cases hk : (symbolsOf options libraries script).classes[cls]? with
    | none =>
      rw [hk] at hf
      cases Array.mem_def.mp hf
    | some k =>
      rw [hk] at hf
      have hmem : k ∈ (symbolsOf options libraries script).classes.toList :=
        Array.mem_toList_iff.mpr (Array.mem_of_getElem? hk)
      exact Nat.le_of_lt ((Layout.symbolsOf_sound options libraries script).slot_lt hmem hf)

theorem begun_of_writes (hc : c ∈ sites (symbolsOf options libraries script) options.release)
    (hwrite : c.Writes site span write) : Begun write := by
  cases hwrite with
  | fields isStatic =>
    refine fun s d _ => Drafted.initializers (narrow_of_sites hc rfl rfl) _ _ (fun f hf => ?_) s d
    exact (slot_le hc).2 f (Array.mem_toList_iff.mp (List.mem_of_mem_filter hf))
  | method hf => exact .methodCode (narrow_of_sites hc rfl rfl) _ _

theorem accounted_of_bodies
    (h : Bodies (sites (symbolsOf options libraries script) options.release) m ds) :
    m.Accounted ds := by
  induction h with
  | start => exact ModuleState.accounted_start
  | body _ hc hwrite hd ih => exact ih.body (begun_of_writes hc hwrite) hd

theorem bodies_body (hm : Bodies (sites (symbolsOf options libraries script) options.release) m ds)
    (hc : c ∈ sites (symbolsOf options libraries script) options.release)
    (hwrite : c.Writes site span write) :
    ∃ ds', Bodies (sites (symbolsOf options libraries script) options.release)
      (writeMethod site span write m).2 ds' := by
  obtain ⟨d, hd⟩ := (accounted_of_bodies hm).draft (begun_of_writes hc hwrite)
  exact ⟨_, .body hm hc hwrite hd⟩

theorem bodies_inOrder {α β : Type} {classes : List ClassSite} {f : α → ModuleState → β × ModuleState}
    {as : List α} (hf : ∀ a ∈ as, ∀ m ds, Bodies classes m ds → ∃ ds', Bodies classes (f a m).2 ds')
    (hm : Bodies classes m ds) : ∃ ds', Bodies classes (inOrder f as m).2 ds' := by
  induction as generalizing m ds with
  | nil => exact ⟨ds, hm⟩
  | cons a as ih =>
    obtain ⟨ds', hm'⟩ := hf a List.mem_cons_self m ds hm
    exact ih (fun b hb => hf b (List.mem_cons_of_mem _ hb)) hm'

/-- A class is compiled body by body. -/
theorem bodies_classImage (hm : Bodies (sites (symbolsOf options libraries script) options.release) m ds)
    (hc : c ∈ sites (symbolsOf options libraries script) options.release) :
    ∃ ds', Bodies (sites (symbolsOf options libraries script) options.release) (classImage c m).2 ds' := by
  obtain ⟨_, hm₁⟩ := bodies_body hm hc (.fields false)
  obtain ⟨_, hm₂⟩ := bodies_body hm₁ hc (.fields true)
  refine bodies_inOrder (fun f hf m ds hm => ?_) hm₂
  exact bodies_body hm hc (.method (Array.mem_toList_iff.mp hf) _ _)

/-- So is a whole script. -/
theorem bodies_of_classes (options : Options) (libraries : List Library) (script : Script) :
    ∃ ds, Bodies (sites (symbolsOf options libraries script) options.release)
      (classesOf options libraries script).2 ds :=
  bodies_inOrder (fun _ hc _ _ hm => bodies_classImage hm hc) .start

/-- Every body of a script has a draft. Whatever its draft, a body is too large exactly if some operand
does not fit, in the code that stands or in code that was taken out of it. That operand is the distance
of a jump, or the module has more constants than operands can tell apart, all of which its code refers
to or referred to before it was taken out. -/
theorem too_large_explained (options : Options) (libraries : List Library) (script : Script) :
    (∃ ds, Bodies (sites (symbolsOf options libraries script) options.release)
      (classesOf options libraries script).2 ds) ∧
    ∀ (m : ModuleState) (ds : List Draft) (c : ClassSite) (site : Site) (span : Span)
      (write : Writing Unit),
      Bodies (sites (symbolsOf options libraries script) options.release) m ds →
      c ∈ sites (symbolsOf options libraries script) options.release →
      c.Writes site span write →
      (∃ d, DraftOf m write d) ∧ ∀ d, DraftOf m write d →
        (∀ code, d.emitter.finish? = some code → code.toList = d.cells.map Cell.spelled) ∧
        (d.emitter.finish? = none ↔ ∃ o ∈ d.standing ++ d.lost, maxOperand < o.number) ∧
        (d.emitter.finish? = none →
          (∃ n, .distance n ∈ d.standing ++ d.lost ∧ maxOperand < n) ∨
          ∃ cs : List Constant, cs.Nodup ∧ maxOperand + 1 < cs.length ∧
            ∀ k ∈ cs, ∃ d' ∈ d :: ds, d'.Refers k) := by
  refine ⟨bodies_of_classes options libraries script, fun m ds c site span write hm hc hwrite => ?_⟩
  have haccounted := accounted_of_bodies hm
  refine ⟨haccounted.draft (begun_of_writes hc hwrite), fun d hd => ?_⟩
  have haccounts := haccounted.accounts hd
  have hfinish : d.emitter.finish? = none ↔ ∃ o ∈ d.standing ++ d.lost, maxOperand < o.number := by
    unfold Emitter.finish?
    rw [← Draft.written, ← haccounts.mark]
    cases d.emitter.oversized <;> simp
  refine ⟨fun code hcode => ?_, hfinish, fun hnone => ?_⟩
  · unfold Emitter.finish? at hcode
    split at hcode
    · cases hcode
    · cases hcode
      exact haccounts.spells
  · obtain ⟨o, ho, hbig⟩ := hfinish.mp hnone
    cases o with
    | distance n => exact .inl ⟨n, ho, hbig⟩
    | gap => exact absurd hbig (Nat.lt_irrefl _)
    | place n => exact absurd hbig (Nat.not_lt_of_le (haccounts.places n ho))
    | constant k i =>
      have hlt := (Array.getElem?_eq_some_iff.mp (haccounts.constants k i ho)).1
      refine .inr ⟨d.emitter.pool.entries.toList, ?_, ?_, fun k hk => haccounted.refers hd hk⟩
      · refine nodup_of_places fun i j k hi hj => ?_
        rw [Array.getElem?_toList] at hi hj
        exact Option.some.inj ((haccounts.distinct i k hi).symm.trans (haccounts.distinct j k hj))
      · rw [Array.length_toList]
        exact Nat.lt_of_le_of_lt (Nat.succ_le_of_lt hbig) hlt

theorem too_large_explained_dropped :
    Bodies (sites (symbolsOf {} [] (chainScript 16383)) true) .start [] ∧
    chainOwner 16383 ∈ sites (symbolsOf {} [] (chainScript 16383)) true ∧
    (chainOwner 16383).Writes (chainSite 16383) {}
      (methodCode (chainSite 16383) (chainMethod 16383) #[]) ∧
    (∃ d, DraftOf .start (methodCode (chainSite 16383) (chainMethod 16383) #[]) d) ∧
    ∀ d, DraftOf .start (methodCode (chainSite 16383) (chainMethod 16383) #[]) d →
      d.emitter.offset = 1 ∧ d.emitter.finish? = none ∧
        ∃ o ∈ d.standing ++ d.lost, maxOperand < o.number := by
  have hstart : Bodies (sites (symbolsOf {} [] (chainScript 16383)) true) .start [] := .start
  have hc : chainOwner 16383 ∈ sites (symbolsOf {} [] (chainScript 16383)) true := by
    simp [sites, classes_chainScript, chainOwner]
  have hwrite : (chainOwner 16383).Writes (chainSite 16383) {}
      (methodCode (chainSite 16383) (chainMethod 16383) #[]) :=
    .method (Array.mem_def.mpr List.mem_cons_self) #[] #[]
  obtain ⟨hdraft, hexplained⟩ :=
    (too_large_explained {} [] (chainScript 16383)).2 _ _ _ _ _ _ hstart hc hwrite
  refine ⟨hstart, hc, hwrite, hdraft, fun d hd => ?_⟩
  obtain ⟨hone, hnone⟩ := emitter_chainMethod (Nat.le_refl 16383) hd.emitter
  exact ⟨hone, hnone, (hexplained d hd).2.1.mp hnone⟩

end Compilation
end ClassScript
