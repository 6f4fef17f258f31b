import ClassScript.Proofs.Access.Run
import ClassScript.Proofs.Execution.Soundness

/-!
Readonly fields keep their values.

The only instructions that store to a readonly field stand in the constructors of its class or, if
the field is static, in the initializer of its class. A run has no such method at work unless it began
with it, and no request begins a constructor on an instance that is there already, or an initializer.
-/

namespace ClassScript

open Code (Instruction)

/-! ## Runs -/

/-- Readonly slots hold the same in two machines, unless the run is that of a method that makes them. -/
structure Machine.Keeps (m : Image) (home : Option Nat) (kind : MethodKind) (x y : Machine) :
    Prop where
  statics : kind ≠ .typeInitializer → ∀ c slot f, m.HasStatic c slot f → f.isReadonly = true →
    y.statics[slot]? = x.statics[slot]?
  fields : kind ≠ .constructor → ∀ c slot f, home = some c → m.HasField c slot f →
    f.isReadonly = true → y.field? slot = x.field? slot

namespace Machine

variable {p : Program} {m x y z : Machine} {home : Option Nat} {kind : MethodKind} {n : Nat}

theorem Keeps.trans {m : Image} (h : Keeps m home kind x y) (h' : Keeps m home kind y z) :
    Keeps m home kind x z where
  statics hkind c slot f hf hr := (h'.statics hkind c slot f hf hr).trans (h.statics hkind c slot f hf hr)
  fields hkind c slot f hc hf hr :=
    (h'.fields hkind c slot f hc hf hr).trans (h.fields hkind c slot f hc hf hr)

/-- Slots that are the same. -/
theorem Keeps.of_eq {m : Image} (hfields : y.fields = x.fields) (hstatics : y.statics = x.statics) :
    Keeps m home kind x y where
  statics _ _ _ _ _ _ := by rw [hstatics]
  fields _ _ _ _ _ _ _ := by rw [field?, field?, hfields]

variable (hp : p.Disciplined)

include hp

/-- A step stores to no readonly slot. -/
theorem step_keeps (hm : x.Disciplined p home kind) :
    Keeps p.image home kind x (step p x).machine := by
  obtain ⟨i, hi, -⟩ | ⟨o, hfault⟩ := step_guarded hp.verified hm.guarded hm.active
  · have htouches := step_touches hi
    obtain ⟨f, fs, g, hframes, hg, hgrants, hkind, hhome⟩ := hm.grants hp hi
    constructor
    · intro hmaker c slot e he hreadonly
      obtain hsame | ⟨hop, v, hstored⟩ := htouches.statics
      · rw [hsame]
      · have hother : i.first ≠ slot := by
          rintro rfl
          obtain ⟨-, hmakes⟩ := hgrants.readonlyStatic hop c e he hreadonly
          obtain hkind | hkind := hkind
          · cases hkind.symm.trans hmakes
          · exact hmaker (hkind.symm.trans hmakes)
        rw [hstored, Array.getElem?_setIfInBounds_ne hother]
    · intro hmaker c slot e hc he hreadonly
      obtain hsame | ⟨hop, fields, v, hfields, hstored⟩ := htouches.fields
      · rw [field?, field?, hsame]
      · have hother : i.first ≠ slot := by
          rintro rfl
          have hcls := hhome (hgrants.field (.inr hop)).1
          cases hc.symm.trans hcls
          have hmakes := hgrants.readonlyField hop e he hreadonly
          obtain hkind | hkind := hkind
          · cases hkind.symm.trans hmakes
          · exact hmaker (hkind.symm.trans hmakes)
        rw [field?, field?, hstored, hfields]
        exact Array.getElem?_setIfInBounds_ne hother
  · rw [hfault]
    exact .of_eq rfl rfl

theorem run_keeps {o : Outcome} (hm : x.Disciplined p home kind) (h : run p n x = some o) :
    Keeps p.image home kind x o.machine ∧ o.machine.statics.size = p.image.staticCount := by
  induction n generalizing x with
  | zero => cases h
  | succ n ih =>
    have hkeeps := step_keeps hp hm
    have hsize : (step p x).machine.statics.size = p.image.staticCount := by
      obtain ⟨i, hi, hguarded⟩ | ⟨o, hfault⟩ := step_guarded hp.verified hm.guarded hm.active
      · exact hguarded.machine.statics
      · rw [hfault]
        exact hm.guarded.statics
    unfold run at h
    split at h
    · next y hstep =>
      rw [hstep] at hkeeps
      obtain ⟨hrest, hend⟩ := ih (step_disciplined hp hm hstep) h
      exact ⟨hkeeps.trans hrest, hend⟩
    all_goals
      next hstep =>
      rw [hstep] at hkeeps hsize
      cases h
      exact ⟨hkeeps, hsize⟩

/-- A run keeps readonly slots, unless it is that of a method that makes them. -/
theorem call_keeps {cls j : Nat} {g : MethodImage} {args : List Value}
    {fields : Option (Array Value)} {statics : Array Value} {sink : Sink} {o : Outcome}
    (hg : p.method? cls j = some g) (hhome : g.isStatic = false → home = some cls)
    (hstatics : statics.size = p.image.staticCount)
    (h : call p n cls j args (.idle fields statics sink) = some o) :
    Keeps p.image home g.kind (.idle fields statics sink) o.machine ∧
      o.machine.statics.size = p.image.staticCount := by
  have hentered : (enter p cls j args (.idle fields statics sink)).Touches ⟨.call, cls, j⟩
      (.idle fields statics sink) := Step.Touches.enter (i := ⟨.call, cls, j⟩) rfl
  have hsame : (enter p cls j args (.idle fields statics sink)).machine.fields = fields :=
    hentered.fields.resolve_right (by rintro ⟨hop, -⟩; cases hop)
  have hsame' : (enter p cls j args (.idle fields statics sink)).machine.statics = statics :=
    hentered.statics.resolve_right (by rintro ⟨hop, -⟩; cases hop)
  unfold call at h
  split at h
  · next start hstart =>
    rw [hstart] at hsame hsame'
    obtain ⟨hkeeps, hsize⟩ := run_keeps hp (enter_disciplined hp hg hhome hstatics hstart) h
    exact ⟨Keeps.trans (.of_eq hsame hsame') hkeeps, hsize⟩
  all_goals
    next hend =>
    rw [hend] at hsame hsame'
    cases h
    exact ⟨.of_eq hsame hsame', (congrArg Array.size hsame').trans hstatics⟩

end Machine

/-! ## Modules -/

/-- A module whose code keeps the discipline, with all its static slots. -/
structure LoadedModule.Ready (m : Image) (M : LoadedModule) : Prop where
  image : M.program.image = m
  disciplined : M.program.Disciplined
  statics : M.statics.size = m.staticCount

namespace LoadedModule

variable {m : Image} {M M' : LoadedModule} {fuel : Nat}

theorem Ready.after (h : M.Ready m) {machine : Machine}
    (hstatics : machine.statics.size = m.staticCount) : (M.after machine).Ready m :=
  ⟨h.image, h.disciplined, hstatics⟩

theorem Ready.runInitializers {places : List (Nat × Nat)} (h : M.Ready m)
    (hplaces : ∀ place ∈ places, ∃ g, m.method? place.1 place.2 = some g ∧ g.isStatic = true)
    (hrun : runInitializers fuel places M = some (.ok M')) : M'.Ready m := by
  induction places generalizing M with
  | nil =>
    cases hrun
    exact h
  | cons place places ih =>
    obtain ⟨cls, j⟩ := place
    unfold LoadedModule.runInitializers at hrun
    split at hrun
    · cases hrun
    · cases hrun
    · next v machine hcall =>
      obtain ⟨g, hg, hstatic⟩ := hplaces _ List.mem_cons_self
      have hhome : g.isStatic = false → none = some cls := by simp [hstatic]
      obtain ⟨-, hsize⟩ := Machine.call_keeps h.disciplined
        (h.image ▸ hg : M.program.image.method? cls j = some g) hhome (h.image ▸ h.statics) hcall
      exact ih (h.after (h.image ▸ hsize)) (fun q hq => hplaces q (List.mem_cons_of_mem _ hq)) hrun

/-- A module that is compiled, written and loaded is ready. -/
theorem ready_of_load {name : String} {options : Options} {libraries : List Library}
    {script : Script} {bytes : List UInt8} {catalog : Catalog}
    (h : (Compilation.ofScript name options libraries script).image = some m)
    (hbytes : m.encode = .ok bytes) (hload : load fuel bytes catalog = some (.ok M)) : M.Ready m := by
  have hs := Layout.symbolsOf_sound options libraries script
  have hlaid := Layout.laid_of_compiled h
  rw [load, m.decode_of_encode hbytes (Flow.verified_of_laid hs hlaid)] at hload
  dsimp only at hload
  split at hload
  · cases hload
  · next M₀ hbind =>
    obtain ⟨found, -, hbind⟩ := ok_bind hbind
    obtain ⟨natives, hnatives, hbind⟩ := ok_bind hbind
    cases hbind
    have hsize : natives.toArray.size = m.imports.size := by
      have hlength := (forall₂_of_mapM hnatives).length_eq
      simpa using hlength.symm
    refine Ready.runInitializers ⟨rfl, Program.disciplined_of_laid hs hlaid hsize, ?_⟩ ?_ hload
    · exact size_firstStatics m
    · rintro ⟨cls, j⟩ hplace
      obtain ⟨g, hg, hstatic, -⟩ := initializer_of_mem hs hlaid hplace
      exact ⟨g, hg, hstatic⟩

end LoadedModule

/-! ## Sessions -/

namespace Session

/-- Sessions that requests lead to, whatever comes of them. -/
inductive Later (s₀ : Session) : Session → Prop
  | refl : Later s₀ s₀
  | step {s s' : Session} {r : Request} {fuel : Nat} {reply : Reply} (h : Later s₀ s)
      (hperform : s.perform fuel r = some (reply, s')) : Later s₀ s'

/-- The static readonly fields of a module, and the readonly fields of all instances, hold what they
held before. -/
structure KeepsReadonly (m : Image) (s s' : Session) : Prop where
  statics : ∀ c slot f, m.HasStatic c slot f → f.isReadonly = true →
    s'.module.statics[slot]? = s.module.statics[slot]?
  instances : ∀ (k : Nat) (i : Instance), s.instances[k]? = some i →
    ∃ i' : Instance, s'.instances[k]? = some i' ∧ i'.cls = i.cls ∧ ∀ slot f, m.HasField i.cls slot f →
      f.isReadonly = true → i'.fields[slot]? = i.fields[slot]?

variable {m : Image} {s s' s'' : Session} {r : Request} {fuel : Nat} {reply : Reply}

theorem KeepsReadonly.refl (m : Image) (s : Session) : s.KeepsReadonly m s :=
  ⟨fun _ _ _ _ _ => rfl, fun _ i hi => ⟨i, hi, rfl, fun _ _ _ _ => rfl⟩⟩

theorem KeepsReadonly.trans (h : s.KeepsReadonly m s') (h' : s'.KeepsReadonly m s'') :
    s.KeepsReadonly m s'' where
  statics c slot f hf hr := (h'.statics c slot f hf hr).trans (h.statics c slot f hf hr)
  instances k i hi := by
    obtain ⟨i', hi', hcls, hfields⟩ := h.instances k i hi
    obtain ⟨i'', hi'', hcls', hfields'⟩ := h'.instances k i' hi'
    refine ⟨i'', hi'', hcls'.trans hcls, fun slot f hf hr => ?_⟩
    exact (hfields' slot f (hcls ▸ hf) hr).trans (hfields slot f hf hr)

/-- A request begins a constructor on an instance that is not there yet, or an ordinary method on one
that is. -/
theorem Starts.begins {i : Instance} {method : Nat} {args : List Value}
    (h : s.Starts r i method args) : ∃ g, s.module.program.method? i.cls method = some g ∧
      (r.receiver? = none ∧ g.kind = .constructor ∨
        ∃ k, r.receiver? = some k ∧ s.instances[k]? = some i ∧ g.kind = .method) := by
  have found {name : String} {signature : CallSignature}
      (h : i.bind s.module name signature = .ok method) :
      ∃ g, s.module.program.method? i.cls method = some g ∧ g.kind = .method := by
    unfold Instance.bind at h
    split at h
    · next j hj =>
      cases h
      obtain ⟨c, hc, hj⟩ := Option.bind_eq_some_iff.mp hj
      obtain ⟨hlt, hg, -⟩ := Array.findIdx?_eq_some_iff_getElem.mp hj
      simp only [Instance.isBindable, Bool.and_eq_true, beq_iff_eq] at hg
      have hc : s.module.program.image.classes[i.cls]? = some c := hc
      refine ⟨c.methods[method], ?_, hg.1.1.1.1.1⟩
      rw [Program.method?, hc]
      exact Array.getElem?_eq_getElem hlt
    · cases h
  cases h with
  | @create type cls method c hcls hc hmethod =>
    obtain ⟨hlt, hg, -⟩ := Array.findIdx?_eq_some_iff_getElem.mp hmethod
    simp only [Bool.and_eq_true, beq_iff_eq] at hg
    refine ⟨c.methods[method], ?_, .inl ⟨rfl, hg.1.1⟩⟩
    rw [Program.method?, show s.module.program.image.classes[(Instance.unmade cls c).cls]? = some c
      from hc]
    exact Array.getElem?_eq_getElem hlt
  | call hi hmethod _ =>
    obtain ⟨g, hg, hkind⟩ := found hmethod
    exact ⟨g, hg, .inr ⟨_, rfl, hi, hkind⟩⟩
  | callTyped hi hmethod =>
    obtain ⟨g, hg, hkind⟩ := found hmethod
    exact ⟨g, hg, .inr ⟨_, rfl, hi, hkind⟩⟩

/-- A request keeps all readonly fields. -/
theorem perform_keeps (hready : s.module.Ready m) (h : s.perform fuel r = some (reply, s')) :
    s'.module.Ready m ∧ s.KeepsReadonly m s' := by
  obtain hrefused | ⟨i, method, args, a, hstarts, hrun, hran⟩ := perform_spec h
  · rw [hrefused.unchanged]
    exact ⟨hready, .refl m s⟩
  obtain ⟨g, hg, hbegins⟩ := hstarts.begins
  unfold Instance.run at hrun
  split at hrun
  · cases hrun
  next result machine hcall =>
  cases hrun
  obtain ⟨hkeeps, hsize⟩ := Machine.call_keeps hready.disciplined hg (fun _ => rfl)
    (hready.image ▸ hready.statics) hcall
  rw [hready.image] at hkeeps hsize
  have hkind : g.kind ≠ .typeInitializer := by
    obtain ⟨-, hkind⟩ | ⟨-, -, -, hkind⟩ := hbegins
    all_goals
      rw [hkind]
      nofun
  refine ⟨hran.module ▸ hready.after hsize, ?_, fun k j hj => ?_⟩
  · intro c slot f hf hreadonly
    rw [hran.module]
    exact hkeeps.statics hkind c slot f hf hreadonly
  · obtain ⟨hnone, -⟩ | ⟨receiver, hreceiver, hi, hmethod⟩ := hbegins
    · obtain ⟨rest, hrest⟩ := hran.kept hnone
      refine ⟨j, ?_, rfl, fun _ _ _ _ => rfl⟩
      rw [← hrest, List.getElem?_append_left (List.getElem?_eq_some_iff.mp hj).1, hj]
    · rw [hran.replaced receiver hreceiver]
      by_cases hk : receiver = k
      · subst hk
        cases hi.symm.trans hj
        refine ⟨_, List.getElem?_set_self (List.getElem?_eq_some_iff.mp hj).1, rfl,
          fun slot f hf hreadonly => ?_⟩
        have hfield := hkeeps.fields (by rw [hmethod]; nofun) i.cls slot f rfl hf hreadonly
        have hslot : machine.field? slot = (machine.fields.getD #[])[slot]? := by
          cases hfields : machine.fields <;> simp [Machine.field?, hfields]
        exact hslot.symm.trans hfield
      · exact ⟨j, (List.getElem?_set_ne hk).trans hj, rfl, fun _ _ _ _ => rfl⟩

theorem Later.ready {s₀ : Session} (h : Later s₀ s) (hready : s₀.module.Ready m) :
    s.module.Ready m ∧ s₀.KeepsReadonly m s := by
  induction h with
  | refl => exact ⟨hready, .refl m s₀⟩
  | step _ hperform ih =>
    obtain ⟨hready', hkeeps⟩ := perform_keeps ih.1 hperform
    exact ⟨hready', ih.2.trans hkeeps⟩

end Session

/-- Readonly fields of a module that is compiled, written and loaded never change: static ones keep
the values they had when it was loaded, and those of an instance what they held in any session that
has the instance, the one that made it first of all. -/
theorem Compilation.readonly_kept {name : String} {options : Options} {libraries : List Library}
    {script : Script} {m : Image} {bytes : List UInt8} {catalog : Catalog} {M : LoadedModule}
    {fuel : Nat} (h : (Compilation.ofScript name options libraries script).image = some m)
    (hbytes : m.encode = .ok bytes) (hload : LoadedModule.load fuel bytes catalog = some (.ok M)) :
    ∀ s, Session.Later ⟨M, []⟩ s →
      (∀ c slot f, m.HasStatic c slot f → f.isReadonly = true →
        s.module.statics[slot]? = M.statics[slot]?) ∧
      ∀ s', s.Later s' → ∀ (k : Nat) (i : Instance), s.instances[k]? = some i →
        ∃ i' : Instance, s'.instances[k]? = some i' ∧ i'.cls = i.cls ∧
          ∀ slot f, m.HasField i.cls slot f → f.isReadonly = true →
            i'.fields[slot]? = i.fields[slot]? := by
  intro s hs
  have hready : (Session.mk M []).module.Ready m := LoadedModule.ready_of_load h hbytes hload
  obtain ⟨hready', hkeeps⟩ := hs.ready hready
  exact ⟨hkeeps.statics, fun s' hs' => (hs'.ready hready').2.instances⟩

/-! ## A sample -/

/-- `n += a; return n + s;` -/
def latchBody : Body :=
  let n : Expr := .member (.this {}) ⟨"n", {}⟩ {}
  .block [
    .expr (.assign .assign n (.member (.this {}) ⟨"a", {}⟩ {}) {}) {},
    .ret (some n) {}] {}

/-- `public class T { readonly bool a = true; static readonly bool s = true; bool n;
public bool M() { this.n = this.a; return this.n; } }` -/
def latchScript : Script where
  usings := []
  items := [.type {
    modifiers := ⟨some .pub, false, false, {}⟩
    name := ⟨"T", {}⟩
    members := [
      .field ⟨none, false, true, {}⟩ ⟨.keyword .bool, {}⟩
        [⟨⟨"a", {}⟩, some (.literal (.bool true) {}), {}⟩] {},
      .field ⟨none, true, true, {}⟩ ⟨.keyword .bool, {}⟩
        [⟨⟨"s", {}⟩, some (.literal (.bool true) {}), {}⟩] {},
      .field ⟨none, false, false, {}⟩ ⟨.keyword .bool, {}⟩ [⟨⟨"n", {}⟩, none, {}⟩] {},
      .method ⟨some .pub, false, false, {}⟩ ⟨.keyword .bool, {}⟩ ⟨"M", {}⟩ [] latchBody {}]
    span := {} }]
  span := {}

def latchClass : ClassSymbol where
  name := ⟨"T", []⟩
  visibility := .pub
  isStatic := false
  usings := []
  decl := (latchScript.classes.map (·.decl)).headD default
  fields := #[
    ⟨"a", .bool, .priv, false, true, 0, some (.literal (.bool true) {}), {}⟩,
    ⟨"s", .bool, .priv, true, true, 0, some (.literal (.bool true) {}), {}⟩,
    ⟨"n", .bool, .priv, false, false, 1, none, {}⟩]
  methods := #[
    ⟨"M", .method, .pub, false, [], .bool, .declared [] latchBody {}, {}⟩,
    ⟨".ctor", .constructor, .pub, false, [], .void, .implied, {}⟩,
    ⟨".cctor", .typeInitializer, .priv, true, [], .void, .implied, {}⟩]

theorem Registration.ofScript_latchScript :
    (ofScript [] [] latchScript).diagnostics = [] ∧
      (ofScript [] [] latchScript).symbols.classes = #[latchClass] := by
  simp [-Array.any_eq_true, ofScript, latchScript, latchClass, Script.classes, Item.classesOf, Item.classes, spacesOf,
    spaces, usingsOf, usings, Symbols.start, addClasses, classError?, classSymbol, addClass,
    List.range_succ, addMembers, members, member, method, paramTypes, Symbols.resolveType,
    methodFault?, field, declarator, fieldFault?, Members.start, Members.hasSignature,
    Members.addMethod, Members.addField, MethodSymbol.isInvocable, withImplied, impliedMethod,
    constructorName, initializerName, ValueType.isVoid, maxSlots]

def latchImage : Image where
  name := "m"
  checked := true
  release := true
  references := []
  constants := #[]
  imports := #[]
  classes := #[⟨"T", .pub, #[⟨"a", .bool, .priv, false, true, 0⟩, ⟨"s", .bool, .priv, true, true, 0⟩,
    ⟨"n", .bool, .priv, false, false, 1⟩], #[
    ⟨"M", .method, .pub, false, [], .bool, 0, #[7, 0, 0, 8, 0, 1, 7, 0, 1, 56]⟩,
    ⟨".ctor", .constructor, .pub, false, [], .void, 0, #[1, 8, 0, 0, 57]⟩,
    ⟨".cctor", .typeInitializer, .priv, true, [], .void, 0, #[1, 10, 0, 0, 57]⟩]⟩]

theorem Compilation.ofScript_latchScript :
    (Compilation.ofScript "m" {} [] latchScript).image = some latchImage := by
  obtain ⟨hnone, hclasses⟩ := Registration.ofScript_latchScript
  have hsymbols : (Registration.ofScript [] [] latchScript).symbols =
      { (Registration.ofScript [] [] latchScript).symbols with classes := #[latchClass] } := by
    rw [← hclasses]
  simp only [Compilation.ofScript, hnone]
  rw [hsymbols]
  decide +kernel

/-- The static field of the sample is set once it is loaded. -/
theorem LoadedModule.load_latchImage (bytes : List UInt8)
    (hbytes : latchImage.encode = .ok bytes) : ∃ M,
    load 100 bytes ⟨[]⟩ = some (.ok M) ∧ M.statics[0]? = some (.bool true) := by
  have hread : Image.decode bytes = .ok latchImage := latchImage.decode_of_encode hbytes
    (by decide +kernel)
  refine ⟨⟨⟨latchImage, #[]⟩, bytes, [], #[.bool true], .empty, []⟩, ?_, rfl⟩
  rw [load, hread]
  cbv

/-- The sample has `true` in its static field when it is loaded, and ever after. -/
theorem Compilation.readonly_kept_latch : ∃ bytes M, latchImage.encode = .ok bytes ∧
    (Compilation.ofScript "m" {} [] latchScript).image = some latchImage ∧
    LoadedModule.load 100 bytes ⟨[]⟩ = some (.ok M) ∧ M.statics[0]? = some (.bool true) ∧
    ∀ s, Session.Later ⟨M, []⟩ s → s.module.statics[0]? = some (.bool true) ∧
      ∀ s', s.Later s' → ∀ (k : Nat) (i : Instance), s.instances[k]? = some i → i.cls = 0 →
        ∃ i' : Instance, s'.instances[k]? = some i' ∧ i'.fields[0]? = i.fields[0]? := by
  obtain ⟨bytes, hbytes⟩ : ∃ bytes, latchImage.encode = .ok bytes := ⟨_, rfl⟩
  obtain ⟨M, hload, hset⟩ := LoadedModule.load_latchImage bytes hbytes
  refine ⟨bytes, M, hbytes, Compilation.ofScript_latchScript, hload, hset, fun s hs => ?_⟩
  obtain ⟨hstatics, hinstances⟩ :=
    Compilation.readonly_kept Compilation.ofScript_latchScript hbytes hload s hs
  constructor
  · exact (hstatics 0 0 ⟨"s", .bool, .priv, true, true, 0⟩
      ⟨⟨_, rfl, Array.mem_def.mpr (.tail _ (.head _))⟩, rfl, rfl⟩ rfl).trans hset
  · intro s' hs' k i hi hcls
    obtain ⟨i', hi', -, hfields⟩ := hinstances s' hs' k i hi
    rw [hcls] at hfields
    exact ⟨i', hi', hfields 0 ⟨"a", .bool, .priv, false, true, 0⟩
      ⟨⟨_, rfl, Array.mem_def.mpr (.head _)⟩, rfl, rfl⟩ rfl⟩

end ClassScript
