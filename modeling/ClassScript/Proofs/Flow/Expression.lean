import ClassScript.Proofs.Flow.Segment
import ClassScript.Proofs.Flow.Typing
import ClassScript.Proofs.Layout.Operation
import Mathlib.Data.List.Nodup
import Mathlib.Data.List.Pairwise

/-!
The code of expressions can be executed.

`Moves Γ locals is ts us` tells that the code `is` takes the types `ts` from the stack and leaves
`us`, wherever the locals in scope may be read. The code of an expression takes nothing and leaves
what the expression means, form by form.
-/

namespace ClassScript

/-- No two functions of the libraries have the same identity. -/
def DistinctFunctions (libraries : List Library) : Prop :=
  (libraries.flatMap fun l => l.classes.flatMap fun c => c.functions.map (·.identity)).Nodup

/-- No library class stands for the values of `void`. -/
def ValueKeywords (libraries : List Library) : Prop :=
  ∀ l ∈ libraries, ∀ c ∈ l.classes, c.keyword ≠ some .void

theorem eq_of_mem_flatMap {α β : Type} {g : α → List β} {as : List α} (h : (as.flatMap g).Nodup)
    {a b : α} (ha : a ∈ as) (hb : b ∈ as) {x : β} (hxa : x ∈ g a) (hxb : x ∈ g b) : a = b := by
  by_contra hab
  have : Std.Symm (Function.onFun List.Disjoint g) := ⟨fun _ _ h _ hb ha => h ha hb⟩
  exact (List.nodup_flatMap.mp h).2.forall ha hb hab hxa hxb

/-- An identity stands for one function on one type of receiver. -/
theorem DistinctFunctions.import_eq {libraries : List Library} (h : DistinctFunctions libraries)
    {f g : NativeFunction} {r q : Option ValueType} (hf : Callable libraries f r)
    (hg : Callable libraries g q) (hid : f.identity = g.identity) :
    ImportTable.importOf f r = ImportTable.importOf g q := by
  obtain ⟨l, hl, c, hc, hfc, hfr, hft⟩ := hf
  obtain ⟨l', hl', c', hc', hgc, hgq, hgt⟩ := hg
  have mem {l : Library} {c : NativeClass} {f : NativeFunction} (hc : c ∈ l.classes)
      (hf : f ∈ c.functions) :
      f.identity ∈ l.classes.flatMap fun c => c.functions.map (·.identity) :=
    List.mem_flatMap.mpr ⟨c, hc, List.mem_map_of_mem hf⟩
  obtain rfl : l = l' := eq_of_mem_flatMap h hl hl' (mem hc hfc) (hid ▸ mem hc' hgc)
  have hlibrary := (List.nodup_flatMap.mp h).1 l hl
  obtain rfl : c = c' := eq_of_mem_flatMap hlibrary hc hc' (List.mem_map_of_mem hfc)
    (hid ▸ List.mem_map_of_mem hgc)
  obtain rfl : f = g :=
    List.inj_on_of_nodup_map ((List.nodup_flatMap.mp hlibrary).1 c hc) hfc hgc hid
  obtain rfl : r = q := by
    cases r with
    | none =>
      cases q with
      | none => rfl
      | some u => simp [hfr] at hgq
    | some t =>
      cases q with
      | none => simp [hfr] at hgq
      | some u => exact (hft t rfl).symm.trans (hgt u rfl)
  rfl

namespace Flow

open Code (Instruction)
open Compile Layout
open Layout.Fragment (ops)

/-! ## Surroundings -/

structure Serves (Γ : Context) (T : Tables) (site : Site) : Prop where
  constants : T.constants = Γ.image.constants
  imports : T.imports = Γ.image.imports
  cls : site.cls = Γ.cls
  owner : site.owner = classAt site site.cls
  isStatic : site.isStatic = false → Γ.isStatic = false
  methods : ∀ c i m, (classAt site c).methods.toList[i]? = some m →
    ∃ f, Γ.image.method? c i = some f ∧ f.params = m.params ∧ f.returns = m.returns ∧
      f.isStatic = m.isStatic
  statics : ∀ c, ∀ f ∈ (classAt site c).fields, f.isStatic = true →
    Γ.image.staticTypes[f.slot]? = some f.type
  fields : ∀ f ∈ (classAt site site.cls).fields, f.isStatic = false →
    (Γ.image.fieldTypes Γ.cls)[f.slot]? = some f.type
  types : ∀ c, ∀ f ∈ (classAt site c).fields, f.type ≠ .void
  callable : ∀ imp ∈ T.imports, ∃ f r, Callable site.symbols.libraries f r ∧
    imp = ImportTable.importOf f r
  distinct : Γ.sane → DistinctFunctions site.symbols.libraries
  keywords : Γ.sane → ValueKeywords site.symbols.libraries

/-- Locals in scope have slots of their types. -/
def Slots (Γ : Context) (locals : LocalScope) : Prop :=
  ∀ name v, locals.find? name = some v → Γ.locals[v.slot]? = some v.type ∧ v.type ≠ .void

/-- Locals in scope may be read. -/
def Covers (Γ : Context) (locals : LocalScope) (s : State) : Prop :=
  s.live = true → ∀ name v, locals.find? name = some v → s.stored v.slot ∨ Γ.loose v.slot

/-- What a name means is there, and belongs to the receiver only where there is one. -/
def Proper (site : Site) (locals : LocalScope) : Meaning → Prop
  | .localVar slot type => ∃ name v, locals.find? name = some v ∧ v.slot = slot ∧ v.type = type
  | .field cls f => f ∈ (classAt site cls).fields ∧
      (f.isStatic = true ∨ cls = site.cls ∧ site.isStatic = false)
  | .this => site.isStatic = false
  | .methods (.script cls onThis) _ => onThis = true → cls = site.cls
  | .methods (.toText p) _ => p.type ≠ .void
  | _ => True

def holds : Meaning → List ValueType
  | .value p | .methods (.method _ p) _ | .methods (.toText p) _ => returned p.type
  | _ => []

variable {Γ : Context} {T : Tables} {site : Site} {locals : LocalScope} {κ : Around} {s t : State}

theorem toStr_typed {t : ValueType} (h : t ≠ .void) : Opcode.toStr.unaryType? t = some .string := by
  cases t <;> first | exact (h rfl).elim | rfl

theorem returned_value {t : ValueType} (h : t ≠ .void) : returned t = [t] := by
  cases t <;> first | exact (h rfl).elim | rfl

theorem Covers.restack (h : Covers Γ locals s) (ts : List ValueType) : Covers Γ locals (s.restack ts) := h

/-! ## Names -/

theorem mem_of_field? {c : ClassSymbol} {name : String} {f : FieldSymbol}
    (h : c.field? name = some f) : f ∈ c.fields := Array.mem_of_find?_eq_some h

def blank : CodeState := ⟨.start .empty, .empty⟩

theorem returns_of_eq {x : Compiling Meaning} {m : Meaning} (h : x = pure m) :
    Returns x blank m blank := h ▸ Returns.pure

theorem proper_name (howner : site.owner = classAt site site.cls) {name : Ident} {m : Meaning}
    (h : nameMeaning site locals name = pure m) : Proper site locals m ∧ isPushed m = false := by
  replace h := returns_of_eq h
  unfold nameMeaning at h
  split at h
  · next v hv =>
    obtain ⟨rfl, -⟩ := Returns.pure_iff.mp h
    exact ⟨⟨_, v, hv, rfl, rfl⟩, rfl⟩
  · split at h
    · next f hf =>
      split at h
      · simp at h
      · next hstatic =>
        obtain ⟨rfl, -⟩ := Returns.pure_iff.mp h
        refine ⟨⟨mem_of_field? (howner ▸ hf), ?_⟩, rfl⟩
        cases hf : f.isStatic with
        | true => exact .inl rfl
        | false => exact .inr ⟨rfl, by simpa [hf] using hstatic⟩
    · split at h
      · obtain ⟨rfl, -⟩ := Returns.pure_iff.mp h
        exact ⟨fun _ => rfl, rfl⟩
      · unfold outerMeaning at h
        repeat' split at h
        all_goals
          try simp at h
        all_goals
          obtain ⟨rfl, -⟩ := h
          exact ⟨trivial, rfl⟩

theorem proper_this {sp : Span} {m : Meaning} (h : thisMeaning site sp = pure m) :
    Proper site locals m ∧ isPushed m = false := by
  replace h := returns_of_eq h
  unfold thisMeaning at h
  split at h
  · simp at h
  · next hstatic =>
    obtain ⟨rfl, -⟩ := Returns.pure_iff.mp h
    exact ⟨by simpa [Proper] using hstatic, rfl⟩

theorem proper_member (howner : site.owner = classAt site site.cls) {object m : Meaning}
    {name : Ident} {sp : Span} (hobject : isName object = true)
    (hproper : Proper site locals object) (h : memberMeaning site object sp name = pure m) :
    Proper site locals m ∧ isPushed m = false := by
  replace h := returns_of_eq h
  cases object with
  | space n =>
    simp only [memberMeaning, spaceMember] at h
    repeat' split at h
    all_goals
      try simp at h
    all_goals
      obtain ⟨rfl, -⟩ := h
      exact ⟨trivial, rfl⟩
  | type c =>
    cases c with
    | script i =>
      simp only [memberMeaning, scriptMember] at h
      split at h
      · next f hf =>
        obtain ⟨_, _, -, h⟩ := Returns.bind h
        split at h
        · next hstatic =>
          obtain ⟨rfl, -⟩ := Returns.pure_iff.mp h
          exact ⟨⟨mem_of_field? hf, .inl hstatic⟩, rfl⟩
        · simp at h
      · split at h
        · obtain ⟨rfl, -⟩ := Returns.pure_iff.mp h
          exact ⟨fun h => absurd h Bool.false_ne_true, rfl⟩
        · simp at h
    | native c =>
      simp only [memberMeaning, libraryMember] at h
      repeat' split at h
      all_goals
        try simp at h
      all_goals
        obtain ⟨rfl, -⟩ := h
        exact ⟨trivial, rfl⟩
  | this =>
    simp only [memberMeaning, thisMember] at h
    split at h
    · next f hf =>
      split at h
      · simp at h
      · next hstatic =>
        obtain ⟨rfl, -⟩ := Returns.pure_iff.mp h
        exact ⟨⟨mem_of_field? (howner ▸ hf), .inr ⟨rfl, hproper⟩⟩, rfl⟩
    · split at h
      · obtain ⟨rfl, -⟩ := Returns.pure_iff.mp h
        exact ⟨fun _ => rfl, rfl⟩
      · simp at h
  | _ => simp [isName] at hobject

/-- A place that can be stored in is a local variable or a field. -/
theorem place_cases {m : Meaning} {place : Place} {sp : Span} (h : placeOf site m sp = pure place) :
    (∃ slot type, m = .localVar slot type ∧ place = .localVar slot type) ∨
      ∃ cls f, m = .field cls f ∧ place = .field f := by
  have h : Returns (placeOf site m sp) blank place blank := h ▸ Returns.pure
  unfold placeOf at h
  split at h
  · obtain ⟨rfl, -⟩ := Returns.pure_iff.mp h
    exact .inl ⟨_, _, rfl, rfl⟩
  · split at h
    · obtain ⟨rfl, -⟩ := Returns.pure_iff.mp h
      exact .inr ⟨_, _, rfl, rfl⟩
    · simp at h
  · simp at h

/-! ## Code that moves the stack -/

/-- Code that takes types from the stack and leaves others, wherever the locals may be read. -/
def Moves (Γ : Context) (locals : LocalScope) (is : Asm) (ts us : List ValueType) : Prop :=
  ∀ (κ : Around) (s : State) (rest : List ValueType), Covers Γ locals s →
    (Γ.sane → s.stack = ts ++ rest) → Flows Γ κ [] s (ops is) (s.restack (us ++ rest))

namespace Moves

variable {is js : Asm} {i : Instruction} {ts us vs : List ValueType} {a b c : ValueType}

theorem nil (ts : List ValueType) : Moves Γ locals [] ts ts := by
  intro κ s rest _ hs
  exact (Flows.nil s).back ⟨hs, .inl rfl, id, fun _ _ => id⟩

theorem append (h : Moves Γ locals is ts us) (h' : Moves Γ locals js us vs) :
    Moves Γ locals (is ++ js) ts vs := by
  intro κ s rest hc hs
  rw [Fragment.ops_append]
  exact (h κ s rest hc hs).trans (h' κ (s.restack (us ++ rest)) rest (hc.restack _) fun _ => rfl)

/-- Types below stay where they are. -/
theorem below (h : Moves Γ locals is ts us) (vs : List ValueType) :
    Moves Γ locals is (ts ++ vs) (us ++ vs) := by
  intro κ s rest hc hs
  rw [List.append_assoc]
  exact h κ s (vs ++ rest) hc fun hsane => (hs hsane).trans (List.append_assoc ..)

/-- One instruction whose outcome is at least what is expected. -/
theorem op (h : ∀ (s : State) (rest : List ValueType), Covers Γ locals s →
    (Γ.sane → s.stack = ts ++ rest) →
      ∃ t, Executes Γ s i (.on t) ∧ Below Γ t (s.restack (us ++ rest))) :
    Moves Γ locals [i] ts us := by
  intro κ s rest hc hs
  obtain ⟨t, ht, hbelow⟩ := h s rest hc hs
  exact (Flows.on ht).back hbelow

theorem constant {n : Nat} {v : Constant} (h : Γ.image.constants[n]? = some v) :
    Moves Γ locals [.unary .constant n] ts (v.type :: ts) :=
  op fun _ _ _ hs => ⟨_, .constant h, fun hsane => by simp [hs hsane], .inl rfl, id, fun _ _ => id⟩

theorem pushTrue : Moves Γ locals [.plain .pushTrue] ts (.bool :: ts) :=
  op fun _ _ _ hs => ⟨_, .pushTrue, fun hsane => by simp [hs hsane], .inl rfl, id, fun _ _ => id⟩

theorem pushFalse : Moves Γ locals [.plain .pushFalse] ts (.bool :: ts) :=
  op fun _ _ _ hs => ⟨_, .pushFalse, fun hsane => by simp [hs hsane], .inl rfl, id, fun _ _ => id⟩

theorem pop : Moves Γ locals [.plain .pop] (a :: ts) ts :=
  op fun _ _ _ hs => ⟨_, .pop hs, .refl _⟩

theorem dup : Moves Γ locals [.plain .dup] (a :: ts) (a :: a :: ts) :=
  op fun _ _ _ hs => ⟨_, .dup hs, .refl _⟩

theorem unary {code : Opcode} (h : code.unaryType? a = some b) :
    Moves Γ locals [.plain code] (a :: ts) (b :: ts) :=
  op fun _ _ _ hs => ⟨_, .unary h hs, .refl _⟩

theorem binary {code : Opcode} (h : code.binaryType? a b = some c) :
    Moves Γ locals [.plain code] (b :: a :: ts) (c :: ts) :=
  op fun _ _ _ hs => ⟨_, .binary h hs, .refl _⟩

theorem converted {code : Option Opcode} (h : Turns a b code) :
    Moves Γ locals (converted code) (a :: ts) (b :: ts) := by
  cases code with
  | none =>
    obtain rfl : a = b := h
    exact .nil _
  | some code => exact .unary h

/-- A known value is pushed. -/
theorem pushes (hΓ : Serves Γ T site) {v : Value} (h : Pushes T v is) :
    Moves Γ locals is ts (returned v.type ++ ts) := by
  cases h with
  | void => exact .nil ts
  | yes => exact .pushTrue
  | no => exact .pushFalse
  | @constant n v h =>
    have hv : v.value.type = v.type ∧ v.type ≠ .void := by cases v <;> exact ⟨rfl, nofun⟩
    rw [hv.1, returned_value hv.2]
    exact .constant (hΓ.constants ▸ h)

theorem getLocal (hl : Slots Γ locals) {name : String} {v : LocalVar}
    (h : locals.find? name = some v) :
    Moves Γ locals [.unary .getLocal v.slot] ts (v.type :: ts) :=
  op fun _ _ hc hs => ⟨_, .getLocal (hl name v h).1 fun hlive => hc hlive name v h,
    fun hsane => by simp [hs hsane], .inl rfl, id, fun _ _ => id⟩

theorem setLocal (hl : Slots Γ locals) {name : String} {v : LocalVar}
    (h : locals.find? name = some v) :
    Moves Γ locals [.unary .setLocal v.slot] (v.type :: ts) ts :=
  op fun _ _ _ hs => ⟨_, .setLocal (hl name v h).1 hs, fun _ => rfl, .inl rfl, id, fun _ _ => .inr⟩

/-- A field is read, of the receiver or of the module. -/
theorem loadField (hΓ : Serves Γ T site) {cls : Nat} {f : FieldSymbol}
    (h : Proper site locals (.field cls f)) :
    Moves Γ locals [.unary (loadOp f) f.slot] ts (f.type :: ts) := by
  obtain ⟨hmem, hstatic | ⟨rfl, hreceiver⟩⟩ := h
  · rw [loadOp, if_pos hstatic]
    exact op fun _ _ _ hs => ⟨_, .getStatic (hΓ.statics cls f hmem hstatic),
      fun hsane => by simp [hs hsane], .inl rfl, id, fun _ _ => id⟩
  · cases hf : f.isStatic with
    | true =>
      rw [loadOp, if_pos hf]
      exact op fun _ _ _ hs => ⟨_, .getStatic (hΓ.statics _ f hmem hf),
        fun hsane => by simp [hs hsane], .inl rfl, id, fun _ _ => id⟩
    | false =>
      rw [loadOp, if_neg (by simp [hf])]
      exact op fun _ _ _ hs => ⟨_, .getField (hΓ.fields f hmem hf) (hΓ.isStatic hreceiver),
        fun hsane => by simp [hs hsane], .inl rfl, id, fun _ _ => id⟩

theorem storeField (hΓ : Serves Γ T site) {cls : Nat} {f : FieldSymbol}
    (h : Proper site locals (.field cls f)) :
    Moves Γ locals [.unary (storeOp f) f.slot] (f.type :: ts) ts := by
  obtain ⟨hmem, hstatic | ⟨rfl, hreceiver⟩⟩ := h
  · rw [storeOp, if_pos hstatic]
    exact op fun _ _ _ hs => ⟨_, .setStatic (hΓ.statics cls f hmem hstatic) hs, .refl _⟩
  · cases hf : f.isStatic with
    | true =>
      rw [storeOp, if_pos hf]
      exact op fun _ _ _ hs => ⟨_, .setStatic (hΓ.statics _ f hmem hf) hs, .refl _⟩
    | false =>
      rw [storeOp, if_neg (by simp [hf])]
      exact op fun _ _ _ hs =>
        ⟨_, .setField (hΓ.fields f hmem hf) (hΓ.isStatic hreceiver) hs, .refl _⟩

/-- One of two pieces of code, chosen by a condition. -/
theorem choice (h : Moves Γ locals is ts us) (h' : Moves Γ locals js ts us) :
    Moves Γ locals (.unary .jumpIfFalse (is.size + 3) :: is ++ .unary .jump js.size :: js)
      (.bool :: ts) us := by
  intro κ s rest hc hs
  have hyes := h κ (s.restack (ts ++ rest)) rest (hc.restack _) fun _ => rfl
  have hno := h' κ (s.restack (ts ++ rest)) rest (hc.restack _) fun _ => rfl
  have hskip : Flows Γ κ [(3, .entry (s.restack (ts ++ rest)))] (s.restack (us ++ rest))
      (.op (.unary .jump js.size) :: ops js) (s.restack (us ++ rest)) :=
    Flows.passing .jump (fun _ => rfl) nofun hno fun t ht => .inr (by
      cases ht
      exact ⟨(Fragment.size_ops js).symm, .refl _⟩)
  have hbranch (live : Bool) : Below Γ ⟨ts ++ rest, none, s.live && live, s.stored⟩
      (s.restack (ts ++ rest)) :=
    ⟨fun _ => rfl, .inl rfl, fun hlive => (Bool.and_eq_true_iff.mp hlive).1, fun _ _ => id⟩
  have := Flows.passing (i := .unary .jumpIfFalse (is.size + 3)) (.jumpIfFalse hs) (fun _ => rfl)
    (fun t ht => by cases ht; exact hbranch _) (hyes.append hskip) fun t ht => .inl (by
      cases ht
      exact ⟨s.restack (ts ++ rest), by simp [moved, Instruction.unary], hbranch _⟩)
  simpa using this.some_marks [] (by simp)

/-- The second operand of a logical operator is skipped where the first one decides. -/
theorem shortCircuit {code : Opcode} (hcode : code = .jumpIfFalse ∨ code = .jumpIfTrue)
    (h : Moves Γ locals js ts (.bool :: ts)) :
    Moves Γ locals (.plain .dup :: .unary code (1 + js.size) :: .plain .pop :: js)
      (.bool :: ts) (.bool :: ts) := by
  have hrest : Moves Γ locals (.plain .pop :: js) (.bool :: ts) (.bool :: ts) := pop.append h
  have hjump : Moves Γ locals (.unary code (1 + js.size) :: .plain .pop :: js)
      (.bool :: .bool :: ts) (.bool :: ts) := by
    intro κ s rest hc hs
    have hrest := hrest κ (s.restack (.bool :: ts ++ rest)) rest (hc.restack _) fun _ => rfl
    have hbranch (live : Bool) : Below Γ ⟨.bool :: ts ++ rest, none, s.live && live, s.stored⟩
        (s.restack (.bool :: ts ++ rest)) :=
      ⟨fun _ => rfl, .inl rfl, fun hlive => (Bool.and_eq_true_iff.mp hlive).1, fun _ _ => id⟩
    have hsize : 1 + js.size = (ops (Instruction.plain .pop :: js)).size :=
      (Fragment.size_ops (.plain .pop :: js)).symm
    obtain rfl | rfl := hcode
    · exact (Flows.passing (.jumpIfFalse hs) (fun _ => rfl) (fun t ht => by cases ht; exact hbranch _)
        hrest fun t ht => .inr ⟨hsize, by cases ht; exact hbranch _⟩).some_marks [] (by simp)
    · exact (Flows.passing (.jumpIfTrue hs) (fun _ => rfl) (fun t ht => by cases ht; exact hbranch _)
        hrest fun t ht => .inr ⟨hsize, by cases ht; exact hbranch _⟩).some_marks [] (by simp)
  exact dup.append hjump

end Moves

/-! ## Places -/

section

variable {is js ks : Asm} {ts : List ValueType} {m : Meaning} {place : Place} {sp : Span}

theorem Proper.place_typed (hΓ : Serves Γ T site) (hl : Slots Γ locals)
    (h : Proper site locals m) (hplace : placeOf site m sp = pure place) : place.type ≠ .void := by
  obtain ⟨slot, type, rfl, rfl⟩ | ⟨cls, f, rfl, rfl⟩ := place_cases hplace
  · obtain ⟨name, v, hv, -, rfl⟩ := h
    exact (hl name v hv).2
  · exact hΓ.types cls f h.1

theorem Moves.loading (hΓ : Serves Γ T site) (hl : Slots Γ locals) (h : Proper site locals m)
    (hplace : placeOf site m sp = pure place) :
    Moves Γ locals [loading place] ts (place.type :: ts) := by
  obtain ⟨slot, type, rfl, rfl⟩ | ⟨cls, f, rfl, rfl⟩ := place_cases hplace
  · obtain ⟨name, v, hv, rfl, rfl⟩ := h
    exact .getLocal hl hv
  · exact .loadField hΓ h

theorem Moves.storing (hΓ : Serves Γ T site) (hl : Slots Γ locals) (h : Proper site locals m)
    (hplace : placeOf site m sp = pure place) :
    Moves Γ locals [storing place] (place.type :: ts) ts := by
  obtain ⟨slot, type, rfl, rfl⟩ | ⟨cls, f, rfl, rfl⟩ := place_cases hplace
  · obtain ⟨name, v, hv, rfl, rfl⟩ := h
    exact .setLocal hl hv
  · exact .storeField hΓ h

/-- What is stored in a place may be kept on the stack as well. -/
theorem Moves.keepStoring (hΓ : Serves Γ T site) (hl : Slots Γ locals) (h : Proper site locals m)
    (hplace : placeOf site m sp = pure place) (use : Use) :
    Moves Γ locals (kept (use != .discarded) ++ [Layout.storing place]) (place.type :: ts)
      (returned (storedType use place.type) ++ ts) := by
  by_cases huse : use = .discarded
  · subst huse
    exact Moves.storing hΓ hl h hplace
  · have hwanted : (use != .discarded) = true := bne_iff_ne.mpr huse
    rw [hwanted, storedType, if_neg huse, returned_value (h.place_typed hΓ hl hplace)]
    exact Moves.dup.append (.storing hΓ hl h hplace)

theorem holds_place (hplace : placeOf site m sp = pure place) : holds m = [] := by
  obtain ⟨slot, type, rfl, rfl⟩ | ⟨cls, f, rfl, rfl⟩ := place_cases hplace <;> rfl

theorem Moves.counting (hΓ : Serves Γ T site) (hl : Slots Γ locals) (h : Proper site locals m)
    (hplace : placeOf site m sp = pure place) (hn : place.type.isNumeric = true)
    (hjs : Pushes T (one place.type) js) (up front : Bool) (use : Use) :
    Moves Γ locals (counting place up front use js) ts
      (returned (storedType use place.type) ++ ts) := by
  have hload : Moves Γ locals [Layout.loading place] ts (place.type :: ts) :=
    .loading hΓ hl h hplace
  have hstep {ts : List ValueType} : Moves Γ locals (js ++ [.plain (stepOp place.type up)])
      (place.type :: ts) (place.type :: ts) := by
    have hone : Moves Γ locals js (place.type :: ts) _ := .pushes hΓ hjs
    rw [type_one hn, returned_value (h.place_typed hΓ hl hplace)] at hone
    exact hone.append (.binary (stepOp_typed up hn))
  cases front with
  | true =>
    have hkeep : Moves Γ locals (kept (use != .discarded) ++ [Layout.storing place])
        (place.type :: ts) _ := .keepStoring hΓ hl h hplace use
    have := hload.append (hstep.append hkeep)
    simpa [Layout.counting, kept] using this
  | false =>
    have hstore {ts : List ValueType} :
        Moves Γ locals [Layout.storing place] (place.type :: ts) ts := .storing hΓ hl h hplace
    by_cases huse : use = .discarded
    · subst huse
      have := hload.append (hstep.append hstore)
      simpa [Layout.counting, kept, storedType, returned, ValueType.isVoid] using this
    · have hwanted : (use != .discarded) = true := bne_iff_ne.mpr huse
      rw [storedType, if_neg huse, returned_value (h.place_typed hΓ hl hplace)]
      have := hload.append (Moves.dup.append (hstep.append hstore))
      simpa [Layout.counting, kept, hwanted] using this

/-! ## Calls -/

/-- Code that pushes a value; a known one is pushed by itself. -/
structure Supplies (Γ : Context) (T : Tables) (locals : LocalScope) (is : Asm) (p : Pushed) :
    Prop where
  moves : Moves Γ locals is [] (returned p.type)
  known : ∀ v, p.constant = some v → p.type = v.type ∧ Pushes T v is

theorem Supplies.pushes (hΓ : Serves Γ T site) {v : Value} (h : Pushes T v is) (o : Nat) :
    Supplies Γ T locals is (.known v o) where
  moves := List.append_nil (returned v.type) ▸ Moves.pushes hΓ h
  known w hw := by
    cases hw
    exact ⟨rfl, h⟩

theorem Supplies.unknown {type : ValueType} (h : Moves Γ locals is [] (returned type)) (o : Nat) :
    Supplies Γ T locals is (.unknown type o) where
  moves := h
  known := nofun

variable {p p' q q' : Pushed}

/-- A value of a type is on top. -/
theorem Supplies.typed (h : Supplies Γ T locals is p) {type : ValueType} (htype : p.type = type)
    (hvalue : type ≠ .void) : Moves Γ locals is ts (type :: ts) := by
  have := h.moves.below ts
  rwa [htype, returned_value hvalue] at this

theorem Supplies.coerces (hΓ : Serves Γ T site) (h : Supplies Γ T locals is p) {type : ValueType}
    (hc : Coerces T p is type js p') :
    Supplies Γ T locals js p' ∧ p'.type = type ∧ type ≠ .void := by
  cases hc with
  | identity hi =>
    obtain ⟨rfl, -, htype⟩ := implicit_turns hi
    exact ⟨h, rfl, htype⟩
  | widen hi hp =>
    obtain ⟨hturns, hvalue, htype⟩ := implicit_turns hi
    refine ⟨.unknown ?_ _, rfl, htype⟩
    rw [returned_value htype]
    exact (h.typed rfl hvalue).append (.converted hturns)
  | known hi hp hw hjs => exact ⟨.pushes hΓ hjs _, type_of_convert? hw, (implicit_turns hi).2.2⟩

/-- A value is converted by an instruction that fits its type. -/
theorem Supplies.turns (h : Supplies Γ T locals is p) {type : ValueType} {code : Option Opcode}
    (hcode : Turns p.type type code) (hvalue : p.type ≠ .void) :
    Moves Γ locals (is ++ Layout.converted code) ts (type :: ts) :=
  (h.typed rfl hvalue).append (.converted hcode)

/-- Arguments are pushed in the types of their parameters. -/
theorem Moves.passing {items : List (Asm × Pushed)} {params : List ValueType}
    (h : ∀ x ∈ items, Supplies Γ T locals x.1 x.2)
    (htypes : List.Forall₂ (fun a p => a.convertsTo p = true) (items.map (·.2.type)) params) :
    Moves Γ locals (passing items params) ts (params.reverse ++ ts) := by
  induction items generalizing params ts with
  | nil =>
    cases htypes
    exact .nil ts
  | cons x items ih =>
    obtain ⟨is, p⟩ := x
    cases htypes with
    | @cons _ t _ params hconverts hrest =>
      obtain ⟨hturns, hvalue, -⟩ := widening_turns hconverts
      have hfirst : Supplies Γ T locals is p := h (is, p) List.mem_cons_self
      have hothers : Moves Γ locals (passing items params) (t :: ts) _ :=
        ih (fun x hx => h x (List.mem_cons_of_mem _ hx)) hrest
      simpa [Layout.passing] using (hfirst.turns hturns hvalue).append hothers

theorem Chooses.spec {α : Type} {candidates : List α} {params : α → List ValueType}
    {items : List (Asm × Pushed)} {a : α} (h : Chooses candidates params items a) :
    a ∈ candidates ∧
      List.Forall₂ (fun a p => a.convertsTo p = true) (items.map (·.2.type)) (params a) := by
  obtain ⟨i, hi, ha⟩ := h.resolves
  obtain ⟨ps, hps, hlength, haccepts⟩ := resolve_spec hi
  rw [List.getElem?_map, ha] at hps
  cases hps
  exact ⟨List.mem_of_getElem? ha, Overload.applicable_iff.mp ⟨hlength, haccepts⟩⟩

/-- A library function is called with what it takes. -/
theorem Moves.callNative (hΓ : Serves Γ T site) {f : NativeFunction} {r : Option ValueType} {i : Nat}
    {us : List ValueType} (hi : Imports T site.symbols.libraries f r i)
    (hus : Γ.sane → us = (r.toList ++ f.params).reverse ++ ts) :
    Moves Γ locals [.unary .callNative i] us (returned f.returns ++ ts) := by
  obtain ⟨hcallable, imp, himp, hid⟩ := hi
  obtain ⟨g, q, hg, rfl⟩ := hΓ.callable imp (Array.mem_of_getElem? himp)
  have heq (hsane : Γ.sane) : ImportTable.importOf g q = ImportTable.importOf f r :=
    (hΓ.distinct hsane).import_eq hg hcallable hid
  refine .op fun s rest _ hs => ⟨s.restack (returned g.returns ++ (ts ++ rest)),
    .callNative (hΓ.imports ▸ himp) fun hsane => ?_, fun hsane => ?_, .inl rfl, id, fun _ _ => id⟩
  · rw [hs hsane, hus hsane, heq hsane, List.append_assoc]
    rfl
  · have : g.returns = f.returns := congrArg NativeImport.returns (heq hsane)
    simp [this]

theorem Calls.supplies (hΓ : Serves Γ T site) {target : Callee} {name : String}
    {items : List (Asm × Pushed)} (hproper : Proper site locals (.methods target name))
    (h : Moves Γ locals is [] (holds (.methods target name)))
    (hknown : ∀ p, target = .toText p → Supplies Γ T locals is p)
    (hitems : ∀ x ∈ items, Supplies Γ T locals x.1 x.2)
    (hcall : Calls T site is name items target js p) : Supplies Γ T locals js p := by
  cases hcall with
  | @script cls i o onThis m hm haccess hreceiver =>
    obtain ⟨hmem, htypes⟩ := Chooses.spec hm
    have hplace : (classAt site cls).methods.toList[i]? = some m := by
      simp only [ClassSymbol.methodsNamed, List.mem_filter] at hmem
      exact List.mem_zipIdx_iff_getElem?.mp hmem.1
    obtain ⟨f, hf, hparams, hreturns, hstatic⟩ := hΓ.methods cls i m hplace
    have hcallee : f.isStatic = true ∨ cls = Γ.cls ∧ Γ.isStatic = false := by
      obtain hr | ⟨hthis, hr⟩ := hreceiver
      · exact .inl (hstatic.trans hr)
      · exact .inr ⟨(hproper hthis).trans hΓ.cls, hΓ.isStatic hr⟩
    refine .unknown ((h.append (.passing hitems htypes)).append ?_) _
    refine .op fun s rest _ hs => ⟨s.restack (returned f.returns ++ rest),
      .call hf hcallee fun hsane => ?_, fun _ => ?_, .inl rfl, id, fun _ _ => id⟩
    · rw [hs hsane, hparams]
      simp [holds]
    · simp [hreturns]
  | @function c f i o hf hi =>
    have hnative : Moves Γ locals [.unary .callNative i]
        (f.params.reverse ++ holds (.methods (.function c) name)) (returned f.returns ++ []) :=
      .callNative hΓ hi fun _ => by simp [holds]
    have := (h.append (.passing hitems (Chooses.spec hf).2)).append hnative
    exact .unknown (by simpa using this) _
  | @method c p f i o hf hi =>
    have hnative : Moves Γ locals [.unary .callNative i]
        (f.params.reverse ++ holds (.methods (.method c p) name)) (returned f.returns ++ []) :=
      .callNative hΓ hi fun hsane => by
        obtain ⟨l, hl, d, hd, -, -, hkeyword⟩ := hi.callable
        have hvalue : p.type ≠ .void := fun hp =>
          hΓ.keywords hsane l hl d hd (hp ▸ hkeyword p.type rfl)
        simp [holds, returned_value hvalue]
    have := (h.append (.passing hitems (Chooses.spec hf).2)).append hnative
    exact .unknown (by simpa using this) _
  | string hnil hp => exact hknown p rfl
  | @text p o hnil hp hc =>
    have hcode : Turns p.type .string (some .toStr) := toStr_typed hproper
    exact .unknown ((hknown p rfl).turns hcode hproper) _
  | textKnown hnil hp hc hw hjs => exact .pushes hΓ hjs _

end

/-! ## Expressions -/

/-- Nothing is written for a name, and a known value is pushed by itself. -/
def Settled (T : Tables) (is : Asm) : Meaning → Prop
  | .value p | .methods (.toText p) _ =>
    ∀ v, p.constant = some v → p.type = v.type ∧ Pushes T v is
  | .methods (.method ..) _ => True
  | _ => is = []

/-- Code for an expression leaves on the stack what the expression means. -/
structure Delivers (Γ : Context) (T : Tables) (site : Site) (locals : LocalScope) (is : Asm)
    (m : Meaning) : Prop where
  proper : Proper site locals m
  moves : Moves Γ locals is [] (holds m)
  settled : Settled T is m

theorem settled_nil {m : Meaning} (h : isPushed m = false) : Settled T [] m := by
  cases m with
  | value => simp [isPushed] at h
  | methods c => cases c <;> simp_all [isPushed, Settled]
  | _ => rfl

theorem Settled.nil_of_name {is : Asm} {m : Meaning} (h : Settled T is m) (hm : isName m = true) :
    is = [] := by
  cases m <;> first | exact h | simp [isName] at hm

theorem Delivers.name {m : Meaning} (h : Proper site locals m ∧ isPushed m = false) :
    Delivers Γ T site locals [] m := by
  obtain ⟨hproper, hpushed⟩ := h
  have hm : holds m = [] := by
    cases m with
    | value => simp [isPushed] at hpushed
    | methods c => cases c <;> simp_all [isPushed, holds]
    | _ => rfl
  refine ⟨hproper, ?_, settled_nil hpushed⟩
  rw [hm]
  exact .nil []

theorem Supplies.delivers {is : Asm} {p : Pushed} (h : Supplies Γ T locals is p) :
    Delivers Γ T site locals is (.value p) := ⟨trivial, h.moves, h.known⟩

theorem Delivers.supplies {is : Asm} {p : Pushed} (h : Delivers Γ T site locals is (.value p)) :
    Supplies Γ T locals is p := ⟨h.moves, h.settled⟩

theorem Delivers.materializes (hΓ : Serves Γ T site) (hl : Slots Γ locals) {is js : Asm}
    {m : Meaning} {p : Pushed} (h : Delivers Γ T site locals is m) (hp : Materializes T m js p) :
    Supplies Γ T locals (is ++ js) p := by
  cases hp with
  | localVar =>
    obtain ⟨name, v, hv, rfl, rfl⟩ := h.proper
    refine .unknown ?_ _
    rw [returned_value (hl name v hv).2]
    exact h.moves.append (.getLocal hl hv)
  | @field cls f =>
    refine .unknown ?_ _
    rw [returned_value (hΓ.types cls f h.proper.1)]
    exact h.moves.append (.loadField hΓ h.proper)
  | constant hv =>
    have hnil : is = [] := h.settled
    subst hnil
    exact .pushes hΓ hv _
  | value =>
    rw [List.append_nil]
    exact h.supplies

theorem unaryOp_value {op : UnaryOp} {t : ValueType} {code : Option Opcode}
    (h : unaryOp? op t = some code) : t ≠ .void := by
  rintro rfl
  cases op <;> cases h

theorem branch_turns {a b type : ValueType} (h : branchType? a b = some type) :
    type ≠ .void ∧ (a ≠ .void ∧ Turns a type (Conversion.widening? a type)) ∧
      b ≠ .void ∧ Turns b type (Conversion.widening? b type) := by
  cases a <;> cases b <;> cases h <;>
    exact ⟨nofun, ⟨nofun, rfl⟩, nofun, rfl⟩

section

variable {is js : Asm} {p q : Pushed} {m : Meaning}

/-- The operands and the operator of a binary expression. -/
theorem Supplies.planned {plan : BinaryPlan} (hp : Supplies Γ T locals is p)
    (hq : Supplies Γ T locals js q) {op : BinaryOp} (hplan : op.plan? p.type q.type = some plan)
    (o : Nat) :
    Supplies Γ T locals (is ++ converted plan.left ++ (js ++ converted plan.right) ++
      [.plain plan.op]) (.unknown plan.result o) := by
  have htyped := plan_typed hplan
  have hresult : plan.result ≠ .void := fun hvoid => void_not_computed (hvoid ▸ htyped.op)
  refine .unknown ?_ _
  rw [returned_value hresult]
  exact ((hp.turns htyped.left htyped.leftValue).append
    (hq.turns htyped.right htyped.rightValue)).append (.binary htyped.op)

theorem Delivers.assigned (hΓ : Serves Γ T site) (hl : Slots Γ locals)
    (h : Delivers Γ T site locals is m) {place : Place} {sp : Span}
    (hplace : placeOf site m sp = pure place) (hv : Supplies Γ T locals js p) (hp : p.type = place.type)
    (use : Use) (o : Nat) :
    Supplies Γ T locals (is ++ js ++ kept (use != .discarded) ++ [storing place])
      (.unknown (storedType use place.type) o) := by
  have hmoves := h.moves
  rw [holds_place hplace] at hmoves
  have := (hmoves.append (hv.typed hp (h.proper.place_typed hΓ hl hplace))).append
    (.keepStoring hΓ hl h.proper hplace use)
  exact .unknown (by simpa using this) _

theorem Delivers.compounded (hΓ : Serves Γ T site) (hl : Slots Γ locals)
    (h : Delivers Γ T site locals is m) {place : Place} {sp : Span}
    (hplace : placeOf site m sp = pure place) (hv : Supplies Γ T locals js p) {op : BinaryOp}
    {plan : BinaryPlan} (hplan : op.plan? place.type p.type = some plan)
    (hres : plan.result = place.type) (use : Use) (o : Nat) :
    Supplies Γ T locals (is ++ loading place :: converted plan.left ++ (js ++ converted plan.right) ++
      .plain plan.op :: kept (use != .discarded) ++ [storing place])
      (.unknown (storedType use place.type) o) := by
  have hmoves := h.moves
  rw [holds_place hplace] at hmoves
  have htyped := plan_typed hplan
  have hop := htyped.op
  rw [hres] at hop
  have := ((((hmoves.append (.loading hΓ hl h.proper hplace)).append
    (.converted htyped.left)).append (hv.turns htyped.right htyped.rightValue)).append
    (.binary hop)).append (.keepStoring hΓ hl h.proper hplace use)
  exact .unknown (by simpa using this) _

theorem Delivers.counted (hΓ : Serves Γ T site) (hl : Slots Γ locals)
    (h : Delivers Γ T site locals is m) {place : Place} {sp : Span}
    (hplace : placeOf site m sp = pure place) (hn : place.type.isNumeric = true)
    (hjs : Pushes T (one place.type) js) (up front : Bool) (use : Use) (o : Nat) :
    Supplies Γ T locals (is ++ counting place up front use js)
      (.unknown (storedType use place.type) o) := by
  have hmoves := h.moves
  rw [holds_place hplace] at hmoves
  have := hmoves.append (.counting hΓ hl h.proper hplace hn hjs up front use)
  exact .unknown (by simpa using this) _

end

end Flow

namespace Layout

open Compile Flow

variable {Γ : Context} {T : Tables} {site : Site} {locals : LocalScope}

mutual

/-- What the code of an expression does, form by form. -/
theorem Means.delivers (hΓ : Serves Γ T site) (hl : Slots Γ locals) {use : Use} {e : Expr} {is : Asm}
    {m : Meaning} : Means T site locals use e is m → Delivers Γ T site locals is m
  | .literal h => (Supplies.pushes hΓ h _).delivers
  | .ident h => .name (proper_name hΓ.owner h)
  | .this h => .name (proper_this h)
  | .member h hm hm' => by
    have hobject := h.delivers hΓ hl
    obtain rfl := hobject.settled.nil_of_name hm
    exact .name (proper_member hΓ.owner hm hobject.proper hm')
  | .length h hp _ _ => by
    refine (Supplies.unknown ?_ _).delivers
    exact ((h.supplies hΓ hl).typed hp nofun).append (.unary rfl)
  | .lengthKnown _ _ _ _ _ hjs => (Supplies.pushes hΓ hjs _).delivers
  | .text h hp _ => ⟨hp, (h.supplies hΓ hl).moves, (h.supplies hΓ hl).known⟩
  | .methods h _ _ _ => ⟨trivial, (h.supplies hΓ hl).moves, trivial⟩
  | .bare h => h.delivers hΓ hl
  | .paren _ h => (h.supplies hΓ hl).delivers
  | .logical hop hleft hright hlt hrt _ => by
    have hfirst : Moves Γ locals _ [] [.bool] := (hleft.supplies hΓ hl).typed hlt nofun
    have hsecond : Moves Γ locals _ [] [.bool] := (hright.supplies hΓ hl).typed hrt nofun
    refine (Supplies.unknown (hfirst.append (.shortCircuit ?_ hsecond)) _).delivers
    split
    · exact .inl rfl
    · exact .inr rfl
  | .logicalKnown _ _ _ _ _ _ _ hks => (Supplies.pushes hΓ hks _).delivers
  | .binary _ hleft hright hplan _ _ _ =>
    ((hleft.supplies hΓ hl).planned (hright.supplies hΓ hl) hplan _).delivers
  | .binaryKnown _ _ _ _ _ _ _ _ _ hks => (Supplies.pushes hΓ hks _).delivers
  | .same h _ => (h.supplies hΓ hl).delivers
  | .unary (p := p) h hop _ => by
    have hcode := unaryOp_typed hop
    have hvalue : p.type ≠ .void := fun hvoid => unaryOp_value hop hvoid
    refine (Supplies.unknown ?_ _).delivers
    rw [returned_value hvalue]
    exact ((h.supplies hΓ hl).typed rfl hvalue).append (.unary hcode)
  | .unaryKnown _ _ _ _ hjs => (Supplies.pushes hΓ hjs _).delivers
  | .before _ h hplace hn hjs =>
    ((h.delivers hΓ hl).counted hΓ hl hplace hn hjs _ true _ _).delivers
  | .behind h hplace hn hjs =>
    ((h.delivers hΓ hl).counted hΓ hl hplace hn hjs _ false _ _).delivers
  | .assign _ h hplace hv hc => by
    obtain ⟨hvalue, htype, -⟩ := (hv.supplies hΓ hl).coerces hΓ hc
    exact ((h.delivers hΓ hl).assigned hΓ hl hplace hvalue htype _ _).delivers
  | .compound _ h hplace hv hplan hres _ =>
    ((h.delivers hΓ hl).compounded hΓ hl hplace (hv.supplies hΓ hl) hplan hres _ _).delivers
  | .conditional h hc hyes hno htype _ => by
    obtain ⟨hcond, hbool, -⟩ := (h.supplies hΓ hl).coerces hΓ hc
    obtain ⟨hvalue, ⟨ha, hat⟩, hb, hbt⟩ := branch_turns htype
    refine (Supplies.unknown ?_ _).delivers
    rw [returned_value hvalue]
    have htest : Moves Γ locals _ [] [.bool] := hcond.typed hbool nofun
    have := htest.append
      (((hyes.supplies hΓ hl).turns hat ha).choice ((hno.supplies hΓ hl).turns hbt hb))
    simpa using this
  | .conditionalKnown _ _ _ _ _ _ _ _ _ hls => (Supplies.pushes hΓ hls _).delivers
  | .call h hargs hcall => by
    have hcallee := h.delivers hΓ hl
    refine (Calls.supplies hΓ hcallee.proper hcallee.moves (fun p hp => ?_)
      (hargs.supplies hΓ hl) hcall).delivers
    subst hp
    exact ⟨hcallee.moves, hcallee.settled⟩

theorem Values.supplies (hΓ : Serves Γ T site) (hl : Slots Γ locals) {e : Expr} {is : Asm}
    {p : Pushed} : Values T site locals e is p → Supplies Γ T locals is p
  | .intro h hp => (h.delivers hΓ hl).materializes hΓ hl hp

theorem Passes.supplies (hΓ : Serves Γ T site) (hl : Slots Γ locals) {es : List Expr}
    {items : List (Asm × Pushed)} :
    Passes T site locals es items → ∀ x ∈ items, Supplies Γ T locals x.1 x.2
  | .nil => nofun
  | .cons h hs => by
    intro x hx
    obtain rfl | hx := List.mem_cons.mp hx
    · exact h.supplies hΓ hl
    · exact hs.supplies hΓ hl x hx

end

end Layout
end ClassScript
