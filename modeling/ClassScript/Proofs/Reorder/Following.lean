import ClassScript.Compile.Call
import ClassScript.Proofs.Flow.Typing
import ClassScript.Proofs.Release.Expression
import ClassScript.Proofs.Reorder.Registration

/-!
Compiling in two orders.

Among symbols that are akin, names mean the same fields and classes, and the overloads of a name are the
same in some order, which overload resolution does not depend on.

What a step of the compiler writes depends on the steps before it only through the places that
constants and functions have in the tables, and through whether the tables are full.
`Follows Q x y` tells that wherever `x` succeeds, `y` succeeds with an answer that `Q` relates to that
of `x`: from a state with as much code, as long as its tables stay within what all of the first run
has put into its own, and leaving such a state.
-/

namespace ClassScript

/-! ## Members -/

section

variable {c c' : ClassSymbol} (h : c.Akin c')

include h

theorem ClassSymbol.Akin.field? (name : String) :
    Option.Rel (fun f f' => f.placeless = f'.placeless) (c.field? name) (c'.field? name) := by
  have hfind (c : ClassSymbol) : (c.field? name).map FieldSymbol.placeless =
      (c.fields.toList.map FieldSymbol.placeless).find? (·.name == name) := by
    rw [List.find?_map, ClassSymbol.field?, ← Array.find?_toList]
    rfl
  have heq : (c.field? name).map FieldSymbol.placeless = (c'.field? name).map FieldSymbol.placeless := by
    rw [hfind c, hfind c', h.fields]
  generalize c.field? name = o at heq ⊢
  generalize c'.field? name = o' at heq ⊢
  obtain ⟨rfl, rfl⟩ | ⟨f, f', rfl, rfl, hf⟩ := map_placeless_cases heq
  · exact .none
  · exact .some hf

theorem ClassSymbol.Akin.hasMethod : c.hasMethod = c'.hasMethod := by
  funext name
  have hany (c : ClassSymbol) : c.hasMethod name =
      (c.methods.toList.map MethodSymbol.placeless).any fun m => m.isInvocable && m.name == name := by
    rw [List.any_map, ClassSymbol.hasMethod, ← Array.any_toList]
    rfl
  rw [hany c, hany c', h.methods.any_eq]

/-- The overloads of a name, without their places. -/
theorem ClassSymbol.Akin.methodsNamed (name : String) :
    ((c.methodsNamed name).map fun m => m.1.placeless).Perm
      ((c'.methodsNamed name).map fun m => m.1.placeless) := by
  have hnamed (c : ClassSymbol) : (c.methodsNamed name).map (fun m => m.1.placeless) =
      (c.methods.toList.map MethodSymbol.placeless).filter fun m => m.isInvocable && m.name == name := by
    have hplaces : (c.methods.toList.zipIdx.map fun m => m.1.placeless) =
        c.methods.toList.map MethodSymbol.placeless := by
      conv_rhs => rw [← List.zipIdx_map_fst 0 c.methods.toList, List.map_map]
      rfl
    rw [← hplaces, List.filter_map]
    rfl
  rw [hnamed c, hnamed c']
  exact h.methods.filter _

end

theorem ClassSymbol.mem_methodsNamed {c : ClassSymbol} {name : String} {m : MethodSymbol} {i : Nat}
    (h : (m, i) ∈ c.methodsNamed name) : c.methods[i]? = some m := by
  have hmem := (List.mem_filter.mp h).1
  rw [List.mem_zipIdx_iff_getElem?, Array.getElem?_toList] at hmem
  exact hmem

/-! ## Methods that are compiled -/

/-- The same method of classes that are akin, of which none has so many methods that calls cannot
name them. What messages call the method does not matter. -/
structure Site.Akin (site site' : Site) : Prop where
  symbols : site.symbols.Akin site'.symbols
  release : site.release = site'.release
  cls : site.cls = site'.cls
  owner : site.owner.Akin site'.owner
  kind : site.kind = site'.kind
  isStatic : site.isStatic = site'.isStatic
  returns : site.returns = site'.returns
  few : ∀ i, (Compile.classAt site' i).methods.size ≤ Emitter.maxOperand + 1

theorem Site.Akin.classAt {site site' : Site} (h : site.Akin site') (i : Nat) :
    (Compile.classAt site i).Akin (Compile.classAt site' i) := h.symbols.getD i

open Compile

/-! ## Code of the same size -/

/-- As much code, with the same open jumps, that fits if the other one does. -/
structure Emitter.Level (e e' : Emitter) : Prop where
  size : e.code.size = e'.code.size
  loops : e.loops = e'.loops
  oversized : e.oversized = false → e'.oversized = false

/-- Edits that leave tables alone and code that is level on one level. -/
structure Emitter.Evenly (f g : Emitter → Emitter) : Prop where
  pool : ∀ e, (f e).pool = e.pool
  pool' : ∀ e, (g e).pool = e.pool
  oversized : ∀ e, (f e).oversized = false → e.oversized = false
  level : ∀ e e' : Emitter, e.Level e' → (f e).Level (g e')

namespace Emitter.Evenly

variable {f g f' g' : Emitter → Emitter}

theorem comp (h : Evenly f g) (h' : Evenly f' g') : Evenly (fun e => f' (f e)) fun e => g' (g e) where
  pool e := (h'.pool _).trans (h.pool e)
  pool' e := (h'.pool' _).trans (h.pool' e)
  oversized e he := h.oversized e (h'.oversized _ he)
  level e e' he := h'.level _ _ (h.level e e' he)

theorem bytes {bs bs' : Array UInt8} (h : bs.size = bs'.size) :
    Evenly (·.bytes bs) (·.bytes bs') where
  pool _ := rfl
  pool' _ := rfl
  oversized _ he := he
  level e e' he := ⟨by simp [Emitter.bytes, he.size, h], he.loops, he.oversized⟩

theorem byte (b : UInt8) : Evenly (·.byte b) (·.byte b) where
  pool _ := rfl
  pool' _ := rfl
  oversized _ he := he
  level e e' he := ⟨by simp [Emitter.byte, he.size], he.loops, he.oversized⟩

theorem emit (op : Opcode) : Evenly (·.emit op) (·.emit op) := byte op.byte

theorem operand {n n' : Nat} (h : n ≤ maxOperand → n' ≤ maxOperand) :
    Evenly (·.operand n) (·.operand n') where
  pool _ := rfl
  pool' _ := rfl
  oversized e he := by
    simp only [Emitter.operand, Bool.or_eq_false_iff] at he
    exact he.1
  level e e' he := by
    refine ⟨by simp [Emitter.operand, he.size], he.loops, fun hbig => ?_⟩
    simp only [Emitter.operand, Bool.or_eq_false_iff, decide_eq_false_iff_not, Nat.not_lt] at hbig ⊢
    exact ⟨he.oversized hbig.1, h hbig.2⟩

theorem emitWith (op : Opcode) {n n' : Nat} (h : n ≤ maxOperand → n' ≤ maxOperand) :
    Evenly (·.emitWith op n) (·.emitWith op n') := (emit op).comp (operand h)

theorem emitCall (cls : Nat) {i j : Nat} (h : i ≤ maxOperand → j ≤ maxOperand) :
    Evenly (·.emitCall cls i) (·.emitCall cls j) :=
  ((emit .call).comp (operand id)).comp (operand h)

theorem truncate (o : Nat) : Evenly (·.truncate o) (·.truncate o) where
  pool _ := rfl
  pool' _ := rfl
  oversized _ he := he
  level e e' he := ⟨by simp [Emitter.truncate, he.size], by simp [Emitter.truncate, he.loops], he.oversized⟩

theorem insert (o : Nat) (op : Opcode) : Evenly (·.insert o op) (·.insert o op) where
  pool _ := rfl
  pool' _ := rfl
  oversized _ he := he
  level e e' he := ⟨by simp [Emitter.insert, he.size], by simp [Emitter.insert, he.loops], he.oversized⟩

theorem overwrite (o n : Nat) : Evenly (·.overwrite o n) (·.overwrite o n) where
  pool _ := rfl
  pool' _ := rfl
  oversized e he := by
    simp only [Emitter.overwrite, Bool.or_eq_false_iff] at he
    exact he.1
  level e e' he := by
    refine ⟨by simp [Emitter.overwrite, he.size], he.loops, fun hbig => ?_⟩
    simp only [Emitter.overwrite, Bool.or_eq_false_iff] at hbig ⊢
    exact ⟨he.oversized hbig.1, hbig.2⟩

/-- An edit that looks at how much code there is. -/
theorem atOffset {f g : Nat → Emitter → Emitter} (h : ∀ o, Evenly (f o) (g o)) :
    Evenly (fun e => f e.offset e) fun e => g e.offset e where
  pool e := (h _).pool e
  pool' e := (h _).pool' e
  oversized e he := (h _).oversized e he
  level e e' he := by
    have hoffset : e.offset = e'.offset := he.size
    rw [hoffset]
    exact (h _).level e e' he

theorem land (label : Nat) : Evenly (·.land label) (·.land label) :=
  atOffset (f := fun o e => e.overwrite label (o - label - 2)) fun _ => overwrite _ _

theorem emitJump (op : Opcode) : Evenly (fun e => (e.emitJump op).2) fun e => (e.emitJump op).2 :=
  ((emit op).comp (byte 0xff)).comp (byte 0xff)

theorem emitLoop (target : Nat) : Evenly (·.emitLoop target) (·.emitLoop target) :=
  (emit .loop).comp (atOffset (f := fun o e => e.operand (o + 2 - target)) fun _ => operand id)

theorem cut (o : Nat) : Evenly (fun e => (e.cut o).2) fun e => (e.cut o).2 where
  pool _ := rfl
  pool' _ := rfl
  oversized _ he := he
  level e e' he := ⟨by simp [Emitter.cut, he.size], he.loops, he.oversized⟩

theorem same : Evenly (fun e => e) fun e => e := ⟨fun _ => rfl, fun _ => rfl, fun _ he => he, fun _ _ he => he⟩

theorem landAll (labels : List Nat) : Evenly (labels.foldl Emitter.land) (labels.foldl Emitter.land) := by
  induction labels with
  | nil => exact same
  | cons label labels ih => exact (land label).comp ih

/-- An edit that looks at the loops around the code. -/
theorem atLoops {f g : List Loop → Emitter → Emitter} (h : ∀ ls, Evenly (f ls) (g ls)) :
    Evenly (fun e => f e.loops e) fun e => g e.loops e where
  pool e := (h _).pool e
  pool' e := (h _).pool' e
  oversized e he := (h _).oversized e he
  level e e' he := by
    rw [he.loops]
    exact (h _).level e e' he

/-- An edit of the loops. -/
theorem setLoops (ls : List Loop) :
    Evenly (fun e => ⟨e.code, e.pool, ls, e.oversized⟩) fun e => ⟨e.code, e.pool, ls, e.oversized⟩ where
  pool _ := rfl
  pool' _ := rfl
  oversized _ he := he
  level _ _ he := ⟨he.size, rfl, he.oversized⟩

/-- An edit that does different things in different loops. -/
theorem byLoops {f : List Loop → Emitter → Emitter} {g : Emitter → Emitter}
    (hg : ∀ e, g e = f e.loops e) (h : ∀ ls, Evenly (f ls) (f ls)) : Evenly g g :=
  funext hg ▸ atLoops h

theorem inLoop (f : Loop → Loop) : Evenly (·.inLoop f) (·.inLoop f) :=
  byLoops (f := fun ls e => ⟨e.code, e.pool, ls.modifyHead f, e.oversized⟩)
    (fun e => by obtain ⟨_, _, _ | _, _⟩ := e <;> rfl) fun _ => setLoops _

theorem enterLoop (target : Option Nat) : Evenly (·.enterLoop target) (·.enterLoop target) :=
  atLoops (f := fun ls e => ⟨e.code, e.pool, Loop.start target :: ls, e.oversized⟩) fun _ => setLoops _

theorem exitLoop : Evenly (fun e => e.exitLoop.2) fun e => e.exitLoop.2 :=
  byLoops (f := fun ls e => ls.head?.elim [] (·.breaks) |>.foldl Emitter.land
      ⟨e.code, e.pool, ls.tail, e.oversized⟩)
    (fun e => by obtain ⟨_, _, _ | _, _⟩ := e <;> rfl) fun _ => (setLoops _).comp (landAll _)

theorem landContinues : Evenly (·.landContinues) (·.landContinues) :=
  byLoops (f := fun ls e => ls.head?.elim [] (·.continues) |>.foldl Emitter.land
      ⟨e.code, e.pool, ls.modifyHead fun l => { l with continues := [] }, e.oversized⟩)
    (fun e => by obtain ⟨_, _, _ | _, _⟩ := e <;> rfl) fun _ => (setLoops _).comp (landAll _)

/-- A jump whose label is kept in the innermost loop. -/
theorem openLabel (op : Opcode) (f : Nat → Loop → Loop) :
    Evenly (fun e => (e.emitJump op).2.inLoop (f (e.emitJump op).1))
      fun e => (e.emitJump op).2.inLoop (f (e.emitJump op).1) := by
  have hlabel (e : Emitter) : (e.emitJump op).1 = e.offset + 1 := by
    simp [Emitter.emitJump, Emitter.emit, Emitter.byte, Emitter.offset]
  simp only [hlabel]
  exact atOffset (f := fun o e => (e.emitJump op).2.inLoop (f (o + 1))) fun _ =>
    (emitJump op).comp (inLoop _)

theorem emitBreak (reachable : Bool) :
    Evenly (fun e => (e.emitBreak reachable).2) fun e => (e.emitBreak reachable).2 := by
  refine byLoops (f := fun ls e => if ls.isEmpty then e else (e.emitJump .jump).2.inLoop fun l =>
    { l with breaks := l.breaks ++ [(e.emitJump .jump).1], hasBreak := l.hasBreak || reachable })
    (fun e => ?_) fun ls => ?_
  · unfold Emitter.emitBreak
    split <;> rfl
  · cases ls with
    | nil => exact same
    | cons => exact openLabel .jump fun label l =>
      { l with breaks := l.breaks ++ [label], hasBreak := l.hasBreak || reachable }

theorem emitContinue (reachable : Bool) :
    Evenly (fun e => (e.emitContinue reachable).2) fun e => (e.emitContinue reachable).2 := by
  let marked (e : Emitter) : Emitter :=
    e.inLoop fun l => { l with hasContinue := l.hasContinue || reachable }
  refine byLoops (f := fun ls e => ls.head?.elim e fun l =>
    l.target.elim (((marked e).emitJump .jump).2.inLoop fun l =>
      { l with continues := l.continues ++ [((marked e).emitJump .jump).1] }) (marked e).emitLoop)
    (fun e => ?_) fun ls => ?_
  · obtain ⟨code, pool, _ | ⟨⟨_ | target, _, _, _, _⟩, ls⟩, big⟩ := e <;> rfl
  · cases ls with
    | nil => exact same
    | cons l =>
      obtain ⟨_ | target, _, _, _, _⟩ := l
      · exact (inLoop _).comp (openLabel .jump fun label l =>
          { l with continues := l.continues ++ [label] })
      · exact (inLoop _).comp (emitLoop target)

end Emitter.Evenly

/-! ## Tables -/

/-- Tables small enough for every place to be an operand. -/
structure Tables.Small (T : Tables) : Prop where
  constants : T.constants.size ≤ Emitter.maxOperand + 1
  imports : T.imports.size ≤ Emitter.maxOperand + 1

/-- Tables whose entries are among those of a module. -/
structure Inside (T : Tables) (pool : Pool) (imports : ImportTable) : Prop where
  constants : ∀ c ∈ pool.entries.toList, c ∈ T.constants.toList
  functions : ∀ imp ∈ imports.imports.toList, ∃ imp' ∈ T.imports.toList, imp'.identity = imp.identity

variable {T : Tables} {pool : Pool} {imports : ImportTable}

theorem Inside.addConstant (h : Inside T pool imports) {c : Constant} (hc : c ∈ T.constants.toList) :
    Inside T (pool.add c).2 imports :=
  ⟨fun d hd => (Pool.mem_add hd).elim (h.constants d) fun heq => heq ▸ hc, h.functions⟩

/-- The place of a constant of the module is an operand. -/
theorem OneEach.place_le (hT : T.Small) (h : OneEach pool imports) (hin : Inside T pool imports)
    {c : Constant} (hc : c ∈ T.constants.toList) : (pool.add c).1 ≤ Emitter.maxOperand := by
  have hadd := (Pool.add_spec h.sound c).2.1
  have hle := length_le_of_subset (h.constants.add c).nodup (hin.addConstant hc).constants
  have hlt := (Array.getElem?_eq_some_iff.mp hadd).1
  have := hT.constants
  simp only [Array.length_toList] at hle
  omega

/-- A function of the module has a place, which is an operand. -/
theorem OneEach.addFunction (hT : T.Small) (h : OneEach pool imports) (hin : Inside T pool imports)
    {f : NativeFunction} (hf : ∃ imp ∈ T.imports.toList, imp.identity = f.identity)
    (r : Option ValueType) : ∃ j imports', imports.add f r = (some j, imports') ∧
      j ≤ Emitter.maxOperand ∧ OneEach pool imports' ∧ Inside T pool imports' := by
  have hids := h.functions.nodup
  have hsubset : imports.imports.toList.map (·.identity) ⊆ T.imports.toList.map (·.identity) := by
    intro id hid
    obtain ⟨a, ha, rfl⟩ := List.mem_map.mp hid
    obtain ⟨b, hb, hab⟩ := hin.functions a ha
    exact List.mem_map.mpr ⟨b, hb, hab⟩
  have hsmall := hT.imports
  have hgrown : Inside T pool (imports.add f r).2 := by
    refine ⟨hin.constants, fun imp himp => ?_⟩
    obtain hold | rfl := imports.mem_add himp
    · exact hin.functions imp hold
    · exact hf
  have hone := h.addImport f r
  obtain ⟨i, hi, hadd⟩ | ⟨hnew, hfull, hadd⟩ | ⟨hnew, hroom, hadd⟩ := imports.add_cases f r
  · rw [hadd] at hone hgrown
    obtain ⟨imp, himp, -⟩ := h.places _ _ hi
    have hlt := (Array.getElem?_eq_some_iff.mp himp).1
    have hle := length_le_of_subset hids hsubset
    simp only [List.length_map, Array.length_toList] at hle
    exact ⟨i, _, hadd, by omega, hone, hgrown⟩
  · -- the identities of a full table and a new one would be more than the module has
    have hle := length_le_of_subset (List.nodup_cons.mpr ⟨h.functions.not_mem hnew, hids⟩)
      (List.cons_subset.mpr ⟨List.mem_map.mpr hf, hsubset⟩)
    simp only [List.length_cons, List.length_map, Array.length_toList] at hle
    have hmax : ImportTable.maxImports = Emitter.maxOperand + 1 := rfl
    omega
  · rw [hadd] at hone hgrown
    exact ⟨_, _, hadd, Nat.le_of_lt_succ hroom, hone, hgrown⟩

/-! ## Runs -/

/-- A state with settled tables, whose places are operands as long as the code fits. -/
structure CodeState.Settled (s : CodeState) : Prop where
  tables : OneEach s.emitter.pool s.imports
  constants : s.emitter.oversized = false → s.emitter.pool.entries.size ≤ Emitter.maxOperand + 1
  imports : s.imports.imports.size ≤ Emitter.maxOperand + 1

/-- A state with as much code as `s`, whose tables are settled inside those of a module. -/
structure CodeState.Trails (T : Tables) (t s : CodeState) : Prop where
  level : s.emitter.Level t.emitter
  tables : OneEach t.emitter.pool t.imports
  inside : Inside T t.emitter.pool t.imports

/-- Where `x` succeeds, `y` does, from and to states that trail. -/
def Follows {α : Type} (Q : α → α → Prop) (x y : Compiling α) : Prop :=
  ∀ s a s', s.Settled → Returns x s a s' → s'.Settled ∧ s.Grew s' ∧ (∃ b, Q a b) ∧
    ∀ (T : Tables) (t : CodeState), T.Small → s'.Within T → t.Trails T s →
      ∃ b t', Returns y t b t' ∧ Q a b ∧ t'.Trails T s'

theorem Emitter.Level.refl (e : Emitter) : e.Level e := ⟨rfl, rfl, id⟩

theorem Returns.importFunction_iff {f : NativeFunction} {r : Option ValueType} {sp : Span}
    {s t : CodeState} {i : Nat} : Returns (Compile.importFunction f r sp) s i t ↔
      (s.imports.add f r).1 = some i ∧ t = ⟨s.emitter, (s.imports.add f r).2⟩ := by
  unfold Compile.importFunction
  rw [Returns.bind_iff]
  constructor
  · rintro ⟨added, u, hadd, h⟩
    have hadd : added = (s.imports.add f r).1 ∧ u = ⟨s.emitter, (s.imports.add f r).2⟩ := by
      cases hadd
      exact ⟨rfl, rfl⟩
    obtain ⟨rfl, rfl⟩ := hadd
    split at h
    · next j hj =>
      obtain ⟨rfl, rfl⟩ := Returns.pure_iff.mp h
      exact ⟨hj, rfl⟩
    · exact (Returns.fail_iff.mp h).elim
  · rintro ⟨hi, rfl⟩
    refine ⟨(s.imports.add f r).1, ⟨s.emitter, (s.imports.add f r).2⟩, rfl, ?_⟩
    rw [hi]
    exact Returns.pure

namespace Follows

variable {α β : Type} {Q : α → α → Prop} {R : β → β → Prop} {x y : Compiling α} {sp sp' : Span}

theorem pure {a b : α} (h : Q a b) : Follows Q (Pure.pure a) (Pure.pure b) := by
  intro s _ s' hs hx
  obtain ⟨rfl, rfl⟩ := Returns.pure_iff.mp hx
  exact ⟨hs, .refl s, ⟨b, h⟩, fun _ t _ _ ht => ⟨b, t, Returns.pure, h, ht⟩⟩

/-- Nothing has to follow a failure. -/
theorem fail (f : SemanticFault) (sp : Span) (y : Compiling α) : Follows Q (Compile.fail f sp) y :=
  fun _ _ _ _ hx => (Returns.fail_iff.mp hx).elim

theorem throw (e : SemanticError) (y : Compiling α) : Follows Q (throw e) y :=
  fun _ _ _ _ hx => (Returns.throw_iff.mp hx).elim

theorem bind {f g : α → Compiling β} (h : Follows Q x y)
    (hf : ∀ a b, Q a b → Follows R (f a) (g b)) : Follows R (x >>= f) (y >>= g) := by
  intro s b s' hs hx
  obtain ⟨a, u, hx, hfa⟩ := Returns.bind hx
  obtain ⟨hu, hgrew, ⟨a', ha⟩, hy⟩ := h s a u hs hx
  obtain ⟨hs', hgrew', hb, -⟩ := hf a a' ha u b s' hu hfa
  refine ⟨hs', hgrew.trans hgrew', hb, fun T t hT hw ht => ?_⟩
  obtain ⟨a', t', hy, ha, ht'⟩ := hy T t hT (hgrew'.within hw) ht
  obtain ⟨b', t'', hga, hb, ht''⟩ := (hf a a' ha u b s' hu hfa).2.2.2 T t' hT hw ht'
  exact ⟨b', t'', hy.andThen hga, hb, ht''⟩

theorem discard (h : Follows Q x y) : Follows Eq (Functor.discard x) (Functor.discard y) :=
  bind h fun _ _ _ => pure rfl

/-- A step that is taken or not. -/
theorem when {c : Bool} {x y : Compiling Unit} {f g : Unit → Compiling β} (h : Follows Eq x y)
    (hf : Follows R (f ()) (g ())) :
    Follows R (if c = true then x >>= f else f ()) (if c = true then y >>= g else g ()) := by
  split
  · exact bind h fun _ _ _ => hf
  · exact hf

/-! ## Writing code -/

/-- A step that looks at the code only and edits it on one level. -/
theorem of_evenly {p q : Emitter → α} {f g : Emitter → Emitter}
    (hx : ∀ s a s', Returns x s a s' ↔ a = p s.emitter ∧ s' = ⟨f s.emitter, s.imports⟩)
    (hy : ∀ s a s', Returns y s a s' ↔ a = q s.emitter ∧ s' = ⟨g s.emitter, s.imports⟩)
    (h : Emitter.Evenly f g) (hQ : ∀ e e' : Emitter, e.Level e' → Q (p e) (q e')) : Follows Q x y := by
  intro s a s' hs hr
  obtain ⟨rfl, rfl⟩ := (hx _ _ _).mp hr
  have hpool := h.pool s.emitter
  refine ⟨⟨?_, fun hbig => ?_, hs.imports⟩, ⟨?_, List.prefix_rfl⟩, ⟨_, hQ _ _ (.refl _)⟩,
    fun T t _ _ ht => ⟨_, _, (hy _ _ _).mpr ⟨rfl, rfl⟩, hQ _ _ ht.level, h.level _ _ ht.level, ?_, ?_⟩⟩
  · exact hpool ▸ hs.tables
  · exact hpool ▸ hs.constants (h.oversized _ hbig)
  · simp [hpool]
  · exact (h.pool' t.emitter) ▸ ht.tables
  · exact (h.pool' t.emitter) ▸ ht.inside

theorem edit {f g : Emitter → Emitter} (h : Emitter.Evenly f g) :
    Follows Eq (Compile.edit f) (Compile.edit g) :=
  of_evenly (p := fun _ => ()) (q := fun _ => ()) (fun _ _ _ => by simp) (fun _ _ _ => by simp) h
    fun _ _ _ => rfl

theorem emit (op : Opcode) : Follows Eq (Compile.emit op) (Compile.emit op) := edit (.emit op)

theorem emitWith (op : Opcode) {n n' : Nat} (h : n ≤ Emitter.maxOperand → n' ≤ Emitter.maxOperand) :
    Follows Eq (Compile.emitWith op n) (Compile.emitWith op n') := edit (.emitWith op h)

theorem land (label : Nat) : Follows Eq (Compile.land label) (Compile.land label) := edit (.land label)

theorem offset : Follows Eq Compile.offset Compile.offset :=
  of_evenly (p := Emitter.offset) (q := Emitter.offset) (fun _ _ _ => Returns.offset_iff)
    (fun _ _ _ => Returns.offset_iff) .same fun _ _ h => h.size

theorem jump (op : Opcode) : Follows Eq (Compile.jump op) (Compile.jump op) :=
  of_evenly (p := fun e => (e.emitJump op).1) (q := fun e => (e.emitJump op).1)
    (fun _ _ _ => Returns.jump_iff) (fun _ _ _ => Returns.jump_iff) (.emitJump op)
    fun _ _ h => by simp [Emitter.emitJump, Emitter.emit, Emitter.offset, Emitter.byte, h.size]

/-- Pieces of one size are cut out. -/
theorem cut (o : Nat) : Follows (fun c d : Code => c.size = d.size) (Compile.cut o) (Compile.cut o) :=
  of_evenly (p := fun e => (e.cut o).1) (q := fun e => (e.cut o).1) (fun _ _ _ => Returns.cut_iff)
    (fun _ _ _ => Returns.cut_iff) (.cut o) fun _ _ h => by simp [Emitter.cut, h.size]

theorem bytes {c d : Code} (h : c.size = d.size) :
    Follows Eq (Compile.edit (·.bytes c)) (Compile.edit (·.bytes d)) := edit (.bytes h)

theorem emitConstant (c : Constant) :
    Follows Eq (Compile.edit (·.emitConstant c)) (Compile.edit (·.emitConstant c)) := by
  intro s _ s' hs hx
  obtain rfl := Returns.edit_iff.mp hx
  have hsettled := hs.tables.addConstant c
  obtain ⟨-, hplace, hgrew⟩ := Pool.add_spec hs.tables.sound c
  refine ⟨⟨hsettled, fun hbig => ?_, hs.imports⟩, ⟨hgrew, List.prefix_rfl⟩, ⟨(), rfl⟩,
    fun T t hT hw ht => ⟨(), _, Returns.edit_iff.mpr rfl, rfl, ?_, ht.tables.addConstant c, ?_⟩⟩
  · have hbig : (s.emitter.oversized || decide (Emitter.maxOperand < (s.emitter.pool.add c).1)) = false :=
      hbig
    simp only [Bool.or_eq_false_iff, decide_eq_false_iff_not, Nat.not_lt] at hbig
    have hsize := Pool.size_add s.emitter.pool c
    have hold := hs.constants hbig.1
    change (s.emitter.pool.add c).2.entries.size ≤ _
    omega
  · have hmem : c ∈ T.constants.toList := hw.constants.subset (Array.mem_def.mp (Array.mem_of_getElem? hplace))
    have hlevel : (⟨s.emitter.code, (s.emitter.pool.add c).2, s.emitter.loops, s.emitter.oversized⟩ :
        Emitter).Level ⟨t.emitter.code, (t.emitter.pool.add c).2, t.emitter.loops, t.emitter.oversized⟩ :=
      ⟨ht.level.size, ht.level.loops, ht.level.oversized⟩
    exact (Emitter.Evenly.emitWith .constant fun _ => ht.tables.place_le hT ht.inside hmem).level _ _ hlevel
  · exact ht.inside.addConstant
      (hw.constants.subset (Array.mem_def.mp (Array.mem_of_getElem? hplace)))

theorem emitValue (v : Value) : Follows Eq (Compile.emitValue v) (Compile.emitValue v) :=
  match v with
  | .void => edit .same
  | .bool true => emit .pushTrue
  | .bool false => emit .pushFalse
  | .int n => emitConstant (.int n)
  | .long n => emitConstant (.long n)
  | .double d => emitConstant (.double d)
  | .string x => emitConstant (.string x)

/-- A function has a place in both tables, which fits an operand in the second one. -/
theorem importFunction (f : NativeFunction) (r : Option ValueType) :
    Follows (fun _ j => j ≤ Emitter.maxOperand) (Compile.importFunction f r sp)
      (Compile.importFunction f r sp') := by
  intro s i s' hs hx
  obtain ⟨hi, rfl⟩ := Returns.importFunction_iff.mp hx
  have hdistinct := hs.tables.functions.add f r
  have hplaced := hs.tables.places.add f r
  refine ⟨⟨⟨hs.tables.sound, hs.tables.constants, hplaced, hdistinct⟩, hs.constants, ?_⟩, ⟨List.prefix_rfl, ?_⟩,
    ⟨0, Nat.zero_le _⟩, fun T t hT hw ht => ?_⟩
  · exact s.imports.size_add_le f r hs.imports
  · exact s.imports.prefix_add f r
  · obtain ⟨imp, himp, hid⟩ := hs.tables.places.of_add hi
    have hmem : imp ∈ T.imports.toList :=
      hw.imports.subset (Array.mem_def.mp (Array.mem_of_getElem? himp))
    obtain ⟨j, imports', hadd, hj, htables, hinside⟩ := ht.tables.addFunction hT ht.inside
      ⟨imp, hmem, hid⟩ r
    refine ⟨j, ⟨t.emitter, imports'⟩, Returns.importFunction_iff.mpr ?_, hj, ht.level, htables, hinside⟩
    rw [hadd]
    exact ⟨rfl, rfl⟩

end Follows
end ClassScript
