import ClassScript.Proofs.Release.Statement

/-!
The methods of a script and those of its release.

Apart from code, nothing of a method depends on whether it is compiled for a release: `outline` is
what is left of methods, classes and images without code. Two methods mirror each other if they have
one outline and their codes match from the start on, as a method and its release do.
-/

namespace ClassScript

open Code (Instruction)
open Compile Layout Flow Activation
open Layout.Fragment

/-! ## Outlines -/

def MethodImage.outline (g : MethodImage) : MethodImage := { g with code := #[] }

def ClassImage.outline (k : ClassImage) : ClassImage :=
  { k with methods := k.methods.map (·.outline) }

/-- An image without the code of its methods, and without the mark of a release. -/
def Image.outline (m : Image) : Image :=
  { m with release := false, classes := m.classes.map (·.outline) }

/-- Two methods have one outline, and from their starts on the same is executed. -/
structure MethodImage.Mirrors (g g' : MethodImage) : Prop where
  outline : g.outline = g'.outline
  code : ∀ n, Matches g.code.decode? g'.code.decode? n none 0 0

def Activation.alone (g : MethodImage) : Activation where
  program := ⟨{ (default : Image) with classes := #[⟨"", .pub, #[], #[g]⟩] }, #[]⟩
  cls := 0
  method := 0
  image := g
  found := rfl
  callers := []

namespace Layout

variable {T : Tables} {site : Site} {r : Bool} {l l' : LocalScope} {is js : Asm}
  {X Y : List Extent}

/-! ## Bodies -/

/-- Code matches other code, wherever both stand. -/
def Agrees (is js : Asm) : Prop := ∀ (A B : Activation) (k o p : Nat), A.Has o is → B.Has p js →
  Matches A.op? B.op? k none o p

theorem Agrees.behind {front : Asm} (hfront : Onward front) (h : Agrees is js) :
    Agrees (front ++ is) (front ++ js) := by
  intro A B k o p ho hp
  obtain ⟨hi, ho⟩ := has_append.mp ho
  obtain ⟨hj, hp⟩ := has_append.mp hp
  exact matches_through hfront hi hj (h A B k _ _ ho hp)

theorem Agrees.returns (h : Onward is) {op : Opcode} (hop : op = .ret ∨ op = .retVoid) :
    Agrees (is ++ [.plain op]) (is ++ [.plain op]) :=
  fun _ _ _ _ _ ho hp => matches_return h hop ho hp

/-- The code of a statement that is inside no loop. -/
theorem Mirrors.agrees {x : Exits} (h : Mirrors (Fragment.ops is) (Fragment.ops js) x) {A B : Activation} {k o p : Nat}
    (ho : A.Has o is) (hp : B.Has p js)
    (hstop : x.ends = true → Matches A.op? B.op? k none (o + is.size) (p + js.size)) :
    Matches A.op? B.op? k none o p := by
  -- no jump leads out of the code
  refine h A B k o p (fun _ => False) (fun _ => False) (fun _ => False) (fun _ => False)
    (holds_ops.mpr ho) (holds_ops.mpr hp) ?_ (fun _ _ _ h => h.elim) fun _ _ _ h => h.elim
  rwa [size_ops, size_ops]

theorem LaysBody.agrees (hT : T.Distinct) (howner : site.owner = classAt site site.cls) {b : Body}
    {l₀ : LocalScope} (h : LaysBody T site l₀ b is l X)
    (h' : LaysBody T { site with release := r } l₀ b js l' Y) : l = l' ∧ Agrees is js := by
  cases h with
  | falls h hends =>
    cases h' with
    | falls h' =>
      obtain ⟨rfl, rfl, hmirrors⟩ := h.mirrors hT howner h'
      refine ⟨rfl, fun A B k o p ho hp => ?_⟩
      obtain ⟨hi, hret, -⟩ := has_append.mp ho
      obtain ⟨hj, hret', -⟩ := has_append.mp hp
      exact (hmirrors rfl).agrees hi hj fun _ => .meet (.returns hret hret' (.inr rfl))
    | returns h' hends' =>
      obtain ⟨-, rfl, -⟩ := h.mirrors hT howner h'
      cases hends.symm.trans hends'
  | returns h hends =>
    cases h' with
    | falls h' hends' =>
      obtain ⟨-, rfl, -⟩ := h.mirrors hT howner h'
      cases hends.symm.trans hends'
    | returns h' =>
      obtain ⟨rfl, rfl, hmirrors⟩ := h.mirrors hT howner h'
      exact ⟨rfl, fun A B k o p ho hp => (hmirrors rfl).agrees ho hp fun hx => by simp [hends] at hx⟩
  | effect hr h =>
    cases h' with
    | effect _ h' =>
      obtain rfl := h.unique hT h'
      exact ⟨rfl, .returns (h.onward howner) (.inr rfl)⟩
    | value hr' => cases hr.symm.trans hr'
  | value hr h =>
    cases h' with
    | effect hr' => cases hr.symm.trans hr'
    | value _ h' =>
      obtain ⟨rfl, -⟩ := h.unique hT h'
      exact ⟨rfl, .returns (h.sheer howner).onward (.inl rfl)⟩

/-! ## Methods -/

theorem Initializes.onward (howner : site.owner = classAt site site.cls) {op : Opcode}
    (hop : op.isStraight = true) {fs : List FieldSymbol} (h : Initializes T site op fs is) :
    Onward is := by
  induction h with
  | nil => exact .nil
  | unset _ _ ih => exact ih
  | set _ h _ ih => exact (h.sheer howner).onward.append (.straight hop ih)

variable {c : ClassSite} {f : MethodSymbol} {g g' : MethodImage}

theorem owner_eq_classAt {site : Site}
    (h : site.symbols.classes[site.cls]? = some site.owner) : site.owner = classAt site site.cls := by
  simp [classAt, Array.getD_eq_getD_getElem?, h]

theorem Prologue.onward (howner : c.symbols.classes[c.cls]? = some c.owner) {kind : MethodKind}
    (h : Prologue T c kind is) : Onward is := by
  cases kind with
  | method =>
    obtain rfl : is = [] := h
    exact .nil
  | constructor =>
    have hsite : (initializerSite c false).owner =
        classAt (initializerSite c false) (initializerSite c false).cls := owner_eq_classAt howner
    exact Initializes.onward hsite rfl h
  | typeInitializer =>
    have hsite : (initializerSite c true).owner =
        classAt (initializerSite c true) (initializerSite c true).cls := owner_eq_classAt howner
    exact Initializes.onward hsite rfl h

theorem LaysMethod.agrees (hT : T.Distinct) (howner : c.symbols.classes[c.cls]? = some c.owner)
    (h : LaysMethod T c f is l X) (h' : LaysMethod T { c with release := r } f js l' Y) :
    l = l' ∧ Agrees is js := by
  cases h with
  | declared hf hparams his hb =>
    cases h' with
    | declared hf' hparams' hjs hb' =>
      cases hf.symm.trans hf'
      obtain rfl := hparams.unique hparams'
      obtain rfl := his.unique hT hjs
      obtain ⟨rfl, hagrees⟩ := hb.agrees hT (owner_eq_classAt howner) hb'
      exact ⟨rfl, hagrees.behind (his.onward howner)⟩
    | implied hf' => cases hf.symm.trans hf'
  | implied hf his =>
    cases h' with
    | declared hf' => cases hf.symm.trans hf'
    | implied _ hjs =>
      obtain rfl := his.unique hT hjs
      exact ⟨rfl, .returns (his.onward howner) (.inr rfl)⟩

/-- A method of a script and the same one of its release. -/
theorem Compiled.mirrors (hT : T.Distinct) (howner : c.symbols.classes[c.cls]? = some c.owner)
    (h : Compiled T c f g) (h' : Compiled T { c with release := r } f g') : g.Mirrors g' := by
  obtain ⟨is, l, X, hlays, hspells, hlocals⟩ := h.laid
  obtain ⟨js, l', Y, hlays', hspells', hlocals'⟩ := h'.laid
  obtain ⟨rfl, hagrees⟩ := hlays.agrees hT howner hlays'
  constructor
  · have hoff : g.locals = g'.locals := hlocals.trans hlocals'.symm
    simp only [MethodImage.outline, h.name, h.kind, h.visibility, h.isStatic, h.params, h.returns,
      h'.name, h'.kind, h'.visibility, h'.isStatic, h'.params, h'.returns, hoff]
  · intro n
    exact hagrees (.alone g) (.alone g') n 0 0 (has_of_spells_all hspells) (has_of_spells_all hspells')

/-! ## Images -/

theorem map_eq_of_forall₂ {α β γ δ : Type} {R : α → β → Prop} {S : α → γ → Prop} {f : β → δ}
    {g : γ → δ} {as : List α} {bs : List β} {cs : List γ} (h : List.Forall₂ R as bs)
    (h' : List.Forall₂ S as cs) (hfg : ∀ a b c, R a b → S a c → f b = g c) :
    bs.map f = cs.map g := by
  induction h generalizing cs with
  | nil =>
    cases h'
    rfl
  | cons hr _ ih =>
    cases h' with
    | cons hs h' => rw [List.map_cons, List.map_cons, hfg _ _ _ hr hs, ih h']

theorem inOrder_map {α β γ : Type} {f : α → ModuleState → β × ModuleState} {g : β → γ} {h : α → γ}
    (hfg : ∀ a m, g (f a m).1 = h a) (as : List α) (m : ModuleState) :
    (Compile.inOrder f as m).1.map g = as.map h := by
  induction as generalizing m with
  | nil => rfl
  | cons a as ih => rw [List.map_cons, ← ih (f a m).2, ← hfg a m]; rfl

variable {name : String} {options : Options} {libraries : List Library} {script : Script}
  {m m' : Image}

theorem visibilities_of_compiled
    (h : (Compilation.ofScript name options libraries script).image = some m) :
    m.classes.toList.map (·.visibility) =
      (symbolsOf options libraries script).classes.toList.map (·.visibility) := by
  rw [image_eq h, ← owners_of_sites _ options.release, List.map_map]
  exact inOrder_map (f := classImage) (fun _ _ => rfl) _ _

section

variable (h : (Compilation.ofScript name options libraries script).image = some m)
  (h' : (Compilation.ofScript name { options with release := r } libraries script).image = some m')

include h h'

/-- Every class of a script and the same class of its release are compiled from one class. -/
theorem compiledClass_release {i : Nat} {k k' : ClassImage} (hk : m.classes.toList[i]? = some k)
    (hk' : m'.classes.toList[i]? = some k') :
    ∃ c : ClassSite, c.symbols.classes[c.cls]? = some c.owner ∧
      CompiledClass ⟨m.constants, m.imports⟩ c k ∧
      CompiledClass ⟨m.constants, m.imports⟩ { c with release := r } k' := by
  obtain ⟨hconstants, himports, -⟩ := Compilation.tables_release h h'
  obtain ⟨c, hc, hcompiled⟩ := forall₂_getElem? (laid_of_compiled h).classes.flip hk
  obtain ⟨c', hc', hcompiled'⟩ := forall₂_getElem? (laid_of_compiled h').classes.flip hk'
  obtain ⟨howner, hsite⟩ := of_getElem?_sites hc
  obtain ⟨howner', hsite'⟩ := of_getElem?_sites hc'
  have hsame : c'.owner = c.owner := Option.some.inj (howner'.symm.trans howner)
  rw [hconstants, himports] at hcompiled'
  refine ⟨c, ?_, hcompiled, ?_⟩
  · rw [hsite]
    exact howner
  · rw [hsite', hsame] at hcompiled'
    rw [hsite]
    exact hcompiled'

/-- A release has the same classes with the same members, and the same frame sizes. -/
theorem outline_release : m.outline = m'.outline := by
  obtain ⟨hconstants, himports, hT⟩ := Compilation.tables_release h h'
  have hvisibilities : m.classes.toList.map (·.visibility) = m'.classes.toList.map (·.visibility) :=
    (visibilities_of_compiled h).trans (visibilities_of_compiled h').symm
  have hclasses : m.classes.map (·.outline) = m'.classes.map (·.outline) := by
    refine Array.ext' ?_
    rw [Array.toList_map, Array.toList_map]
    refine List.ext_getElem? fun i => ?_
    have hvisibility := congrArg (·[i]?) hvisibilities
    simp only [List.getElem?_map] at hvisibility ⊢
    cases hk : m.classes.toList[i]? with
    | none =>
      rw [hk] at hvisibility
      rw [Option.map_eq_none_iff.mp hvisibility.symm]
    | some k =>
      rw [hk] at hvisibility
      obtain ⟨k', hk', hvisibility⟩ := Option.map_eq_some_iff.mp hvisibility.symm
      obtain ⟨c, howner, hcompiled, hcompiled'⟩ := compiledClass_release h h' hk hk'
      have hmethods : k.methods.map (·.outline) = k'.methods.map (·.outline) := by
        refine Array.ext' ?_
        rw [Array.toList_map, Array.toList_map]
        exact map_eq_of_forall₂ hcompiled.methods hcompiled'.methods fun _ _ _ hg hg' =>
          (hg.mirrors hT howner hg').outline
      rw [hk', Option.map_some, Option.map_some, ClassImage.outline, ClassImage.outline, hmethods,
        hcompiled.name, hcompiled'.name, hcompiled.fields, hcompiled'.fields, hvisibility]
  rw [Image.outline, Image.outline, hclasses, hconstants, himports, image_eq h, image_eq h']

/-- Every method of a script mirrors that of its release. -/
theorem methods_release (c i : Nat) :
    Option.Rel MethodImage.Mirrors (m.method? c i) (m'.method? c i) := by
  obtain ⟨hconstants, himports, hT⟩ := Compilation.tables_release h h'
  cases hg : m.method? c i with
  | none =>
    cases hg' : m'.method? c i with
    | none => exact .none
    | some g' =>
      obtain ⟨k, f, hk, hf, -⟩ := symbol_of_laid (laid_of_compiled h') hg'
      obtain ⟨g, hsome, -⟩ := method_of_laid (laid_of_compiled h) hk hf
      cases hg.symm.trans hsome
  | some g =>
    obtain ⟨k, f, hk, hf, hcompiled⟩ := symbol_of_laid (laid_of_compiled h) hg
    obtain ⟨g', hg', hcompiled'⟩ := method_of_laid (laid_of_compiled h') hk hf
    rw [hconstants, himports] at hcompiled'
    rw [hg']
    exact .some (hcompiled.mirrors hT hk hcompiled')

end

end Layout
end ClassScript
