import ClassScript.Proofs.Release.Layout
import ClassScript.Proofs.Reorder.Expression

/-!
The code of an expression in two modules.

Modules with the same constants, functions and methods may have them at different places. A
`Relocation` tells which places of the one hold what which places of the other hold, and `Maps` is what
becomes of an instruction: it names the same things. Where an expression has code in the one module, the
same expression has the relocated code in the other one, and what it means behind it is the same.
-/

namespace ClassScript

open Code (Instruction)
open Compile Layout

/-! ## Instructions -/

/-- Opcodes with an operand that is the place of a constant, of a function or of a method. -/
def Opcode.refers : Opcode → Bool
  | constant | call | callNative => true
  | _ => false

theorem Opcode.refers_of_operandCount {op : Opcode} (h : op.operandCount = 0) : op.refers = false := by
  cases op <;> first | rfl | cases h

structure Relocation where
  source : Tables
  target : Tables
  /-- Which methods of a class are the same. -/
  methods : Nat → Nat → Nat → Prop

namespace Relocation

variable {ρ : Relocation} {i j : Instruction} {is js ks ls : Asm}

/-- Instructions of both modules that name the same things. -/
inductive Maps (ρ : Relocation) : Instruction → Instruction → Prop
  | same {i : Instruction} (h : i.op.refers = false) : ρ.Maps i i
  | constant {i j : Nat} {c : Constant} (h : ρ.source.constants[i]? = some c)
      (h' : ρ.target.constants[j]? = some c) : ρ.Maps (.unary .constant i) (.unary .constant j)
  | function {i j : Nat} {a b : NativeImport} (h : ρ.source.imports[i]? = some a)
      (h' : ρ.target.imports[j]? = some b) (hab : a.identity = b.identity) :
      ρ.Maps (.unary .callNative i) (.unary .callNative j)
  | method {cls i j : Nat} (h : ρ.methods cls i j) : ρ.Maps ⟨.call, cls, i⟩ ⟨.call, cls, j⟩

theorem Maps.op (h : ρ.Maps i j) : i.op = j.op := by cases h <;> rfl

theorem Maps.width (h : ρ.Maps i j) : i.width = j.width := by
  rw [Instruction.width, Instruction.width, h.op]

abbrev MapsAll (ρ : Relocation) : Asm → Asm → Prop := List.Forall₂ ρ.Maps

namespace MapsAll

theorem size (h : ρ.MapsAll is js) : is.size = js.size := by
  induction h with
  | nil => rfl
  | cons h _ ih => rw [Asm.size_cons, Asm.size_cons, h.width, ih]

theorem cons (h : ρ.Maps i j) (h' : ρ.MapsAll is js) : ρ.MapsAll (i :: is) (j :: js) :=
  List.Forall₂.cons h h'

theorem append (h : ρ.MapsAll is js) (h' : ρ.MapsAll ks ls) : ρ.MapsAll (is ++ ks) (js ++ ls) :=
  List.rel_append h h'

/-- What is relocated of two pieces of code. -/
theorem split {front back : Asm} (h : ρ.MapsAll (front ++ back) js) :
    ∃ front' back', js = front' ++ back' ∧ ρ.MapsAll front front' ∧ ρ.MapsAll back back' := by
  induction front generalizing js with
  | nil => exact ⟨[], js, rfl, .nil, h⟩
  | cons i front ih =>
    cases h with
    | cons hij h =>
      obtain ⟨front', back', rfl, hfront, hback⟩ := ih h
      exact ⟨_ :: front', back', rfl, .cons hij hfront, hback⟩

theorem single (h : i.op.refers = false) : ρ.MapsAll [i] [i] := .cons (.same h) .nil

theorem plain {op : Opcode} (h : op.operandCount = 0) : ρ.MapsAll [.plain op] [.plain op] :=
  single (Opcode.refers_of_operandCount h)

theorem converted {op : Option Opcode} (h : ∀ o, op = some o → o.operandCount = 0) :
    ρ.MapsAll (Layout.converted op) (Layout.converted op) := by
  cases op with
  | none => exact .nil
  | some op => exact plain (h op rfl)

theorem widening (a b : ValueType) : ρ.MapsAll (Layout.converted (Conversion.widening? a b))
    (Layout.converted (Conversion.widening? a b)) :=
  converted fun _ => widening_operandCount

theorem kept (wanted : Bool) : ρ.MapsAll (Layout.kept wanted) (Layout.kept wanted) := by
  cases wanted with
  | false => exact .nil
  | true => exact plain rfl

end MapsAll

/-- The second module has all that is in the first one, and methods that are the same but for places are
known to be the same. -/
structure Covers (ρ : Relocation) (s s' : Symbols) : Prop where
  constants : ∀ c ∈ ρ.source.constants.toList, c ∈ ρ.target.constants.toList
  functions : ∀ imp ∈ ρ.source.imports.toList,
    ∃ imp' ∈ ρ.target.imports.toList, imp'.identity = imp.identity
  methods : ∀ (cls i j : Nat) (f f' : MethodSymbol),
    (s.classes.getD cls default).methods[i]? = some f →
    (s'.classes.getD cls default).methods[j]? = some f' → f.placeless = f'.placeless →
    ρ.methods cls i j

/-- Two sites at which the same method is compiled. -/
structure Joins (ρ : Relocation) (site site' : Site) : Prop where
  sites : site.Akin site'
  covers : ρ.Covers site.symbols site'.symbols

end Relocation

/-! ## Look-ups -/

/-- Where one look-up finds something, the other one does. -/
theorem Follows.found {α : Type} {Q : α → α → Prop} {x y : Compiling α} {a : α} (h : Follows Q x y)
    (hx : x = Pure.pure a) (hy : Returns.IsLookup y) : ∃ b, y = Pure.pure b ∧ Q a b := by
  have hstart : CodeState.Settled ⟨.start .empty, .empty⟩ :=
    ⟨⟨Pool.sound_empty, Pool.distinct_empty, fun _ _ h => by simp [ImportTable.empty] at h,
      ImportTable.distinct_empty⟩, fun _ => Nat.zero_le _, Nat.zero_le _⟩
  obtain ⟨_, -, -, hfollows⟩ := h ⟨.start .empty, .empty⟩ a _ hstart (by rw [hx]; exact Returns.pure)
  obtain ⟨b, t, hreturns, hab, -⟩ := hfollows ⟨#[], #[]⟩ ⟨.start .empty, .empty⟩
    ⟨Nat.zero_le _, Nat.zero_le _⟩ ⟨List.prefix_rfl, List.prefix_rfl⟩
    ⟨.refl _, hstart.tables, fun c hc => hc, fun imp himp => ⟨imp, himp, rfl⟩⟩
  exact ⟨b, (hy.eq hreturns).1, hab⟩

namespace Meaning.Akin

variable {m m' : Meaning}

theorem isName (h : m.Akin m') : Layout.isName m' = Layout.isName m := by cases h <;> rfl

theorem of_methods {c : Callee} {name : String} (h : Meaning.Akin (.methods c name) m') :
    m' = .methods c name := by
  cases h
  rfl

end Meaning.Akin

theorem Place.Akin.loading {p p' : Place} (h : p.Akin p') : Layout.loading p = Layout.loading p' := by
  cases h with
  | field h =>
    rw [Layout.loading, Layout.loading, Follows.loadOp_eq h, (FieldSymbol.eq_of_placeless h).2.2.2.2]
  | same => rfl

theorem Place.Akin.storing {p p' : Place} (h : p.Akin p') : Layout.storing p = Layout.storing p' := by
  cases h with
  | field h =>
    rw [Layout.storing, Layout.storing, storeOp, storeOp, (FieldSymbol.eq_of_placeless h).2.2.1,
      (FieldSymbol.eq_of_placeless h).2.2.2.2]
  | same => rfl

theorem refers_loading (place : Place) : (Layout.loading place).op.refers = false := by
  cases place with
  | localVar => rfl
  | field f =>
    show (loadOp f).refers = false
    unfold loadOp
    split <;> rfl

theorem refers_storing (place : Place) : (Layout.storing place).op.refers = false := by
  cases place with
  | localVar => rfl
  | field f =>
    show (storeOp f).refers = false
    unfold storeOp
    split <;> rfl

/-! ## Parts of expressions -/

namespace Layout

variable {ρ : Relocation} {site site' : Site} {locals : LocalScope} {is is' js : Asm}
  {p p' : Pushed}

section

variable (h : ρ.Joins site site')

include h

theorem Pushes.relocated {v : Value} (hv : Pushes ρ.source v is) :
    ∃ js, ρ.MapsAll is js ∧ Pushes ρ.target v js := by
  cases hv with
  | void => exact ⟨[], .nil, .void⟩
  | yes => exact ⟨_, .plain rfl, .yes⟩
  | no => exact ⟨_, .plain rfl, .no⟩
  | constant hc =>
    obtain ⟨j, hj⟩ := List.getElem?_of_mem (h.covers.constants _ (Array.mem_toList_iff.mpr (Array.mem_of_getElem? hc)))
    rw [Array.getElem?_toList] at hj
    exact ⟨_, .cons (.constant hc hj) .nil, .constant hj⟩

theorem Coerces.relocated {type : ValueType} (hc : Coerces ρ.source p is type js p')
    (his : ρ.MapsAll is is') : ∃ js', ρ.MapsAll js js' ∧ Coerces ρ.target p is' type js' p' := by
  cases hc with
  | identity hc => exact ⟨is', his, .identity hc⟩
  | widen hc hp => exact ⟨_, his.append (.plain (implicit_operandCount hc)), .widen hc hp⟩
  | known hc hp hw hjs =>
    obtain ⟨js', hmaps, hpushes⟩ := Pushes.relocated h hjs
    exact ⟨js', hmaps, .known hc hp hw hpushes⟩

theorem Materializes.relocated {m m' : Meaning} (hp : Materializes ρ.source m is p) (hm : m.Akin m') :
    ∃ js, ρ.MapsAll is js ∧ Materializes ρ.target m' js p := by
  cases hm with
  | field cls hf =>
    cases hp
    obtain ⟨htype, -, -, -, hslot⟩ := FieldSymbol.eq_of_placeless hf
    rw [htype, hslot, Follows.loadOp_eq hf]
    exact ⟨_, .single (refers_loading (.field _)), .field⟩
  | same =>
    cases hp with
    | localVar => exact ⟨_, .single rfl, .localVar⟩
    | field => exact ⟨_, .single (refers_loading (.field _)), .field⟩
    | constant hv =>
      obtain ⟨js, hmaps, hpushes⟩ := Pushes.relocated h hv
      exact ⟨js, hmaps, .constant hpushes⟩
    | value => exact ⟨[], .nil, .value⟩

theorem Imports.relocated {f : NativeFunction} {r : Option ValueType} {i : Nat}
    (hi : Imports ρ.source site.symbols.libraries f r i) :
    ∃ j, ρ.Maps (.unary .callNative i) (.unary .callNative j) ∧
      Imports ρ.target site'.symbols.libraries f r j := by
  obtain ⟨hcallable, imp, himp, hidentity⟩ := hi
  obtain ⟨imp', hmem, hsame⟩ := h.covers.functions imp (Array.mem_toList_iff.mpr (Array.mem_of_getElem? himp))
  obtain ⟨j, hj⟩ := List.getElem?_of_mem hmem
  rw [Array.getElem?_toList] at hj
  exact ⟨j, .function himp hj hsame.symm, h.sites.symbols.libraries ▸ hcallable, imp', hj,
    hsame.trans hidentity⟩

end

def RelocatedArguments (ρ : Relocation) : List (Asm × Pushed) → List (Asm × Pushed) → Prop :=
  List.Forall₂ fun a b => ρ.MapsAll a.1 b.1 ∧ a.2 = b.2

namespace RelocatedArguments

variable {items items' : List (Asm × Pushed)}

theorem types (h : RelocatedArguments ρ items items') :
    items.map (·.2.type) = items'.map (·.2.type) := by
  induction h with
  | nil => rfl
  | cons h _ ih => rw [List.map_cons, List.map_cons, h.2, ih]

theorem passing (h : RelocatedArguments ρ items items') (ts : List ValueType) :
    ρ.MapsAll (passing items ts) (Layout.passing items' ts) := by
  induction h generalizing ts with
  | nil => exact .nil
  | @cons a b items items' h _ ih =>
    obtain ⟨is, p⟩ := a
    obtain ⟨js, q⟩ := b
    obtain ⟨hcode, rfl⟩ := h
    cases ts with
    | nil => exact hcode.append (ih [])
    | cons t ts => exact (hcode.append (.widening _ _)).append (ih ts)

theorem chooses {α : Type} {candidates : List α} {params : α → List ValueType} {a : α}
    (h : RelocatedArguments ρ items items') (ha : Chooses candidates params items a) :
    Chooses candidates params items' a := by
  obtain ⟨i, hi, ha⟩ := ha.resolves
  exact ⟨i, h.types ▸ hi, ha⟩

end RelocatedArguments

theorem Calls.relocated (h : ρ.Joins site site') {target : Callee} {name : String}
    {items items' : List (Asm × Pushed)} (hcall : Calls ρ.source site is name items target js p)
    (his : ρ.MapsAll is is') (hitems : RelocatedArguments ρ items items') :
    ∃ js', ρ.MapsAll js js' ∧ Calls ρ.target site' is' name items' target js' p := by
  cases hcall with
  | @script cls i o onThis f hf haccess hreceiver =>
    obtain ⟨k, hk, hplace⟩ := hf.resolves
    have hcandidates := (h.sites.classAt cls).methodsNamed name
    obtain ⟨l, ⟨f', j⟩, hl, hplace', hsame⟩ := Overload.resolve_perm
      (show ∀ m : MethodSymbol × Nat, m.1.params = m.1.placeless.params from fun _ => rfl)
      hcandidates hk hplace
    obtain ⟨hvisibility, hstatic, hparams, hreturns⟩ := MethodSymbol.eq_of_placeless hsame
    have hf' : Chooses ((classAt site' cls).methodsNamed name) (·.1.params) items' (f', j) :=
      ⟨l, hitems.types ▸ hl, hplace'⟩
    have hmaps : ρ.Maps ⟨.call, cls, i⟩ ⟨.call, cls, j⟩ :=
      .method (h.covers.methods cls i j f f' (ClassSymbol.mem_methodsNamed (List.mem_of_getElem? hplace))
        (ClassSymbol.mem_methodsNamed (List.mem_of_getElem? hplace')) hsame)
    have haccess' : cls = site'.cls ∨ f'.visibility.isOwnClassOnly = false := by
      rwa [← h.sites.cls, ← hvisibility]
    have hreceiver' : f'.isStatic = true ∨ onThis = true ∧ site'.isStatic = false := by
      rwa [← hstatic, ← h.sites.isStatic]
    have hcode := (his.append (hitems.passing f.params)).append (.cons hmaps .nil)
    rw [hparams] at hcode ⊢
    rw [hreturns]
    exact ⟨_, hcode, .script hf' haccess' hreceiver'⟩
  | function hf hi =>
    obtain ⟨j, hmaps, hi'⟩ := hi.relocated h
    exact ⟨_, (his.append (hitems.passing _)).append (.cons hmaps .nil), .function (hitems.chooses hf) hi'⟩
  | method hf hi =>
    obtain ⟨j, hmaps, hi'⟩ := hi.relocated h
    exact ⟨_, (his.append (hitems.passing _)).append (.cons hmaps .nil), .method (hitems.chooses hf) hi'⟩
  | string hnil hp =>
    subst hnil
    cases hitems
    exact ⟨is', his, .string rfl hp⟩
  | text hnil hp hc =>
    subst hnil
    cases hitems
    exact ⟨_, his.append (.plain rfl), .text rfl hp hc⟩
  | textKnown hnil hp hc hw hjs =>
    subst hnil
    cases hitems
    obtain ⟨js', hmaps, hpushes⟩ := Pushes.relocated h hjs
    exact ⟨js', hmaps, .textKnown rfl hp hc hw hpushes⟩

/-! ## Names and places -/

section

variable (h : ρ.Joins site site')

include h

theorem nameMeaning_found {name name' : Ident} (hname : name.placeless = name'.placeless) {m : Meaning}
    (hm : nameMeaning site locals name = pure m) :
    ∃ m', nameMeaning site' locals name' = pure m' ∧ m.Akin m' :=
  (Follows.nameMeaning h.sites hname locals).found hm (isLookup_name name')

theorem memberMeaning_found {m m' n : Meaning} (hname : isName m = true) (hm : m.Akin m')
    {name name' : Ident} (heq : name.placeless = name'.placeless) {sp : Span} (sp' : Span)
    (hn : memberMeaning site m sp name = pure n) :
    ∃ n', memberMeaning site' m' sp' name' = pure n' ∧ n.Akin n' :=
  (Follows.memberMeaning h.sites hm heq).found hn (isLookup_member (hm.isName.trans hname) name')

theorem placeOf_found {m m' : Meaning} (hm : m.Akin m') {sp : Span} {place : Place}
    (hplace : placeOf site m sp = pure place) :
    ∃ place', placeOf site' m' sp = pure place' ∧ place.Akin place' :=
  (Follows.placeOf h.sites hm).found hplace isLookup_placeOf

end

theorem counting_relocated {place place' : Place} (hplace : place.Akin place') (up front : Bool) (use : Use)
    (his : ρ.MapsAll is js) :
    ρ.MapsAll (counting place up front use is) (counting place' up front use js) := by
  have hload : ρ.MapsAll [loading place] [loading place] := .single (refers_loading place)
  have hstep : ρ.MapsAll [.plain (stepOp place.type up)] [.plain (stepOp place.type up)] :=
    .plain (stepOp_operandCount _ _)
  have hstore : ρ.MapsAll [storing place] [storing place] := .single (refers_storing place)
  have hall := hload.append (((Relocation.MapsAll.kept (!front && use != .discarded)).append his).append
    (hstep.append ((Relocation.MapsAll.kept (front && use != .discarded)).append hstore)))
  rw [counting, counting, ← hplace.loading, ← hplace.storing, ← hplace.type]
  simpa using hall

theorem compound_relocated {place place' : Place} (hplace : place.Akin place') {op : BinaryOp}
    {a b : ValueType} {plan : BinaryPlan} (hplan : op.plan? a b = some plan) (wanted : Bool) {js' : Asm}
    (his : ρ.MapsAll is is') (hjs : ρ.MapsAll js js') :
    ρ.MapsAll
      (is ++ loading place :: converted plan.left ++ (js ++ converted plan.right) ++
        .plain plan.op :: kept wanted ++ [storing place])
      (is' ++ loading place' :: converted plan.left ++ (js' ++ converted plan.right) ++
        .plain plan.op :: kept wanted ++ [storing place']) := by
  obtain ⟨hleft, hright, hop⟩ := plan_operandCount hplan
  have hloaded : ρ.MapsAll (is ++ loading place :: converted plan.left)
      (is' ++ loading place :: converted plan.left) :=
    his.append (.cons (.same (refers_loading place)) (.converted hleft))
  have happlied := (hloaded.append (hjs.append (.converted hright))).append
    ((Relocation.MapsAll.plain hop).append (.kept wanted))
  rw [← hplace.loading, ← hplace.storing]
  exact happlied.append (.single (refers_storing place))

theorem shortCircuit_relocated (op : BinaryOp) {js' : Asm} (his : ρ.MapsAll is is')
    (hjs : ρ.MapsAll js js') :
    ρ.MapsAll
      (is ++ .plain .dup :: .unary (if op = .logicalAnd then .jumpIfFalse else .jumpIfTrue) (1 + js.size) ::
        .plain .pop :: js)
      (is' ++ .plain .dup :: .unary (if op = .logicalAnd then .jumpIfFalse else .jumpIfTrue) (1 + js'.size) ::
        .plain .pop :: js') := by
  rw [← hjs.size]
  refine his.append (.cons (.same rfl) (.cons (.same ?_) (.cons (.same rfl) hjs)))
  show Opcode.refers (if op = .logicalAnd then .jumpIfFalse else .jumpIfTrue) = false
  split <;> rfl

theorem choice_relocated {js' ks ks' : Asm} (his : ρ.MapsAll is is') (hjs : ρ.MapsAll js js')
    (hks : ρ.MapsAll ks ks') :
    ρ.MapsAll (is ++ .unary .jumpIfFalse (js.size + 3) :: js ++ .unary .jump ks.size :: ks)
      (is' ++ .unary .jumpIfFalse (js'.size + 3) :: js' ++ .unary .jump ks'.size :: ks') := by
  rw [← hjs.size, ← hks.size]
  exact (his.append (.cons (.same rfl) hjs)).append (.cons (.same rfl) hks)

/-! ## Expressions -/

mutual

/-- An expression has the same code in the other module, but for places. -/
theorem Means.relocated (h : ρ.Joins site site') {use : Use} {e e' : Expr} {is : Asm} {m : Meaning} :
    Means ρ.source site locals use e is m → e.placeless = e'.placeless →
      ∃ js m', ρ.MapsAll is js ∧ m.Akin m' ∧ Means ρ.target site' locals use e' js m'
  | .literal hv, he => by
    obtain ⟨sp', rfl⟩ := Expr.of_literal he
    obtain ⟨js, hmaps, hpushes⟩ := Pushes.relocated h hv
    exact ⟨js, _, hmaps, .same _, .literal hpushes⟩
  | .ident hm, he => by
    obtain ⟨name', rfl, hname⟩ := Expr.of_ident he
    obtain ⟨m', hm', hakin⟩ := nameMeaning_found h hname hm
    exact ⟨[], m', .nil, hakin, .ident hm'⟩
  | .this hm, he => by
    obtain ⟨sp', rfl⟩ := Expr.of_this he
    obtain ⟨m', hm', hakin⟩ := (Follows.thisMeaning h.sites).found hm
      (show Returns.IsLookup (thisMeaning site' sp') from isLookup_this)
    exact ⟨[], m', .nil, hakin, .this hm'⟩
  | .member ho hm hm', he => by
    obtain ⟨o', name', sp', rfl, ho', hname⟩ := Expr.of_member he
    obtain ⟨js, n, hmaps, hakin, hmeans⟩ := ho.relocated h ho'
    obtain ⟨n', hn, hakin'⟩ := memberMeaning_found h hm hakin hname o'.span hm'
    exact ⟨js, n', hmaps, hakin', .member hmeans (hakin.isName.trans hm) hn⟩
  | .length hv hp hname hc, he => by
    obtain ⟨o', name', sp', rfl, ho', hsame⟩ := Expr.of_member he
    obtain ⟨js, hmaps, hvalues⟩ := hv.relocated h ho'
    exact ⟨_, _, hmaps.append (.plain rfl), .same _,
      .length hvalues hp ((Ident.name_eq hsame).symm.trans hname) hc⟩
  | .lengthKnown hv hp hname hc hw hjs, he => by
    obtain ⟨o', name', sp', rfl, ho', hsame⟩ := Expr.of_member he
    obtain ⟨_, -, hvalues⟩ := hv.relocated h ho'
    obtain ⟨js', hmaps, hpushes⟩ := Pushes.relocated h hjs
    exact ⟨js', _, hmaps, .same _,
      .lengthKnown hvalues hp ((Ident.name_eq hsame).symm.trans hname) hc hw hpushes⟩
  | .text hv hp hname, he => by
    obtain ⟨o', name', sp', rfl, ho', hsame⟩ := Expr.of_member he
    obtain ⟨js, hmaps, hvalues⟩ := hv.relocated h ho'
    rw [Ident.name_eq hsame] at hname ⊢
    exact ⟨js, _, hmaps, .same _, .text hvalues hp hname⟩
  | .methods hv hlength htext hc, he => by
    obtain ⟨o', name', sp', rfl, ho', hsame⟩ := Expr.of_member he
    obtain ⟨js, hmaps, hvalues⟩ := hv.relocated h ho'
    rw [Ident.name_eq hsame] at hlength htext ⊢
    rw [h.sites.symbols.keywordClass?] at hc
    exact ⟨js, _, hmaps, .same _, .methods hvalues hlength htext hc⟩
  | .bare hm, he => by
    obtain ⟨o', sp', rfl, ho'⟩ := Expr.of_paren he
    obtain ⟨js, m', hmaps, hakin, hmeans⟩ := hm.relocated h ho'
    exact ⟨js, m', hmaps, hakin, .bare hmeans⟩
  | .paren huse hv, he => by
    obtain ⟨o', sp', rfl, ho'⟩ := Expr.of_paren he
    obtain ⟨js, hmaps, hvalues⟩ := hv.relocated h ho'
    exact ⟨js, _, hmaps, .same _, .paren huse hvalues⟩
  | .logical hop hl hr hlt hrt hc, he => by
    obtain ⟨l', r', sp', rfl, hl', hr'⟩ := Expr.of_binary he
    obtain ⟨is', hleft, hlv⟩ := hl.relocated h hl'
    obtain ⟨js', hright, hrv⟩ := hr.relocated h hr'
    exact ⟨_, _, shortCircuit_relocated _ hleft hright, .same _, .logical hop hlv hrv hlt hrt hc⟩
  | .logicalKnown hop hl hr hlt hrt ha hb hks, he => by
    obtain ⟨l', r', sp', rfl, hl', hr'⟩ := Expr.of_binary he
    obtain ⟨_, -, hlv⟩ := hl.relocated h hl'
    obtain ⟨_, -, hrv⟩ := hr.relocated h hr'
    obtain ⟨ks', hmaps, hpushes⟩ := Pushes.relocated h hks
    exact ⟨ks', _, hmaps, .same _, .logicalKnown hop hlv hrv hlt hrt ha hb hpushes⟩
  | .binary hop hl hr hplan hcl hcr hc, he => by
    obtain ⟨l', r', sp', rfl, hl', hr'⟩ := Expr.of_binary he
    obtain ⟨is', hleft, hlv⟩ := hl.relocated h hl'
    obtain ⟨js', hright, hrv⟩ := hr.relocated h hr'
    obtain ⟨hpl, hpr, hpo⟩ := plan_operandCount hplan
    exact ⟨_, _, ((hleft.append (.converted hpl)).append (hright.append (.converted hpr))).append
      (.plain hpo), .same _, .binary hop hlv hrv hplan hcl hcr hc⟩
  | .binaryKnown hop hl hr hplan hcl hcr ha hb hv hks, he => by
    obtain ⟨l', r', sp', rfl, hl', hr'⟩ := Expr.of_binary he
    obtain ⟨_, -, hlv⟩ := hl.relocated h hl'
    obtain ⟨_, -, hrv⟩ := hr.relocated h hr'
    obtain ⟨ks', hmaps, hpushes⟩ := Pushes.relocated h hks
    exact ⟨ks', _, hmaps, .same _, .binaryKnown hop hlv hrv hplan hcl hcr ha hb hv hpushes⟩
  | .same hv hop, he => by
    obtain ⟨o', sp', rfl, ho'⟩ := Expr.of_unary he
    obtain ⟨js, hmaps, hvalues⟩ := hv.relocated h ho'
    exact ⟨js, _, hmaps, .same _, .same hvalues hop⟩
  | .unary hv hop hc, he => by
    obtain ⟨o', sp', rfl, ho'⟩ := Expr.of_unary he
    obtain ⟨js, hmaps, hvalues⟩ := hv.relocated h ho'
    exact ⟨_, _, hmaps.append (.plain (unaryOp_operandCount hop)), .same _, .unary hvalues hop hc⟩
  | .unaryKnown hv hop hc hw hjs, he => by
    obtain ⟨o', sp', rfl, ho'⟩ := Expr.of_unary he
    obtain ⟨_, -, hvalues⟩ := hv.relocated h ho'
    obtain ⟨js', hmaps, hpushes⟩ := Pushes.relocated h hjs
    exact ⟨js', _, hmaps, .same _, .unaryKnown hvalues hop hc hw hpushes⟩
  | .before hop hm hplace hn hjs, he => by
    obtain ⟨o', sp', rfl, ho'⟩ := Expr.of_unary he
    obtain ⟨is', m', hmaps, hakin, hmeans⟩ := hm.relocated h ho'
    obtain ⟨place', hplace', hsame⟩ := placeOf_found h hakin hplace
    obtain ⟨js', hone, hpushes⟩ := Pushes.relocated h hjs
    refine ⟨_, _, hmaps.append (counting_relocated hsame _ true _ hone), .same _, ?_⟩
    rw [hsame.type] at hn hpushes ⊢
    exact .before hop hmeans hplace' hn hpushes
  | .behind hm hplace hn hjs, he => by
    obtain ⟨o', sp', rfl, ho'⟩ := Expr.of_post he
    obtain ⟨is', m', hmaps, hakin, hmeans⟩ := hm.relocated h ho'
    obtain ⟨place', hplace', hsame⟩ := placeOf_found h hakin hplace
    obtain ⟨js', hone, hpushes⟩ := Pushes.relocated h hjs
    refine ⟨_, _, hmaps.append (counting_relocated hsame _ false _ hone), .same _, ?_⟩
    rw [hsame.type] at hn hpushes ⊢
    exact .behind hmeans hplace' hn hpushes
  | .assign hop hm hplace hv hc, he => by
    obtain ⟨t', v', sp', rfl, ht', hv'⟩ := Expr.of_assign he
    obtain ⟨is', m', hmaps, hakin, hmeans⟩ := hm.relocated h ht'
    obtain ⟨place', hplace', hsame⟩ := placeOf_found h hakin hplace
    obtain ⟨js', hvalue, hvalues⟩ := hv.relocated h hv'
    obtain ⟨ks', hconverted, hcoerces⟩ := hc.relocated h hvalue
    refine ⟨_, _, ((hmaps.append hconverted).append (.kept _)).append
      (.single (refers_storing _)), .same _, ?_⟩
    rw [hsame.storing]
    rw [hsame.type] at hcoerces ⊢
    exact .assign hop hmeans hplace' hvalues hcoerces
  | .compound hop hm hplace hv hplan hres hp, he => by
    obtain ⟨t', v', sp', rfl, ht', hv'⟩ := Expr.of_assign he
    obtain ⟨is', m', hmaps, hakin, hmeans⟩ := hm.relocated h ht'
    obtain ⟨place', hplace', hsame⟩ := placeOf_found h hakin hplace
    obtain ⟨js', hvalue, hvalues⟩ := hv.relocated h hv'
    refine ⟨_, _, compound_relocated hsame hplan _ hmaps hvalue, .same _, ?_⟩
    rw [hsame.type] at hplan hres ⊢
    exact .compound hop hmeans hplace' hvalues hplan hres hp
  | .conditional hv hc hyes hno htype hk, he => by
    obtain ⟨c', y', n', sp', rfl, hc', hy', hn'⟩ := Expr.of_conditional he
    obtain ⟨is', hcond, hcv⟩ := hv.relocated h hc'
    obtain ⟨is'', htested, hcoerces⟩ := hc.relocated h hcond
    obtain ⟨js', hfirst, hyv⟩ := hyes.relocated h hy'
    obtain ⟨ks', hsecond, hnv⟩ := hno.relocated h hn'
    exact ⟨_, _, choice_relocated htested (hfirst.append (.widening _ _)) (hsecond.append (.widening _ _)),
      .same _, .conditional hcv hcoerces hyv hnv htype hk⟩
  | .conditionalKnown hv hc hyes hno htype hu hva hvb hx hls, he => by
    obtain ⟨c', y', n', sp', rfl, hc', hy', hn'⟩ := Expr.of_conditional he
    obtain ⟨is', hcond, hcv⟩ := hv.relocated h hc'
    obtain ⟨_, -, hcoerces⟩ := hc.relocated h hcond
    obtain ⟨_, -, hyv⟩ := hyes.relocated h hy'
    obtain ⟨_, -, hnv⟩ := hno.relocated h hn'
    obtain ⟨ls', hmaps, hpushes⟩ := Pushes.relocated h hls
    exact ⟨ls', _, hmaps, .same _,
      .conditionalKnown hcv hcoerces hyv hnv htype hu hva hvb hx hpushes⟩
  | .call hm hargs hcall, he => by
    obtain ⟨c', args', sp', rfl, hc', hargs'⟩ := Expr.of_call he
    obtain ⟨is', m', hmaps, hakin, hmeans⟩ := hm.relocated h hc'
    obtain rfl := hakin.of_methods
    obtain ⟨items', hitems, hpasses⟩ := hargs.relocated h hargs'
    obtain ⟨js', hcode, hcalls⟩ := hcall.relocated h hmaps hitems
    exact ⟨js', _, hcode, .same _, .call hmeans hpasses hcalls⟩

theorem Values.relocated (h : ρ.Joins site site') {e e' : Expr} {is : Asm} {p : Pushed} :
    Values ρ.source site locals e is p → e.placeless = e'.placeless →
      ∃ js, ρ.MapsAll is js ∧ Values ρ.target site' locals e' js p
  | .intro hm hp, he => by
    obtain ⟨is', m', hmaps, hakin, hmeans⟩ := hm.relocated h he
    obtain ⟨js', hmaps', hmat⟩ := hp.relocated h hakin
    exact ⟨_, hmaps.append hmaps', hmeans, hmat⟩

theorem Passes.relocated (h : ρ.Joins site site') {es es' : List Expr} {items : List (Asm × Pushed)} :
    Passes ρ.source site locals es items → Expr.placelessAll es = Expr.placelessAll es' →
      ∃ items', RelocatedArguments ρ items items' ∧ Passes ρ.target site' locals es' items'
  | .nil, he => by
    obtain rfl := Expr.of_nil he
    exact ⟨[], .nil, .nil⟩
  | .cons hv hs, he => by
    obtain ⟨f, fs, rfl, hf, hfs⟩ := Expr.of_cons he
    obtain ⟨js, hmaps, hvalues⟩ := hv.relocated h hf
    obtain ⟨items', hitems, hpasses⟩ := hs.relocated h hfs
    exact ⟨(js, _) :: items', .cons ⟨hmaps, rfl⟩ hitems, .cons hvalues hpasses⟩

end

end Layout
end ClassScript
