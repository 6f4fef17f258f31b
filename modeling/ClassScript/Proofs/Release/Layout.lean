import ClassScript.Proofs.Release.Tables

/-!
The code of an expression is determined by its tree.

Where constants and functions have one place each in the tables of a module, an expression has one
code only, in a release and otherwise, and what it means behind this code is the same but for the
offsets at which values start.
-/

namespace ClassScript

open Code (Instruction)
open Compile

/-! ## Values -/

theorem Constant.value_injective {c d : Constant} (h : c.value = d.value) : c = d := by
  cases c <;> cases d <;> simp_all [Constant.value]

theorem Pushes.unique {T : Tables} (hT : T.Distinct) {v w : Value} {is js : Asm}
    (h : Pushes T v is) (h' : Pushes T w js) (hvw : v = w) : is = js := by
  have noConstant {c : Constant} : c.value ≠ .void ∧ ∀ b, c.value ≠ .bool b := by
    cases c <;> simp [Constant.value]
  cases h with
  | void =>
    cases h' with
    | void => rfl
    | constant => exact absurd hvw.symm noConstant.1
    | _ => cases hvw
  | yes =>
    cases h' with
    | yes => rfl
    | constant => exact absurd hvw.symm (noConstant.2 _)
    | _ => cases hvw
  | no =>
    cases h' with
    | no => rfl
    | constant => exact absurd hvw.symm (noConstant.2 _)
    | _ => cases hvw
  | constant hi =>
    cases h' with
    | void => exact absurd hvw noConstant.1
    | yes => exact absurd hvw (noConstant.2 _)
    | no => exact absurd hvw (noConstant.2 _)
    | constant hj =>
      obtain rfl := Constant.value_injective hvw
      rw [hT.constants _ _ _ hi hj]

namespace Layout

variable {T : Tables} {site : Site} {r : Bool} {locals : LocalScope} {is js ks ls : Asm}
  {p p' q q' : Pushed}

theorem Converts.like {target : ValueType} {op : Option Opcode} (hpq : p.Like q)
    (h : Converts target p op p') (h' : Converts target q op q') : p'.Like q' := by
  cases h with
  | none =>
    cases h'
    exact hpq
  | unknown hp =>
    cases h' with
    | unknown => exact ⟨rfl, rfl⟩
    | known hq => cases hp.symm.trans (hpq.constant.trans hq)
  | known hp hw =>
    cases h' with
    | unknown hq => cases hp.symm.trans (hpq.constant.trans hq)
    | known hq hw' =>
      obtain rfl := Option.some.inj (hp.symm.trans (hpq.constant.trans hq))
      obtain rfl := Except.ok.inj (hw.symm.trans hw')
      exact ⟨rfl, rfl⟩

theorem Coerces.unique (hT : T.Distinct) {target : ValueType} (hpq : p.Like q)
    (h : Coerces T p is target js p') (h' : Coerces T q is target ks q') :
    js = ks ∧ p'.Like q' := by
  cases h with
  | identity hc =>
    rw [hpq.type] at hc
    cases h' with
    | identity => exact ⟨rfl, hpq⟩
    | widen hc' => cases hc.symm.trans hc'
    | known hc' => cases hc.symm.trans hc'
  | widen hc hp =>
    rw [hpq.type] at hc
    cases h' with
    | identity hc' => cases hc.symm.trans hc'
    | widen hc' =>
      cases hc.symm.trans hc'
      exact ⟨rfl, rfl, rfl⟩
    | known _ hq => cases hp.symm.trans (hpq.constant.trans hq)
  | known hc hp hw hjs =>
    rw [hpq.type] at hc
    cases h' with
    | identity hc' => cases hc.symm.trans hc'
    | widen _ hq => cases hp.symm.trans (hpq.constant.trans hq)
    | known _ hq hw' hks =>
      obtain rfl := Option.some.inj (hp.symm.trans (hpq.constant.trans hq))
      obtain rfl := Option.some.inj (hw.symm.trans hw')
      exact ⟨hjs.unique hT hks rfl, rfl, rfl⟩

theorem Materializes.unique (hT : T.Distinct) {m m' : Meaning} (hm : m.Like m')
    (h : Materializes T m is p) (h' : Materializes T m' js q) : is = js ∧ p.Like q := by
  cases hm with
  | localVar | field =>
    cases h
    cases h'
    exact ⟨rfl, rfl, rfl⟩
  | constant v =>
    cases h with
    | constant h =>
      cases h' with
      | constant h' => exact ⟨h.unique hT h' rfl, rfl, rfl⟩
  | value hp =>
    cases h
    cases h'
    exact ⟨rfl, hp⟩
  | methods | type | space | this => cases h

theorem isName_like {m m' : Meaning} (h : m.Like m') : isName m = isName m' := by cases h <;> rfl

theorem Materializes.isName {m : Meaning} (h : Materializes T m is p) : isName m = false := by
  cases h <;> rfl

/-! ## Calls -/

def SameArguments : List (Asm × Pushed) → List (Asm × Pushed) → Prop :=
  List.Forall₂ fun a b => a.1 = b.1 ∧ a.2.Like b.2

variable {items items' : List (Asm × Pushed)}

theorem SameArguments.types (h : SameArguments items items') :
    items.map (·.2.type) = items'.map (·.2.type) := by
  induction h with
  | nil => rfl
  | cons h _ ih => rw [List.map_cons, List.map_cons, h.2.type, ih]

theorem SameArguments.passing (h : SameArguments items items') (ts : List ValueType) :
    passing items ts = passing items' ts := by
  induction h generalizing ts with
  | nil => rfl
  | @cons a b items items' h _ ih =>
    obtain ⟨is, p⟩ := a
    obtain ⟨js, q⟩ := b
    obtain ⟨rfl, hpq⟩ := h
    cases ts with
    | nil => rw [Layout.passing, Layout.passing, ih]
    | cons t ts => rw [Layout.passing, Layout.passing, ih, hpq.type]

theorem Chooses.determined {α : Type} {candidates : List α} {params : α → List ValueType} {a b : α}
    (hitems : SameArguments items items') (h : Chooses candidates params items a)
    (h' : Chooses candidates params items' b) : a = b := by
  obtain ⟨i, hi, ha⟩ := h.resolves
  obtain ⟨j, hj, hb⟩ := h'.resolves
  rw [hitems.types] at hi
  obtain rfl := Except.ok.inj (hi.symm.trans hj)
  exact Option.some.inj (ha.symm.trans hb)

theorem Imports.unique (hT : T.Distinct) {libraries : List Library} {f : NativeFunction}
    {t u : Option ValueType} {i j : Nat} (h : Imports T libraries f t i)
    (h' : Imports T libraries f u j) : i = j := by
  obtain ⟨a, hi, ha⟩ := h.place
  obtain ⟨b, hj, hb⟩ := h'.place
  exact hT.imports i j a b hi hj (ha.trans hb.symm)

theorem Calls.unique (hT : T.Distinct) {c d : Callee} {name : String}
    (hitems : SameArguments items items') (hcd : c.Like d) (h : Calls T site is name items c js p)
    (h' : Calls T { site with release := r } is name items' d ks q) : js = ks ∧ p.Like q := by
  cases hcd with
  | script cls onThis =>
    cases h with
    | script hm =>
      cases h' with
      | script hm' =>
        cases hm.determined hitems hm'
        exact ⟨by rw [hitems.passing], rfl, rfl⟩
  | function c =>
    cases h with
    | function hf hi =>
      cases h' with
      | function hf' hi' =>
        obtain rfl := hf.determined hitems hf'
        exact ⟨by rw [hitems.passing, hi.unique hT hi'], rfl, rfl⟩
  | method c hpq =>
    cases h with
    | method hf hi =>
      cases h' with
      | method hf' hi' =>
        obtain rfl := hf.determined hitems hf'
        exact ⟨by rw [hitems.passing, hi.unique hT hi'], rfl, rfl⟩
  | toText hpq =>
    cases h with
    | string _ hp =>
      cases h' with
      | string => exact ⟨rfl, hpq⟩
      | text _ hq => exact absurd (hpq.type ▸ hp) hq
      | textKnown _ hq => exact absurd (hpq.type ▸ hp) hq
    | text _ hp hc =>
      cases h' with
      | string _ hq => exact absurd (hpq.type ▸ hq) hp
      | text => exact ⟨rfl, rfl, rfl⟩
      | textKnown _ _ hc' => cases hc.symm.trans (hpq.constant.trans hc')
    | textKnown _ hp hc hw hjs =>
      cases h' with
      | string _ hq => exact absurd (hpq.type ▸ hq) hp
      | text _ _ hc' => cases hc.symm.trans (hpq.constant.trans hc')
      | textKnown _ _ hc' hw' hks =>
        obtain rfl := Option.some.inj (hc.symm.trans (hpq.constant.trans hc'))
        obtain rfl := Except.ok.inj (hw.symm.trans hw')
        exact ⟨hjs.unique hT hks rfl, rfl, rfl⟩

/-! ## Expressions -/

theorem pure_injective {α : Type} {a b : α} (h : (pure a : Compiling α) = pure b) : a = b :=
  Except.ok.inj (Prod.mk.inj (congrFun h (⟨.start .empty, .empty⟩ : CodeState))).1

theorem placeOf_like {m m' : Meaning} {place place' : Place} {sp sp' : Span} (hm : m.Like m')
    (h : placeOf site m sp = pure place)
    (h' : placeOf { site with release := r } m' sp' = pure place') : place = place' := by
  cases hm with
  | localVar slot type => exact (pure_injective h).symm.trans (pure_injective h')
  | field cls f =>
    have h' : placeOf site (.field cls f) sp' = pure place' := h'
    unfold placeOf at h h'
    dsimp only at h h'
    split at h
    · next hw =>
      rw [if_pos hw] at h'
      exact (pure_injective h).symm.trans (pure_injective h')
    · cases congrFun h (⟨.start .empty, .empty⟩ : CodeState)
  | _ => cases congrFun h (⟨.start .empty, .empty⟩ : CodeState)

/-- Members of what is no value are looked up, which needs no offset. -/
theorem member_like {m m' n n' : Meaning} {sp : Span} {name : Ident} (hm : isName m = true)
    (hlike : m.Like m') (h : memberMeaning site m sp name = pure n)
    (h' : memberMeaning { site with release := r } m' sp name = pure n') : n.Like n' := by
  obtain rfl : m = m' := by cases hlike <;> first | rfl | cases hm
  have h' : memberMeaning site m sp name = pure n' := h'
  obtain rfl := pure_injective (h.symm.trans h')
  exact .refl n

theorem Callee.Like.of_methods {c d : Callee} {name name' : String}
    (h : Meaning.Like (.methods c name) (.methods d name')) : c.Like d ∧ name = name' := by
  cases h with
  | methods h => exact ⟨h, rfl⟩

/-- Steps are no operators that are applied to a value. -/
theorem unaryOp?_counting {op : UnaryOp} (h : op = .increment ∨ op = .decrement)
    (type : ValueType) : unaryOp? op type = none := by
  rcases h with rfl | rfl <;> rfl

mutual

/-- The code of an expression is determined, and what it means behind it but for offsets. -/
theorem Means.unique (hT : T.Distinct) {use : Use} {e : Expr} {is js : Asm} {m m' : Meaning} :
    Means T site locals use e is m → Means T { site with release := r } locals use e js m' →
      is = js ∧ m.Like m'
  | .literal h, .literal h' => ⟨h.unique hT h' rfl, .value ⟨rfl, rfl⟩⟩
  | .ident h, .ident h' => by
    have h' : nameMeaning site locals _ = pure m' := h'
    obtain rfl := pure_injective (h.symm.trans h')
    exact ⟨rfl, .refl m⟩
  | .this h, .this h' => by
    have h' : thisMeaning site _ = pure m' := h'
    obtain rfl := pure_injective (h.symm.trans h')
    exact ⟨rfl, .refl m⟩
  | .member h hm hm', h' => by
    cases h' with
    | member h₁ _ hm₁ =>
      obtain ⟨rfl, hlike⟩ := h.unique hT h₁
      exact ⟨rfl, member_like hm hlike hm' hm₁⟩
    | length h₁ | lengthKnown h₁ | text h₁ | methods h₁ =>
      obtain ⟨h₁, hmat⟩ := h₁
      obtain ⟨-, hlike⟩ := h.unique hT h₁
      cases hm.symm.trans ((isName_like hlike).trans hmat.isName)
  | .length h hp hname hc, h' => by
    obtain ⟨hvalue, hnoName⟩ := h.unique hT
    cases h' with
    | member h₁ hm₁ => cases hm₁.symm.trans (hnoName _ _ h₁)
    | length h₁ =>
      obtain ⟨rfl, -⟩ := hvalue _ _ h₁
      exact ⟨rfl, .value ⟨rfl, rfl⟩⟩
    | lengthKnown h₁ _ _ hc₁ =>
      obtain ⟨-, hpq⟩ := hvalue _ _ h₁
      cases hc.symm.trans (hpq.constant.trans hc₁)
    | text h₁ _ hname₁ => simp [hname] at hname₁
    | methods h₁ hlength =>
      obtain ⟨-, hpq⟩ := hvalue _ _ h₁
      exact absurd ⟨hpq.type ▸ hp, hname⟩ hlength
  | .lengthKnown h hp hname hc hw hjs, h' => by
    obtain ⟨hvalue, hnoName⟩ := h.unique hT
    cases h' with
    | member h₁ hm₁ => cases hm₁.symm.trans (hnoName _ _ h₁)
    | length h₁ _ _ hc₁ =>
      obtain ⟨-, hpq⟩ := hvalue _ _ h₁
      cases hc.symm.trans (hpq.constant.trans hc₁)
    | lengthKnown h₁ _ _ hc₁ hw₁ hks =>
      obtain ⟨-, hpq⟩ := hvalue _ _ h₁
      obtain rfl := Option.some.inj (hc.symm.trans (hpq.constant.trans hc₁))
      obtain rfl := Except.ok.inj (hw.symm.trans hw₁)
      exact ⟨hjs.unique hT hks rfl, .value ⟨rfl, rfl⟩⟩
    | text h₁ _ hname₁ => simp [hname] at hname₁
    | methods h₁ hlength =>
      obtain ⟨-, hpq⟩ := hvalue _ _ h₁
      exact absurd ⟨hpq.type ▸ hp, hname⟩ hlength
  | .text h hp hname, h' => by
    obtain ⟨hvalue, hnoName⟩ := h.unique hT
    cases h' with
    | member h₁ hm₁ => cases hm₁.symm.trans (hnoName _ _ h₁)
    | length _ _ hname₁ => simp [hname] at hname₁
    | lengthKnown _ _ hname₁ => simp [hname] at hname₁
    | text h₁ =>
      obtain ⟨rfl, hpq⟩ := hvalue _ _ h₁
      exact ⟨rfl, .methods (.toText hpq) _⟩
    | methods h₁ _ htext =>
      obtain ⟨-, hpq⟩ := hvalue _ _ h₁
      exact absurd ⟨hname, hpq.type ▸ hp⟩ htext
  | .methods h hlength htext hc, h' => by
    obtain ⟨hvalue, hnoName⟩ := h.unique hT
    cases h' with
    | member h₁ hm₁ => cases hm₁.symm.trans (hnoName _ _ h₁)
    | length h₁ hp₁ hname₁ =>
      obtain ⟨-, hpq⟩ := hvalue _ _ h₁
      exact absurd ⟨hpq.type.trans hp₁, hname₁⟩ hlength
    | lengthKnown h₁ hp₁ hname₁ =>
      obtain ⟨-, hpq⟩ := hvalue _ _ h₁
      exact absurd ⟨hpq.type.trans hp₁, hname₁⟩ hlength
    | text h₁ hp₁ hname₁ =>
      obtain ⟨-, hpq⟩ := hvalue _ _ h₁
      exact absurd ⟨hname₁, hpq.type ▸ hp₁⟩ htext
    | methods h₁ _ _ hc₁ =>
      obtain ⟨rfl, hpq⟩ := hvalue _ _ h₁
      rw [hpq.type] at hc
      obtain rfl := Option.some.inj (hc.symm.trans hc₁)
      exact ⟨rfl, .methods (.method _ hpq) _⟩
  | .bare h, h' => by
    cases h' with
    | bare h₁ => exact h.unique hT h₁
    | paren huse => exact absurd rfl huse
  | .paren huse h, h' => by
    cases h' with
    | bare => exact absurd rfl huse
    | paren _ h₁ =>
      obtain ⟨rfl, hpq⟩ := (h.unique hT).1 _ _ h₁
      exact ⟨rfl, .value hpq⟩
  | .logical hop hl hr hlt hrt hc, h' => by
    have hleft := (hl.unique hT).1
    have hright := (hr.unique hT).1
    cases h' with
    | logical _ hl₁ hr₁ =>
      obtain ⟨rfl, -⟩ := hleft _ _ hl₁
      obtain ⟨rfl, -⟩ := hright _ _ hr₁
      exact ⟨rfl, .value ⟨rfl, rfl⟩⟩
    | logicalKnown _ hl₁ hr₁ _ _ ha hb =>
      obtain ⟨-, hla⟩ := hleft _ _ hl₁
      obtain ⟨-, hrb⟩ := hright _ _ hr₁
      exact absurd (hrb.constant.trans hb) (hc _ _ (hla.constant.trans ha))
    | binary hop₁ => cases hop.symm.trans hop₁
    | binaryKnown hop₁ => cases hop.symm.trans hop₁
  | .logicalKnown hop hl hr hlt hrt ha hb hks, h' => by
    have hleft := (hl.unique hT).1
    have hright := (hr.unique hT).1
    cases h' with
    | logical _ hl₁ hr₁ _ _ hc =>
      obtain ⟨-, hla⟩ := hleft _ _ hl₁
      obtain ⟨-, hrb⟩ := hright _ _ hr₁
      exact absurd (hrb.constant.symm.trans hb) (hc _ _ (hla.constant.symm.trans ha))
    | logicalKnown _ hl₁ hr₁ _ _ ha₁ hb₁ hls =>
      obtain ⟨-, hla⟩ := hleft _ _ hl₁
      obtain ⟨-, hrb⟩ := hright _ _ hr₁
      cases ha.symm.trans (hla.constant.trans ha₁)
      cases hb.symm.trans (hrb.constant.trans hb₁)
      exact ⟨hks.unique hT hls rfl, .value ⟨rfl, rfl⟩⟩
    | binary hop₁ => cases hop.symm.trans hop₁
    | binaryKnown hop₁ => cases hop.symm.trans hop₁
  | .binary hop hl hr hplan hl' hr' hc, h' => by
    have hleft := (hl.unique hT).1
    have hright := (hr.unique hT).1
    cases h' with
    | logical hop₁ => cases hop.symm.trans hop₁
    | logicalKnown hop₁ => cases hop.symm.trans hop₁
    | binary _ hl₁ hr₁ hplan₁ =>
      obtain ⟨rfl, hla⟩ := hleft _ _ hl₁
      obtain ⟨rfl, hrb⟩ := hright _ _ hr₁
      rw [hla.type, hrb.type] at hplan
      obtain rfl := Option.some.inj (hplan.symm.trans hplan₁)
      exact ⟨rfl, .value ⟨rfl, rfl⟩⟩
    | binaryKnown _ hl₁ hr₁ hplan₁ hl₁' hr₁' ha hb =>
      obtain ⟨-, hla⟩ := hleft _ _ hl₁
      obtain ⟨-, hrb⟩ := hright _ _ hr₁
      rw [hla.type, hrb.type] at hplan
      obtain rfl := Option.some.inj (hplan.symm.trans hplan₁)
      have hla' := hl'.like hla hl₁'
      have hrb' := hr'.like hrb hr₁'
      rw [hla'.constant, hrb'.constant, ha, hb] at hc
      simp at hc
  | .binaryKnown hop hl hr hplan hl' hr' ha hb hv hks, h' => by
    have hleft := (hl.unique hT).1
    have hright := (hr.unique hT).1
    cases h' with
    | logical hop₁ => cases hop.symm.trans hop₁
    | logicalKnown hop₁ => cases hop.symm.trans hop₁
    | binary _ hl₁ hr₁ hplan₁ hl₁' hr₁' hc =>
      obtain ⟨-, hla⟩ := hleft _ _ hl₁
      obtain ⟨-, hrb⟩ := hright _ _ hr₁
      rw [hla.type, hrb.type] at hplan
      obtain rfl := Option.some.inj (hplan.symm.trans hplan₁)
      have hla' := hl'.like hla hl₁'
      have hrb' := hr'.like hrb hr₁'
      rw [← hla'.constant, ← hrb'.constant, ha, hb] at hc
      simp at hc
    | binaryKnown _ hl₁ hr₁ hplan₁ hl₁' hr₁' ha₁ hb₁ hv₁ hls =>
      obtain ⟨-, hla⟩ := hleft _ _ hl₁
      obtain ⟨-, hrb⟩ := hright _ _ hr₁
      rw [hla.type, hrb.type] at hplan
      obtain rfl := Option.some.inj (hplan.symm.trans hplan₁)
      have hla' := hl'.like hla hl₁'
      have hrb' := hr'.like hrb hr₁'
      obtain rfl := Option.some.inj (ha.symm.trans (hla'.constant.trans ha₁))
      obtain rfl := Option.some.inj (hb.symm.trans (hrb'.constant.trans hb₁))
      obtain rfl := Except.ok.inj (hv.symm.trans hv₁)
      exact ⟨hks.unique hT hls rfl, .value ⟨rfl, rfl⟩⟩
  | .same h hop, h' => by
    have hvalue := (h.unique hT).1
    cases h' with
    | same h₁ =>
      obtain ⟨rfl, hpq⟩ := hvalue _ _ h₁
      exact ⟨rfl, .value hpq⟩
    | unary h₁ hop₁ =>
      obtain ⟨-, hpq⟩ := hvalue _ _ h₁
      cases hop.symm.trans (hpq.type ▸ hop₁)
    | unaryKnown h₁ hop₁ =>
      obtain ⟨-, hpq⟩ := hvalue _ _ h₁
      cases hop.symm.trans (hpq.type ▸ hop₁)
    | before hop₁ => cases hop.symm.trans (unaryOp?_counting hop₁ _)
  | .unary h hop hc, h' => by
    have hvalue := (h.unique hT).1
    cases h' with
    | same h₁ hop₁ =>
      obtain ⟨-, hpq⟩ := hvalue _ _ h₁
      cases hop.symm.trans (hpq.type ▸ hop₁)
    | unary h₁ hop₁ =>
      obtain ⟨rfl, hpq⟩ := hvalue _ _ h₁
      cases hop.symm.trans (hpq.type ▸ hop₁)
      exact ⟨rfl, .value ⟨hpq.type, rfl⟩⟩
    | unaryKnown h₁ _ hc₁ =>
      obtain ⟨-, hpq⟩ := hvalue _ _ h₁
      cases hc.symm.trans (hpq.constant.trans hc₁)
    | before hop₁ => cases hop.symm.trans (unaryOp?_counting hop₁ _)
  | .unaryKnown h hop hc hw hjs, h' => by
    have hvalue := (h.unique hT).1
    cases h' with
    | same h₁ hop₁ =>
      obtain ⟨-, hpq⟩ := hvalue _ _ h₁
      cases hop.symm.trans (hpq.type ▸ hop₁)
    | unary h₁ _ hc₁ =>
      obtain ⟨-, hpq⟩ := hvalue _ _ h₁
      cases hc.symm.trans (hpq.constant.trans hc₁)
    | unaryKnown h₁ hop₁ hc₁ hw₁ hks =>
      obtain ⟨-, hpq⟩ := hvalue _ _ h₁
      cases hop.symm.trans (hpq.type ▸ hop₁)
      obtain rfl := Option.some.inj (hc.symm.trans (hpq.constant.trans hc₁))
      obtain rfl := Except.ok.inj (hw.symm.trans hw₁)
      exact ⟨hjs.unique hT hks rfl, .value ⟨rfl, rfl⟩⟩
    | before hop₁ => cases hop.symm.trans (unaryOp?_counting hop₁ _)
  | .before hop h hplace hn hjs, h' => by
    cases h' with
    | same _ hop₁ => cases hop₁.symm.trans (unaryOp?_counting hop _)
    | unary _ hop₁ => cases hop₁.symm.trans (unaryOp?_counting hop _)
    | unaryKnown _ hop₁ => cases hop₁.symm.trans (unaryOp?_counting hop _)
    | before _ h₁ hplace₁ _ hks =>
      obtain ⟨rfl, hm⟩ := h.unique hT h₁
      obtain rfl := placeOf_like hm hplace hplace₁
      exact ⟨by rw [hjs.unique hT hks rfl], .value ⟨rfl, rfl⟩⟩
  | .behind h hplace hn hjs, .behind h₁ hplace₁ _ hks => by
    obtain ⟨rfl, hm⟩ := h.unique hT h₁
    obtain rfl := placeOf_like hm hplace hplace₁
    exact ⟨by rw [hjs.unique hT hks rfl], .value ⟨rfl, rfl⟩⟩
  | .assign hop h hplace hv hc, h' => by
    have hvalue := (hv.unique hT).1
    cases h' with
    | assign _ h₁ hplace₁ hv₁ hc₁ =>
      obtain ⟨rfl, hm⟩ := h.unique hT h₁
      obtain rfl := placeOf_like hm hplace hplace₁
      obtain ⟨rfl, hpq⟩ := hvalue _ _ hv₁
      obtain ⟨rfl, -⟩ := hc.unique hT hpq hc₁
      exact ⟨rfl, .value ⟨rfl, rfl⟩⟩
    | compound hop₁ => cases hop.symm.trans hop₁
  | .compound hop h hplace hv hplan hres hp, h' => by
    have hvalue := (hv.unique hT).1
    cases h' with
    | assign hop₁ => cases hop.symm.trans hop₁
    | compound hop₁ h₁ hplace₁ hv₁ hplan₁ =>
      obtain rfl := Option.some.inj (hop.symm.trans hop₁)
      obtain ⟨rfl, hm⟩ := h.unique hT h₁
      obtain rfl := placeOf_like hm hplace hplace₁
      obtain ⟨rfl, hpq⟩ := hvalue _ _ hv₁
      rw [hpq.type] at hplan
      obtain rfl := Option.some.inj (hplan.symm.trans hplan₁)
      exact ⟨rfl, .value ⟨rfl, rfl⟩⟩
  | .conditional h hc hyes hno htype hk, h' => by
    have hcondition := (h.unique hT).1
    have hfirst := (hyes.unique hT).1
    have hsecond := (hno.unique hT).1
    cases h' with
    | conditional h₁ hc₁ hyes₁ hno₁ htype₁ =>
      obtain ⟨rfl, hpq⟩ := hcondition _ _ h₁
      obtain ⟨rfl, -⟩ := hc.unique hT hpq hc₁
      obtain ⟨rfl, ha⟩ := hfirst _ _ hyes₁
      obtain ⟨rfl, hb⟩ := hsecond _ _ hno₁
      rw [ha.type, hb.type] at htype
      obtain rfl := Option.some.inj (htype.symm.trans htype₁)
      exact ⟨by rw [ha.type, hb.type], .value ⟨rfl, rfl⟩⟩
    | conditionalKnown h₁ hc₁ hyes₁ hno₁ _ hu hv hw =>
      obtain ⟨rfl, hpq⟩ := hcondition _ _ h₁
      obtain ⟨-, hc'⟩ := hc.unique hT hpq hc₁
      obtain ⟨-, ha⟩ := hfirst _ _ hyes₁
      obtain ⟨-, hb⟩ := hsecond _ _ hno₁
      rw [hc'.constant, ha.constant, hb.constant, hu, hv, hw] at hk
      simp at hk
  | .conditionalKnown h hc hyes hno htype hu hv hw hx hls, h' => by
    have hcondition := (h.unique hT).1
    have hfirst := (hyes.unique hT).1
    have hsecond := (hno.unique hT).1
    cases h' with
    | conditional h₁ hc₁ hyes₁ hno₁ _ hk =>
      obtain ⟨rfl, hpq⟩ := hcondition _ _ h₁
      obtain ⟨-, hc'⟩ := hc.unique hT hpq hc₁
      obtain ⟨-, ha⟩ := hfirst _ _ hyes₁
      obtain ⟨-, hb⟩ := hsecond _ _ hno₁
      rw [← hc'.constant, ← ha.constant, ← hb.constant, hu, hv, hw] at hk
      simp at hk
    | conditionalKnown h₁ hc₁ hyes₁ hno₁ htype₁ hu₁ hv₁ hw₁ hx₁ hls₁ =>
      obtain ⟨rfl, hpq⟩ := hcondition _ _ h₁
      obtain ⟨-, hc'⟩ := hc.unique hT hpq hc₁
      obtain ⟨-, ha⟩ := hfirst _ _ hyes₁
      obtain ⟨-, hb⟩ := hsecond _ _ hno₁
      rw [ha.type, hb.type] at htype
      obtain rfl := Option.some.inj (htype.symm.trans htype₁)
      obtain rfl := Option.some.inj (hu.symm.trans (hc'.constant.trans hu₁))
      obtain rfl := Option.some.inj (hv.symm.trans (ha.constant.trans hv₁))
      obtain rfl := Option.some.inj (hw.symm.trans (hb.constant.trans hw₁))
      obtain rfl := Option.some.inj (hx.symm.trans hx₁)
      exact ⟨hls.unique hT hls₁ rfl, .value ⟨rfl, rfl⟩⟩
  | .call h hargs hcall, .call h₁ hargs₁ hcall₁ => by
    obtain ⟨rfl, hm⟩ := h.unique hT h₁
    obtain ⟨hcallee, rfl⟩ := Callee.Like.of_methods hm
    obtain ⟨rfl, hpq⟩ := hcall.unique hT (hargs.unique hT hargs₁) hcallee hcall₁
    exact ⟨rfl, .value hpq⟩

theorem Values.unique (hT : T.Distinct) {e : Expr} {is : Asm} {p : Pushed} :
    Values T site locals e is p →
    (∀ js q, Values T { site with release := r } locals e js q → is = js ∧ p.Like q) ∧
      ∀ js m, Means T { site with release := r } locals .value e js m → isName m = false
  | .intro h hp => by
    refine ⟨?_, fun js m h' => ?_⟩
    · rintro js q ⟨h', hq⟩
      obtain ⟨rfl, hm⟩ := h.unique hT h'
      obtain ⟨rfl, hpq⟩ := hp.unique hT hm hq
      exact ⟨rfl, hpq⟩
    · obtain ⟨-, hm⟩ := h.unique hT h'
      rw [← isName_like hm, hp.isName]

theorem Passes.unique (hT : T.Distinct) {es : List Expr} {items items' : List (Asm × Pushed)} :
    Passes T site locals es items → Passes T { site with release := r } locals es items' →
      SameArguments items items'
  | .nil, .nil => .nil
  | .cons h hs, .cons h' hs' => .cons ((h.unique hT).1 _ _ h') (hs.unique hT hs')

end

/-! ## Parts of statements -/

theorem Evaluates.unique (hT : T.Distinct) {e : Expr} {type : ValueType}
    (h : Evaluates T site locals e type is p)
    (h' : Evaluates T { site with release := r } locals e type js q) : is = js ∧ p.Like q := by
  obtain ⟨hv, hc⟩ := h
  obtain ⟨hv', hc'⟩ := h'
  obtain ⟨rfl, hpq⟩ := (hv.unique hT).1 _ _ hv'
  exact hc.unique hT hpq hc'

theorem Tests.unique (hT : T.Distinct) {e : Expr} {known known' : Option Bool}
    (h : Tests T site locals e is known)
    (h' : Tests T { site with release := r } locals e js known') : is = js ∧ known = known' := by
  cases h with
  | known he hb =>
    cases h' with
    | known he' hb' =>
      obtain ⟨rfl, hpq⟩ := he.unique hT he'
      cases hb.symm.trans (hpq.constant.trans hb')
      exact ⟨rfl, rfl⟩
    | unknown he' hb' =>
      obtain ⟨-, hpq⟩ := he.unique hT he'
      exact absurd (hpq.constant.symm.trans hb) (hb' _)
  | unknown he hb =>
    cases h' with
    | known he' hb' =>
      obtain ⟨-, hpq⟩ := he.unique hT he'
      exact absurd (hpq.constant.trans hb') (hb _)
    | unknown he' => exact ⟨(he.unique hT he').1, rfl⟩

theorem Heads.unique (hT : T.Distinct) {cond : Option Expr} {known known' : Option Bool}
    (h : Heads T site locals cond is known)
    (h' : Heads T { site with release := r } locals cond js known') : is = js ∧ known = known' := by
  cases h with
  | always =>
    cases h'
    exact ⟨rfl, rfl⟩
  | tested h =>
    cases h' with
    | tested h' => exact h.unique hT h'

theorem Acts.unique (hT : T.Distinct) {e : Expr} (h : Acts T site locals e is)
    (h' : Acts T { site with release := r } locals e js) : is = js := by
  obtain ⟨hm, hp⟩ := h
  obtain ⟨hm', hp'⟩ := h'
  obtain ⟨rfl, hlike⟩ := hm.unique hT hm'
  obtain ⟨rfl, hpq⟩ := hp.unique hT hlike hp'
  rw [popping, popping, hpq.type]

theorem ActsAll.unique (hT : T.Distinct) {es : List Expr} (h : ActsAll T site locals es is)
    (h' : ActsAll T { site with release := r } locals es js) : is = js := by
  induction h generalizing js with
  | nil =>
    cases h'
    rfl
  | cons h _ ih =>
    cases h' with
    | cons h' hs' => rw [h.unique hT h', ih hs']

theorem Begins.unique (hT : T.Distinct) {v : Declarator} {declared : Option ValueType}
    {type type' : ValueType} (h : Begins T site locals v declared is type)
    (h' : Begins T { site with release := r } locals v declared js type') :
    is = js ∧ type = type' := by
  cases h with
  | given hv he =>
    cases h' with
    | given hv' he' =>
      obtain rfl := Option.some.inj (hv.symm.trans hv')
      exact ⟨(he.unique hT he').1, rfl⟩
    | default hv' => cases hv.symm.trans hv'
  | default hv hp =>
    cases h' with
    | given hv' => cases hv.symm.trans hv'
    | default _ hp' => exact ⟨hp.unique hT hp' rfl, rfl⟩
  | inferred hv he =>
    cases h' with
    | inferred hv' he' =>
      obtain rfl := Option.some.inj (hv.symm.trans hv')
      obtain ⟨rfl, hpq⟩ := (he.unique hT).1 _ _ he'
      exact ⟨rfl, hpq.type⟩

variable {l l' : LocalScope}

theorem Declares.unique (hT : T.Distinct) {declared : Option ValueType} {vs : List Declarator}
    (h : Declares T site declared vs locals is l)
    (h' : Declares T { site with release := r } declared vs locals js l') : is = js ∧ l = l' := by
  induction h generalizing js with
  | nil =>
    cases h'
    exact ⟨rfl, rfl⟩
  | cons h _ _ ih =>
    cases h' with
    | cons h' _ hs' =>
      obtain ⟨rfl, rfl⟩ := h.unique hT h'
      obtain ⟨rfl, rfl⟩ := ih hs'
      exact ⟨rfl, rfl⟩

theorem DeclaresAll.unique (hT : T.Distinct) {d : VarDecl} (h : DeclaresAll T site d locals is l)
    (h' : DeclaresAll T { site with release := r } d locals js l') : is = js ∧ l = l' := by
  obtain ⟨hd, h⟩ := h
  obtain ⟨hd', h'⟩ := h'
  obtain rfl := Except.ok.inj (hd.symm.trans hd')
  exact h.unique hT h'

theorem Starts.unique (hT : T.Distinct) {first : Option ForInit} (h : Starts T site locals first is l)
    (h' : Starts T { site with release := r } locals first js l') : is = js ∧ l = l' := by
  cases h with
  | none =>
    cases h'
    exact ⟨rfl, rfl⟩
  | decl h =>
    cases h' with
    | decl h' => exact h.unique hT h'
  | exprs h =>
    cases h' with
    | exprs h' => exact ⟨h.unique hT h', rfl⟩

/-! ## Parts of methods -/

theorem Enters.unique {ps : List Param} {ts : List ValueType} (h : Enters ps ts locals l)
    (h' : Enters ps ts locals l') : l = l' := by
  induction h with
  | none hnil =>
    cases h' with
    | none => rfl
    | cons => simp at hnil
  | cons _ _ ih =>
    cases h' with
    | none hnil => simp at hnil
    | cons _ h' => exact ih h'

theorem Initializes.unique (hT : T.Distinct) {op : Opcode} {fs : List FieldSymbol}
    (h : Initializes T site op fs is) (h' : Initializes T { site with release := r } op fs js) :
    is = js := by
  induction h generalizing js with
  | nil =>
    cases h'
    rfl
  | unset hv _ ih =>
    cases h' with
    | unset _ h' => exact ih h'
    | set hv' => cases hv.symm.trans hv'
  | set hv he _ ih =>
    cases h' with
    | unset hv' => cases hv.symm.trans hv'
    | set hv' he' hs' =>
      obtain rfl := Option.some.inj (hv.symm.trans hv')
      rw [(he.unique hT he').1, ih hs']

theorem Prologue.unique (hT : T.Distinct) {c : ClassSite} {kind : MethodKind}
    (h : Prologue T c kind is) (h' : Prologue T { c with release := r } kind js) : is = js := by
  cases kind with
  | method => exact Eq.trans h (Eq.symm h')
  | constructor => exact Initializes.unique hT h h'
  | typeInitializer => exact Initializes.unique hT h h'

end Layout
end ClassScript
