import ClassScript.Proofs.Layout.Operator

/-!
Compiling an expression writes the code that its layout spells.

The walk over the tree is followed by one induction on the tree. What is known of a part is what is
claimed of the whole, so every form of expression is one case that puts the lemmas about its steps
together.
-/

namespace ClassScript.Layout

open Code (Instruction)
open Compile

variable {site : Site} {locals : LocalScope} {use : Use} {s t u : CodeState} {m : Meaning}
  {p : Pushed} {sp : Span} {depth : Nat} {e : Expr}

/-! ## Members of values -/

theorem lengthOf_meant (hs : s.Sound site.symbols.libraries) {name : Ident}
    (hp : Valued site locals e s t p) (hstring : p.type = .string) (hname : name.name = "Length")
    (h : Returns (lengthOf p name.span) t m u) :
    Meant site locals use (.member e name sp) s u m := by
  obtain ⟨is, hw, hvalues, hstart⟩ := hp
  unfold lengthOf at h
  split at h
  · next x hx =>
    obtain ⟨w, _, hfold, h⟩ := Returns.bind h
    obtain ⟨hval, rfl⟩ := Returns.fold_iff.mp hfold
    obtain ⟨q, _, hreplace, h⟩ := Returns.bind h
    obtain ⟨rfl, rfl⟩ := Returns.pure_iff.mp h
    have hgrew := Grows.replace _ _ _ _ _ hreplace
    obtain ⟨rfl, js, hj, hpush⟩ := replace_written hs hw hstart hreplace
    exact .value hj (fun T hT =>
      .lengthKnown (hvalues T (hgrew.within hT)) hstring hname hx hval (hpush T hT)) rfl
  · next hx =>
    obtain ⟨_, _, hemit, h⟩ := Returns.bind h
    obtain ⟨rfl, rfl⟩ := Returns.pure_iff.mp h
    obtain rfl := Returns.emit_iff.mp hemit
    have hj := Wrote.emit hw.sound .strLen rfl
    exact .value (hw.trans hj)
      (fun T hT => .length (hvalues T (hj.grew.within hT)) hstring hname hx) hstart

theorem valueMember_meant (hs : s.Sound site.symbols.libraries) {name : Ident}
    (hp : Valued site locals e s t p) (h : Returns (valueMember site p name) t m u) :
    Meant site locals use (.member e name sp) s u m := by
  unfold valueMember at h
  split at h
  · next hlength => exact lengthOf_meant hs hp hlength.1 hlength.2 h
  · next hlength =>
    obtain ⟨is, hw, hvalues, hstart⟩ := hp
    split at h
    · next htext =>
      obtain ⟨rfl, rfl⟩ := Returns.pure_iff.mp h
      have hvoid : p.type ≠ .void := by
        intro hv
        simp [hv, ValueType.isVoid] at htext
      exact ⟨is, hw, fun T hT => .text (hvalues T hT) hvoid htext.1, hstart, trivial,
        by simp [isPushed]⟩
    · next htext =>
      have htext : ¬(name.name = "ToString" ∧ p.type ≠ .void) := by
        rintro ⟨hname, hvoid⟩
        exact htext ⟨hname, by cases ht : p.type <;> simp_all [ValueType.isVoid]⟩
      split at h
      · next c hc =>
        split at h
        · simp at h
        · obtain ⟨rfl, rfl⟩ := Returns.pure_iff.mp h
          exact ⟨is, hw, fun T hT => .methods (hvalues T hT) hlength htext hc, hstart,
            mem_of_keywordClass? hc, by simp [isPushed]⟩
      · simp at h

theorem memberMeaning_meant {object : Meaning} {name : Ident} (hs : s.Sound site.symbols.libraries)
    (hm : Meant site locals .value e s t object)
    (h : Returns (memberMeaning site object e.span name) t m u) :
    Meant site locals use (.member e name sp) s u m := by
  have pushed {p : Pushed} {v : CodeState} (hmat : Returns (materialize site object e.span) t p v)
      (hmember : Returns (valueMember site p name) v m u) :
      Meant site locals use (.member e name sp) s u m :=
    valueMember_meant hs (hm.materialize hmat) hmember
  by_cases hname : isName object = true
  · obtain ⟨is, hw, hmeans, -, hknown, hnil⟩ := hm
    obtain ⟨heq, rfl⟩ := (isLookup_member hname name).eq h
    obtain ⟨hk, hpushed⟩ := known_member hname hknown h
    have : is = [] := hnil (by cases object <;> simp_all [isName, isPushed])
    subst this
    exact ⟨[], hw, fun T hT => .member (hmeans T hT) hname heq, startsAt_of_not_pushed hpushed, hk,
      fun _ => rfl⟩
  · cases object with
    | methods callee group => simp [memberMeaning] at h
    | space | type | this => simp [isName] at hname
    | localVar | field | constant | value =>
      obtain ⟨p, v, hmat, hmember⟩ := Returns.bind h
      exact pushed hmat hmember

/-! ## Parts -/

/-- What the induction gives for a part. -/
def Sound (site : Site) (locals : LocalScope) (use : Use) (e : Expr) : Prop :=
  ∀ depth s t m, s.Sound site.symbols.libraries → Returns (meaning site locals depth use e) s m t →
    Meant site locals use e s t m

def SoundArguments (site : Site) (locals : LocalScope) (es : List Expr) : Prop :=
  ∀ depth s t args, s.Sound site.symbols.libraries →
    Returns (arguments site locals depth es) s args t → ∃ items, Laid s.emitter.offset args items ∧
      Wrote site.symbols.libraries s t (items.flatMap (·.1)) ∧
      ∀ T, t.Within T → Passes T site locals es items

theorem Sound.asValue (ih : Sound site locals .value e) (hs : s.Sound site.symbols.libraries)
    (h : Returns (asValue site depth e fun d => meaning site locals d .value e) s p t) :
    Valued site locals e s t p := by
  obtain ⟨m, u, henter, hmat⟩ := Returns.bind h
  obtain ⟨-, hm⟩ := Returns.enter_iff.mp henter
  exact (ih _ _ _ _ hs hm).materialize hmat

theorem Sound.asObject (ih : Sound site locals .value e) (hs : s.Sound site.symbols.libraries)
    (h : Returns (asObject depth e fun d => meaning site locals d .value e) s m t) :
    Meant site locals .value e s t m :=
  ih _ _ _ _ hs (Returns.enter_iff.mp h).2

theorem Sound.asName (ih : Sound site locals .bare e) {other : Compiling Meaning}
    (hother : ∀ s m t, ¬Returns other s m t) (hs : s.Sound site.symbols.libraries)
    (h : Returns (asName depth e other fun d => meaning site locals d .bare e) s m t) :
    Meant site locals .bare e s t m := by
  unfold Compile.asName at h
  split at h
  · exact ih _ _ _ _ hs h
  · exact ih _ _ _ _ hs (Returns.enter_iff.mp h).2
  · exact (hother _ _ _ h).elim

theorem not_pushed_of_place (s : CodeState) {place : Place}
    (h : placeOf site m sp = pure place) : isPushed m = false := by
  have h : Returns (placeOf site m sp) s place s := by rw [h]; exact Returns.pure
  cases m with
  | localVar | field => rfl
  | _ => simp [placeOf] at h

/-- The code of the name of a place is empty. -/
theorem Sound.asPlace (ih : Sound site locals .bare e) {place : Place}
    (hs : s.Sound site.symbols.libraries)
    (h : Returns (asPlace site depth e fun d => meaning site locals d .bare e) s place t) :
    ∃ m, Wrote site.symbols.libraries s t [] ∧ placeOf site m e.bare.span = pure place ∧
      ∀ T, t.Within T → Means T site locals .bare e [] m := by
  obtain ⟨m, u, hname, hplace⟩ := Returns.bind h
  obtain ⟨is, hw, hmeans, -, -, hnil⟩ := ih.asName (by simp) hs hname
  obtain ⟨heq, rfl⟩ := isLookup_placeOf.eq hplace
  have : is = [] := hnil (not_pushed_of_place u heq)
  subst this
  exact ⟨m, hw, heq, hmeans⟩

/-! ## Forms of expressions -/

theorem Sound.literal {lit : Literal} : Sound site locals use (.literal lit sp) := by
  intro depth s t m hs h
  simp only [meaning] at h
  obtain ⟨p, _, hpush, h⟩ := Returns.bind h
  obtain ⟨rfl, rfl⟩ := Returns.pure_iff.mp h
  obtain ⟨rfl, is, hw, hpushes⟩ := push_written hs hpush
  exact .value hw (fun T hT => .literal (hpushes T hT)) rfl

theorem Sound.ident {name : Ident} : Sound site locals use (.ident name) := by
  intro depth s t m hs h
  simp only [meaning] at h
  obtain ⟨hknown, hpushed⟩ := known_name h
  obtain ⟨heq, rfl⟩ := (isLookup_name name).eq h
  exact .name hs (fun T => .ident heq) (startsAt_of_not_pushed hpushed) hknown

theorem Sound.this : Sound site locals use (.this sp) := by
  intro depth s t m hs h
  simp only [meaning] at h
  obtain ⟨heq, rfl⟩ := isLookup_this.eq h
  have hm : m = .this := by
    unfold thisMeaning at h
    split at h
    · simp at h
    · exact (Returns.pure_iff.mp h).1.symm
  subst hm
  exact .name hs (fun T => .this heq) trivial trivial

theorem Sound.member {object : Expr} {name : Ident} (ih : Sound site locals .value object) :
    Sound site locals use (.member object name sp) := by
  intro depth s t m hs h
  simp only [meaning] at h
  obtain ⟨object', u, hobject, h⟩ := Returns.bind h
  exact memberMeaning_meant hs (ih.asObject hs hobject) h

theorem Sound.paren {inner : Expr} (ih : ∀ use, Sound site locals use inner) :
    Sound site locals use (.paren inner sp) := by
  intro depth s t m hs h
  rw [meaning_paren] at h
  split at h
  · next huse =>
    subst huse
    obtain ⟨is, hw, hm, hrest⟩ := ih .bare _ _ _ _ hs h
    exact ⟨is, hw, fun T hT => .bare (hm T hT), hrest⟩
  · next huse =>
    obtain ⟨p, _, hvalue, h⟩ := Returns.bind h
    obtain ⟨rfl, rfl⟩ := Returns.pure_iff.mp h
    obtain ⟨is, hw, hv, hstart⟩ := (ih .value).asValue hs hvalue
    exact .value hw (fun T hT => .paren huse (hv T hT)) hstart

theorem Sound.binary {op : BinaryOp} {left right : Expr} (ihl : Sound site locals .value left)
    (ihr : Sound site locals .value right) : Sound site locals use (.binary op left right sp) := by
  intro depth s t m hs h
  have walked {l : Pushed} {u : CodeState} (hl : Valued site locals left s u l)
      (h : Returns (if op.isLogical = true then do
          let label ← beginLogical op
          let r ← Compile.asValue site depth right fun d => meaning site locals d .value right
          let p ← endLogical op l label r sp
          pure (.value p)
        else do
          let stop ← offset
          let r ← Compile.asValue site depth right fun d => meaning site locals d .value right
          let p ← applyBinary op l stop r sp
          pure (.value p)) u m t) :
      Meant site locals use (.binary op left right sp) s t m := by
    obtain ⟨is, hw, hl, hstart⟩ := hl
    split at h
    · next hop =>
      obtain ⟨label, _, hbegin, h⟩ := Returns.bind h
      obtain ⟨r, v, hright, h⟩ := Returns.bind h
      obtain ⟨p, _, hend, h⟩ := Returns.bind h
      obtain ⟨rfl, rfl⟩ := Returns.pure_iff.mp h
      obtain ⟨hlabel, hjump⟩ := beginLogical_written hw.sound hbegin
      obtain ⟨js, hj, hr, -⟩ :=
        ihr.asValue hjump.sound hright
      obtain ⟨hp, ks, hk, hm⟩ :=
        endLogical_written locals left right hs hop hw hjump hj hlabel hstart hend
      have hgrew := Grows.endLogical _ _ _ _ _ _ _ _ hend
      exact .value hk (fun T hT =>
        have hv := hgrew.within hT
        hm T hT (hl T ((hjump.trans hj).grew.within hv)) (hr T hv) use sp) hp
    · next hop =>
      obtain ⟨_, _, hoff, h⟩ := Returns.bind h
      obtain ⟨rfl, rfl⟩ := Returns.offset_iff.mp hoff
      obtain ⟨r, v, hright, h⟩ := Returns.bind h
      obtain ⟨p, _, hend, h⟩ := Returns.bind h
      obtain ⟨rfl, rfl⟩ := Returns.pure_iff.mp h
      obtain ⟨js, hj, hr, -⟩ := ihr.asValue hw.sound hright
      obtain ⟨hp, ks, hk, hm⟩ := applyBinary_written locals left right hs (by simpa using hop) hw
        hj hstart hend
      have hgrew := Grows.applyBinary _ _ _ _ _ _ _ _ hend
      exact .value hk (fun T hT =>
        have hv := hgrew.within hT
        hm T hT (hl T (hj.grew.within hv)) (hr T hv) use sp) hp
  unfold meaning at h
  dsimp only at h
  split at h
  · obtain ⟨l', v, hl, h⟩ := Returns.bind h
    obtain ⟨l, u, hmat, h⟩ := Returns.bind h
    exact walked ((ihl _ _ _ _ hs hl).materialize hmat) h
  · obtain ⟨l, u, hl, h⟩ := Returns.bind h
    exact walked (ihl.asValue hs hl) h

theorem Sound.unary {op : UnaryOp} {operand : Expr} (ih : ∀ use, Sound site locals use operand) :
    Sound site locals use (.unary op operand sp) := by
  intro depth s t m hs h
  simp only [meaning] at h
  split at h
  · next hop =>
    obtain ⟨place, _, hplace, h⟩ := Returns.bind h
    obtain ⟨p, _, hcount, h⟩ := Returns.bind h
    obtain ⟨rfl, rfl⟩ := Returns.pure_iff.mp h
    obtain ⟨m, hw, heq, hm⟩ := (ih .bare).asPlace hs hplace
    obtain ⟨hnum, rfl, js, hj, hone⟩ := countPlace_written hw.sound hcount
    exact .value (by simpa using hw.trans hj) (fun T hT =>
      .before hop (hm T (hj.grew.within hT)) heq hnum (hone T hT)) (by simpa [Pushed.unknown] using hw.offset)
  · obtain ⟨p, _, hvalue, h⟩ := Returns.bind h
    obtain ⟨q, _, happly, h⟩ := Returns.bind h
    obtain ⟨rfl, rfl⟩ := Returns.pure_iff.mp h
    obtain ⟨is, hw, hv, hstart⟩ := (ih .value).asValue hs hvalue
    obtain ⟨hq, ks, hk, hm⟩ :=
      applyUnary_written locals operand hs hw hstart happly
    have hgrew := Grows.applyUnary _ _ _ _ _ _ happly
    exact .value hk (fun T hT => hm T hT (hv T (hgrew.within hT)) use sp) hq

theorem Sound.post {op : PostfixOp} {operand : Expr} (ih : Sound site locals .bare operand) :
    Sound site locals use (.post op operand sp) := by
  intro depth s t m hs h
  simp only [meaning] at h
  obtain ⟨place, _, hplace, h⟩ := Returns.bind h
  obtain ⟨p, _, hcount, h⟩ := Returns.bind h
  obtain ⟨rfl, rfl⟩ := Returns.pure_iff.mp h
  obtain ⟨m, hw, heq, hm⟩ := ih.asPlace hs hplace
  obtain ⟨hnum, rfl, js, hj, hone⟩ := countPlace_written hw.sound hcount
  exact .value (by simpa using hw.trans hj) (fun T hT =>
    .behind (hm T (hj.grew.within hT)) heq hnum (hone T hT)) (by simpa [Pushed.unknown] using hw.offset)

theorem Sound.assign {op : AssignOp} {target value : Expr} (iht : Sound site locals .bare target)
    (ihv : Sound site locals .value value) : Sound site locals use (.assign op target value sp) := by
  intro depth s t m hs h
  unfold meaning at h
  obtain ⟨place, u, hplace, h⟩ := Returns.bind h
  obtain ⟨_, _, hoff, h⟩ := Returns.bind h
  obtain ⟨rfl, rfl⟩ := Returns.offset_iff.mp hoff
  obtain ⟨m', hw, heq, hm⟩ := iht.asPlace hs hplace
  have hoffset := hw.offset
  simp only [Asm.size_nil, Nat.add_zero] at hoffset
  cases hop : op.binary? with
  | none =>
    simp only [hop] at h
    obtain ⟨p, v, hvalue, h⟩ := Returns.bind h
    obtain ⟨_, w, hcoerce, h⟩ := Returns.bind h
    obtain ⟨p', hcoerce⟩ := Returns.discard_iff.mp hcoerce
    obtain ⟨q, _, hend, h⟩ := Returns.bind h
    obtain ⟨rfl, rfl⟩ := Returns.pure_iff.mp h
    obtain ⟨js, hj, hv, hstart⟩ := ihv.asValue hw.sound hvalue
    obtain ⟨-, ks, hk, hc⟩ := coerce_written hw.sound hj hstart hcoerce
    have hgrew := Grows.coerce _ _ _ _ _ _ hcoerce
    obtain ⟨rfl, hl⟩ := endAssign_written hk.sound hend
    exact .value (by simpa using (hw.trans hk).trans hl) (fun T hT =>
      have hT' := hl.grew.within hT
      .assign hop (hm T (hk.grew.within hT')) heq (hv T (hgrew.within hT')) (hc T hT')) hoffset
  | some binary =>
    simp only [hop] at h
    obtain ⟨_, v, hload, h⟩ := Returns.bind h
    obtain ⟨_, _, hoff, h⟩ := Returns.bind h
    obtain ⟨rfl, rfl⟩ := Returns.offset_iff.mp hoff
    obtain ⟨p, w, hvalue, h⟩ := Returns.bind h
    obtain ⟨_, x, happly, h⟩ := Returns.bind h
    obtain ⟨q, _, hend, h⟩ := Returns.bind h
    obtain ⟨rfl, rfl⟩ := Returns.pure_iff.mp h
    have hload := load_written hw.sound hload
    obtain ⟨js, hj, hv, -⟩ := ihv.asValue hload.sound hvalue
    have hgrew := Grows.applyCompound _ _ _ _ _ _ _ _ _ happly
    obtain ⟨plan, p', hplan, hres, hconv, hk⟩ := applyCompound_written hw.sound hload hj happly
    obtain ⟨rfl, hl⟩ := endAssign_written hk.sound hend
    exact .value (by simpa using (hw.trans hk).trans hl) (fun T hT =>
      have hT' := hl.grew.within hT
      .compound hop (hm T (hk.grew.within hT')) heq (hv T (hgrew.within hT')) hplan hres hconv)
      hoffset

theorem Sound.conditional {condition yes no : Expr} (ihc : Sound site locals .value condition)
    (ihy : Sound site locals .value yes) (ihn : Sound site locals .value no) :
    Sound site locals use (.conditional condition yes no sp) := by
  intro depth s t m hs h
  simp only [meaning] at h
  obtain ⟨_, _, hoff, h⟩ := Returns.bind h
  obtain ⟨rfl, rfl⟩ := Returns.offset_iff.mp hoff
  obtain ⟨c, t₁, hcondition, h⟩ := Returns.bind h
  obtain ⟨c', t₂, hcoerce, h⟩ := Returns.bind h
  obtain ⟨label, t₃, hjump, h⟩ := Returns.bind h
  obtain ⟨_, _, hoff, h⟩ := Returns.bind h
  obtain ⟨rfl, rfl⟩ := Returns.offset_iff.mp hoff
  obtain ⟨a, t₄, hyes, h⟩ := Returns.bind h
  obtain ⟨yesCode, t₅, hcut, h⟩ := Returns.bind h
  obtain ⟨b, t₆, hno, h⟩ := Returns.bind h
  obtain ⟨noCode, t₇, hcut', h⟩ := Returns.bind h
  obtain ⟨p, _, hend, h⟩ := Returns.bind h
  obtain ⟨rfl, rfl⟩ := Returns.pure_iff.mp h
  obtain ⟨is, hw, hc, hstart⟩ :=
    ihc.asValue hs hcondition
  obtain ⟨hstart', is', hw', hc'⟩ := coerce_written hs hw hstart hcoerce
  have hgrew₂ := Grows.coerce _ _ _ _ _ _ hcoerce
  obtain ⟨rfl, rfl⟩ := Returns.jump_iff.mp hjump
  obtain ⟨hopen, hlabel⟩ := Wrote.emitJump hw'.sound .jumpIfFalse rfl
  have hw₃ := hw'.trans hopen
  obtain ⟨js, hj, ha, -⟩ := ihy.asValue hopen.sound hyes
  obtain ⟨rfl, rfl⟩ := Returns.cut_iff.mp hcut
  obtain ⟨hyesCode, hyesFits, hw₅⟩ := Wrote.cut hopen.sound hj
  obtain ⟨ks, hk, hb, -⟩ := ihn.asValue hw₅.sound hno
  -- both branches were written from the same offset on
  have hbranch := hw₅.offset
  simp only [Asm.size_nil, Nat.add_zero] at hbranch
  rw [← hbranch] at hcut'
  obtain ⟨rfl, rfl⟩ := Returns.cut_iff.mp hcut'
  obtain ⟨hnoCode, hnoFits, hw₇⟩ := Wrote.cut hw₅.sound hk
  have hw₈ := hw₃.trans (hw₅.trans hw₇)
  simp only [List.append_nil] at hw₈
  obtain ⟨hp, ls, hl, hm⟩ := endConditional_written locals yes no condition c hs hw₈ rfl (by rw [hlabel, hw'.offset]) hyesCode
    (fun hb => hyesFits (hk.fits hb).1) hnoCode hnoFits hend
  have hgrew := Grows.endConditional _ _ _ _ _ _ _ _ _ _ _ hend
  refine .value hl (fun T hT => ?_) hp
  have h₇ := hgrew.within hT
  have h₆ : t₆.Within T := ⟨h₇.constants, h₇.imports⟩
  have h₅ := hk.grew.within h₆
  have h₄ : t₄.Within T := ⟨h₅.constants, h₅.imports⟩
  have h₂ := (hopen.trans hj).grew.within h₄
  exact hm T hT (hc T (hgrew₂.within h₂)) (hc' T h₂) (ha T h₄) (hb T h₆) use sp

theorem Sound.call {callee : Expr} {args : List Expr} (ih : Sound site locals .bare callee)
    (iha : SoundArguments site locals args) : Sound site locals use (.call callee args sp) := by
  intro depth s t m hs h
  simp only [meaning] at h
  obtain ⟨_, _, hoff, h⟩ := Returns.bind h
  obtain ⟨rfl, rfl⟩ := Returns.offset_iff.mp hoff
  obtain ⟨callee', u, hname, h⟩ := Returns.bind h
  obtain ⟨is, hw, hm, hstart, hknown, -⟩ :=
    ih.asName (by simp [notInvocable]) hs hname
  split at h
  · next target name =>
    obtain ⟨args', v, hargs, h⟩ := Returns.bind h
    obtain ⟨p, _, hcall, h⟩ := Returns.bind h
    obtain ⟨rfl, rfl⟩ := Returns.pure_iff.mp h
    obtain ⟨items, hlaid, hj, hpasses⟩ := iha _ _ _ _ hw.sound hargs
    obtain ⟨ks, hk, hp, hcalls⟩ := call_written hs hlaid hw.offset (hw.trans hj) hstart hknown hcall
    have hgrew := Grows.call _ _ _ _ _ _ _ _ hcall
    exact .value hk (fun T hT =>
      have hT' := hgrew.within hT
      .call (hm T (hj.grew.within hT')) (hpasses T hT') (hcalls T hT)) hp
  · simp [notInvocable] at h

theorem SoundArguments.nil : SoundArguments site locals [] := by
  intro depth s t args hs h
  simp only [arguments] at h
  obtain ⟨rfl, rfl⟩ := Returns.pure_iff.mp h
  exact ⟨[], .nil, Wrote.refl hs, fun T _ => .nil⟩

theorem SoundArguments.cons {es : List Expr} (ih : Sound site locals .value e)
    (ihs : SoundArguments site locals es) : SoundArguments site locals (e :: es) := by
  intro depth s t args hs h
  simp only [arguments] at h
  obtain ⟨p, u, hvalue, h⟩ := Returns.bind h
  obtain ⟨_, _, hoff, h⟩ := Returns.bind h
  obtain ⟨rfl, rfl⟩ := Returns.offset_iff.mp hoff
  obtain ⟨rest, _, hrest, h⟩ := Returns.bind h
  obtain ⟨rfl, rfl⟩ := Returns.pure_iff.mp h
  obtain ⟨is, hw, hv, -⟩ := ih.asValue hs hvalue
  obtain ⟨items, hlaid, hj, hp⟩ := ihs _ _ _ _ hw.sound hrest
  exact ⟨(is, p) :: items, .cons hw.offset hlaid, by simpa using hw.trans hj,
    fun T hT => .cons (hv T (hj.grew.within hT)) (hp T hT)⟩

/-! ## The walk -/

mutual

/-- Compiling an expression writes the code that its layout spells. -/
theorem meaning_sound (site : Site) (locals : LocalScope) :
    (e : Expr) → ∀ use, Sound site locals use e
  | .literal .., _ => .literal
  | .ident _, _ => .ident
  | .this _, _ => .this
  | .member object .., _ => .member (meaning_sound site locals object .value)
  | .paren inner _, _ => .paren fun use => meaning_sound site locals inner use
  | .binary _ left right _, _ =>
    .binary (meaning_sound site locals left .value) (meaning_sound site locals right .value)
  | .unary _ operand _, _ => .unary fun use => meaning_sound site locals operand use
  | .post _ operand _, _ => .post (meaning_sound site locals operand .bare)
  | .assign _ target value _, _ =>
    .assign (meaning_sound site locals target .bare) (meaning_sound site locals value .value)
  | .conditional condition yes no _, _ =>
    .conditional (meaning_sound site locals condition .value)
      (meaning_sound site locals yes .value) (meaning_sound site locals no .value)
  | .call callee args _, _ =>
    .call (meaning_sound site locals callee .bare) (arguments_sound site locals args)

theorem arguments_sound (site : Site) (locals : LocalScope) :
    (es : List Expr) → SoundArguments site locals es
  | [] => .nil
  | e :: es => .cons (meaning_sound site locals e .value) (arguments_sound site locals es)

end

/-! ## Expressions in statements -/

theorem value_valued (hs : s.Sound site.symbols.libraries) (h : Returns (value site locals e) s p t) :
    Valued site locals e s t p :=
  (meaning_sound site locals e .value).asValue hs h

theorem valueOf_written {type : ValueType} (hs : s.Sound site.symbols.libraries)
    (h : Returns (valueOf site locals e type) s p t) :
    ∃ is js q, Wrote site.symbols.libraries s t js ∧
      ∀ T, t.Within T → Values T site locals e is q ∧ Coerces T q is type js p := by
  obtain ⟨q, u, hvalue, hcoerce⟩ := Returns.bind h
  obtain ⟨is, hw, hv, hstart⟩ := value_valued hs hvalue
  obtain ⟨-, js, hj, hc⟩ := coerce_written hs hw hstart hcoerce
  exact ⟨is, js, q, hj, fun T hT => ⟨hv T (Grows.coerce _ _ _ _ _ _ hcoerce |>.within hT), hc T hT⟩⟩

end ClassScript.Layout
