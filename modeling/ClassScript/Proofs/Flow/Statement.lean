import ClassScript.Proofs.Flow.Expression
import ClassScript.Proofs.Layout.Scope

/-!
The code of statements can be executed.

The stack is empty between statements. Behind a statement more locals are stored than in front of it,
unless the end is reached on a way that skips a declaration: then what is known is what was stored
before, and the skipped local is a loose one.
-/

namespace ClassScript.Flow

open Code (Instruction)
open Compile Layout
open Layout.Fragment

/-! ## States between statements -/

def State.clear (live : Bool) (stored : Nat → Prop) : State := ⟨[], none, live, stored⟩

/-- A statement that is not reached has no place that can be, and no instruction leads to an end that
is not reached. -/
def Behaves (Γ : Context) (e : Extent) (k : Nat → Option State) : Prop :=
  (e.reachable = false → Idle k) ∧ (e.ends = false → Endless Γ e.code k)

/-- Where statements begin and end the stack is empty, and in between they behave as they should. -/
def marks (Γ : Context) (B : List Extent) : List (Nat × Mark) :=
  B.flatMap fun e => [(e.start, .entry (.clear false fun _ => True)),
    (e.stop, .entry (.clear false fun _ => True)), (e.start, .piece e.code (Behaves Γ e))]

variable {Γ : Context} {T : Tables} {site : Site} {l l₁ l₂ : LocalScope} {κ : Around}
  {S S' : Nat → Prop} {live live' : Bool}

theorem below_clear (hlive : live = true → live' = true)
    (hS : live = true → ∀ n, S' n → S n) : Below Γ (.clear live S) (.clear live' S') :=
  ⟨fun _ => rfl, .inl rfl, hlive, hS⟩

/-- What is stored does not matter where nothing leads. -/
theorem below_dead {s : State} (S' : Nat → Prop) (h : Below Γ (.clear false S) s) :
    Below Γ (.clear false S') s :=
  ⟨h.stack, h.top, nofun, nofun⟩

@[simp] theorem marks_append (B C : List Extent) : marks Γ (B ++ C) = marks Γ B ++ marks Γ C :=
  List.flatMap_append

@[simp] theorem moved_marks (n : Nat) (B : List Extent) :
    moved n (marks Γ B) = marks Γ (behind n B) := by
  simp [moved, marks, behind, List.map_flatMap, List.flatMap_map, Extent.stop, Nat.add_assoc]
  rfl

theorem quiet_marks (B : List Extent) : ∀ e ∈ marks Γ B, e.2.Quiet := by
  intro x hx
  obtain ⟨e, -, hx⟩ := List.mem_flatMap.mp hx
  simp only [List.mem_cons, List.not_mem_nil, or_false] at hx
  obtain rfl | rfl | rfl := hx
  · rfl
  · rfl
  · exact fun k hk => ⟨fun _ => hk, fun _ => hk.endless _⟩

@[simp] theorem moved_moved (n k : Nat) (E : List (Nat × Mark)) :
    moved n (moved k E) = moved (n + k) E := by
  simp [moved, Nat.add_assoc]

theorem Covers.mono {s t : State} (h : Covers Γ l s) (ht : Below Γ t s) : Covers Γ l t :=
  fun hlive name v hv => (h (ht.live hlive) name v hv).imp (ht.stored hlive _) id

/-- The slots from `first` on have the types `new`. -/
def Placed (Γ : Context) (first : Nat) (new : List ValueType) : Prop :=
  ∀ k t, new[k]? = some t → Γ.locals[first + k]? = some t

theorem Placed.left {first : Nat} {new new' : List ValueType} (h : Placed Γ first (new ++ new')) :
    Placed Γ first new := by
  intro k t ht
  exact h k t (List.getElem?_append_left (List.getElem?_eq_some_iff.mp ht).1 ▸ ht)

theorem Placed.right {first : Nat} {new new' : List ValueType} (h : Placed Γ first (new ++ new')) :
    Placed Γ (first + new.length) new' := by
  intro k t ht
  rw [Nat.add_assoc]
  refine h _ t ?_
  rwa [List.getElem?_append_right (Nat.le_add_right ..), Nat.add_sub_cancel_left]

section

variable {new : List ValueType} {slots : List Nat} {names : List String}

theorem Slots.scoped (h : Slots Γ l) (hs : Scoped l l₁ new slots names)
    (hp : Placed Γ l.frameSize new) : Slots Γ l₁ := by
  intro name v hv
  by_cases hn : name ∈ names
  · obtain ⟨w, hw, -, k, hk, ht⟩ := hs.declared name hn
    rw [hv] at hw
    cases hw
    exact ⟨hk ▸ hp k _ ht, hs.types _ (List.mem_of_getElem? ht)⟩
  · exact h name v ((hs.other name hn).symm.trans hv)

/-- Names that are declared may be read where their slots are stored or loose. -/
theorem Covers.scoped (h : Covers Γ l (.clear live S)) (hs : Scoped l l₁ new slots names)
    (hslots : live = true → ∀ n ∈ slots, S n ∨ Γ.loose n) : Covers Γ l₁ (.clear live S) := by
  intro hlive name v hv
  by_cases hn : name ∈ names
  · obtain ⟨w, hw, hslot, -⟩ := hs.declared name hn
    rw [hv] at hw
    cases hw
    exact hslots hlive _ hslot
  · exact h hlive name v ((hs.other name hn).symm.trans hv)

end

/-! ## Parts of statements -/

theorem pushes_bool {b : Bool} {is : Asm} (h : Pushes T (.bool b) is) :
    is = [.plain (if b then .pushTrue else .pushFalse)] := by
  generalize hv : Value.bool b = v at h
  cases h with
  | void => cases hv
  | yes =>
    cases hv
    rfl
  | no =>
    cases hv
    rfl
  | @constant _ c => cases c <;> cases hv

section

variable {e : Expr} {is : Asm} {known : Option Bool} {E : List (Nat × Mark)} {G : Fragment}
  {c : State} (hΓ : Serves Γ T site) (hl : Slots Γ l)

include hΓ hl

theorem evaluates_supplies {type : ValueType} {p : Pushed} (h : Evaluates T site l e type is p) :
    Supplies Γ T l is p ∧ p.type = type ∧ type ≠ .void := by
  obtain ⟨hv, hc⟩ := h
  exact (hv.supplies hΓ hl).coerces hΓ hc

theorem evaluates_moves {type : ValueType} {p : Pushed} (h : Evaluates T site l e type is p) :
    Moves Γ l is [] [type] := by
  obtain ⟨hp, htype, hvalue⟩ := evaluates_supplies hΓ hl h
  exact hp.typed htype hvalue

/-- Behind a condition its value is known if it is a constant. -/
theorem tests_flows (h : Tests T site l e is known) {s : State} (hc : Covers Γ l s) :
    Flows Γ κ [] s (ops is) ⟨.bool :: s.stack, known, s.live, s.stored⟩ := by
  cases h with
  | @known _ b h hb =>
    have hpush := ((evaluates_supplies hΓ hl h).1.known _ hb).2
    rw [pushes_bool hpush]
    cases b with
    | true => exact .on .pushTrue
    | false => exact .on .pushFalse
  | unknown h => exact evaluates_moves hΓ hl h κ s s.stack hc fun _ => rfl

/-- A condition that is known to hold does not lead to where it jumps, and one that is known not to
hold does not lead on. -/
theorem tests_branch (h : Tests T site l e is known) (hc : Covers Γ l (.clear live S)) {d : Nat}
    (hG : Flows Γ κ E (.clear (live && known != some false) S) G c)
    (hjump : (∃ s, (d, .entry s) ∈ E ∧ Below Γ (.clear (live && known != some true) S) s) ∨
      d = G.size ∧ Below Γ (.clear (live && known != some true) S) c) :
    Flows Γ κ (moved (is.size + 3) E) (.clear live S)
      (ops is ++ .op (.unary .jumpIfFalse d) :: G) c := by
  have hbranch := Flows.passing (i := .unary .jumpIfFalse d) (a := ⟨[.bool], known, live, S⟩)
    (.jumpIfFalse fun _ => rfl) (fun _ => rfl) (fun t ht => by cases ht; exact .refl _) hG
    fun t ht => by cases ht; exact hjump
  refine ((tests_flows hΓ hl h hc).append hbranch).some_marks _ fun e he => ?_
  have hmoved : moved (is.size + 3) E = moved (ops is).size (moved 3 E) := by simp
  rw [hmoved] at he
  obtain ⟨e', he', rfl⟩ := List.mem_map.mp he
  exact List.mem_append_right _ (List.mem_cons_of_mem _
    (List.mem_map_of_mem (List.mem_cons_of_mem _ he')))

theorem acts_flows (h : Acts T site l e is) : Moves Γ l is [] [] := by
  obtain ⟨h, hp⟩ := h
  have hsupplies := (h.delivers hΓ hl).materializes hΓ hl hp
  refine hsupplies.moves.append ?_
  unfold popping
  split
  · next hvoid =>
    rw [returned, if_pos hvoid]
    exact .nil []
  · next hvoid =>
    rw [returned, if_neg hvoid]
    exact .pop

theorem actsAll_flows {es : List Expr} (h : ActsAll T site l es is) : Moves Γ l is [] [] := by
  induction h with
  | nil => exact .nil []
  | cons h _ ih => exact (acts_flows hΓ hl h).append ih

/-- The heading of a loop leads into the body or to the end of the loop. -/
theorem heads_flows {cond : Option Expr} (h : Heads T site l cond is known)
    (hc : Covers Γ l (.clear live S)) (hG : Flows Γ κ E (.clear (live && known != some false) S) G c)
    (hexit : known ≠ some true → Below Γ (.clear live S) c) :
    Flows Γ κ (moved (heading is known G.size).size E) (.clear live S)
      (ops (heading is known G.size) ++ G) c := by
  by_cases hknown : known = some true
  · subst hknown
    have hlive : (live && some true != some false) = live := by cases live <;> rfl
    have hmoved : moved 0 E = E := by simp [moved]
    rw [hlive] at hG
    change Flows Γ κ (moved 0 E) (.clear live S) G c
    rw [hmoved]
    exact hG
  · rw [heading, if_neg hknown]
    have hbelow : Below Γ (.clear (live && known != some true) S) c :=
      (below_clear (fun h => (Bool.and_eq_true_iff.mp h).1) fun _ _ => id).trans (hexit hknown)
    cases h with
    | always => exact (hknown rfl).elim
    | tested h => simpa using tests_branch hΓ hl h hc hG (.inr ⟨rfl, hbelow⟩)

/-- The first value of a variable is pushed. -/
theorem begins_moves {v : Declarator} {declared : Option ValueType} {type : ValueType}
    (h : Begins T site l v declared is type) (htype : type ≠ .void) : Moves Γ l is [] [type] := by
  cases h with
  | given hv h => exact evaluates_moves hΓ hl h
  | default hv h =>
    have : Moves Γ l is [] _ := .pushes hΓ h
    rwa [ValueType.type_default, returned_value htype] at this
  | inferred hv h hp => exact (h.supplies hΓ hl).typed rfl htype

end

/-! ## Statements -/

/-- A statement stands where its locals have slots and those in scope may be read. -/
structure Enclosed (Γ : Context) (T : Tables) (site : Site) (live : Bool) (l : LocalScope)
    (new : List ValueType) (S : Nat → Prop) : Prop where
  serves : Serves Γ T site
  returns : Γ.returns = site.returns
  placed : Placed Γ l.frameSize new
  slots : Slots Γ l
  covers : Covers Γ l (.clear live S)

/-- Code can be executed where its locals have slots, and locals in scope may be read behind it. -/
def Performs (T : Tables) (site : Site) (live : Bool) (new : List ValueType) (loose : List Nat)
    (l : LocalScope) (F : Fragment) (l' : LocalScope) (x : Exits) (B : List Extent) : Prop :=
  ∀ (Γ : Context) (κ : Around) (S : Nat → Prop), Enclosed Γ T site live l new S →
    (∀ n ∈ loose, Γ.loose n) → Below Γ (.clear x.breaks S) κ.leave →
    Below Γ (.clear x.continues S) κ.again →
    ∃ S', (∀ n, S n → S' n) ∧ Covers Γ l' (.clear x.ends S') ∧
      Flows Γ κ (marks Γ B) (.clear live S) F (.clear x.ends S')

/-- Code declares `count` locals, those of `slots` stay in scope, and can be executed. -/
def Performed (T : Tables) (site : Site) (live : Bool) (count : Nat) (slots loose : List Nat)
    (l : LocalScope) (F : Fragment) (l' : LocalScope) (x : Exits) (B : List Extent) : Prop :=
  ∃ new names, Scoped l l' new slots names ∧ new.length = count ∧
    Performs T site live new loose l F l' x B

section

variable {new new' : List ValueType} {slots slots' loose loose' : List Nat} {names : List String}
  {F G : Fragment} {x y : Exits} {B C : List Extent} {count count' : Nat} {is : Asm}

theorem Enclosed.front (h : Enclosed Γ T site live l (new ++ new') S)
    (hlive : live' = true → live = true) : Enclosed Γ T site live' l new S :=
  ⟨h.serves, h.returns, h.placed.left, h.slots, h.covers.mono (below_clear hlive fun _ _ => id)⟩

theorem Enclosed.behind (h : Enclosed Γ T site live l (new ++ new') S)
    (hs : Scoped l l₁ new slots names) (hc : Covers Γ l₁ (.clear live' S')) :
    Enclosed Γ T site live' l₁ new' S' :=
  ⟨h.serves, h.returns, hs.size ▸ h.placed.right, h.slots.scoped hs h.placed.left, hc⟩

/-- Code that declares nothing and is not left by a jump. -/
theorem Performed.simple
    (h : ∀ (Γ : Context) (κ : Around) (S : Nat → Prop), Enclosed Γ T site live l [] S →
      Flows Γ κ [] (.clear live S) F (.clear x.ends S))
    (hx : x.ends = true → live = true) : Performed T site live 0 [] [] l F l x [] :=
  ⟨[], [], .refl l, rfl, fun Γ κ S he _ _ _ =>
    ⟨S, fun _ => id, he.covers.mono (below_clear hx fun _ _ => id), h Γ κ S he⟩⟩

theorem Performed.acts (h : ActsAll T site l es is) :
    Performed T site live 0 [] [] l (ops is) l (.plain live) [] :=
  .simple (fun _ κ S he => actsAll_flows he.serves he.slots h κ (.clear live S) [] he.covers
    fun _ => rfl) id

theorem Performed.append (h : Performed T site live count slots loose l F l₁ x B)
    (h' : Performed T site x.ends count' slots' loose' l₁ G l₂ y C) :
    Performed T site live (count + count') (slots ++ slots') (loose ++ loose') l (F ++ G) l₂
      (x.both y y.ends) (B ++ Layout.behind F.size C) := by
  obtain ⟨new, names, hs, hcount, hp⟩ := h
  obtain ⟨new', names', hs', hcount', hp'⟩ := h'
  refine ⟨new ++ new', names' ++ names, hs.trans hs', by simp [hcount, hcount'],
    fun Γ κ S he hloose hleave hagain => ?_⟩
  have either {a b : Bool} (ha : a = true) : (a || b) = true := by simp [ha]
  have or {a b : Bool} (hb : b = true) : (a || b) = true := by simp [hb]
  obtain ⟨S₁, hS, hc, hF⟩ := hp Γ κ S (he.front id) (fun n hn => hloose n (List.mem_append_left _ hn))
    ((below_clear either fun _ _ => id).trans hleave)
    ((below_clear either fun _ _ => id).trans hagain)
  obtain ⟨S₂, hS', hc', hG⟩ := hp' Γ κ S₁ (he.behind hs hc)
    (fun n hn => hloose n (List.mem_append_right _ hn))
    ((below_clear or fun _ => hS).trans hleave) ((below_clear or fun _ => hS).trans hagain)
  refine ⟨S₂, fun n hn => hS' n (hS n hn), hc', (hF.append hG).some_marks _ fun e he => ?_⟩
  rw [marks_append, ← moved_marks] at he
  exact (List.mem_append.mp he).elim (List.mem_append_left _) fun he =>
    List.mem_append_right _ (List.mem_cons_of_mem _ he)

theorem Performed.block (h : Performed T site live count slots loose l.open_ F l₁ x B)
    (hx : x.ends = true → live = true) :
    Performed T site live count [] loose l F l₁.close x B := by
  obtain ⟨new, names, hs, hcount, hp⟩ := h
  refine ⟨new, [], hs.close, hcount, fun Γ κ S he hloose hleave hagain => ?_⟩
  obtain ⟨S', hS, -, hF⟩ := hp Γ κ S ⟨he.serves, he.returns, he.placed, he.slots, he.covers⟩ hloose
    hleave hagain
  exact ⟨S', hS, (he.covers.mono (below_clear hx fun _ => hS)).scoped hs.close (by simp), hF⟩

/-! ## Declarations -/

theorem begins_value {v : Declarator} {declared : Option ValueType} {type : ValueType}
    (h : Begins T site l v declared is type) (hd : ∀ t, declared = some t → t ≠ .void) :
    type ≠ .void := by
  cases h with
  | given => exact hd _ rfl
  | default => exact hd _ rfl
  | @inferred _ _ p _ _ hp =>
    intro hvoid
    rw [hvoid] at hp
    cases hp

theorem declaredType_value {d : VarDecl} {declared : Option ValueType}
    (h : declaredType site d = .ok declared) : ∀ t, declared = some t → t ≠ .void := by
  unfold declaredType at h
  split at h
  · split at h
    · cases h
    · cases h
      exact nofun
  · split at h
    · cases h
    · split at h
      · cases h
      · next hvoid =>
        cases h
        rintro t ht rfl
        cases ht
        exact hvoid rfl

theorem slot_add (l : LocalScope) (name : String) (type : ValueType) :
    (l.add name type).1 = l.frameSize ∧ (l.add name type).2.frameSize = l.frameSize + 1 := by
  obtain ⟨visible, blocks, n⟩ := l
  cases blocks <;> exact ⟨rfl, rfl⟩

/-- Behind declarations their slots are stored. -/
theorem Performed.declares {declared : Option ValueType} {vs : List Declarator}
    (h : Declares T site declared vs l is l₁) (hd : ∀ t, declared = some t → t ≠ .void) :
    Performed T site live vs.length (List.range' l.frameSize vs.length) [] l (ops is) l₁
      (.plain live) [] := by
  induction h with
  | nil => exact .simple (fun _ _ _ _ => .nil _) id
  | @cons v vs l l₁ is js type h hfree hs ih =>
    obtain ⟨hslot, hsize⟩ := slot_add l v.name.name type
    obtain ⟨new, names, hscoped, hcount, hp⟩ := ih
    have htype := begins_value h hd
    have hadd := Scoped.add hfree htype
    refine ⟨[type] ++ new, names ++ [v.name.name], (hadd.trans hscoped).mono fun n hn => ?_,
      by simp [hcount], fun Γ κ S he _ hleave hagain => ?_⟩
    · rw [hsize] at hn
      exact hn
    · have hplaced : Γ.locals[l.frameSize]? = some type := he.placed 0 type rfl
      have hstore : Flows Γ κ [] (.clear live S)
          (ops (is ++ [.unary .setLocal (l.add v.name.name type).1]))
          (.clear live fun k => k = l.frameSize ∨ S k) := by
        rw [ops_append, hslot]
        exact (begins_moves he.serves he.slots h htype κ _ [] he.covers fun _ => rfl).trans
          (.on (.setLocal hplaced fun _ => rfl))
      have hcovers : Covers Γ (l.add v.name.name type).2 (.clear live fun k => k = l.frameSize ∨ S k) :=
        (he.covers.mono (below_clear id fun _ _ => .inr)).scoped hadd fun _ n hn =>
          .inl (.inl (List.mem_singleton.mp hn))
      obtain ⟨S', hS, hc, hF⟩ := hp Γ κ _ (he.behind hadd hcovers) (by simp)
        (below_dead _ hleave) (below_dead _ hagain)
      exact ⟨S', fun n hn => hS n (.inr hn), hc, by simpa [marks] using hstore.trans hF⟩

theorem Performed.declaresAll {d : VarDecl} (h : DeclaresAll T site d l is l₁) :
    Performed T site live d.vars.length (List.range' l.frameSize d.vars.length) [] l (ops is) l₁
      (.plain live) [] := by
  obtain ⟨hd, h⟩ := h
  exact .declares h (declaredType_value hd)

theorem Performed.starts {start : Option ForInit} (h : Starts T site l start is l₁) :
    ∃ slots, Performed T site live ((start.map ForInit.slots).getD 0) slots [] l (ops is) l₁
      (.plain live) [] := by
  cases h with
  | none => exact ⟨_, .simple (fun _ _ _ _ => .nil _) id⟩
  | decl h => exact ⟨_, .declaresAll h⟩
  | exprs h => exact ⟨_, .acts h⟩

/-! ## Branches -/

variable {known : Option Bool} {cond : Expr}

theorem Performed.ifThen (hc : Tests T site l cond is known)
    (h : Performed T site (live && known != some false) count slots loose l F l₁ x B)
    (hx : x.ends = true → live = true) :
    Performed T site live count slots (slots ++ loose) l
      (ops is ++ .op (.unary .jumpIfFalse F.size) :: F) l₁
      (x.both (.plain false) (x.ends || (live && known != some true)))
      (Layout.behind (is.size + 3) B) := by
  obtain ⟨new, names, hs, hcount, hp⟩ := h
  refine ⟨new, names, hs, hcount, fun Γ κ S he hloose hleave hagain => ?_⟩
  simp only [Exits.both, Exits.plain, Bool.or_false] at hleave hagain ⊢
  have hlive : (live && known != some false) = true → live = true :=
    fun h => (Bool.and_eq_true_iff.mp h).1
  obtain ⟨S', hS, -, hF⟩ := hp Γ κ S ⟨he.serves, he.returns, he.placed, he.slots,
    he.covers.mono (below_clear hlive fun _ _ => id)⟩
    (fun n hn => hloose n (List.mem_append_right _ hn)) hleave hagain
  have hends : (x.ends || (live && known != some true)) = true → live = true := by
    intro h
    obtain h | h := Bool.or_eq_true_iff.mp h
    · exact hx h
    · exact (Bool.and_eq_true_iff.mp h).1
  refine ⟨S, fun _ => id, (he.covers.mono (below_clear hends fun _ _ => id)).scoped hs
    fun _ n hn => .inr (hloose n (List.mem_append_left _ hn)), ?_⟩
  rw [← moved_marks]
  refine tests_branch he.serves he.slots hc he.covers
    (hF.back (below_clear (fun h => by simp [h]) fun _ => hS))
    (.inr ⟨rfl, below_clear (fun h => by simp [h]) fun _ _ => id⟩)

/-- The first branch jumps over the second one if its end is reached. -/
theorem Flows.branches {Γ : Context} {E E' : List (Nat × Mark)} {a b g c : State} (ends : Bool)
    (hF : Flows Γ κ E a F b) (hG : Flows Γ κ E' g G c) (hb : ends = true → Below Γ b c)
    (hg : ends = false → Below Γ b g) :
    Flows Γ κ (E ++ (F.size + (skip ends G.size).size, .entry g) ::
      moved (F.size + (skip ends G.size).size) E') a (F ++ ops (skip ends G.size) ++ G) c := by
  cases ends with
  | true =>
    have hskip : Flows Γ κ ((3, .entry g) :: moved 3 E') b (.op (.unary .jump G.size) :: G) c :=
      Flows.passing .jump (fun _ => rfl) nofun hG fun t ht => .inr (by
        cases ht
        exact ⟨rfl, hb rfl⟩)
    have hsize : (skip true G.size).size = 3 := rfl
    rw [hsize, List.append_assoc]
    refine (hF.append hskip).some_marks _ fun e he => ?_
    simp only [List.mem_append, List.mem_cons, moved, List.map_cons, List.map_map] at he ⊢
    obtain he | rfl | he := he
    · exact .inl he
    · exact .inr (.inr (.inl rfl))
    · refine .inr (.inr (.inr ?_))
      simpa [Nat.add_assoc] using he
  | false => simpa [skip] using (hF.back (hg rfl)).append hG

theorem Performed.ifElse (hc : Tests T site l cond is known)
    (h : Performed T site (live && known != some false) count slots loose l F l₁ x B)
    (h' : Performed T site (live && known != some true) count' slots' loose' l₁ G l₂ y C)
    (hx : x.ends = true → live = true) (hy : y.ends = true → live = true) :
    Performed T site live (count + count') (slots ++ slots')
      ((slots ++ loose) ++ (slots' ++ loose')) l
      (ops is ++ .op (.unary .jumpIfFalse (F.size + (skip x.ends G.size).size)) ::
        (F ++ ops (skip x.ends G.size)) ++ G) l₂
      (x.both y (x.ends || y.ends))
      (Layout.behind (is.size + 3) (B ++ Layout.behind (F.size + (skip x.ends G.size).size) C)) := by
  obtain ⟨new, names, hs, hcount, hp⟩ := h
  obtain ⟨new', names', hs', hcount', hp'⟩ := h'
  refine ⟨new ++ new', names' ++ names, hs.trans hs', by simp [hcount, hcount'],
    fun Γ κ S he hloose hleave hagain => ?_⟩
  have hlooseLeft (n : Nat) (hn : n ∈ slots ++ loose) := hloose n (List.mem_append_left _ hn)
  have hlooseRight (n : Nat) (hn : n ∈ slots' ++ loose') := hloose n (List.mem_append_right _ hn)
  have hand (k : Option Bool) : (live && known != k) = true → live = true :=
    fun h => (Bool.and_eq_true_iff.mp h).1
  have hends : (x.ends || y.ends) = true → live = true :=
    fun h => (Bool.or_eq_true_iff.mp h).elim hx hy
  have either {a b : Bool} (ha : a = true) : (a || b) = true := by simp [ha]
  have or {a b : Bool} (hb : b = true) : (a || b) = true := by simp [hb]
  obtain ⟨S₁, hS, -, hF⟩ := hp Γ κ S (he.front (hand _))
    (fun n hn => hlooseLeft n (List.mem_append_right _ hn))
    ((below_clear either fun _ _ => id).trans hleave)
    ((below_clear either fun _ _ => id).trans hagain)
  -- the names of the first branch are in scope in the second one, where none of them is stored
  have hc₁ : Covers Γ l₁ (.clear live S) :=
    he.covers.scoped hs fun _ n hn => .inr (hlooseLeft n (List.mem_append_left _ hn))
  obtain ⟨S₂, hS', -, hG⟩ := hp' Γ κ S
    (he.behind hs (hc₁.mono (below_clear (hand _) fun _ _ => id)))
    (fun n hn => hlooseRight n (List.mem_append_right _ hn))
    ((below_clear or fun _ _ => id).trans hleave) ((below_clear or fun _ _ => id).trans hagain)
  refine ⟨S, fun _ => id, (hc₁.mono (below_clear hends fun _ _ => id)).scoped hs'
    fun _ n hn => .inr (hlooseRight n (List.mem_append_left _ hn)), ?_⟩
  have hG' : Flows Γ κ (marks Γ C) (.clear (live && known != some true) S) G
      (.clear (x.ends || y.ends) S) := hG.back (below_clear or fun _ => hS')
  have hjoin := Flows.branches x.ends hF hG' (fun _ => below_clear either fun _ => hS)
    fun hx => below_clear (fun h => by simp [hx] at h) fun _ => hS
  have hbranch := tests_branch he.serves he.slots hc he.covers hjoin
    (.inl ⟨_, List.mem_append_right _ List.mem_cons_self, .refl _⟩)
  have hF' : ops is ++ .op (.unary .jumpIfFalse (F.size + (skip x.ends G.size).size)) ::
      (F ++ ops (skip x.ends G.size)) ++ G = ops is ++
        .op (.unary .jumpIfFalse (F.size + (skip x.ends G.size).size)) ::
          (F ++ ops (skip x.ends G.size) ++ G) := by simp
  rw [hF', ← moved_marks, marks_append, ← moved_marks]
  refine hbranch.some_marks _ fun e he => ?_
  obtain ⟨e', he', rfl⟩ := List.mem_map.mp he
  refine List.mem_map_of_mem ?_
  exact (List.mem_append.mp he').elim (List.mem_append_left _) fun he =>
    List.mem_append_right _ (List.mem_cons_of_mem _ he)

/-! ## Loops -/

theorem Performed.whileLoop (hc : Tests T site l cond is known)
    (h : Performed T site (live && known != some false) count slots loose l F l₁ x B)
    (hx : x.ends = true ∨ x.breaks = true ∨ x.continues = true → live = true) :
    Performed T site live count slots (slots ++ loose) l
      (ops (closed 0 (ops (heading is known (F.size + 3)) ++ (F ++ [.again])))) l₁
      (.plain (live && (known != some true || x.breaks)))
      (Layout.behind (heading is known (F.size + 3)).size B) := by
  obtain ⟨new, names, hs, hcount, hp⟩ := h
  refine ⟨new, names, hs, hcount, fun Γ κ S he hloose _ _ => ?_⟩
  have hlive : (live && known != some false) = true → live = true :=
    fun h => (Bool.and_eq_true_iff.mp h).1
  have hends : (live && (known != some true || x.breaks)) = true → live = true :=
    fun h => (Bool.and_eq_true_iff.mp h).1
  obtain ⟨S', hS, -, hF⟩ := hp Γ
    ⟨.clear (live && (known != some true || x.breaks)) S, .clear live S⟩ S
    ⟨he.serves, he.returns, he.placed, he.slots, he.covers.mono (below_clear hlive fun _ _ => id)⟩
    (fun n hn => hloose n (List.mem_append_right _ hn))
    (below_clear (fun h => by simp [h, hx (.inr (.inl h))]) fun _ _ => id)
    (below_clear (fun h => hx (.inr (.inr h))) fun _ _ => id)
  refine ⟨S, fun _ => id, (he.covers.mono (below_clear hends fun _ _ => id)).scoped hs
    fun _ n hn => .inr (hloose n (List.mem_append_left _ hn)), ?_⟩
  have hround := (hF.append (G := [.again]) (c := .clear (live && (known != some true || x.breaks)) S)
    (.again (below_clear (fun h => hx (.inl h)) fun _ => hS))).some_marks (marks Γ B)
    fun e he => List.mem_append_left _ he
  have hloop := heads_flows he.serves he.slots (.tested hc) he.covers hround
    fun hk => below_clear (fun h => by simp [h, hk]) fun _ _ => id
  rw [← moved_marks]
  simpa [Exits.plain] using hloop.closed (ρ := κ) (.refl _) (.refl _)

/-- What is stored where a round of a loop ends: if the body can be left by a jump, no more than in
front of it. -/
def landing (x : Exits) (S S' : Nat → Prop) : Nat → Prop :=
  if x.breaks || x.continues then S else S'

/-- Locals in scope behind a body may be read where a round ends. -/
theorem Covers.landing (hc : Covers Γ l (.clear live S)) (hs : Scoped l l₁ new slots names)
    (hc' : Covers Γ l₁ (.clear x.ends S'))
    (hloose : (x.breaks || x.continues) = true → ∀ n ∈ slots, Γ.loose n)
    (hx : x.ends = true ∨ x.breaks = true ∨ x.continues = true → live = true) :
    Covers Γ l₁ (.clear (x.ends || x.breaks || x.continues) (landing x S S')) := by
  unfold Flow.landing
  split
  · next hjump =>
    refine (hc.mono (below_clear (fun h => hx ?_) fun _ _ => id)).scoped hs
      fun _ n hn => .inr (hloose hjump n hn)
    simpa [or_assoc] using h
  · next hjump =>
    refine hc'.mono (below_clear (fun h => ?_) fun _ _ => id)
    simp only [Bool.not_eq_true, Bool.or_eq_false_iff] at hjump
    simpa [hjump.1, hjump.2] using h

theorem landing_jump (h : x.breaks = true ∨ x.continues = true) : landing x S S' = S :=
  if_pos (by simpa using h)

theorem landing_le (hS : ∀ n, S n → S' n) : ∀ n, landing x S S' n → S' n := by
  unfold landing
  split
  · exact hS
  · exact fun _ => id

theorem le_landing (hS : ∀ n, S n → S' n) : ∀ n, S n → landing x S S' n := by
  unfold landing
  split
  · exact fun _ => id
  · exact hS

/-- The body of a loop whose rounds end behind it. -/
theorem Flows.body {Γ : Context} {E : List (Nat × Mark)} {a t u : State}
    (h : Flows Γ ⟨t, .clear x.continues S⟩ E a F (.clear x.ends S')) (hS : ∀ n, S n → S' n) :
    Flows Γ ⟨t, u⟩ E a F.forward (.clear (x.ends || x.continues) (landing x S S')) := by
  refine (h.back (below_clear (fun h => by simp [h]) fun _ => landing_le hS)).forward
    (below_clear (fun h => by simp [h]) fun h n hn => ?_)
  rwa [landing_jump (.inr h)] at hn

theorem Performed.doLoop (h : Performed T site live count slots loose l F l₁ x B)
    (hc : Tests T site l₁ cond is known)
    (hesc : (x.breaks || x.continues) = true → ∀ n ∈ slots, n ∈ loose)
    (hx : x.ends = true ∨ x.breaks = true ∨ x.continues = true → live = true) :
    Performed T site live count slots loose l (ops (closed 0 (F.forward ++ returning is known))) l₁
      (.plain (x.breaks || (known != some true && (x.ends || x.continues)))) B := by
  obtain ⟨new, names, hs, hcount, hp⟩ := h
  refine ⟨new, names, hs, hcount, fun Γ κ S he hloose _ _ => ?_⟩
  obtain ⟨S', hS, hcov, hF⟩ := hp Γ ⟨.clear x.breaks S, .clear x.continues S⟩ S he hloose
    (.refl _) (.refl _)
  have hcovers := he.covers.landing hs hcov (fun h n hn => hloose n (hesc h n hn)) hx
  have hbody := hF.body (u := .clear live S) hS
  have hagain : Below Γ (.clear (x.ends || x.continues) (landing x S S')) (.clear live S) := by
    refine below_clear (fun h => hx ?_) fun _ => le_landing hS
    exact (Bool.or_eq_true_iff.mp h).imp_right .inr
  have hreturn : Flows Γ ⟨.clear x.breaks S, .clear live S⟩ []
      (.clear (x.ends || x.continues) (landing x S S')) (returning is known)
      (.clear (x.breaks || (known != some true && (x.ends || x.continues))) (landing x S S')) := by
    match known with
    | some true => exact .again hagain
    | some false => exact (Flows.nil _).back (below_clear (fun h => by simp [h]) fun _ _ => id)
    | none =>
      refine tests_branch he.serves (he.slots.scoped hs he.placed) hc
        (hcovers.mono (below_clear (fun h => ?_) fun _ _ => id)) (.again ?_)
        (.inr ⟨rfl, below_clear (fun h => ?_) fun _ _ => id⟩)
      · obtain h | h := Bool.or_eq_true_iff.mp h <;> simp [h]
      · exact (below_clear (fun h => (Bool.and_eq_true_iff.mp h).1) fun _ _ => id).trans hagain
      · have := (Bool.and_eq_true_iff.mp h).1
        simp [this]
  refine ⟨landing x S S', le_landing hS, hcovers.mono (below_clear (fun h => ?_) fun _ _ => id), ?_⟩
  · obtain h | h := Bool.or_eq_true_iff.mp h
    · simp [h]
    · obtain h | h := Bool.or_eq_true_iff.mp (Bool.and_eq_true_iff.mp h).2 <;> simp [h]
  · have hloop := (hbody.append hreturn).some_marks (marks Γ B)
      fun e he => List.mem_append_left _ he
    refine hloop.closed (below_clear (fun h => ?_) fun h n hn => ?_) (.refl _)
    · simp [h]
    · rwa [landing_jump (.inl h)] at hn

theorem Performed.forLoop {js ks : Asm} {update : List Expr} {head : Option Expr} {l₀ : LocalScope}
    (hstart : Performed T site live count' slots' [] l.open_ (ops is) l₀ (.plain live) [])
    (hc : Heads T site l₀ head js known)
    (h : Performed T site (live && known != some false) count slots loose l₀ F l₁ x B)
    (hu : ActsAll T site l₁ update ks)
    (hesc : (x.breaks || x.continues) = true → ∀ n ∈ slots, n ∈ loose)
    (hx : x.ends = true ∨ x.breaks = true ∨ x.continues = true → live = true) :
    Performed T site live (count' + count) [] loose l
      (ops (is ++ closed 0 (ops (heading js known (F.size + (ks.size + 3))) ++
        (F.forward ++ (ops ks ++ [.again]))))) l₁.close
      (.plain (live && (known != some true || x.breaks)))
      (Layout.behind (is.size + (heading js known (F.size + (ks.size + 3))).size) B) := by
  obtain ⟨new', names', hs', hcount', hp'⟩ := hstart
  obtain ⟨new, names, hs, hcount, hp⟩ := h
  refine ⟨new' ++ new, [], (hs'.trans hs).close, by simp [hcount, hcount'],
    fun Γ κ S he hloose hleave hagain => ?_⟩
  have hlive : (live && known != some false) = true → live = true :=
    fun h => (Bool.and_eq_true_iff.mp h).1
  have hends : (live && (known != some true || x.breaks)) = true → live = true :=
    fun h => (Bool.and_eq_true_iff.mp h).1
  have he' : Enclosed Γ T site live l.open_ (new' ++ new) S :=
    ⟨he.serves, he.returns, he.placed, he.slots, he.covers⟩
  obtain ⟨S₀, hS₀, hc₀, hfirst⟩ := hp' Γ κ S (he'.front id) (by simp) hleave hagain
  have hbody : Enclosed Γ T site (live && known != some false) _ _ S₀ :=
    he'.behind hs' (hc₀.mono (below_clear hlive fun _ _ => id))
  obtain ⟨S', hS, hcov, hF⟩ := hp Γ
    ⟨.clear (live && (known != some true || x.breaks)) S₀, .clear x.continues S₀⟩ S₀ hbody hloose
    (below_clear (fun h => by simp [h, hx (.inr (.inl h))]) fun _ _ => id) (.refl _)
  have hslots := hbody.slots.scoped hs hbody.placed
  have hcovers := hc₀.landing hs hcov (fun h n hn => hloose n (hesc h n hn)) hx
  have hupdate := actsAll_flows he.serves hslots hu
    ⟨.clear (live && (known != some true || x.breaks)) S₀, .clear live S₀⟩
    (.clear (x.ends || x.continues) (landing x S₀ S')) [] (hcovers.mono (below_clear (fun h => by
      obtain h | h := Bool.or_eq_true_iff.mp h <;> simp [h]) fun _ _ => id)) fun _ => rfl
  have hagain' : Below Γ (.clear (x.ends || x.continues) (landing x S₀ S')) (.clear live S₀) := by
    refine below_clear (fun h => hx ?_) fun _ => le_landing hS
    exact (Bool.or_eq_true_iff.mp h).imp_right .inr
  have hrest := hupdate.trans (.again (κ := ⟨_, .clear live S₀⟩) hagain'
    (b := .clear (live && (known != some true || x.breaks)) S₀))
  have hround := ((hF.body hS).append hrest).some_marks (marks Γ B)
    fun e he => List.mem_append_left _ he
  have hloop := heads_flows he.serves hbody.slots hc hc₀ hround
    fun hk => below_clear (fun h => by simpa [Exits.plain, hk] using h) fun _ _ => id
  refine ⟨S₀, hS₀, ?_, ?_⟩
  · exact (he.covers.mono (below_clear hends fun _ => hS₀)).scoped (hs'.trans hs).close (by simp)
  · have hclosed : Flows Γ κ _ _ _ _ := hloop.closed (.refl _) (.refl _)
    have hwhole := (hfirst.append hclosed).some_marks
      (marks Γ (Layout.behind (is.size + (heading js known (F.size + (ks.size + 3))).size) B))
      fun e he => List.mem_append_right _ (List.mem_cons_of_mem _ (by
        simpa [← moved_marks] using he))
    simpa [Exits.plain] using hwhole

/-! ## Jumps -/

theorem Performed.ret {e : Expr} {p : Pushed} (htype : site.returns.isVoid = false)
    (h : Evaluates T site l e site.returns is p) :
    Performed T site live 0 [] [] l (ops (is ++ [.plain .ret])) l (.plain false) [] := by
  refine .simple (fun Γ κ S he => ?_) nofun
  have hvalue : Γ.returns ≠ .void := by
    intro hvoid
    rw [he.returns] at hvoid
    rw [hvoid] at htype
    cases htype
  rw [ops_append]
  exact (evaluates_moves he.serves he.slots h κ _ [] he.covers fun _ => rfl).trans
    (.op (.ret hvalue fun _ => by rw [he.returns]; rfl) nofun rfl)

theorem Performed.retVoid (htype : site.returns.isVoid = true) :
    Performed T site live 0 [] [] l [.op (.plain .retVoid)] l (.plain false) [] := by
  refine .simple (fun Γ κ S he => ?_) nofun
  have hvoid : Γ.returns = .void := by
    rw [he.returns]
    revert htype
    cases site.returns <;> first | exact fun _ => rfl | exact nofun
  exact .op (.retVoid hvoid fun _ => rfl) nofun rfl

theorem Performed.breakLoop :
    Performed T site live 0 [] [] l [.leave] l ⟨false, live, false⟩ [] :=
  ⟨[], [], .refl l, rfl, fun _ _ S _ _ hleave _ => ⟨S, fun _ => id, nofun, .leave hleave⟩⟩

theorem Performed.continueLoop :
    Performed T site live 0 [] [] l [.again] l ⟨false, false, live⟩ [] :=
  ⟨[], [], .refl l, rfl, fun _ _ S _ _ _ hagain => ⟨S, fun _ => id, nofun, .again hagain⟩⟩

/-! ## Statements inside others -/

/-- A statement is found in its own code, and behaves as it should. -/
theorem Flows.marked {s : Stmt} (h : Flows Γ κ (marks Γ B) (.clear live S) F (.clear live' S'))
    (hdead : live = false → live' = false) :
    Flows Γ κ (marks Γ (⟨s, live, live', 0, F⟩ :: B)) (.clear live S) F (.clear live' S') := by
  have hbehaves : ∃ known, Annotates Γ κ (marks Γ B) (.clear live S) F (.clear live' S') known ∧
      Behaves Γ ⟨s, live, live', 0, F⟩ (window 0 F.size known) := by
    cases live with
    | true =>
      obtain ⟨known, h⟩ := h
      exact ⟨known, h, (fun h => by cases h), h.endless⟩
    | false =>
      obtain ⟨known, h, hidle⟩ := h.idle rfl (hdead rfl) (quiet_marks B)
      exact ⟨known, h, fun _ => hidle.window 0 F.size, h.endless⟩
  obtain ⟨known, h, hP⟩ := hbehaves
  have hall := (Flows.observed h hP).entered (s := .clear false fun _ => True)
    (below_clear (fun h => by cases h) fun h => by cases h)
    (below_clear (fun h => by cases h) fun h => by cases h)
  simpa [marks, Extent.stop] using hall

theorem Performed.kept (s : Stmt) (h : Performed T site live count slots loose l F l₁ x B)
    (hx : live = false → x.ends = false) :
    Performed T site live count slots loose l F l₁ x (⟨s, live, x.ends, 0, F⟩ :: B) := by
  obtain ⟨new, names, hs, hcount, hp⟩ := h
  refine ⟨new, names, hs, hcount, fun Γ κ S he hloose hleave hagain => ?_⟩
  obtain ⟨S', hS, hc, hF⟩ := hp Γ κ S he hloose hleave hagain
  exact ⟨S', hS, hc, hF.marked hx⟩

theorem Performed.dropped (s : Stmt) (h : Performed T site false count slots loose l F l₁ x B)
    (hx : x.ends = false) : Performed T site false count slots loose l [] l₁ x
      (⟨s, false, x.ends, 0, []⟩ :: B.map .dropped) := by
  obtain ⟨new, names, hs, hcount, hp⟩ := h
  refine ⟨new, names, hs, hcount, fun Γ κ S he hloose hleave hagain => ⟨S, fun _ => id, ?_, ?_⟩⟩
  · rw [hx]
    exact nofun
  · rw [hx]
    refine .nil_marks _ fun y hy => ?_
    have hstart : ∀ e ∈ (⟨s, false, false, 0, []⟩ :: B.map .dropped : List Extent),
        e.start = 0 ∧ e.code = [] := by
      intro e he
      obtain rfl | he := List.mem_cons.mp he
      · exact ⟨rfl, rfl⟩
      · obtain ⟨e, -, rfl⟩ := List.mem_map.mp he
        exact ⟨rfl, rfl⟩
    obtain ⟨e, he, hy⟩ := List.mem_flatMap.mp hy
    obtain ⟨hzero, hnil⟩ := hstart e he
    have hbelow : Below Γ (.clear false fun _ => True) (.clear false S) :=
      below_clear (fun h => by cases h) fun h => by cases h
    have hidle : Idle (window 0 0 (only (.clear false S))) := by
      intro q s hs
      simp [window] at hs
    simp only [List.mem_cons, List.not_mem_nil, or_false, Extent.stop, hzero, hnil] at hy
    obtain rfl | rfl | rfl := hy
    · exact ⟨_, rfl, hbelow⟩
    · exact ⟨_, rfl, hbelow⟩
    · refine ⟨Nat.le_refl _, .refl _, fun _ => hidle, fun _ => ?_⟩
      rw [hnil]
      exact hidle.endless []

end

end ClassScript.Flow

namespace ClassScript.Layout

open Flow

variable {T : Tables} {site : Site} {live : Bool} {s : Stmt} {l l' : LocalScope} {F : Fragment}
  {x : Exits} {B : List Extent}

theorem left_live (hdead : live = false → x = .plain false) :
    x.ends = true ∨ x.breaks = true ∨ x.continues = true → live = true := by
  intro h
  cases live with
  | true => rfl
  | false => simp [hdead rfl, Exits.plain] at h

/-- Where a statement can be left by a jump, the names that stay in scope behind it are loose. -/
theorem Lays.escaping_loose (h : Lays T site live s l F l' x B)
    (hx : (x.breaks || x.continues) = true) :
    ∀ n ∈ s.escaping l.frameSize, n ∈ s.loose l.frameSize := by
  intro n hn
  cases h with
  | ifThen => exact List.mem_append_left _ hn
  | ifElse =>
    exact (List.mem_append.mp hn).elim
      (fun h => List.mem_append_left _ (List.mem_append_left _ h))
      fun h => List.mem_append_right _ (List.mem_append_left _ h)
  | decl | whileLoop | doLoop | forLoop => simp [Exits.plain] at hx
  | _ => cases hn

theorem Nests.escaping_loose (h : Nests T site live s l F l' x B)
    (hx : (x.breaks || x.continues) = true) :
    ∀ n ∈ s.escaping l.frameSize, n ∈ s.loose l.frameSize := by
  cases h with
  | kept _ h => exact h.escaping_loose hx
  | dropped _ h => exact h.escaping_loose hx

theorem frameSize_of_performed {count : Nat} {slots loose : List Nat}
    (h : Performed T site live count slots loose l F l' x B) :
    l'.frameSize = l.frameSize + count := by
  obtain ⟨new, names, hs, hcount, -⟩ := h
  rw [hs.size, hcount]

theorem Nests.left_live {known : Bool} (h : Nests T site (live && known) s l F l' x B) :
    x.ends = true ∨ x.breaks = true ∨ x.continues = true → live = true :=
  fun hx => (Bool.and_eq_true_iff.mp (Layout.left_live (fun hdead => by
    rw [hdead] at h
    exact h.dead) hx)).1

mutual

/-- The code of a statement can be executed, form by form. -/
theorem Lays.performed {live : Bool} {s : Stmt} {l l' : LocalScope} {F : Fragment} {x : Exits}
    {B : List Extent} : Lays T site live s l F l' x B →
      Performed T site live s.slots (s.escaping l.frameSize) (s.loose l.frameSize) l F l' x B
  | .block h => by
    obtain ⟨slots, hp⟩ := h.performed
    exact hp.block fun hx => Layout.left_live (fun hlive => by
      subst hlive
      exact h.dead) (.inl hx)
  | .decl h => .declaresAll h
  | .expr h => .simple (fun Γ κ S he => acts_flows he.serves he.slots h κ _ [] he.covers
      fun _ => rfl) id
  | .ifThen hc hy => hy.performed.ifThen hc fun hx => hy.left_live (.inl hx)
  | .ifElse hc hy hn => by
    have hno := hn.performed
    rw [frameSize_of_performed hy.performed] at hno
    exact hy.performed.ifElse hc hno (fun hx => hy.left_live (.inl hx))
      fun hx => hn.left_live (.inl hx)
  | .whileLoop hc hb => hb.performed.whileLoop hc hb.left_live
  | .doLoop hb hc => hb.performed.doLoop hc hb.escaping_loose (Layout.left_live fun hlive => by
      subst hlive
      exact hb.dead)
  | .forLoop hs hc hb hu => by
    obtain ⟨slots, hp⟩ := Performed.starts hs
    have hbody := hb.performed
    have hesc := hb.escaping_loose
    rw [frameSize_of_performed hp] at hbody hesc
    exact hp.forLoop hc hbody hu hesc hb.left_live
  | .ret htype h => .ret htype h
  | .retVoid htype => .retVoid htype
  | .breakLoop => .breakLoop
  | .continueLoop => .continueLoop
  | .empty => .simple (fun _ _ _ _ => .nil _) id

theorem Nests.performed {live : Bool} {s : Stmt} {l l' : LocalScope} {F : Fragment} {x : Exits}
    {B : List Extent} : Nests T site live s l F l' x B →
      Performed T site live s.slots (s.escaping l.frameSize) (s.loose l.frameSize) l F l' x B
  | .kept _ h => h.performed.kept s fun hdead => by subst hdead; rw [h.dead]; rfl
  | .dropped _ h => h.performed.dropped s (by rw [h.dead]; rfl)

theorem LaysAll.performed {live : Bool} {ss : List Stmt} {l l' : LocalScope} {F : Fragment}
    {x : Exits} {B : List Extent} : LaysAll T site live ss l F l' x B →
      ∃ slots, Performed T site live (Stmt.slotsAll ss) slots (Stmt.looseAll l.frameSize ss)
        l F l' x B
  | .nil => ⟨_, .simple (fun _ _ _ _ => .nil _) id⟩
  | .cons h hs => by
    obtain ⟨slots, hrest⟩ := hs.performed
    rw [frameSize_of_performed h.performed] at hrest
    exact ⟨_, h.performed.append hrest⟩

end

end ClassScript.Layout
