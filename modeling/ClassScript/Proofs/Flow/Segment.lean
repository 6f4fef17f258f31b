import ClassScript.Proofs.Flow.State
import ClassScript.Proofs.Layout.Statement

/-!
Pieces of code with what is known at every instruction.

`Flows Γ κ E a F b` tells that states can be assigned to the places of `F` such that every
instruction is executed where it may be and leads to places where its outcome is expected. `a` is
known in front of `F` and `b` behind it; `E` lists what else is found in `F`: places that can be
entered, and pieces whose states have a property of their own. `κ` tells what is expected where jumps
out of a loop and to its next round lead. Pieces are put together by rules, so that nothing else has
to count bytes.
-/

namespace ClassScript.Flow

open Code (Instruction)
open Layout (Piece Fragment)
open Layout.Fragment

/-! ## Assignments of states -/

/-- The states that are expected where jumps lead that are not settled yet. -/
structure Around where
  leave : State
  again : State

def Boundary : Fragment → Nat → Prop
  | [], p => p = 0
  | x :: F, p => p = 0 ∨ ∃ q, p = x.width + q ∧ Boundary F q

section

variable (Γ : Context) (κ : Around) (known : Nat → Option State)

/-- Whatever is known at a place is known in `s`. -/
def Leads (s : State) (p : Nat) : Prop := ∃ t, known p = some t ∧ Below Γ s t

/-- A piece at an offset leads to places where its outcome is expected. -/
def Allows (o : Nat) : Piece → Prop
  | .op i => ∃ s w, known o = some s ∧ Executes Γ s i w ∧
      (∀ t, w.next = some t → Leads Γ known t (o + i.width)) ∧
      ∀ t, w.jump = some t →
        ∃ p, Verify.target? i (o + i.width) = some (some p) ∧ Leads Γ known t p
  | .leave => ∃ s, known o = some s ∧ Below Γ s κ.leave
  | .again => ∃ s, known o = some s ∧ Below Γ s κ.again

def AllowsAll : Nat → Fragment → Prop
  | _, [] => True
  | o, x :: F => Allows Γ κ known o x ∧ AllowsAll (o + x.width) F

end

/-- The instructions of `G` stand in `F` behind so many bytes. -/
def Contains (F : Fragment) (p : Nat) (G : Fragment) : Prop :=
  ∀ (front : Fragment) (i : Instruction) (back : Fragment), G = front ++ .op i :: back →
    ∃ front' back' : Fragment, F = front' ++ .op i :: back' ∧ front'.size = p + front.size

/-- The states of the `n` bytes from a place on. -/
def window (p n : Nat) (known : Nat → Option State) (q : Nat) : Option State :=
  if q < n then known (p + q) else none

inductive Mark where
  /-- The place can be entered in a state. -/
  | entry (s : State)
  /-- Another piece of code begins here, and the states in it have a property. -/
  | piece (G : Fragment) (P : (Nat → Option State) → Prop)

def Mark.Found (Γ : Context) (F : Fragment) (known : Nat → Option State) (p : Nat) : Mark → Prop
  | entry s => Leads Γ known s p
  | piece G P => p + G.size ≤ F.size ∧ Contains F p G ∧ P (window p G.size known)

structure Annotates (Γ : Context) (κ : Around) (E : List (Nat × Mark)) (a : State) (F : Fragment)
    (b : State) (known : Nat → Option State) : Prop where
  start : Leads Γ known a 0
  stop : known F.size = some b
  marks : ∀ e ∈ E, e.2.Found Γ F known e.1
  places : ∀ p s, known p = some s → Boundary F p
  pieces : AllowsAll Γ κ known 0 F

/-- States can be assigned to a piece of code, from `a` in front of it to `b` behind it. -/
def Flows (Γ : Context) (κ : Around) (E : List (Nat × Mark)) (a : State) (F : Fragment)
    (b : State) : Prop := ∃ known, Annotates Γ κ E a F b known

/-- What is found in a piece of code that stands behind so many bytes. -/
def moved (n : Nat) (E : List (Nat × Mark)) : List (Nat × Mark) := E.map fun e => (n + e.1, e.2)

variable {Γ : Context} {κ : Around} {E E' : List (Nat × Mark)} {a a' b b' c : State}
  {F G : Fragment} {known known' : Nat → Option State}

/-! ## Places -/

namespace Boundary

theorem zero (F : Fragment) : Boundary F 0 := by
  cases F with
  | nil => rfl
  | cons x F => exact .inl rfl

theorem size (F : Fragment) : Boundary F F.size := by
  induction F with
  | nil => rfl
  | cons x F ih => exact .inr ⟨_, rfl, ih⟩

theorem le {p : Nat} (h : Boundary F p) : p ≤ F.size := by
  induction F generalizing p with
  | nil => exact Nat.le_of_eq h
  | cons x F ih =>
    obtain rfl | ⟨q, rfl, hq⟩ := h
    · exact Nat.zero_le _
    · have := ih hq
      simp only [size_cons]
      omega

theorem left {p : Nat} (h : Boundary F p) (G : Fragment) : Boundary (F ++ G) p := by
  induction F generalizing p with
  | nil =>
    obtain rfl := h
    exact zero _
  | cons x F ih =>
    obtain rfl | ⟨q, rfl, hq⟩ := h
    · exact zero _
    · exact .inr ⟨q, rfl, ih hq⟩

theorem right {p : Nat} (h : Boundary G p) (F : Fragment) : Boundary (F ++ G) (F.size + p) := by
  induction F with
  | nil => simpa using h
  | cons x F ih => exact .inr ⟨_, by simp [Nat.add_assoc], ih⟩

theorem forward {p : Nat} (h : Boundary F p) : Boundary F.forward p := by
  induction F generalizing p with
  | nil => exact h
  | cons x F ih =>
    obtain rfl | ⟨q, rfl, hq⟩ := h
    · exact zero _
    · cases x <;> exact .inr ⟨q, rfl, ih hq⟩

theorem closed {p : Nat} (o : Nat) (h : Boundary F p) : Boundary (ops (closed o F)) p := by
  induction F generalizing p o with
  | nil => exact h
  | cons x F ih =>
    obtain rfl | ⟨q, rfl, hq⟩ := h
    · exact zero _
    · cases x <;> exact .inr ⟨q, rfl, ih _ hq⟩

end Boundary

/-! ## Instructions in other pieces of code -/

namespace Contains

theorem refl (F : Fragment) : Contains F 0 F :=
  fun front _ back h => ⟨front, back, h, (Nat.zero_add _).symm⟩

theorem left {p : Nat} {H : Fragment} (h : Contains F p H) (G : Fragment) :
    Contains (F ++ G) p H := by
  intro front i back hH
  obtain ⟨front', back', rfl, hsize⟩ := h front i back hH
  exact ⟨front', back' ++ G, by simp, hsize⟩

theorem right {p : Nat} {H : Fragment} (h : Contains G p H) (F : Fragment) :
    Contains (F ++ G) (F.size + p) H := by
  intro front i back hH
  obtain ⟨front', back', rfl, hsize⟩ := h front i back hH
  exact ⟨F ++ front', back', by simp, by simp [hsize, Nat.add_assoc]⟩

theorem forward {p : Nat} {H : Fragment} (h : Contains F p H) : Contains F.forward p H := by
  have split (front : Fragment) (i : Instruction) (back : Fragment) : ∃ front' : Fragment,
      Fragment.forward (front ++ .op i :: back) = front' ++ .op i :: back.forward ∧
        front'.size = front.size := by
    induction front with
    | nil => exact ⟨[], rfl, rfl⟩
    | cons x front ih =>
      obtain ⟨front', hF, hsize⟩ := ih
      cases x <;> exact ⟨_ :: front', congrArg _ hF, congrArg (_ + ·) hsize⟩
  intro front i back hH
  obtain ⟨front', back', rfl, hsize⟩ := h front i back hH
  obtain ⟨front'', hF, hsize'⟩ := split front' i back'
  exact ⟨front'', _, hF, hsize'.trans hsize⟩

theorem closed {p : Nat} {H : Fragment} (o : Nat) (h : Contains F p H) :
    Contains (ops (closed o F)) p H := by
  have split (front : Fragment) (i : Instruction) (back : Fragment) (o : Nat) :
      ∃ front' back' : Fragment,
        ops (Fragment.closed o (front ++ .op i :: back)) = front' ++ .op i :: back' ∧
          front'.size = front.size := by
    induction front generalizing o with
    | nil => exact ⟨[], _, rfl, rfl⟩
    | cons x front ih =>
      obtain ⟨front', back', hF, hsize⟩ := ih (o + x.width)
      cases x <;> exact ⟨_ :: front', back', congrArg _ hF, congrArg (_ + ·) hsize⟩
  intro front i back hH
  obtain ⟨front', back', rfl, hsize⟩ := h front i back hH
  obtain ⟨front'', back'', hF, hsize'⟩ := split front' i back' o
  exact ⟨front'', back'', hF, hsize'.trans hsize⟩

end Contains

theorem width_pos (x : Piece) : 0 < x.width := by
  cases x with
  | op i => exact i.width_pos
  | leave => exact Nat.succ_pos _
  | again => exact Nat.succ_pos _

/-! ## Moving assignments -/

theorem Leads.below {s t : State} {p : Nat} (h : Leads Γ known t p) (hst : Below Γ s t) :
    Leads Γ known s p := by
  obtain ⟨u, hu, htu⟩ := h
  exact ⟨u, hu, hst.trans htu⟩

theorem Leads.move {k p : Nat} {s : State}
    (hlead : ∀ p s, known p = some s → Leads Γ known' s (k + p)) (h : Leads Γ known s p) :
    Leads Γ known' s (k + p) := by
  obtain ⟨t, ht, hst⟩ := h
  exact (hlead p t ht).below hst

theorem target?_move {i : Instruction} {after p : Nat} (k : Nat)
    (h : Verify.target? i after = some (some p)) :
    Verify.target? i (k + after) = some (some (k + p)) := by
  unfold Verify.target? at h ⊢
  split at h
  · simp only [Option.some.injEq] at h
    simp only [Option.some.injEq]
    omega
  · simp only [Option.some.injEq] at h
    simp only [Option.some.injEq]
    omega
  · simp only [Option.some.injEq] at h
    simp only [Option.some.injEq]
    omega
  · simp only [Option.some.injEq] at h
    split at h
    · simp only [Option.some.injEq] at h
      rw [if_pos (by omega)]
      simp only [Option.some.injEq]
      omega
    · cases h
  · cases h

/-- An assignment that agrees with another one before `bound` allows the same pieces. -/
theorem AllowsAll.move (k bound : Nat)
    (hlead : ∀ p s, known p = some s → Leads Γ known' s (k + p))
    (hsame : ∀ p s, p < bound → known p = some s → known' (k + p) = some s) {o : Nat}
    (hbound : o + F.size ≤ bound) (h : AllowsAll Γ κ known o F) :
    AllowsAll Γ κ known' (k + o) F := by
  induction F generalizing o with
  | nil => exact trivial
  | cons x F ih =>
    have hx := width_pos x
    simp only [size_cons] at hbound
    refine ⟨?_, ?_⟩
    · have h := h.1
      cases x with
      | op i =>
        obtain ⟨s, w, hs, hw, hnext, hjump⟩ := h
        refine ⟨s, w, hsame o s (by omega) hs, hw, fun t ht => ?_, fun t ht => ?_⟩
        · rw [Nat.add_assoc]
          exact (hnext t ht).move hlead
        · obtain ⟨p, hp, hl⟩ := hjump t ht
          rw [Nat.add_assoc]
          exact ⟨k + p, target?_move k hp, hl.move hlead⟩
      | leave =>
        obtain ⟨s, hs, hl⟩ := h
        exact ⟨s, hsame o s (by omega) hs, hl⟩
      | again =>
        obtain ⟨s, hs, hl⟩ := h
        exact ⟨s, hsame o s (by omega) hs, hl⟩
    · rw [Nat.add_assoc]
      exact ih (by omega) h.2

theorem allowsAll_append {o : Nat} :
    AllowsAll Γ κ known o (F ++ G) ↔
      AllowsAll Γ κ known o F ∧ AllowsAll Γ κ known (o + F.size) G := by
  induction F generalizing o with
  | nil => simp [AllowsAll]
  | cons x F ih => simp [AllowsAll, ih, and_assoc, Nat.add_assoc]

/-- One assignment before a place, and another one from there on. -/
def joined (n : Nat) (known known' : Nat → Option State) (p : Nat) : Option State :=
  if p < n then known p else known' (p - n)

theorem joined_left {n p : Nat} (hp : p < n) : joined n known known' p = known p := if_pos hp

theorem joined_right (n p : Nat) : joined n known known' (n + p) = known' p := by
  rw [joined, if_neg (by omega), Nat.add_sub_cancel_left]

def only (s : State) (p : Nat) : Option State := if p = 0 then some s else none

def changed (n : Nat) (s : State) (known : Nat → Option State) (p : Nat) : Option State :=
  if p = n then some s else known p

/-- What is found in a piece of code is found in a longer one that contains it. -/
theorem Mark.Found.move {L : Fragment} {x : Mark} {k p : Nat}
    (hlead : ∀ p s, known p = some s → Leads Γ known' s (k + p))
    (hsame : ∀ p, p < F.size → known' (k + p) = known p)
    (hcode : ∀ p G, Contains F p G → Contains L (k + p) G) (hsize : k + F.size ≤ L.size)
    (h : x.Found Γ F known p) : x.Found Γ L known' (k + p) := by
  cases x with
  | entry s => exact Leads.move hlead h
  | piece G P =>
    obtain ⟨hbound, hcontains, hP⟩ := h
    have hwindow : window (k + p) G.size known' = window p G.size known := by
      funext q
      simp only [window]
      split
      · rw [Nat.add_assoc]
        exact hsame _ (by omega)
      · rfl
    exact ⟨by omega, hcode p G hcontains, hwindow ▸ hP⟩

/-- Jumps may be settled around what is found in a piece of code. -/
theorem Mark.Found.settle {F' : Fragment} {x : Mark} {p : Nat}
    (hcode : ∀ p G, Contains F p G → Contains F' p G) (hsize : F'.size = F.size)
    (h : x.Found Γ F known p) : x.Found Γ F' known p := by
  cases x with
  | entry s => exact h
  | piece G P => exact ⟨hsize ▸ h.1, hcode p G h.2.1, h.2.2⟩

theorem Leads.joined_right {s : State} {p : Nat} (n : Nat) (h : Leads Γ known' s p) :
    Leads Γ (joined n known known') s (n + p) := by
  obtain ⟨t, ht, hst⟩ := h
  exact ⟨t, (Flow.joined_right n p).trans ht, hst⟩

/-! ## Rules -/

namespace Flows

/-- Without code nothing is found but the place itself. -/
theorem nil_marks (s : State) (hE : ∀ e ∈ E, e.2.Found Γ [] (only s) e.1) : Flows Γ κ E s [] s := by
  refine ⟨only s, ⟨s, rfl, .refl s⟩, rfl, hE, fun p t ht => ?_, trivial⟩
  unfold only at ht
  split at ht
  · next hp => exact hp
  · cases ht

theorem nil (s : State) : Flows Γ κ [] s [] s := nil_marks s (by simp)

/-- Less may be known behind, and more in front. -/
theorem weaken (h : Flows Γ κ E a F b) (ha : Below Γ a' a) (hb : Below Γ b b') :
    Flows Γ κ E a' F b' := by
  obtain ⟨known, h⟩ := h
  have hlead : ∀ p s, known p = some s → Leads Γ (changed F.size b' known) s (0 + p) := by
    intro p s hs
    rw [Nat.zero_add]
    by_cases hp : p = F.size
    · subst hp
      rw [h.stop] at hs
      cases hs
      exact ⟨b', if_pos rfl, hb⟩
    · exact ⟨s, (if_neg hp).trans hs, .refl s⟩
  refine ⟨changed F.size b' known, ?_, if_pos rfl, fun e he => ?_, fun p s hs => ?_, ?_⟩
  · exact (h.start.move hlead).below ha
  · have hfound := (h.marks e he).move (L := F) hlead (fun p hp => ?_) (fun p G => ?_) (by simp)
    · rwa [Nat.zero_add] at hfound
    · rw [Nat.zero_add]
      exact if_neg (Nat.ne_of_lt hp)
    · rw [Nat.zero_add]
      exact id
  · unfold changed at hs
    split at hs
    · next hp => exact hp ▸ .size F
    · exact h.places p s hs
  · refine h.pieces.move 0 F.size hlead (fun p s hp hs => ?_) (by simp)
    rw [Nat.zero_add]
    exact (if_neg (Nat.ne_of_lt hp)).trans hs

theorem front (h : Flows Γ κ E a F b) (ha : Below Γ a' a) : Flows Γ κ E a' F b :=
  h.weaken ha (.refl b)

theorem back (h : Flows Γ κ E a F b) (hb : Below Γ b b') : Flows Γ κ E a F b' :=
  h.weaken (.refl a) hb

/-- Not everything that is found has to be listed. -/
theorem some_marks (h : Flows Γ κ E a F b) (E' : List (Nat × Mark)) (hE : ∀ e ∈ E', e ∈ E) :
    Flows Γ κ E' a F b := by
  obtain ⟨known, h⟩ := h
  exact ⟨known, h.start, h.stop, fun e he => h.marks e (hE e he), h.places, h.pieces⟩

/-- A piece of code can be entered at its start and at its end. -/
theorem entered {s : State} (h : Flows Γ κ E a F b) (ha : Below Γ s a) (hb : Below Γ s b) :
    Flows Γ κ ((0, .entry s) :: (F.size, .entry s) :: E) a F b := by
  obtain ⟨known, h⟩ := h
  refine ⟨known, h.start, h.stop, fun e he => ?_, h.places, h.pieces⟩
  obtain rfl | he := List.mem_cons.mp he
  · exact h.start.below ha
  · obtain rfl | he := List.mem_cons.mp he
    · exact ⟨b, h.stop, hb⟩
    · exact h.marks e he

/-- A property that the states of a piece of code have. -/
theorem observed {P : (Nat → Option State) → Prop} (h : Annotates Γ κ E a F b known)
    (hP : P (window 0 F.size known)) : Flows Γ κ ((0, .piece F P) :: E) a F b := by
  refine ⟨known, h.start, h.stop, fun e he => ?_, h.places, h.pieces⟩
  obtain rfl | he := List.mem_cons.mp he
  · exact ⟨Nat.le_of_eq (Nat.zero_add _), .refl F, hP⟩
  · exact h.marks e he

/-- One piece behind another; the second one can be entered at its start. -/
theorem append (h : Flows Γ κ E a F b) (h' : Flows Γ κ E' b G c) :
    Flows Γ κ (E ++ (F.size, .entry b) :: moved F.size E') a (F ++ G) c := by
  obtain ⟨known, h⟩ := h
  obtain ⟨known', h'⟩ := h'
  have hright : ∀ p s, known' p = some s → Leads Γ (joined F.size known known') s (F.size + p) :=
    fun p s hs => ⟨s, (joined_right _ p).trans hs, .refl s⟩
  have hleft : ∀ p s, known p = some s → Leads Γ (joined F.size known known') s (0 + p) := by
    intro p s hs
    rw [Nat.zero_add]
    by_cases hp : p < F.size
    · exact ⟨s, (joined_left hp).trans hs, .refl s⟩
    · obtain rfl : p = F.size := Nat.le_antisymm (h.places p s hs).le (Nat.le_of_not_lt hp)
      rw [h.stop] at hs
      cases hs
      exact h'.start.joined_right F.size
  refine ⟨joined F.size known known', h.start.move hleft, ?_, fun e he => ?_, fun p s hs => ?_, ?_⟩
  · rw [size_append]
    exact (joined_right _ _).trans h'.stop
  · simp only [moved, List.mem_append, List.mem_cons, List.mem_map] at he
    obtain he | rfl | ⟨e, he, rfl⟩ := he
    · have hfound := (h.marks e he).move (L := F ++ G) hleft (fun p hp => ?_) (fun p H hH => ?_)
        (by simp)
      · rwa [Nat.zero_add] at hfound
      · rw [Nat.zero_add]
        exact joined_left hp
      · rw [Nat.zero_add]
        exact hH.left G
    · exact h'.start.joined_right F.size
    · exact (h'.marks e he).move hright (fun p _ => joined_right _ p) (fun p H hH => hH.right F)
        (by simp)
  · unfold joined at hs
    split at hs
    · exact (h.places p s hs).left G
    · next hp =>
      have := (h'.places _ s hs).right F
      rwa [Nat.add_sub_cancel' (Nat.le_of_not_lt hp)] at this
  · rw [allowsAll_append, Nat.zero_add]
    refine ⟨h.pieces.move 0 F.size hleft (fun p s hp hs => ?_) (by simp),
      h'.pieces.move _ G.size hright (fun p s _ hs => (joined_right _ p).trans hs)
        (by simp)⟩
    rw [Nat.zero_add]
    exact (joined_left hp).trans hs

theorem trans (h : Flows Γ κ [] a F b) (h' : Flows Γ κ [] b G c) : Flows Γ κ [] a (F ++ G) c :=
  (h.append h').some_marks [] (by simp)

/-- One piece that does not lead to a place inside. -/
theorem piece {x : Piece} (h : Allows Γ κ (joined x.width (only a) (only b)) 0 x) :
    Flows Γ κ [] a [x] b := by
  have hx := width_pos x
  refine ⟨_, ⟨a, joined_left hx, .refl a⟩, joined_right x.width 0, by simp, fun p s hs => ?_, h,
    trivial⟩
  unfold joined only at hs
  split at hs
  · split at hs
    · next hp => exact .inl hp
    · cases hs
  · split at hs
    · next hp => exact .inr ⟨0, by omega, rfl⟩
    · cases hs

/-- One instruction that does not jump. -/
theorem op {i : Instruction} {w : Ways} (h : Executes Γ a i w)
    (hnext : ∀ t, w.next = some t → Below Γ t b) (hjump : w.jump = none) :
    Flows Γ κ [] a [.op i] b := by
  refine piece ⟨a, w, joined_left i.width_pos, h, fun t ht => ⟨b, ?_, hnext t ht⟩, fun t ht => ?_⟩
  · rw [Nat.zero_add]
    exact joined_right i.width 0
  · rw [hjump] at ht
    cases ht

/-- A jump out of the loop. -/
theorem leave (h : Below Γ a κ.leave) : Flows Γ κ [] a [.leave] b :=
  piece ⟨a, joined_left (width_pos _), h⟩

/-- A jump to the next round. -/
theorem again (h : Below Γ a κ.again) : Flows Γ κ [] a [.again] b :=
  piece ⟨a, joined_left (width_pos _), h⟩

theorem on {i : Instruction} (h : Executes Γ a i (.on b)) : Flows Γ κ [] a [.op i] b :=
  op h (fun _ ht => by cases ht; exact .refl _) rfl

/-- A jump forward, to a place that can be entered or to the end. -/
theorem passing {i : Instruction} {w : Ways} (h : Executes Γ a i w)
    (hi : ∀ after, Verify.target? i after = some (some (after + i.first)))
    (hnext : ∀ t, w.next = some t → Below Γ t b) (hG : Flows Γ κ E b G c)
    (hjump : ∀ t, w.jump = some t → (∃ s, (i.first, .entry s) ∈ E ∧ Below Γ t s) ∨
      i.first = G.size ∧ Below Γ t c) :
    Flows Γ κ ((i.width, .entry b) :: moved i.width E) a (.op i :: G) c := by
  have hw := i.width_pos
  obtain ⟨known, hG⟩ := hG
  have hright : ∀ p s, known p = some s → Leads Γ (joined i.width (only a) known) s (i.width + p) :=
    fun p s hs => ⟨s, (joined_right _ p).trans hs, .refl s⟩
  refine ⟨joined i.width (only a) known, ⟨a, joined_left hw, .refl a⟩, ?_, fun e he => ?_,
    fun p s hs => ?_, ?_, ?_⟩
  · exact (joined_right i.width _).trans hG.stop
  · simp only [moved, List.mem_cons, List.mem_map] at he
    obtain rfl | ⟨e, he, rfl⟩ := he
    · exact hG.start.joined_right i.width
    · exact (hG.marks e he).move hright (fun p _ => joined_right _ p)
        (fun p H hH => hH.right [.op i]) (by simp)
  · unfold joined only at hs
    split at hs
    · split at hs
      · next hp => exact .inl hp
      · cases hs
    · next hp =>
      exact .inr ⟨p - i.width, by simp only [Piece.width_op]; omega, hG.places _ s hs⟩
  · refine ⟨a, w, joined_left hw, h, fun t ht => ?_, fun t ht => ⟨_, hi _, ?_⟩⟩
    · rw [Nat.zero_add]
      exact (hG.start.joined_right i.width).below (hnext t ht)
    · rw [Nat.zero_add]
      obtain ⟨s, hs, hts⟩ | ⟨hd, htc⟩ := hjump t ht
      · exact (Leads.joined_right i.width (hG.marks _ hs)).below hts
      · rw [hd]
        exact ⟨c, (joined_right i.width _).trans hG.stop, htc⟩
  · rw [Nat.zero_add]
    exact hG.pieces.move _ G.size hright (fun p s _ hs => (joined_right _ p).trans hs)
      (by simp)

/-- Jumps to the next round lead to the end. -/
theorem forward {s s' t : State} (h : Flows Γ ⟨t, s⟩ E a F b) (hs : Below Γ s b) :
    Flows Γ ⟨t, s'⟩ E a F.forward b := by
  obtain ⟨known, h⟩ := h
  have pieces : ∀ (G : Fragment) (o : Nat), o + G.size = F.size →
      AllowsAll Γ ⟨t, s⟩ known o G → AllowsAll Γ ⟨t, s'⟩ known o G.forward := by
    intro G
    induction G with
    | nil => exact fun _ _ h => h
    | cons x G ih =>
      intro o ho hG
      simp only [size_cons] at ho
      have hrest := ih (o + x.width) (by omega) hG.2
      cases x with
      | op i => exact ⟨hG.1, hrest⟩
      | leave => exact ⟨hG.1, hrest⟩
      | again =>
        obtain ⟨u, hu, hus⟩ := hG.1
        refine ⟨⟨u, _, hu, .jump, (fun t ht => by cases ht), fun t ht => ?_⟩, hrest⟩
        cases ht
        refine ⟨_, rfl, b, ?_, hus.trans hs⟩
        rw [← h.stop]
        exact congrArg known ((Nat.add_assoc ..).trans ho)
  exact ⟨known, h.start, (size_forward F).symm ▸ h.stop,
    fun e he => (h.marks e he).settle (fun _ _ => Contains.forward) (size_forward F),
    fun p s hs => (h.places p s hs).forward, pieces F 0 (Nat.zero_add _) h.pieces⟩

/-- The code of a loop: jumps out of it lead to its end, and jumps to the next round to its start. -/
theorem closed {s t : State} {ρ : Around} (h : Flows Γ ⟨t, s⟩ E a F b) (ht : Below Γ t b)
    (hs : Below Γ s a) : Flows Γ ρ E a (ops (closed 0 F)) b := by
  obtain ⟨known, h⟩ := h
  have pieces : ∀ (G : Fragment) (o : Nat), o + G.size = F.size →
      AllowsAll Γ ⟨t, s⟩ known o G →
        AllowsAll Γ ρ known o (ops (Layout.Fragment.closed o G)) := by
    intro G
    induction G with
    | nil => exact fun _ _ h => h
    | cons x G ih =>
      intro o ho hG
      simp only [size_cons] at ho
      have hrest := ih (o + x.width) (by omega) hG.2
      cases x with
      | op i => exact ⟨hG.1, hrest⟩
      | leave =>
        obtain ⟨u, hu, hut⟩ := hG.1
        refine ⟨⟨u, _, hu, .jump, (fun t ht => by cases ht), fun t ht => ?_⟩, hrest⟩
        cases ht
        refine ⟨_, rfl, b, ?_, hut.trans ‹_›⟩
        rw [← h.stop]
        exact congrArg known ((Nat.add_assoc ..).trans ho)
      | again =>
        obtain ⟨u, hu, hus⟩ := hG.1
        refine ⟨⟨u, _, hu, .loop, (fun t ht => by cases ht), fun t ht => ?_⟩, hrest⟩
        cases ht
        refine ⟨0, ?_, h.start.below (hus.trans hs)⟩
        change some (if o + 3 ≤ o + 3 then some (o + 3 - (o + 3)) else none) = _
        rw [if_pos (Nat.le_refl _), Nat.sub_self]
  exact ⟨known, h.start, by simpa using h.stop,
    fun e he => (h.marks e he).settle (fun _ _ => Contains.closed 0) (by simp),
    fun p s hs => (h.places p s hs).closed 0, pieces F 0 (Nat.zero_add _) h.pieces⟩

end Flows

/-! ## Code that is not reached -/

def State.dead (s : State) : State := ⟨s.stack, s.top, false, s.stored⟩

/-- No place of a piece of code can be reached. -/
def Idle (k : Nat → Option State) : Prop := ∀ q s, k q = some s → s.live = false

/-- No instruction of `F` that can be reached leads to the end of `F`. -/
def Endless (Γ : Context) (F : Fragment) (k : Nat → Option State) : Prop :=
  ∀ (front : Fragment) (i : Instruction) (back : Fragment) (s : State),
    F = front ++ .op i :: back → k front.size = some s → s.live = true →
      ∃ w, Executes Γ s i w ∧
        (∀ t, w.next = some t → t.live = true → front.size + i.width ≠ F.size) ∧
        ∀ t, w.jump = some t → t.live = true →
          Verify.target? i (front.size + i.width) ≠ some (some F.size)

theorem Below.dead {s t : State} (h : Below Γ s t) (u : State) (hu : u.stack = t.stack)
    (htop : u.top = t.top) : Below Γ s.dead u :=
  ⟨fun hs => hu ▸ h.stack hs, htop ▸ h.top, (fun h => by cases h), fun h => by cases h⟩

theorem Idle.endless {k : Nat → Option State} (h : Idle k) (F : Fragment) : Endless Γ F k := by
  intro front i back s _ hs hlive
  rw [h _ s hs] at hlive
  cases hlive

theorem Idle.window {k : Nat → Option State} (h : Idle k) (p n : Nat) : Idle (window p n k) := by
  intro q s hs
  simp only [Flow.window] at hs
  split at hs
  · exact h _ s hs
  · cases hs

/-- Where nothing leads, an instruction leads nowhere. -/
theorem Executes.dead {s : State} {i : Instruction} {w : Ways} (h : Executes Γ s i w) :
    Executes Γ s.dead i ⟨w.next.map State.dead, w.jump.map State.dead⟩ := by
  cases h with
  | constant h => exact .constant h
  | pushTrue => exact .pushTrue
  | pushFalse => exact .pushFalse
  | pop hs => exact .pop hs
  | dup hs => exact .dup hs
  | getLocal h _ => exact .getLocal h fun h => by cases h
  | setLocal h hs => exact .setLocal h hs
  | getField h hr => exact .getField h hr
  | setField h hr hs => exact .setField h hr hs
  | getStatic h => exact .getStatic h
  | setStatic h hs => exact .setStatic h hs
  | unary h hs => exact .unary h hs
  | binary h hs => exact .binary h hs
  | jump => exact .jump
  | loop => exact .loop
  | jumpIfFalse hs => exact .jumpIfFalse hs
  | jumpIfTrue hs => exact .jumpIfTrue hs
  | call h hr hs => exact .call h hr hs
  | callNative h hs => exact .callNative h hs
  | ret hr hs => exact .ret hr hs
  | retVoid hr hs => exact .retVoid hr hs

/-- What is found does not depend on whether it can be reached. -/
def Mark.Quiet : Mark → Prop
  | entry s => s.live = false
  | piece _ P => ∀ k, Idle k → P k

/-- Where a piece of code is not reached, no place in it can be. -/
theorem Flows.idle (h : Flows Γ κ E a F b) (ha : a.live = false) (hb : b.live = false)
    (hE : ∀ e ∈ E, e.2.Quiet) : ∃ known, Annotates Γ κ E a F b known ∧ Idle known := by
  obtain ⟨known, h⟩ := h
  have kill {p : Nat} {s : State} (hs : known p = some s) : (known p).map State.dead = some s.dead := by
    rw [hs]
    rfl
  have hidle : Idle fun p => (known p).map State.dead := by
    intro q s hs
    obtain ⟨u, -, rfl⟩ := Option.map_eq_some_iff.mp hs
    rfl
  have leads {s : State} {p : Nat} (hs : s.live = false) (h : Leads Γ known s p) :
      Leads Γ (fun p => (known p).map State.dead) s p := by
    obtain ⟨t, ht, hst⟩ := h
    refine ⟨t.dead, kill ht, hst.stack, hst.top, fun h => ?_, fun h => ?_⟩
    · rw [hs] at h
      cases h
    · rw [hs] at h
      cases h
  have dead {s : State} {p : Nat} (h : Leads Γ known s p) :
      Leads Γ (fun p => (known p).map State.dead) s.dead p := by
    obtain ⟨t, ht, hst⟩ := h
    exact ⟨t.dead, kill ht, hst.dead t.dead rfl rfl⟩
  have pieces (G : Fragment) (o : Nat) (hG : AllowsAll Γ κ known o G) :
      AllowsAll Γ κ (fun p => (known p).map State.dead) o G := by
    induction G generalizing o with
    | nil => trivial
    | cons x G ih =>
      refine ⟨?_, ih _ hG.2⟩
      have hx := hG.1
      cases x with
      | op i =>
        obtain ⟨s, w, hs, hw, hnext, hjump⟩ := hx
        refine ⟨s.dead, _, kill hs, hw.dead, fun t ht => ?_, fun t ht => ?_⟩
        · obtain ⟨u, hu, rfl⟩ := Option.map_eq_some_iff.mp ht
          exact dead (hnext u hu)
        · obtain ⟨u, hu, rfl⟩ := Option.map_eq_some_iff.mp ht
          obtain ⟨p, hp, hlead⟩ := hjump u hu
          exact ⟨p, hp, dead hlead⟩
      | leave =>
        obtain ⟨s, hs, hbelow⟩ := hx
        exact ⟨s.dead, kill hs, hbelow.dead _ rfl rfl⟩
      | again =>
        obtain ⟨s, hs, hbelow⟩ := hx
        exact ⟨s.dead, kill hs, hbelow.dead _ rfl rfl⟩
  refine ⟨_, ⟨leads ha h.start, ?_, fun e he => ?_, fun p s hs => ?_, pieces F 0 h.pieces⟩, hidle⟩
  · rw [kill h.stop]
    exact congrArg some (show State.dead b = b by rw [State.dead, ← hb])
  · have hquiet := hE e he
    have hfound := h.marks e he
    obtain ⟨p, x⟩ := e
    cases x with
    | entry s => exact leads hquiet hfound
    | piece G P =>
      exact ⟨hfound.1, hfound.2.1, hquiet _ (hidle.window p G.size)⟩
  · obtain ⟨t, ht, -⟩ := Option.map_eq_some_iff.mp hs
    exact h.places p t ht

/-- If the end of a piece of code is not reached, no instruction leads there. -/
theorem Annotates.endless (h : Annotates Γ κ E a F b known) (hb : b.live = false) :
    Endless Γ F (window 0 F.size known) := by
  intro front i back s hF hs hlive
  have hwidth := i.width_pos
  have hsize : front.size + i.width + size back = F.size := by simp [hF, Nat.add_assoc]
  rw [window, if_pos (by omega), Nat.zero_add] at hs
  have hall := h.pieces
  rw [hF, allowsAll_append, Nat.zero_add] at hall
  obtain ⟨s', w, hs', hw, hnext, hjump⟩ := hall.2.1
  rw [hs] at hs'
  cases hs'
  -- what leads to the end cannot be reached
  have stop {t : State} (ht : t.live = true) (hlead : Leads Γ known t F.size) : False := by
    obtain ⟨u, hu, hbelow⟩ := hlead
    rw [h.stop] at hu
    cases hu
    have := hbelow.live ht
    rw [hb] at this
    cases this
  refine ⟨w, hw, fun t ht hl hend => stop hl (hend ▸ hnext t ht), fun t ht hl hend => ?_⟩
  obtain ⟨p, hp, hlead⟩ := hjump t ht
  rw [hend] at hp
  cases hp
  exact stop hl hlead

end ClassScript.Flow
