import ClassScript.Overload
import Mathlib.Data.List.NodupEquivFin
import Mathlib.Data.List.Range

/-!
Overload resolution finds the best candidate.

A candidate outranks another one if it is nowhere a worse match and somewhere a better one. No two
candidates outrank each other, so the one that outranks all others is the only such one, wherever it
stands in the list. The main statement tells exactly when a candidate is chosen, and when and how the
choice fails. The last section tells what the two candidates that an ambiguity names stand for.
-/

namespace ClassScript.Overload

variable {ps qs : List Params} {args : List ValueType} {i : Nat} {p : Params}

/-! ## What is asked of candidates -/

/-- There is a parameter for every argument, to which the argument converts. -/
def Applicable (args : List ValueType) (p : Params) : Prop :=
  List.Forall₂ (fun a t => a.convertsTo t = true) args p

/-- No argument prefers `q`, and one prefers `p`. -/
structure Outranks (args : List ValueType) (p q : Params) : Prop where
  never : ∀ (k : Nat) (a s t : ValueType), args[k]? = some a → p[k]? = some s → q[k]? = some t → a.prefers t s = false
  once : ∃ (k : Nat) (a s t : ValueType), args[k]? = some a ∧ p[k]? = some s ∧ q[k]? = some t ∧ a.prefers s t = true

theorem applicable_iff : p.length = args.length ∧ accepts p args = true ↔ Applicable args p := by
  induction p generalizing args with
  | nil => cases args <;> simp [Applicable, accepts]
  | cons t ts ih =>
    cases args with
    | nil => simp [Applicable]
    | cons a as =>
      simp only [Applicable, accepts, List.zip_cons_cons, List.all_cons, Bool.and_eq_true,
        List.length_cons, Nat.add_right_cancel_iff, List.forall₂_cons] at ih ⊢
      rw [and_left_comm, ih]

theorem prefersSome_iff {q : Params} : prefersSome args p q = true ↔
    ∃ (k : Nat) (a s t : ValueType), args[k]? = some a ∧ p[k]? = some s ∧ q[k]? = some t ∧ a.prefers s t = true := by
  induction args generalizing p q with
  | nil => simp [prefersSome]
  | cons a as ih =>
    cases p with
    | nil => simp [prefersSome]
    | cons s ps =>
      cases q with
      | nil => simp [prefersSome]
      | cons t qs =>
        simp only [prefersSome, Bool.or_eq_true, ih]
        constructor
        · rintro (h | ⟨k, h⟩)
          · exact ⟨0, a, s, t, rfl, rfl, rfl, h⟩
          · exact ⟨k + 1, h⟩
        · rintro ⟨k | k, b, u, v, hb, hu, hv, h⟩
          · cases hb; cases hu; cases hv
            exact .inl h
          · exact .inr ⟨k, b, u, v, hb, hu, hv, h⟩

theorem better_iff {q : Params} : better args p q = true ↔ Outranks args p q := by
  simp only [better, Bool.and_eq_true, Bool.not_eq_true', ← Bool.not_eq_true, prefersSome_iff]
  constructor
  · rintro ⟨hnever, honce⟩
    refine ⟨fun k a s t ha hs ht => ?_, honce⟩
    by_contra h
    exact hnever ⟨k, a, t, s, ha, ht, hs, by simpa using h⟩
  · rintro ⟨hnever, honce⟩
    refine ⟨?_, honce⟩
    rintro ⟨k, a, t, s, ha, ht, hs, h⟩
    simp [hnever k a s t ha hs ht] at h

/-! ## The best candidate -/

/-- The candidate is applicable, occurs once, and is better than all others that are. -/
structure Best (args : List ValueType) (ps : List Params) (p : Params) : Prop where
  length : p.length = args.length
  accepts : accepts p args = true
  once : ps.countP (· = p) = 1
  better : ∀ q ∈ ps, q ≠ p → q.length = args.length → Overload.accepts q args = true →
    better args p q = true

theorem Best.perm (h : Best args ps p) (hperm : ps.Perm qs) : Best args qs p :=
  ⟨h.length, h.accepts, (hperm.countP_eq _).symm.trans h.once,
    fun q hq => h.better q (hperm.mem_iff.mpr hq)⟩

theorem better_asymm {p q : Params} (h : better args p q = true) : better args q p = false := by
  simp only [better, Bool.and_eq_true, Bool.not_eq_true'] at h
  simp [better, h.2]

def applicable (ps : List Params) (args : List ValueType) : List (Params × Nat) :=
  (ps.zipIdx.filter fun c => c.1.length == args.length).filter fun c => Overload.accepts c.1 args

theorem mem_applicable {c : Params × Nat} : c ∈ applicable ps args ↔
    ps[c.2]? = some c.1 ∧ c.1.length = args.length ∧ Overload.accepts c.1 args = true := by
  simp only [applicable, List.mem_filter, List.mem_zipIdx_iff_getElem?, beq_iff_eq, and_assoc]

/-- The candidate that is meant is better than the other ones that can be meant. -/
theorem better_of_resolve (h : resolve ps args = .ok i) :
    ∃ p, (p, i) ∈ applicable ps args ∧
      ∀ c ∈ applicable ps args, c.2 ≠ i → Overload.better args p c.1 = true := by
  unfold resolve at h
  dsimp only at h
  split at h
  · cases h
  · split at h
    · cases h
    · next p only honly =>
      cases h
      rw [applicable, honly]
      exact ⟨p, List.mem_singleton.mpr rfl, fun c hc hne => absurd (List.mem_singleton.mp hc ▸ rfl) hne⟩
    · next hall =>
      split at h
      · next p best hbest =>
        cases h
        have hothers := List.find?_some hbest
        rw [List.all_eq_true, ← hall] at hothers
        refine ⟨p, ?_, fun c hc hne => ?_⟩
        · rw [applicable, hall]
          exact List.mem_of_find?_eq_some hbest
        · simpa [hne] using hothers c hc
      · cases h

theorem places_unique (h : ps.countP (· = p) = 1) {j : Nat} (hi : ps[i]? = some p) (hj : ps[j]? = some p) :
    i = j := by
  by_contra hne
  have hduplicate : List.Duplicate p ps := by
    obtain ⟨hi', hi⟩ := List.getElem?_eq_some_iff.mp hi
    obtain ⟨hj', hj⟩ := List.getElem?_eq_some_iff.mp hj
    rw [List.duplicate_iff_exists_distinct_get]
    rcases Nat.lt_or_gt_of_ne hne with hlt | hlt
    · exact ⟨⟨i, hi'⟩, ⟨j, hj'⟩, hlt, hi.symm, hj.symm⟩
    · exact ⟨⟨j, hj'⟩, ⟨i, hi'⟩, hlt, hj.symm, hi.symm⟩
  have htwo : 2 ≤ ps.countP (· = p) := List.duplicate_iff_two_le_count.mp hduplicate
  omega

theorem best_of_resolve (h : resolve ps args = .ok i) : ∃ p, ps[i]? = some p ∧ Best args ps p := by
  obtain ⟨p, hp, hbetter⟩ := better_of_resolve h
  obtain ⟨hi, hlength, haccepts⟩ := mem_applicable.mp hp
  have hself : Overload.better args p p = false := by simp [better]
  have hplace (j : Nat) (hj : ps[j]? = some p) : j = i := by
    by_contra hne
    have := hbetter (p, j) (mem_applicable.mpr ⟨hj, hlength, haccepts⟩) hne
    simp [hself] at this
  refine ⟨p, hi, hlength, haccepts, ?_, fun q hq hne hl ha => ?_⟩
  · have hmem : 0 < ps.countP (· = p) :=
      List.countP_pos_iff.mpr ⟨p, List.mem_of_getElem? hi, decide_eq_true rfl⟩
    by_contra hcount
    have htwo : 2 ≤ ps.countP (· = p) := by omega
    have hduplicate : List.Duplicate p ps := List.duplicate_iff_two_le_count.mpr htwo
    obtain ⟨m, n, hlt, hm, hn⟩ := List.duplicate_iff_exists_distinct_get.mp hduplicate
    have hm' := hplace m (by simp [hm])
    have hn' := hplace n (by simp [hn])
    simp only [Fin.lt_def] at hlt
    omega
  · obtain ⟨j, hj⟩ := List.getElem?_of_mem hq
    refine hbetter (q, j) (mem_applicable.mpr ⟨hj, hl, ha⟩) ?_
    rintro rfl
    exact hne (Option.some.inj (hj.symm.trans hi))

/-- A candidate that is better than all others that can be meant is found. -/
theorem resolve_of_better (hmem : (p, i) ∈ applicable ps args)
    (hothers : ∀ c ∈ applicable ps args, c.2 ≠ i → Overload.better args p c.1 = true) :
    resolve ps args = .ok i := by
  unfold resolve
  dsimp only
  split
  · next hnone =>
    rw [applicable, hnone] at hmem
    cases hmem
  · split
    · next hnone =>
      rw [applicable, hnone] at hmem
      cases hmem
    · next honly =>
      rw [applicable, honly, List.mem_singleton] at hmem
      rw [(Prod.mk.inj hmem).2]
    · next hall =>
      rw [applicable, hall] at hmem hothers
      split
      · next q best hbest =>
        have hq := List.find?_some hbest
        by_contra hne
        have hne : best ≠ i := fun heq => hne (heq ▸ rfl)
        have hworse := List.all_eq_true.mp hq _ hmem
        have hbetter := hothers _ (List.mem_of_find?_eq_some hbest) hne
        simp [better_asymm hbetter, Ne.symm hne] at hworse
      · next hnone =>
        refine absurd ?_ (List.find?_eq_none.mp hnone _ hmem)
        refine List.all_eq_true.mpr fun c hc => ?_
        by_cases hc' : c.2 = i
        · simp [hc']
        · simp [hothers c hc hc']

theorem resolve_of_best (h : Best args ps p) (hi : ps[i]? = some p) : resolve ps args = .ok i := by
  refine resolve_of_better (mem_applicable.mpr ⟨hi, h.length, h.accepts⟩) fun c hc hne => ?_
  obtain ⟨hj, hl, ha⟩ := mem_applicable.mp hc
  refine h.better _ (List.mem_of_getElem? hj) ?_ hl ha
  intro heq
  exact hne (places_unique h.once (heq ▸ hj) hi)

/-- The candidate that is meant does not depend on the order of the candidates. -/
theorem resolve_perm {α β : Type} {as bs : List α} {params : α → Params} {key : α → β} {g : β → Params}
    (hkey : ∀ a, params a = g (key a)) (hperm : (as.map key).Perm (bs.map key)) {a : α}
    (h : resolve (as.map params) args = .ok i) (ha : as[i]? = some a) :
    ∃ j b, resolve (bs.map params) args = .ok j ∧ bs[j]? = some b ∧ key a = key b := by
  have hparams (cs : List α) : cs.map params = (cs.map key).map g := by
    rw [List.map_map]
    exact List.map_congr_left fun a _ => hkey a
  obtain ⟨p, hp, hbest⟩ := best_of_resolve h
  have hbest' : Best args (bs.map params) p := by
    rw [hparams] at hbest ⊢
    exact hbest.perm (hperm.map g)
  rw [List.getElem?_map, ha] at hp
  obtain rfl := Option.some.inj hp
  obtain ⟨b, hb, hab⟩ := List.mem_map.mp
    (hperm.mem_iff.mp (List.mem_map_of_mem (List.mem_of_getElem? ha)))
  obtain ⟨j, hj⟩ := List.getElem?_of_mem hb
  refine ⟨j, b, resolve_of_best hbest' ?_, hj, hab.symm⟩
  rw [List.getElem?_map, hj, Option.map_some, hkey, hkey, hab]


theorem mem_applicable_iff {c : Params × Nat} :
    c ∈ applicable ps args ↔ ps[c.2]? = some c.1 ∧ Applicable args c.1 :=
  mem_applicable.trans (and_congr_right fun _ => applicable_iff)

/-- A candidate is chosen just if it can be meant and outranks all others that can be. -/
theorem resolve_eq_ok_iff : resolve ps args = .ok i ↔ ∃ p, ps[i]? = some p ∧ Applicable args p ∧
    ∀ j q, ps[j]? = some q → j ≠ i → Applicable args q → Outranks args p q := by
  constructor
  · intro h
    obtain ⟨p, hp, hbetter⟩ := better_of_resolve h
    obtain ⟨hi, happlicable⟩ := mem_applicable_iff.mp hp
    exact ⟨p, hi, happlicable, fun j q hj hne hq =>
      better_iff.mp (hbetter (q, j) (mem_applicable_iff.mpr ⟨hj, hq⟩) hne)⟩
  · rintro ⟨p, hi, happlicable, hbetter⟩
    refine resolve_of_better (mem_applicable_iff.mpr ⟨hi, happlicable⟩) fun c hc hne => ?_
    obtain ⟨hj, hq⟩ := mem_applicable_iff.mp hc
    exact better_iff.mpr (hbetter c.2 c.1 hj hne hq)

/-! ## Failures -/

/-- How a call is resolved: to a candidate, which its parameters name, or to a failure of some kind. -/
inductive Outcome where
  | chosen (p : Params)
  | noArity
  | mismatch
  | ambiguous
deriving DecidableEq

def outcome (candidates : List Params) (args : List ValueType) : Outcome :=
  match resolve candidates args with
  | .ok i => .chosen (candidates.getD i [])
  | .error .noArity => .noArity
  | .error (.mismatch ..) => .mismatch
  | .error (.ambiguous ..) => .ambiguous

/-- The kind of an answer goes with how many candidates can be meant. -/
theorem resolve_cases (ps : List Params) (args : List ValueType) :
    (resolve ps args = .error .noArity ∧ ∀ p ∈ ps, p.length ≠ args.length) ∨
    ((∃ k t, resolve ps args = .error (.mismatch k t)) ∧ (∃ p ∈ ps, p.length = args.length) ∧
      ∀ p ∈ ps, ¬ Applicable args p) ∨
    (((∃ i, resolve ps args = .ok i) ∨ ∃ i j, resolve ps args = .error (.ambiguous i j)) ∧
      ∃ p ∈ ps, Applicable args p) := by
  have hlengths : (ps.zipIdx.filter fun c => c.1.length == args.length) = [] ↔
      ∀ p ∈ ps, p.length ≠ args.length := by
    simp only [List.filter_eq_nil_iff, beq_iff_eq, ne_eq]
    constructor
    · intro h p hp
      obtain ⟨j, hj⟩ := List.getElem?_of_mem hp
      exact h (p, j) (List.mem_zipIdx_iff_getElem?.mpr hj)
    · intro h c hc
      exact h c.1 (List.mem_of_getElem? (List.mem_zipIdx_iff_getElem?.mp hc))
  have hexists {c : Params × Nat} (hc : c ∈ applicable ps args) : ∃ p ∈ ps, Applicable args p := by
    obtain ⟨hi, hp⟩ := mem_applicable_iff.mp hc
    exact ⟨c.1, List.mem_of_getElem? hi, hp⟩
  unfold resolve
  dsimp only
  split
  · next hnone => exact .inl ⟨rfl, hlengths.mp hnone⟩
  · next first place rest hsome =>
    have hfirst : ∃ p ∈ ps, p.length = args.length := by
      by_contra hnot
      refine absurd (hsome.symm.trans (hlengths.mpr fun p hp hl => hnot ⟨p, hp, hl⟩)) ?_
      exact List.cons_ne_nil _ _
    refine .inr ?_
    split
    · next hnone =>
      refine .inl ⟨⟨_, _, rfl⟩, hfirst, fun p hp happlicable => ?_⟩
      obtain ⟨j, hj⟩ := List.getElem?_of_mem hp
      have hmem : (p, j) ∈ applicable ps args := mem_applicable_iff.mpr ⟨hj, happlicable⟩
      rw [applicable, hnone] at hmem
      cases hmem
    · next p i honly =>
      refine .inr ⟨.inl ⟨_, rfl⟩, hexists (c := (p, i)) ?_⟩
      rw [applicable, honly]
      exact List.mem_singleton.mpr rfl
    · next p i q j rest hall =>
      have hmem : (p, i) ∈ applicable ps args := by
        rw [applicable, hall]
        exact List.mem_cons_self ..
      refine .inr ⟨?_, hexists hmem⟩
      split
      · exact .inl ⟨_, rfl⟩
      · exact .inr ⟨_, _, rfl⟩

theorem Applicable.length (h : Applicable args p) : p.length = args.length := h.length_eq.symm

theorem resolve_eq_noArity_iff :
    resolve ps args = .error .noArity ↔ ∀ p ∈ ps, p.length ≠ args.length := by
  obtain ⟨h, hnone⟩ | ⟨⟨k, t, h⟩, ⟨p, hp, hlength⟩, -⟩ | ⟨h, p, hp, happlicable⟩ := resolve_cases ps args
  · simp only [h, true_iff]
    exact hnone
  · simp only [h, Except.error.injEq, reduceCtorEq, false_iff]
    exact fun hnone => hnone p hp hlength
  · have hlength : ¬ ∀ p ∈ ps, p.length ≠ args.length := fun hnone => hnone p hp happlicable.length
    obtain ⟨i, h⟩ | ⟨i, j, h⟩ := h <;> simp [h, hlength]

theorem resolve_eq_mismatch_iff : (∃ k t, resolve ps args = .error (.mismatch k t)) ↔
    (∃ p ∈ ps, p.length = args.length) ∧ ∀ p ∈ ps, ¬ Applicable args p := by
  obtain ⟨h, hnone⟩ | ⟨hmismatch, hlength, hnone⟩ | ⟨h, p, hp, happlicable⟩ := resolve_cases ps args
  · have hlength : ¬ ∃ p ∈ ps, p.length = args.length := fun ⟨p, hp, hl⟩ => hnone p hp hl
    simp only [h, Except.error.injEq, reduceCtorEq, exists_const, false_iff]
    exact fun hsome => hlength hsome.1
  · exact iff_of_true hmismatch ⟨hlength, hnone⟩
  · refine iff_of_false ?_ fun hnone => hnone.2 p hp happlicable
    rintro ⟨k, t, hmismatch⟩
    obtain ⟨i, h⟩ | ⟨i, j, h⟩ := h <;> simp [h] at hmismatch

/-! ## Arguments that are what a candidate asks for -/

theorem convertsTo_self {t : ValueType} (h : t ≠ .void) : t.convertsTo t = true := by
  cases t <;> first | rfl | exact absurd rfl h

/-- Arguments of the very types of the parameters can be passed. -/
theorem applicable_self (h : .void ∉ args) : Applicable args args :=
  List.forall₂_same.mpr fun _ ht => convertsTo_self fun heq => h (heq ▸ ht)

/-- Nothing is a better match than the types of the arguments themselves. -/
theorem outranks_of_ne {q : Params} (hlength : q.length = args.length) (hne : q ≠ args) :
    Outranks args args q := by
  constructor
  · intro k a s t ha hs ht
    obtain rfl : a = s := Option.some.inj (ha.symm.trans hs)
    obtain rfl | h := eq_or_ne t a
    · simp [ValueType.prefers]
    · simp [ValueType.prefers, h.symm]
  · by_contra hnone
    refine hne (List.ext_getElem hlength fun k hq ha => ?_)
    by_contra hk
    refine hnone ⟨k, args[k], args[k], q[k], List.getElem?_eq_getElem ha, List.getElem?_eq_getElem ha,
      List.getElem?_eq_getElem hq, ?_⟩
    simp [ValueType.prefers, Ne.symm hk]

theorem resolve_exact (hdistinct : ps.Nodup) (hvoid : .void ∉ args) (hi : ps[i]? = some args) :
    resolve ps args = .ok i := by
  refine resolve_eq_ok_iff.mpr ⟨args, hi, applicable_self hvoid, fun j q hj hne hq => ?_⟩
  refine outranks_of_ne hq.length ?_
  rintro rfl
  obtain ⟨hi', hi⟩ := List.getElem?_eq_some_iff.mp hi
  obtain ⟨hj', hj⟩ := List.getElem?_eq_some_iff.mp hj
  exact hne (hdistinct.getElem_inj_iff.mp (hj.trans hi.symm))

/-! ## Other orders -/

theorem outcome_of_best (h : Best args ps p) : outcome ps args = .chosen p := by
  have hmem : p ∈ ps := by
    by_contra hmem
    have hnone : ps.countP (· = p) = 0 :=
      List.countP_eq_zero.mpr fun q hq => by simpa using fun heq : q = p => hmem (heq ▸ hq)
    exact absurd (h.once.symm.trans hnone) Nat.one_ne_zero
  obtain ⟨i, hi⟩ := List.getElem?_of_mem hmem
  simp [outcome, resolve_of_best h hi, List.getD_eq_getElem?_getD, hi]

/-- The parameters that are chosen, or the kind of the failure, are the same in every order. -/
theorem outcome_perm (h : ps.Perm qs) : outcome ps args = outcome qs args := by
  have hbest {ps qs : List Params} (h : ps.Perm qs) {i : Nat} (hi : resolve ps args = .ok i) :
      ∃ p, outcome ps args = .chosen p ∧ outcome qs args = .chosen p := by
    obtain ⟨p, -, hp⟩ := best_of_resolve hi
    exact ⟨p, outcome_of_best hp, outcome_of_best (hp.perm h)⟩
  obtain ⟨hp, hnone⟩ | ⟨hp, ⟨p, hmem, hlength⟩, hnone⟩ | ⟨⟨i, hi⟩ | ⟨i, j, hp⟩, p, hmem, happlicable⟩ :=
    resolve_cases ps args
  · have hq : resolve qs args = .error .noArity :=
      resolve_eq_noArity_iff.mpr fun q hq => hnone q (h.mem_iff.mpr hq)
    simp [outcome, hp, hq]
  · obtain ⟨k, t, hp⟩ := hp
    obtain ⟨k', t', hq⟩ : ∃ k t, resolve qs args = .error (.mismatch k t) :=
      resolve_eq_mismatch_iff.mpr ⟨⟨p, h.mem_iff.mp hmem, hlength⟩,
        fun q hq => hnone q (h.mem_iff.mpr hq)⟩
    simp [outcome, hp, hq]
  · obtain ⟨p, hp, hq⟩ := hbest h hi
    rw [hp, hq]
  · have hq := resolve_cases qs args
    obtain ⟨-, hnone⟩ | ⟨-, -, hnone⟩ | ⟨⟨i', hi'⟩ | ⟨i', j', hq⟩, -⟩ := hq
    · exact absurd happlicable.length (hnone p (h.mem_iff.mp hmem))
    · exact absurd happlicable (hnone p (h.mem_iff.mp hmem))
    · obtain ⟨p, hq, hp⟩ := hbest h.symm hi'
      rw [hp, hq]
    · simp [outcome, hp, hq]

/-- Among candidates with distinct parameters, none of type `void`, the one that is chosen is applicable
and outranks every other one that is. Arguments of the very types of a candidate choose it. Resolution
fails for want of a candidate with the right number of parameters, for want of an applicable one, or
because no applicable one outranks the others; which of these it is, and which parameters are chosen,
does not depend on the order of the candidates. -/
theorem resolve_finds_best (hdistinct : ps.Nodup) (hvoid : ∀ p ∈ ps, .void ∉ p) (args : List ValueType) :
    (∀ i, resolve ps args = .ok i ↔ ∃ p, ps[i]? = some p ∧ Applicable args p ∧
      ∀ j q, ps[j]? = some q → j ≠ i → Applicable args q → Outranks args p q) ∧
    (∀ i, ps[i]? = some args → resolve ps args = .ok i) ∧
    (resolve ps args = .error .noArity ↔ ∀ p ∈ ps, p.length ≠ args.length) ∧
    ((∃ k t, resolve ps args = .error (.mismatch k t)) ↔
      (∃ p ∈ ps, p.length = args.length) ∧ ∀ p ∈ ps, ¬ Applicable args p) ∧
    ∀ qs, ps.Perm qs → outcome qs args = outcome ps args :=
  ⟨fun _ => resolve_eq_ok_iff,
    fun _ hi => resolve_exact hdistinct (hvoid args (List.mem_of_getElem? hi)) hi,
    resolve_eq_noArity_iff, resolve_eq_mismatch_iff, fun _ h => (outcome_perm h).symm⟩

/-- The narrowest widening wins, wherever it stands. -/
theorem resolve_finds_best_widening :
    ([[.double, .double], [.long, .long], [.string, .int]] : List Params).Nodup ∧
    (∀ p ∈ ([[.double, .double], [.long, .long], [.string, .int]] : List Params), .void ∉ p) ∧
    Outranks [.int, .long] [.long, .long] [.double, .double] ∧
    outcome [[.long, .long], [.string, .int], [.double, .double]] [.int, .long] =
      .chosen [.long, .long] := by
  have hdistinct : ([[.double, .double], [.long, .long], [.string, .int]] : List Params).Nodup := by
    decide
  have hvoid : ∀ p ∈ ([[.double, .double], [.long, .long], [.string, .int]] : List Params),
      .void ∉ p := by decide
  have hbest := resolve_finds_best hdistinct hvoid [.int, .long]
  refine ⟨hdistinct, hvoid, ?_, ?_⟩
  · obtain ⟨p, hp, -, houtranks⟩ := (hbest.1 1).mp rfl
    cases hp
    exact houtranks 0 _ rfl (by decide) (applicable_iff.mp ⟨rfl, rfl⟩)
  · exact hbest.2.2.2.2 _ (by decide)

/-! ## Ambiguity -/

/-- The candidates that can be meant stand in the order of their places. -/
theorem applicable_pairwise (ps : List Params) (args : List ValueType) :
    (applicable ps args).Pairwise fun c d => c.2 < d.2 := by
  have hplaces : (ps.zipIdx.map (·.2)).Pairwise (· < ·) := by
    rw [List.zipIdx_map_snd]
    exact List.pairwise_lt_range'
  exact ((List.pairwise_map.mp hplaces).filter _).filter _

/-- The first two candidates that can be meant are reported. -/
theorem applicable_of_ambiguous {j : Nat} (h : resolve ps args = .error (.ambiguous i j)) :
    ∃ p q rest, applicable ps args = (p, i) :: (q, j) :: rest := by
  unfold resolve at h
  dsimp only at h
  split at h
  · cases h
  · split at h
    · cases h
    · cases h
    · next p k q l rest hall =>
      split at h
      · cases h
      · cases h
        exact ⟨p, q, rest, hall⟩

/-- No candidate that can be meant outranks all others. -/
theorem unsurpassed_of_ambiguous {j k : Nat} (h : resolve ps args = .error (.ambiguous i j))
    (hk : ps[k]? = some p) (hp : Applicable args p) :
    ∃ l q, l ≠ k ∧ ps[l]? = some q ∧ Applicable args q ∧ ¬ Outranks args p q := by
  by_contra hnone
  have hbest : resolve ps args = .ok k := by
    refine resolve_eq_ok_iff.mpr ⟨p, hk, hp, fun l q hl hne hq => ?_⟩
    by_contra hworse
    exact hnone ⟨l, q, hne, hl, hq, hworse⟩
  rw [h] at hbest
  cases hbest

/-- An ambiguity names the first two applicable candidates, and none of the applicable ones outranks
all others. So neither of the two outranks the other, if there is no third one. -/
theorem ambiguity_explained {j : Nat} (h : resolve ps args = .error (.ambiguous i j)) :
    ∃ p q : Params, ps[i]? = some p ∧ Applicable args p ∧ ps[j]? = some q ∧ Applicable args q ∧ i < j ∧
      (∀ (k : Nat) (r : Params), ps[k]? = some r → Applicable args r → k < j → k = i) ∧
      (∀ (k : Nat) (r : Params), ps[k]? = some r → Applicable args r →
        ∃ (l : Nat) (t : Params), l ≠ k ∧ ps[l]? = some t ∧ Applicable args t ∧ ¬ Outranks args r t) ∧
      ((∀ (k : Nat) (r : Params), ps[k]? = some r → Applicable args r → k = i ∨ k = j) →
        ¬ Outranks args p q ∧ ¬ Outranks args q p) := by
  obtain ⟨p, q, rest, hall⟩ := applicable_of_ambiguous h
  have hsorted := applicable_pairwise ps args
  rw [hall] at hsorted
  obtain ⟨hfirst, hsorted⟩ := List.pairwise_cons.mp hsorted
  have hsecond := (List.pairwise_cons.mp hsorted).1
  have hij : i < j := hfirst _ List.mem_cons_self
  have hmem {c : Params × Nat} :
      c ∈ (p, i) :: (q, j) :: rest ↔ ps[c.2]? = some c.1 ∧ Applicable args c.1 :=
    hall ▸ mem_applicable_iff
  obtain ⟨hi, hp⟩ := hmem.mp List.mem_cons_self
  obtain ⟨hj, hq⟩ := hmem.mp (List.mem_cons_of_mem _ List.mem_cons_self)
  refine ⟨p, q, hi, hp, hj, hq, hij, fun k r hk hr hlt => ?_,
    fun k r hk hr => unsurpassed_of_ambiguous h hk hr,
    fun htwo => ⟨fun hbetter => ?_, fun hbetter => ?_⟩⟩
  · have hr : (r, k) ∈ (p, i) :: (q, j) :: rest := hmem.mpr ⟨hk, hr⟩
    obtain hr | hr := List.mem_cons.mp hr
    · exact congrArg Prod.snd hr
    · obtain hr | hr := List.mem_cons.mp hr
      · exact absurd (congrArg Prod.snd hr) (Nat.ne_of_lt hlt)
      · exact absurd (hsecond _ hr) (Nat.not_lt.mpr (Nat.le_of_lt hlt))
  · obtain ⟨l, t, hne, hl, ht, hworse⟩ := unsurpassed_of_ambiguous h hi hp
    obtain rfl := (htwo l t hl ht).resolve_left hne
    exact hworse (Option.some.inj (hj.symm.trans hl) ▸ hbetter)
  · obtain ⟨l, t, hne, hl, ht, hworse⟩ := unsurpassed_of_ambiguous h hj hq
    obtain rfl := (htwo l t hl ht).resolve_right hne
    exact hworse (Option.some.inj (hi.symm.trans hl) ▸ hbetter)

/-- Crossed widenings: neither candidate outranks the other. -/
theorem ambiguity_explained_crossed :
    resolve [[.int, .long], [.long, .int]] [.int, .int] = .error (.ambiguous 0 1) ∧
    ¬ Outranks [.int, .int] [.int, .long] [.long, .int] ∧
    ¬ Outranks [.int, .int] [.long, .int] [.int, .long] := by
  have h : resolve [[.int, .long], [.long, .int]] [.int, .int] = .error (.ambiguous 0 1) := rfl
  obtain ⟨p, q, hp, -, hq, -, -, -, -, htwo⟩ := ambiguity_explained h
  cases hp
  cases hq
  refine ⟨h, htwo fun k r hk _ => ?_⟩
  match k, hk with
  | 0, _ => exact .inl rfl
  | 1, _ => exact .inr rfl

/-- The candidate that is in the way of the first one is the third one, but the second one is reported,
which the first one outranks. -/
example : resolve [[.int, .long], [.long, .long], [.long, .int]] [.int, .int] =
      .error (.ambiguous 0 1) ∧
    better [.int, .int] [.int, .long] [.long, .long] = true := by decide

end ClassScript.Overload
