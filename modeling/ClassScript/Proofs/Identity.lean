import ClassScript.Proofs.Dispatch
import Mathlib.Data.UInt
import Mathlib.GroupTheory.OrderOfElement
import Mathlib.Tactic.IntervalCases
import Mathlib.Tactic.LinearCombination
import Mathlib.Tactic.Ring

/-!
What the mixing of identities can confuse.

The string hash is left open here, so two functions are inseparable when their identities agree
under every string hash. An identity is a seed, weighed by the number of parameters, and one summand
for each parameter. Different names are hashed independently of each other, so inseparable functions
have the same seed whatever the hash, and every type moves the summands of both by the same amount.
The seed of an instance method is symmetric in the names of its class and of the method, and these
cancel when they are equal: the mixing confuses `A.B` with `B.A`, and `A.A` with `B.B`.
-/

namespace ClassScript

open Identity
open scoped UInt64.CommRing

/-! ## Sums over the parameters -/

/-- What the parameters from position `i` on add to a seed, when `digit` is what each adds by
itself. -/
def mass (digit : Nat → ValueType → UInt64) : Nat → List ValueType → UInt64
  | _, [] => 0
  | i, p :: ps => digit i p * separator ^ ps.length + mass digit (i + 1) ps

section mass
variable {d d' : Nat → ValueType → UInt64}

theorem mass_add (i : Nat) (ps : List ValueType) :
    mass (fun i p => d i p + d' i p) i ps = mass d i ps + mass d' i ps := by
  induction ps generalizing i with
  | nil => simp [mass]
  | cons p ps ih =>
    simp only [mass, ih]
    ring

theorem mass_mul (c : UInt64) (i : Nat) (ps : List ValueType) :
    mass (fun i p => c * d i p) i ps = c * mass d i ps := by
  induction ps generalizing i with
  | nil => simp [mass]
  | cons p ps ih =>
    simp only [mass, ih]
    ring

theorem mass_congr {i : Nat} {ps : List ValueType}
    (h : ∀ j, i ≤ j → j < i + ps.length → ∀ p, d j p = d' j p) : mass d i ps = mass d' i ps := by
  induction ps generalizing i with
  | nil => rfl
  | cons p ps ih =>
    rw [List.length_cons] at h
    rw [mass, mass, h i (by omega) (by omega), ih fun j hj hlt => h j (by omega) (by omega)]

theorem mass_zero (i : Nat) (ps : List ValueType) : mass (fun _ _ => 0) i ps = 0 := by
  induction ps generalizing i with
  | nil => rfl
  | cons p ps ih => simp [mass, ih]

/-- A digit that does not look at the type depends on the number of parameters alone. -/
theorem mass_blind {c : Nat → UInt64} {ps qs : List ValueType} (h : ps.length = qs.length)
    (i : Nat) : mass (fun i _ => c i) i ps = mass (fun i _ => c i) i qs := by
  induction ps generalizing qs i with
  | nil => rw [List.length_eq_zero_iff.mp h.symm]
  | cons p ps ih =>
    obtain _ | ⟨q, qs⟩ := qs
    · simp at h
    · have hlength : ps.length = qs.length := by simpa using h
      simp only [mass, hlength, ih hlength]

end mass

theorem separator_unit : IsUnit separator :=
  isUnit_iff_exists.mpr ⟨0xd3f20f0a40208825, by decide, by decide⟩

/-- A digit that only a parameter of type `t` at position `k` adds. -/
def spot (c : UInt64) (k : Nat) (t : ValueType) (i : Nat) (p : ValueType) : UInt64 :=
  if i = k ∧ p = t then c else 0

/-- Lists that agree on every spot are equal. -/
theorem eq_of_mass_spot {c : UInt64} (hc : c ≠ 0) {i n : Nat} {ps qs : List ValueType}
    (hlength : ps.length = qs.length) (hn : i + ps.length ≤ n)
    (h : ∀ k < n, ∀ t, mass (spot c k t) i ps = mass (spot c k t) i qs) : ps = qs := by
  induction ps generalizing i qs with
  | nil => exact (List.length_eq_zero_iff.mp hlength.symm).symm
  | cons p ps ih =>
    obtain _ | ⟨q, qs⟩ := qs
    · simp at hlength
    rw [List.length_cons] at hn
    have hrest : ps.length = qs.length := by simpa using hlength
    have later (rs : List ValueType) (t : ValueType) : mass (spot c i t) (i + 1) rs = 0 := by
      rw [← mass_zero (i + 1) rs]
      exact mass_congr fun j hj _ r => if_neg fun hr => absurd hr.1 (by omega)
    have hhead : p = q := by
      have hp := h i (by omega) p
      simp only [mass, later, hrest, add_zero, spot, true_and, if_true] at hp
      by_contra hne
      rw [if_neg (Ne.symm hne), zero_mul] at hp
      exact hc ((separator_unit.pow _).mul_left_eq_zero.mp hp)
    have htail : ps = qs := by
      refine ih (i := i + 1) hrest (by omega) fun k hk t => ?_
      by_cases hki : k = i
      · rw [hki, later, later]
      · have hkt := h k hk t
        have hne (r : ValueType) : spot c k t i r = 0 := if_neg fun hr => hki hr.1.symm
        simpa only [mass, hne, zero_mul, zero_add] using hkt
    rw [hhead, htail]

theorem mass_sum (ts : List ValueType) (d : ValueType → Nat → ValueType → UInt64) (i : Nat)
    (ps : List ValueType) :
    mass (fun i p => (ts.map fun t => d t i p).sum) i ps = (ts.map fun t => mass (d t) i ps).sum := by
  induction ts with
  | nil => exact mass_zero i ps
  | cons t ts ih =>
    simp only [List.map_cons, List.sum_cons]
    rw [mass_add, ih]

/-! ## The number of parameters -/

theorem separator_order : orderOf separator = 2 ^ 62 := by
  have hpow (n : Nat) : separator ^ 2 ^ n = (fun x => x ^ 2)^[n] separator := by
    rw [pow_iterate]
  refine orderOf_eq_prime_pow ?_ ?_
  · rw [hpow]
    decide +kernel
  · rw [hpow]
    decide +kernel

/-- Twice a number tells only whether its highest bit is lost. -/
theorem sq_eq_one_of_double {x : UInt64} (h : 2 * x = 2) : x ^ 2 = 1 := by
  have hnat := congrArg UInt64.toNat h
  rw [UInt64.toNat_mul] at hnat
  have hlt := x.toNat_lt
  have hx : x = 1 ∨ x = 0x8000000000000001 := by
    simp only [← UInt64.toNat_inj]
    change 2 * x.toNat % 2 ^ 64 = 2 at hnat
    change x.toNat = 1 ∨ x.toNat = 0x8000000000000001
    omega
  obtain rfl | rfl := hx <;> decide

/-- The weight of a seed tells the number of parameters, even with its highest bit lost. -/
theorem length_eq_of_weight {n m : Nat} (hn : n < 2 ^ 60) (hm : m < 2 ^ 60)
    (h : 2 * separator ^ n = 2 * separator ^ m) : n = m := by
  have le_of {n m : Nat} (hm : m < 2 ^ 60) (h : 2 * separator ^ n = 2 * separator ^ m) : m ≤ n := by
    by_contra hlt
    obtain ⟨k, rfl⟩ := Nat.exists_eq_add_of_le (Nat.le_of_not_le hlt)
    have hk : 2 * separator ^ k = 2 := by
      apply (separator_unit.pow n).mul_left_cancel
      rw [pow_add] at h
      linear_combination -h
    have hdvd : orderOf separator ∣ k * 2 := by
      apply orderOf_dvd_of_pow_eq_one
      rw [pow_mul]
      exact sq_eq_one_of_double hk
    rw [separator_order] at hdvd
    have := Nat.le_of_dvd (by omega) hdvd
    omega
  exact Nat.le_antisymm (le_of hn h.symm) (le_of hm h)

/-! ## Identities under any string hash -/

def digit (hash : String → UInt64) (i : Nat) (p : ValueType) : UInt64 :=
  positionMarker i ^^^ (typeMarker ^^^ hash p.name)

theorem mixFrom_eq (hash : String → UInt64) (acc : UInt64) (i : Nat) (ps : List ValueType) :
    mixFrom acc i (ps.map fun p => ofNameBy hash p.name) =
      acc * separator ^ ps.length + mass (digit hash) i ps := by
  induction ps generalizing acc i with
  | nil => simp [mixFrom, mass]
  | cons p ps ih =>
    rw [List.map_cons, mixFrom, ih, mass, List.length_cons, ofNameBy, digit]
    ring

namespace NativeFunction

/-- The identity under an arbitrary string hash. -/
def identityBy (hash : String → UInt64) (f : NativeFunction) : Identity :=
  let params := f.params.map fun p => Identity.ofNameBy hash p.name
  if f.isInstance then .ofMethodBy hash (.ofNameBy hash f.owner) f.name params
  else .ofFunctionBy hash f.fullName params

theorem identity_build (s : FunctionSpec) (owner : String) :
    (s.build owner).identity = (s.build owner).identityBy stringHash := by
  cases h : s.isInstance <;> simp only [FunctionSpec.build, identityBy, h] <;> rfl

/-- What the names add, before the parameters are mixed in. -/
def seed (hash : String → UInt64) (f : NativeFunction) : UInt64 :=
  if f.isInstance then methodMarker ^^^ (typeMarker ^^^ hash f.owner) ^^^ hash f.name
  else functionMarker ^^^ hash f.fullName

theorem identityBy_value (hash : String → UInt64) (f : NativeFunction) :
    (f.identityBy hash).value =
      f.seed hash * separator ^ f.params.length + mass (digit hash) 0 f.params := by
  cases h : f.isInstance <;>
    simp only [identityBy, seed, h, ofMethodBy, ofFunctionBy, mixFrom_eq] <;> rfl

/-- The names of the two functions go into the seeds symmetrically: one is the other's with class
and method exchanged, or in both they are equal and cancel. -/
def Crossed (f g : NativeFunction) : Prop :=
  f.isInstance = true ∧ g.isInstance = true ∧
    (f.owner = g.name ∧ f.name = g.owner ∨ f.owner = f.name ∧ g.owner = g.name)

/-- Whatever the string hash, the names add the same. -/
def NamesAgree (f g : NativeFunction) : Prop :=
  f.isInstance = g.isInstance ∧ f.owner = g.owner ∧ f.name = g.name ∨ f.Crossed g

theorem seed_of_cancels {f : NativeFunction} (hf : f.isInstance = true) (hname : f.owner = f.name)
    (hash : String → UInt64) : f.seed hash = methodMarker ^^^ typeMarker := by
  simp only [seed, hf, if_true, hname]
  rw [UInt64.xor_assoc, UInt64.xor_assoc, UInt64.xor_self, UInt64.xor_zero]

theorem NamesAgree.seed_eq {f g : NativeFunction} (h : f.NamesAgree g) (hash : String → UInt64) :
    f.seed hash = g.seed hash := by
  obtain ⟨hkind, ho, hn⟩ | ⟨hf, hg, ⟨ho, hn⟩ | ⟨ho, hn⟩⟩ := h
  · simp only [seed, fullName, hkind, ho, hn]
  · simp only [seed, hf, hg, ho, hn, if_true]
    ac_rfl
  · rw [seed_of_cancels hf ho, seed_of_cancels hg hn]

end NativeFunction

/-! ## Varying the hash of one or two names -/

/-- The hash that marks some names and no others. -/
def marking (names : List String) (s : String) : UInt64 := if s ∈ names then 1 else 0

theorem digit_cross {a b : String} (hab : a ≠ b) (i : Nat) (p : ValueType) :
    digit (marking [a, b]) i p + digit (marking []) i p =
      digit (marking [a]) i p + digit (marking [b]) i p := by
  have hmark (names : List String) : digit (marking names) i p =
      positionMarker i ^^^ (typeMarker ^^^ if p.name ∈ names then 1 else 0) := rfl
  by_cases ha : p.name = a
  · simp [hmark, ha, hab]
  · by_cases hb : p.name = b
    · simp [hmark, hb, Ne.symm hab, add_comm]
    · simp [hmark, ha, hb]

theorem mass_cross {a b : String} (hab : a ≠ b) (i : Nat) (ps : List ValueType) :
    mass (digit (marking [a, b])) i ps + mass (digit (marking [])) i ps =
      mass (digit (marking [a])) i ps + mass (digit (marking [b])) i ps := by
  rw [← mass_add, ← mass_add]
  exact mass_congr fun i _ _ p => digit_cross hab i p

/-- A name with a dot is no parameter's type. -/
theorem mass_marking_dotted {a : String} (ha : '.' ∈ a.toList) (i : Nat) (ps : List ValueType) :
    mass (digit (marking [a])) i ps = mass (digit (marking [])) i ps := by
  refine mass_congr fun i _ _ p => ?_
  have hne : p.name ≠ a := by
    rintro rfl
    revert ha
    cases p <;> decide
  simp [digit, marking, hne]

namespace NativeFunction

theorem seed_cross {a b : String} (hab : a ≠ b) (f : NativeFunction) :
    f.seed (marking [a, b]) + f.seed (marking []) =
      f.seed (marking [a]) + f.seed (marking [b]) +
        if f.isInstance = true ∧ (f.owner = a ∧ f.name = b ∨ f.owner = b ∧ f.name = a)
        then 2 else 0 := by
  cases hf : f.isInstance with
  | false =>
    by_cases ha : f.fullName = a
    · simp [seed, hf, marking, ha, hab]
    · by_cases hb : f.fullName = b
      · simp [seed, hf, marking, hb, Ne.symm hab, add_comm]
      · simp [seed, hf, marking, ha, hb]
  | true =>
    by_cases hoa : f.owner = a <;> by_cases hob : f.owner = b <;>
      by_cases hna : f.name = a <;> by_cases hnb : f.name = b <;>
      simp_all [seed, marking]
    all_goals decide

/-- Only the full name of a function that is called on its class can move the seed alone. -/
theorem seed_shift {f : NativeFunction} (h : f.isInstance = true → f.owner = f.name) (a : String) :
    f.seed (marking [a]) =
      f.seed (marking []) + if f.isInstance = false ∧ f.fullName = a then 1 else 0 := by
  cases hf : f.isInstance with
  | false =>
    by_cases ha : f.fullName = a
    · simp [seed, hf, marking, ha]
      decide
    · simp [seed, hf, marking, ha]
  | true =>
    by_cases ha : f.name = a
    · simp [seed, hf, marking, h hf, ha]
      decide
    · simp [seed, hf, marking, h hf, ha]

/-- No string hash tells the functions apart. -/
def Inseparable (f g : NativeFunction) : Prop :=
  ∀ hash : String → UInt64, f.identityBy hash = g.identityBy hash

section names
variable {f g : NativeFunction}

theorem Inseparable.symm (h : f.Inseparable g) : g.Inseparable f := fun hash => (h hash).symm

theorem Inseparable.value (h : f.Inseparable g) (hash : String → UInt64) :
    f.seed hash * separator ^ f.params.length + mass (digit hash) 0 f.params =
      g.seed hash * separator ^ g.params.length + mass (digit hash) 0 g.params := by
  rw [← identityBy_value, ← identityBy_value, h hash]

theorem Inseparable.cross (h : f.Inseparable g) {a b : String} (hab : a ≠ b) :
    (if f.isInstance = true ∧ (f.owner = a ∧ f.name = b ∨ f.owner = b ∧ f.name = a) then 2 else 0) *
        separator ^ f.params.length =
      (if g.isInstance = true ∧ (g.owner = a ∧ g.name = b ∨ g.owner = b ∧ g.name = a) then 2 else 0) *
        separator ^ g.params.length := by
  have hf := f.seed_cross hab
  have hg := g.seed_cross hab
  have hfm := mass_cross hab 0 f.params
  have hgm := mass_cross hab 0 g.params
  linear_combination h.value (marking [a, b]) + h.value (marking []) - h.value (marking [a])
    - h.value (marking [b]) - separator ^ f.params.length * hf + separator ^ g.params.length * hg
    - hfm + hgm

theorem Inseparable.shift (h : f.Inseparable g) (hf : f.isInstance = true → f.owner = f.name)
    (hg : g.isInstance = true → g.owner = g.name) {a : String} (ha : '.' ∈ a.toList) :
    (if f.isInstance = false ∧ f.fullName = a then 1 else 0) * separator ^ f.params.length =
      (if g.isInstance = false ∧ g.fullName = a then 1 else 0) * separator ^ g.params.length := by
  have hfs := seed_shift hf a
  have hgs := seed_shift hg a
  have hfm := mass_marking_dotted ha 0 f.params
  have hgm := mass_marking_dotted ha 0 g.params
  linear_combination h.value (marking [a]) - h.value (marking [])
    - separator ^ f.params.length * hfs + separator ^ g.params.length * hgs - hfm + hgm

theorem fullName_dotted (f : NativeFunction) : '.' ∈ f.fullName.toList := by
  simp [fullName]

/-- The last dot of a full name is the one between class and name. -/
theorem fullName_inj (hf : '.' ∉ f.name.toList) (hg : '.' ∉ g.name.toList)
    (h : f.fullName = g.fullName) : f.owner = g.owner ∧ f.name = g.name := by
  have after {s t : List Char} {a : List Char} (hs : '.' ∉ s) (hst : '.' :: s = a ++ '.' :: t) :
      a = [] ∧ s = t := by
    obtain _ | ⟨c, a⟩ := a
    · simpa using hst
    · simp only [List.cons_append, List.cons.injEq] at hst
      exact absurd (by simp [hst.2]) hs
  have hlist : f.owner.toList ++ '.' :: f.name.toList = g.owner.toList ++ '.' :: g.name.toList := by
    simpa [fullName] using congrArg String.toList h
  simp only [← String.toList_inj]
  obtain ⟨a, ho, hn⟩ | ⟨a, ho, hn⟩ := List.append_eq_append_iff.mp hlist
  · obtain ⟨rfl, hname⟩ := after hf hn
    exact ⟨by simpa using ho.symm, hname⟩
  · obtain ⟨rfl, hname⟩ := after hg hn
    exact ⟨by simpa using ho, hname.symm⟩

theorem double_weight_ne_zero (n : Nat) : 2 * separator ^ n ≠ 0 := by
  intro h
  have : (2 : UInt64) = 0 := (separator_unit.pow n).mul_left_eq_zero.mp h
  exact absurd this (by decide)

theorem weight_ne_zero (n : Nat) : separator ^ n ≠ 0 := fun h =>
  double_weight_ne_zero n (by rw [h, mul_zero])

/-- The class and the method of an instance method are told by what they do together. -/
theorem Inseparable.pair (h : f.Inseparable g) (hf : f.isInstance = true) (hne : f.owner ≠ f.name) :
    g.isInstance = true ∧
      (g.owner = f.owner ∧ g.name = f.name ∨ g.owner = f.name ∧ g.name = f.owner) ∧
      2 * separator ^ f.params.length = 2 * separator ^ g.params.length := by
  have hcross := h.cross hne
  rw [if_pos ⟨hf, .inl ⟨rfl, rfl⟩⟩] at hcross
  by_cases hg : g.isInstance = true ∧
      (g.owner = f.owner ∧ g.name = f.name ∨ g.owner = f.name ∧ g.name = f.owner)
  · rw [if_pos hg] at hcross
    exact ⟨hg.1, hg.2, hcross⟩
  · rw [if_neg hg, zero_mul] at hcross
    exact absurd hcross (double_weight_ne_zero _)

theorem Inseparable.kind (h : f.Inseparable g) : f.isInstance = g.isInstance := by
  have no_method {f g : NativeFunction} (h : f.Inseparable g) (hf : f.isInstance = false)
      (hg : g.isInstance = true) : False := by
    by_cases hne : g.owner = g.name
    · have hshift := h.shift (by simp [hf]) (fun _ => hne) f.fullName_dotted
      simp only [hf, hg, true_and, if_true, one_mul, Bool.true_eq_false, false_and, if_false,
        zero_mul] at hshift
      exact weight_ne_zero _ hshift
    · have hpair := (h.symm.pair hg hne).1
      simp [hf] at hpair
  cases hf : f.isInstance <;> cases hg : g.isInstance
  · rfl
  · exact absurd (no_method h hf hg) not_false
  · exact absurd (no_method h.symm hg hf) not_false
  · rfl

/-- The names of inseparable functions agree, and unless the names cancel so do the numbers of
parameters. -/
theorem Inseparable.names (h : f.Inseparable g) (hf : '.' ∉ f.name.toList)
    (hg : '.' ∉ g.name.toList) (hn : f.params.length < 2 ^ 60) (hm : g.params.length < 2 ^ 60) :
    f.NamesAgree g ∧
      (f.params.length = g.params.length ∨ f.isInstance = true ∧ f.owner = f.name) := by
  cases hfi : f.isInstance with
  | false =>
    have hgi : g.isInstance = false := by rw [← h.kind, hfi]
    have hshift := h.shift (by simp [hfi]) (by simp [hgi]) f.fullName_dotted
    simp only [hfi, hgi, true_and, if_true, one_mul] at hshift
    by_cases hname : g.fullName = f.fullName
    · rw [if_pos hname, one_mul] at hshift
      obtain ⟨ho, hn'⟩ := fullName_inj hf hg hname.symm
      exact ⟨.inl ⟨by rw [hfi, hgi], ho, hn'⟩, .inl (length_eq_of_weight hn hm (by rw [hshift]))⟩
    · rw [if_neg hname, zero_mul] at hshift
      exact absurd hshift (weight_ne_zero _)
  | true =>
    have hgi : g.isInstance = true := by rw [← h.kind, hfi]
    by_cases hne : f.owner = f.name
    · have hgne : g.owner = g.name := by
        by_contra hgne
        obtain ⟨-, ⟨ho, hn'⟩ | ⟨ho, hn'⟩, -⟩ := h.symm.pair hgi hgne
        · exact hgne (by rw [← ho, ← hn', hne])
        · exact hgne (by rw [← ho, ← hn', hne])
      exact ⟨.inr ⟨hfi, hgi, .inr ⟨hne, hgne⟩⟩, .inr ⟨rfl, hne⟩⟩
    · obtain ⟨-, hpair, hweight⟩ := h.pair hfi hne
      refine ⟨?_, .inl (length_eq_of_weight hn hm hweight)⟩
      obtain ⟨ho, hn'⟩ | ⟨ho, hn'⟩ := hpair
      · exact .inl ⟨by rw [hfi, hgi], ho.symm, hn'.symm⟩
      · exact .inr ⟨hfi, hgi, .inl ⟨hn'.symm, ho.symm⟩⟩

end names

end NativeFunction

/-! ## What a type moves -/

/-- How far a parameter at a position moves when its type's hash goes from zero to `v`. -/
def lift (i : Nat) (v : UInt64) : UInt64 :=
  (positionMarker i ^^^ (typeMarker ^^^ v)) - (positionMarker i ^^^ typeMarker)

/-- How far the parameters of type `t` move an identity when its hash goes from zero to `v`. -/
def sway (t : ValueType) (v : UInt64) (ps : List ValueType) : UInt64 :=
  mass (fun i p => if p = t then lift i v else 0) 0 ps

theorem mass_digit (hash : String → UInt64) (ps : List ValueType) :
    mass (digit hash) 0 ps = mass (digit fun _ => 0) 0 ps +
      (ValueType.all.map fun t => sway t (hash t.name) ps).sum := by
  simp only [sway]
  rw [← mass_sum, ← mass_add]
  refine mass_congr fun i _ _ p => ?_
  cases p <;> simp [ValueType.all, digit, lift]

@[simp] theorem sway_zero (t : ValueType) (ps : List ValueType) : sway t 0 ps = 0 :=
  (mass_congr fun i _ _ p => by simp [lift]).trans (mass_zero 0 ps)

/-- When only one type's hash is not zero, only that type moves. -/
theorem sum_sway (t : ValueType) (v : UInt64) (ps : List ValueType) :
    (ValueType.all.map fun u => sway u (if u.name = t.name then v else 0) ps).sum =
      sway t v ps := by
  cases t <;> simp [ValueType.all, ValueType.name]

namespace NativeFunction

/-- The functions' identities are one and the same function of the string hash: the names add the
same, and so does every type. -/
structure Confusable (f g : NativeFunction) : Prop where
  names : f.NamesAgree g
  /-- The weight of names that do not cancel is the number of parameters. -/
  count : f.params.length = g.params.length ∨ f.isInstance = true ∧ f.owner = f.name
  blank : f.identityBy (fun _ => 0) = g.identityBy (fun _ => 0)
  types : ∀ t v, sway t v f.params = sway t v g.params

section confusable
variable {f g : NativeFunction}

/-- The part of an identity that the types of the parameters do not move. -/
def frame (hash : String → UInt64) (f : NativeFunction) : UInt64 :=
  f.seed hash * separator ^ f.params.length + mass (digit fun _ => 0) 0 f.params

theorem identityBy_frame (hash : String → UInt64) (f : NativeFunction) :
    (f.identityBy hash).value =
      f.frame hash + (ValueType.all.map fun t => sway t (hash t.name) f.params).sum := by
  rw [identityBy_value, mass_digit, frame, add_assoc]

theorem NamesAgree.cancels (h : f.NamesAgree g) (hf : f.isInstance = true)
    (hname : f.owner = f.name) : g.isInstance = true ∧ g.owner = g.name := by
  obtain ⟨hkind, ho, hn⟩ | ⟨-, hg, ⟨ho, hn⟩ | ⟨-, hn⟩⟩ := h
  · exact ⟨by rw [← hkind, hf], by rw [← ho, ← hn, hname]⟩
  · exact ⟨hg, by rw [← ho, ← hn, hname]⟩
  · exact ⟨hg, hn⟩

/-- Names that agree and weigh the same leave the frames equal under every string hash, once they
are under one. -/
theorem frame_eq (hnames : f.NamesAgree g)
    (hcount : f.params.length = g.params.length ∨ f.isInstance = true ∧ f.owner = f.name)
    (hblank : f.identityBy (fun _ => 0) = g.identityBy (fun _ => 0)) (hash : String → UInt64) :
    f.frame hash = g.frame hash := by
  obtain hlength | ⟨hf, hname⟩ := hcount
  · rw [frame, frame, hnames.seed_eq, hlength]
    exact congrArg _ (mass_blind hlength 0)
  · obtain ⟨hg, hgname⟩ := hnames.cancels hf hname
    have hvalue := congrArg Identity.value hblank
    rw [identityBy_value, identityBy_value, seed_of_cancels hf hname,
      seed_of_cancels hg hgname] at hvalue
    rw [frame, frame, seed_of_cancels hf hname, seed_of_cancels hg hgname, hvalue]

theorem Confusable.inseparable (h : f.Confusable g) : f.Inseparable g := by
  intro hash
  rw [Identity.mk.injEq, identityBy_frame, identityBy_frame,
    frame_eq h.names h.count h.blank]
  simp only [h.types]

/-- Functions that no string hash tells apart are those whose names and whose types add the same. -/
theorem inseparable_iff (hf : '.' ∉ f.name.toList) (hg : '.' ∉ g.name.toList)
    (hn : f.params.length < 2 ^ 60) (hm : g.params.length < 2 ^ 60) :
    f.Inseparable g ↔ f.Confusable g := by
  refine ⟨fun h => ?_, Confusable.inseparable⟩
  obtain ⟨hnames, hcount⟩ := h.names hf hg hn hm
  refine ⟨hnames, hcount, h _, fun t v => ?_⟩
  have hvalue := congrArg Identity.value (h fun s => if s = t.name then v else 0)
  rw [identityBy_frame, identityBy_frame, frame_eq hnames hcount (h _), sum_sway, sum_sway]
    at hvalue
  exact add_left_cancel hvalue

end confusable

end NativeFunction

/-! ## Short parameter lists -/

/-- For each of the first eight positions, hashes with factors such that the moves they cause, taken
together, are felt at that position only. -/
def probes : List (List (UInt64 × UInt64)) := [
  [(-128, 1), (128, 2), (-64, 4), (-16, 8), (-8, 16), (-4, 32), (2, 64), (1, 128)],
  [(-64, 2), (32, 4), (16, 8), (8, 16), (4, 32), (-2, 64)],
  [(-128, 1), (64, 2), (-32, 4), (-16, 8), (-8, 16), (2, 64)],
  [(-64, 2), (-2, 64)],
  [(64, 2), (-32, 4), (-4, 32), (2, 64)],
  [(64, 2), (-16, 8), (2, 64), (-1, 128)],
  [(-64, 2), (32, 4), (16, 8), (-2, 64)],
  [(-128, 2), (64, 4), (16, 8), (8, 16), (4, 32), (-2, 64)]]

theorem probe_eq : ∀ k < 8, ∀ i < 8,
    ((probes.getD k []).map fun x => x.1 * lift i x.2).sum = if i = k then 256 else 0 := by
  decide +kernel

theorem mass_probe (t : ValueType) (xs : List (UInt64 × UInt64)) (ps : List ValueType) :
    mass (fun i p => if p = t then (xs.map fun x => x.1 * lift i x.2).sum else 0) 0 ps =
      (xs.map fun x => x.1 * sway t x.2 ps).sum := by
  induction xs with
  | nil => simpa using mass_zero 0 ps
  | cons x xs ih =>
    simp only [List.map_cons, List.sum_cons]
    rw [← ih, sway, ← mass_mul, ← mass_add]
    refine mass_congr fun i _ _ p => ?_
    by_cases hp : p = t <;> simp [hp]

/-- Up to eight parameters of the same number can be told from what the types move. -/
theorem eq_of_sway {ps qs : List ValueType} (hlength : ps.length = qs.length) (h8 : ps.length ≤ 8)
    (h : ∀ t v, sway t v ps = sway t v qs) : ps = qs := by
  have spotted {k : Nat} (hk : k < 8) (t : ValueType) {rs : List ValueType} (hrs : rs.length ≤ 8) :
      mass (spot 256 k t) 0 rs = ((probes.getD k []).map fun x => x.1 * sway t x.2 rs).sum := by
    rw [← mass_probe]
    refine mass_congr fun i _ hi p => ?_
    rw [probe_eq k hk i (by omega), spot]
    by_cases hp : p = t <;> simp [hp]
  refine eq_of_mass_spot (c := 256) (by decide) hlength
    (show 0 + ps.length ≤ 8 by omega) fun k hk t => ?_
  rw [spotted hk t h8, spotted hk t (hlength ▸ h8)]
  simp only [h]

/-- What is left of an identity when its names cancel and no type is hashed. -/
def cancelled (n : Nat) : UInt64 :=
  (methodMarker ^^^ typeMarker) * separator ^ n +
    mass (digit fun _ => 0) 0 (List.replicate n .void)

theorem cancelled_inj : ∀ n < 9, ∀ m < 9, cancelled n = cancelled m → n = m := by
  decide +kernel

namespace NativeFunction
variable {f g : NativeFunction}

theorem value_of_cancels (hf : f.isInstance = true) (hname : f.owner = f.name) :
    (f.identityBy fun _ => 0).value = cancelled f.params.length := by
  rw [identityBy_value, seed_of_cancels hf hname, cancelled]
  exact congrArg _ (mass_blind (by simp) 0)

/-- Up to eight parameters, only names that cross are confused. -/
theorem confusable_iff_of_short (hf : f.params.length ≤ 8) (hg : g.params.length ≤ 8) :
    f.Confusable g ↔ f.Alike g ∨ f.Crossed g ∧ f.params = g.params := by
  constructor
  · intro h
    have hlength : f.params.length = g.params.length := by
      obtain hlength | ⟨hfi, hname⟩ := h.count
      · exact hlength
      · obtain ⟨hgi, hgname⟩ := h.names.cancels hfi hname
        have hvalue := congrArg Identity.value h.blank
        rw [value_of_cancels hfi hname, value_of_cancels hgi hgname] at hvalue
        exact cancelled_inj _ (by omega) _ (by omega) hvalue
    have hparams := eq_of_sway hlength hf h.types
    obtain ⟨hkind, ho, hn⟩ | hcross := h.names
    · exact .inl ⟨ho, hn, hparams, hkind⟩
    · exact .inr ⟨hcross, hparams⟩
  · intro h
    have hparams : f.params = g.params := h.elim (·.params) (·.2)
    have hnames : f.NamesAgree g := h.imp (fun h => ⟨h.isInstance, h.owner, h.name⟩) (·.1)
    refine ⟨hnames, .inl (by rw [hparams]), ?_, fun t v => by rw [hparams]⟩
    rw [Identity.mk.injEq, identityBy_value, identityBy_value, hnames.seed_eq, hparams]

/-- Which collisions are forced by the way the parts of an identity are combined, whatever the string
hash: those of functions whose names cross, or whose types move the identities alike; up to eight
parameters the latter never happens to different lists. -/
theorem collisions_forced (hf : '.' ∉ f.name.toList) (hg : '.' ∉ g.name.toList)
    (hn : f.params.length < 2 ^ 60) (hm : g.params.length < 2 ^ 60) :
    ((∀ hash, f.identityBy hash = g.identityBy hash) ↔ f.Confusable g) ∧
      (f.params.length ≤ 8 → g.params.length ≤ 8 →
        (f.Confusable g ↔ f.Alike g ∨ f.Crossed g ∧ f.params = g.params)) :=
  ⟨inseparable_iff hf hg hn hm, confusable_iff_of_short⟩

def property (owner name : String) (answer : Int32) : NativeFunction :=
  (FunctionSpec.method name [] .int (Native.give (.int answer))).build owner

/-- Two properties of different types share an identity when each is named like the other's class. -/
theorem collisions_forced_exchanged :
    (∀ hash, (property "Cut" "Len" 1).identityBy hash = (property "Len" "Cut" 2).identityBy hash) ∧
      (property "Cut" "Len" 1).identity = (property "Len" "Cut" 2).identity ∧
      ¬(property "Cut" "Len" 1).Alike (property "Len" "Cut" 2) := by
  have hforced := collisions_forced (f := property "Cut" "Len" 1) (g := property "Len" "Cut" 2)
    (by decide) (by decide) (by decide) (by decide)
  have hconfusable := (hforced.2 (by decide) (by decide)).mpr
    (.inr ⟨⟨rfl, rfl, .inl ⟨rfl, rfl⟩⟩, rfl⟩)
  have hall := hforced.1.mpr hconfusable
  refine ⟨hall, ?_, fun hlike => absurd hlike.owner (by decide)⟩
  rw [property, property, identity_build, identity_build]
  exact hall stringHash

end NativeFunction

end ClassScript
