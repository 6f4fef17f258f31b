import ClassScript.Proofs.Standard.Digits
import ClassScript.Proofs.Standard.Web
import Mathlib.Data.List.TakeWhile

/-!
Entities in HTML.

`Replaces` says what it is to replace the entities of a text from left to right, for any notion of an
entity: an ampersand with such a text and a semicolon behind it becomes a character, and every other
character stays. As no entity holds a semicolon and none names two characters, there is one way to do
so, and decoding finds it (`decode_eq_iff`).

What decoding takes for an entity (`Read`) is more than what is one (`Entity`): a plus may stand before
the digits of a number. In a text without such a plus both notions agree.
-/

namespace ClassScript.Standard.Html

/-! ## What is replaced -/

/-- The text of an entity, between its ampersand and its semicolon, and the character that it names. -/
inductive Entity : List Char → Char → Prop
  | amp : Entity "amp".toList '&'
  | lt : Entity "lt".toList '<'
  | gt : Entity "gt".toList '>'
  | quot : Entity "quot".toList '"'
  | apos : Entity "apos".toList '\''
  | decimal {ds : List Char} {c : Char} (h : Digits 10 ds c.toNat) : Entity ('#' :: ds) c
  | hexadecimal {x : Char} {ds : List Char} {c : Char} (hx : x ∈ ['x', 'X'])
    (h : Digits 16 ds c.toNat) : Entity ('#' :: x :: ds) c

/-- What is read as an entity: also a number with a plus before its digits. -/
inductive Read : List Char → Char → Prop
  | entity {name : List Char} {c : Char} (h : Entity name c) : Read name c
  | decimal {ds : List Char} {c : Char} (h : Digits 10 ds c.toNat) : Read ('#' :: '+' :: ds) c
  | hexadecimal {x : Char} {ds : List Char} {c : Char} (hx : x ∈ ['x', 'X'])
    (h : Digits 16 ds c.toNat) : Read ('#' :: x :: '+' :: ds) c

/-- A text and the text in which every entity, from left to right, is replaced by the character that
it names. -/
inductive Replaces (names : List Char → Char → Prop) : List Char → List Char → Prop
  | nil : Replaces names [] []
  | entity {name rest out : List Char} {c : Char} (h : names name c)
    (hrest : Replaces names rest out) : Replaces names ('&' :: name ++ ';' :: rest) (c :: out)
  | plain {c : Char} {rest out : List Char}
    (h : ∀ name d after, names name d → c :: rest ≠ '&' :: name ++ ';' :: after)
    (hrest : Replaces names rest out) : Replaces names (c :: rest) (c :: out)

/-- No number of an entity has a plus before its digits. -/
def Unsigned (text : List Char) : Prop :=
  ∀ mark ∈ ["&#+".toList, "&#x+".toList, "&#X+".toList], ¬ mark <:+: text

instance (text : List Char) : Decidable (Unsigned text) := inferInstanceAs (Decidable (∀ _ ∈ _, _))

variable {name rest text out : List Char} {c : Char}

/-! ## Numbers -/

theorem digit?_eq_some_iff {base v : Nat} (hbase : base ≤ 16) :
    digit? base c = some v ↔ IsDigit base c v := by
  have hbound : digit? base c = some v ↔ v < base ∧ digit? 16 c = some v := by
    simp only [digit?, Option.ite_none_right_eq_some, Option.some.injEq]
    constructor
    · rintro ⟨hlt, rfl⟩
      exact ⟨hlt, Nat.lt_of_lt_of_le hlt hbase, rfl⟩
    · rintro ⟨hlt, -, rfl⟩
      exact ⟨hlt, rfl⟩
  have hascii : ∀ c : Char, c.toNat < 128 → ∀ v < 16,
      digit? 16 c = some v ↔ c.toLower = Nat.digitChar v := forall_ascii (by decide +kernel)
  rw [hbound, IsDigit]
  by_cases hc : c.toNat < 128
  · exact and_congr_right fun hv => hascii c hc v (Nat.lt_of_lt_of_le hv hbase)
  · have hnone : digit? 16 c = none := by
      have hgt {d : Char} (hd : d.toNat < 128) : ¬ c ≤ d := fun hle => hc (Nat.lt_of_le_of_lt hle hd)
      have hdigit : c.isDigit = false := by
        simp [Char.isDigit, show ¬ c.val ≤ 57 from hgt (d := '9') (by decide)]
      simp [digit?, hdigit, hgt (d := 'f') (by decide), hgt (d := 'F') (by decide)]
    refine iff_of_false (by simp [hnone]) fun h => hc ?_
    exact IsDigit.ascii hbase h

/-- No mark that stands around the digits of an entity is a digit. -/
theorem not_mem_of_digits {base n : Nat} (hbase : base ≤ 16) {cs : List Char}
    (h : Digits base cs n) : ∀ mark ∈ ['+', ';', 'x', 'X'], mark ∉ cs := by
  intro mark hmark hmem
  have hno : ['+', ';', 'x', 'X'].all (digit? 16 · == none) := by decide
  have hnone : digit? 16 mark = none := eq_of_beq (List.all_eq_true.mp hno mark hmark)
  obtain ⟨v, hv, heq⟩ := h.isDigit_of_mem hmem
  have hsome : digit? 16 mark = some v :=
    (digit?_eq_some_iff (Nat.le_refl 16)).mpr ⟨Nat.lt_of_lt_of_le hv hbase, heq⟩
  rw [hnone] at hsome
  cases hsome

/-- A number is digits, with or without a plus before them. -/
theorem number?_eq_some_iff {base n : Nat} (hbase : base ≤ 16) {cs : List Char} :
    number? base cs = some n ↔ Digits base cs n ∨ ∃ ds, cs = '+' :: ds ∧ Digits base ds n := by
  have hfold (ds : List Char) : Digits base ds n ↔
      ds ≠ [] ∧ ds.foldlM (fun m c => (digit? base c).map (base * m + ·)) 0 = some n :=
    digits_iff_foldlM fun c v => digit?_eq_some_iff hbase
  unfold number?
  split
  · next ds =>
    have hplus : ¬ Digits base ('+' :: ds) n := fun h =>
      not_mem_of_digits hbase h '+' (by decide) (by simp)
    rw [or_iff_right hplus]
    simp [hfold]
  · next hplus =>
    rw [or_iff_left fun ⟨ds, hds, _⟩ => hplus ds hds]
    simp [hfold]

/-! ## Entities -/

theorem toNat_ofNat_char {n : Nat} (h : n.isValidChar) : (Char.ofNat n).toNat = n := by
  have hchar : Char.ofNat n = Char.ofNatAux n h := dif_pos h
  rw [hchar]
  rfl

def codePoint? (code : List Char) : Option Nat :=
  match code with
  | 'x' :: hex | 'X' :: hex => number? 16 hex
  | _ => number? 10 code

theorem entity?_number {code : List Char} : entity? ('#' :: code) =
    (codePoint? code).bind fun n => if n.isValidChar then some (Char.ofNat n) else none := by
  have hnamed : named.lookup ('#' :: code) = none := rfl
  simp only [entity?, hnamed]
  split
  · next n hn =>
    have hcode : codePoint? code = some n := hn
    rw [hcode, Option.bind_some]
  · next hn =>
    have hcode : codePoint? code = none := hn
    rw [hcode, Option.bind_none]

/-- The character of an entity without a name is the one of its number. -/
theorem entity?_number_iff {code : List Char} :
    entity? ('#' :: code) = some c ↔ codePoint? code = some c.toNat := by
  simp only [entity?_number, Option.bind_eq_some_iff, Option.ite_none_right_eq_some,
    Option.some.injEq]
  constructor
  · rintro ⟨n, hnumber, hn, rfl⟩
    rwa [toNat_ofNat_char hn]
  · intro hnumber
    exact ⟨_, hnumber, c.valid, Char.ofNat_toNat c⟩

/-- A number stands behind the mark, in base ten or, behind a letter, in base sixteen. -/
theorem read_number {code : List Char} : Read ('#' :: code) c ↔
    number? 10 code = some c.toNat ∨
      ∃ x ∈ ['x', 'X'], ∃ hex, code = x :: hex ∧ number? 16 hex = some c.toNat := by
  simp only [number?_eq_some_iff (show 10 ≤ 16 by omega),
    number?_eq_some_iff (show 16 ≤ 16 by omega)]
  constructor
  · intro h
    cases h with
    | entity h =>
      cases h with
      | decimal h => exact .inl (.inl h)
      | hexadecimal hx h => exact .inr ⟨_, hx, _, rfl, .inl h⟩
    | decimal h => exact .inl (.inr ⟨_, rfl, h⟩)
    | hexadecimal hx h => exact .inr ⟨_, hx, _, rfl, .inr ⟨_, rfl, h⟩⟩
  · rintro ((h | ⟨ds, rfl, h⟩) | ⟨x, hx, hex, rfl, h | ⟨ds, rfl, h⟩⟩)
    · exact .entity (.decimal h)
    · exact .decimal h
    · exact .entity (.hexadecimal hx h)
    · exact .hexadecimal hx h

theorem number?_letter {x : Char} (hx : x ∈ ['x', 'X']) (hex : List Char) :
    number? 10 (x :: hex) = none := by
  have hmark : x ∈ ['+', ';', 'x', 'X'] := List.mem_cons_of_mem _ (List.mem_cons_of_mem _ hx)
  have hplus : x ≠ '+' := by
    rintro rfl
    exact absurd hx (by decide)
  rw [Option.eq_none_iff_forall_ne_some]
  intro n hn
  obtain h | ⟨ds, hds, -⟩ := (number?_eq_some_iff (by omega)).mp hn
  · exact not_mem_of_digits (by omega) h x hmark (by simp)
  · exact hplus (List.cons.inj hds).1

theorem entity_of_lookup (h : named.lookup name = some c) : Entity name c := by
  obtain ⟨front, back, hnamed, -⟩ := List.lookup_eq_some_iff.mp h
  have hmem : (name, c) ∈ named := by simp [hnamed]
  simp only [named, List.mem_cons, Prod.mk.injEq, List.not_mem_nil, or_false] at hmem
  obtain ⟨rfl, rfl⟩ | ⟨rfl, rfl⟩ | ⟨rfl, rfl⟩ | ⟨rfl, rfl⟩ | ⟨rfl, rfl⟩ := hmem
  · exact .amp
  · exact .lt
  · exact .gt
  · exact .quot
  · exact .apos

theorem entity?_of_no_number (h : ∀ code, name ≠ '#' :: code) : entity? name = named.lookup name := by
  unfold entity?
  split
  · next hlookup => exact hlookup.symm
  · next hlookup =>
    rw [hlookup]
    split
    · exact absurd rfl (h _)
    · rfl

/-- What is read as an entity, and as which character. -/
theorem entity?_eq_some_iff : entity? name = some c ↔ Read name c := by
  by_cases hnumber : ∃ code, name = '#' :: code
  · obtain ⟨code, rfl⟩ := hnumber
    rw [entity?_number_iff, read_number]
    unfold codePoint?
    split
    · simp [number?_letter (x := 'x') (by decide)]
    · simp [number?_letter (x := 'X') (by decide)]
    · next hx hX =>
      refine (or_iff_left ?_).symm
      rintro ⟨x, hmem, hex, rfl, -⟩
      obtain rfl | rfl : x = 'x' ∨ x = 'X' := by simpa using hmem
      · exact hx _ rfl
      · exact hX _ rfl
  · rw [not_exists] at hnumber
    constructor
    · intro h
      exact .entity (entity_of_lookup (entity?_of_no_number hnumber ▸ h))
    · intro h
      cases h with
      | entity h =>
        cases h with
        | decimal h => exact absurd rfl (hnumber _)
        | hexadecimal hx h => exact absurd rfl (hnumber _)
        | _ => rfl
      | decimal h => exact absurd rfl (hnumber _)
      | hexadecimal hx h => exact absurd rfl (hnumber _)

theorem semicolon_not_mem (h : Read name c) : ';' ∉ name := by
  have hdigits {base n : Nat} (hbase : base ≤ 16) {ds : List Char} (hds : Digits base ds n) :
      ';' ∉ ds := not_mem_of_digits hbase hds ';' (by decide)
  have hletter {x : Char} (hx : x ∈ ['x', 'X']) : ';' ≠ x := by
    rintro rfl
    exact absurd hx (by decide)
  cases h with
  | entity h =>
    cases h with
    | decimal h => simpa using hdigits (by omega) h
    | hexadecimal hx h => simpa using ⟨hletter hx, hdigits (by omega) h⟩
    | _ => decide
  | decimal h => simpa using hdigits (by omega) h
  | hexadecimal hx h => simpa using ⟨hletter hx, hdigits (by omega) h⟩

/-! ## Texts -/

/-- The first semicolon is the only one that can end an entity. -/
theorem entityAhead?_eq_none (h : ∀ name d after, Read name d → rest ≠ name ++ ';' :: after) :
    entityAhead? rest = none := by
  by_cases hsemi : ';' ∈ rest
  · obtain ⟨name, after, rfl, hname⟩ := List.eq_append_cons_of_mem hsemi
    have hnone : entity? name = none := by
      rw [Option.eq_none_iff_forall_ne_some]
      exact fun d hd => h name d after (entity?_eq_some_iff.mp hd) rfl
    simp only [entityAhead?, span_semicolon hname, hnone, Option.map_none]
  · have hspan : rest.dropWhile (· ≠ ';') = [] := by
      rw [List.dropWhile_eq_nil_iff]
      exact fun c hc => decide_eq_true fun heq => hsemi (heq ▸ hc)
    simp only [entityAhead?, List.span_eq_takeWhile_dropWhile, hspan]

theorem decodeFrom_kept
    (h : ∀ name d after, Read name d → c :: rest ≠ '&' :: name ++ ';' :: after) :
    decodeFrom (c :: rest) 0 = c :: decodeFrom rest 0 := by
  by_cases hc : c = '&'
  · subst hc
    have hahead : entityAhead? rest = none :=
      entityAhead?_eq_none fun name d after hname heq => h name d after hname (by simp [heq])
    rw [decodeFrom, if_pos rfl, hahead]
  · exact decodeFrom_plain hc rest

/-- Decoding replaces all that is read as an entity, and there is only one way to do so. -/
theorem replaces_read_iff : Replaces Read text out ↔ decode text = out := by
  constructor
  · intro h
    induction h with
    | nil => rfl
    | entity hname _ ih =>
      rw [decode, decodeFrom_entity (semicolon_not_mem hname) (entity?_eq_some_iff.mpr hname)]
      exact congrArg _ ih
    | plain hkept _ ih =>
      rw [decode, decodeFrom_kept hkept]
      exact congrArg _ ih
  · rintro rfl
    unfold decode
    induction hn : text.length using Nat.strongRecOn generalizing text with
    | _ n ih =>
    cases text with
    | nil => exact .nil
    | cons c rest =>
      by_cases hentity : ∃ name d after, Read name d ∧ c :: rest = '&' :: name ++ ';' :: after
      · obtain ⟨name, d, after, hname, heq⟩ := hentity
        rw [heq, decodeFrom_entity (semicolon_not_mem hname) (entity?_eq_some_iff.mpr hname)]
        refine .entity hname (ih after.length ?_ rfl)
        have := congrArg List.length heq
        simp at this hn
        omega
      · have hkept : ∀ name d after, Read name d → c :: rest ≠ '&' :: name ++ ';' :: after :=
          fun name d after hname heq => hentity ⟨name, d, after, hname, heq⟩
        rw [decodeFrom_kept hkept]
        exact .plain hkept (ih rest.length (by simp at hn; omega) rfl)

/-! ## Numbers without a sign -/

/-- Notions that agree about all that may be replaced in a text lead to the same texts. -/
theorem Replaces.of_iff {p q : List Char → Char → Prop} (h : Replaces p text out)
    (hiff : ∀ name c after, '&' :: name ++ ';' :: after <:+ text → (p name c ↔ q name c)) :
    Replaces q text out := by
  induction h with
  | nil => exact .nil
  | @entity name rest out c hname _ ih =>
    have hrest : rest <:+ '&' :: name ++ ';' :: rest := ⟨'&' :: name ++ [';'], by simp⟩
    refine .entity ((hiff name c rest List.suffix_rfl).mp hname) (ih ?_)
    exact fun name d after hsuffix => hiff name d after (hsuffix.trans hrest)
  | @plain c rest out hkept _ ih =>
    refine .plain (fun name d after hname heq => ?_) (ih ?_)
    · exact hkept name d after ((hiff name d after (heq ▸ List.suffix_rfl)).mpr hname) heq
    · exact fun name d after hsuffix => hiff name d after (hsuffix.trans (List.suffix_cons c rest))

theorem entity_of_unsigned (h : Read name c) (hu : Unsigned ('&' :: name)) : Entity name c := by
  have hsigned (mark ds : List Char) (heq : '&' :: name = mark ++ ds)
      (hmark : mark ∈ ["&#+".toList, "&#x+".toList, "&#X+".toList]) : Entity name c :=
    absurd (heq ▸ (List.prefix_append mark ds).isInfix) (hu mark hmark)
  cases h with
  | entity h => exact h
  | @decimal ds _ h => exact hsigned "&#+".toList ds rfl (by decide)
  | @hexadecimal x ds _ hx h =>
    obtain rfl | rfl : x = 'x' ∨ x = 'X' := by simpa using hx
    · exact hsigned "&#x+".toList ds rfl (by decide)
    · exact hsigned "&#X+".toList ds rfl (by decide)

/-- In a text without signs the entities are all that is read as one. -/
theorem read_iff_entity (hu : Unsigned text)
    (hin : '&' :: name ++ ';' :: rest <:+ text) : Read name c ↔ Entity name c := by
  have hname : Unsigned ('&' :: name) := fun mark hmark hmem =>
    hu mark hmark (hmem.trans ((List.prefix_append _ _).isInfix.trans hin.isInfix))
  exact ⟨fun h => entity_of_unsigned h hname, .entity⟩

/-- Decoding replaces what is read as an entity and nothing else. In a text in which no number has a
sign this means that it replaces the entities. -/
theorem decode_replaces (text out : List Char) :
    (decode text = out ↔ Replaces Read text out) ∧
      (Unsigned text → (decode text = out ↔ Replaces Entity text out)) := by
  refine ⟨replaces_read_iff.symm, fun hu => ?_⟩
  rw [← replaces_read_iff]
  constructor
  · exact fun h => h.of_iff fun name c after hin => read_iff_entity hu hin
  · exact fun h => h.of_iff fun name c after hin => (read_iff_entity hu hin).symm

theorem decode_replaces_bogus :
    Unsigned "Q&amp;A &#x41; &bogus; &#xD800;".toList ∧
      Replaces Entity "Q&amp;A &#x41; &bogus; &#xD800;".toList "Q&A A &bogus; &#xD800;".toList :=
  ⟨by decide +kernel, ((decode_replaces _ _).2 (by decide +kernel)).mp (by decide +kernel)⟩

example : decode "&#+65;&#x+4A;".toList = "AJ".toList := by decide +kernel

end ClassScript.Standard.Html
