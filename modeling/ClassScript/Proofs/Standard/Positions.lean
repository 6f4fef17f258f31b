import ClassScript.Evaluation
import ClassScript.Proofs.Standard.Signatures
import Mathlib.Algebra.Group.Nat.Defs
import Mathlib.Order.Bounds.Defs

/-!
Positions in strings.

The length of a string, the position of another string in it and the parts of it that can be taken
all count characters. Searching is the least position at which the other string occurs; taking parts
succeeds for just the positions and lengths that are inside the string. Both are said of the methods as
they are called on a string, through the class that stands for its type.
-/

namespace ClassScript

/-! ## Search -/

namespace Text

variable {needle cs : List Char} {c : Char} {i : Nat}

/-- `needle` stands in the text, behind `i` characters. -/
def Occurs (needle text : List Char) (i : Nat) : Prop := i ≤ text.length ∧ needle <+: text.drop i

theorem occurs_nil : Occurs needle [] i ↔ needle = [] ∧ i = 0 := by
  simp [Occurs, and_comm]

theorem occurs_cons_zero : Occurs needle (c :: cs) 0 ↔ needle <+: c :: cs := by
  simp [Occurs]

theorem occurs_cons_succ : Occurs needle (c :: cs) (i + 1) ↔ Occurs needle cs i := by
  simp [Occurs]

theorem findFrom_eq (needle text : List Char) (k : Nat) :
    findFrom needle text k = (find? needle text).map (· + k) := by
  unfold find?
  induction text generalizing k with
  | nil =>
    unfold findFrom
    split <;> simp
  | cons c cs ih =>
    unfold findFrom
    split
    · simp
    · rw [ih (k + 1), ih 1, Option.map_map]
      exact congrArg (Option.map · _) (funext fun i => by simp; omega)

theorem find?_nil : find? needle [] = if needle = [] then some 0 else none := by
  simp [find?, findFrom]

theorem find?_cons : find? needle (c :: cs) =
    if needle <+: c :: cs then some 0 else (find? needle cs).map (· + 1) := by
  simp only [find?, findFrom, List.isPrefixOf_iff_prefix]
  exact congrArg _ (findFrom_eq needle cs 1)

/-- What is found is the least position, and where nothing is found, there is none. -/
theorem find?_least (needle text : List Char) :
    match find? needle text with
    | some i => IsLeast {i | Occurs needle text i} i
    | none => ∀ i, ¬ Occurs needle text i := by
  induction text with
  | nil =>
    rw [find?_nil]
    by_cases h : needle = []
    · rw [if_pos h]
      exact ⟨occurs_nil.mpr ⟨h, rfl⟩, fun _ _ => Nat.zero_le _⟩
    · rw [if_neg h]
      exact fun i hi => h (occurs_nil.mp hi).1
  | cons c cs ih =>
    rw [find?_cons]
    by_cases h : needle <+: c :: cs
    · rw [if_pos h]
      exact ⟨occurs_cons_zero.mpr h, fun _ _ => Nat.zero_le _⟩
    · rw [if_neg h]
      cases hfind : find? needle cs with
      | none =>
        rw [hfind] at ih
        rintro (_ | i) hi
        · exact h (occurs_cons_zero.mp hi)
        · exact ih i (occurs_cons_succ.mp hi)
      | some i =>
        rw [hfind] at ih
        refine ⟨occurs_cons_succ.mpr ih.1, ?_⟩
        rintro (_ | j) hj
        · exact absurd (occurs_cons_zero.mp hj) h
        · exact Nat.succ_le_succ (ih.2 (occurs_cons_succ.mp hj))

end Text

namespace Standard

open Text

/-! ## Parts -/

theorem substringFrom_eq_ok_iff {text cs : List Char} {start : Int} :
    substringFrom text start = .ok cs ↔
      (0 ≤ start ∧ start ≤ text.length) ∧ text.drop start.toNat = cs := by
  unfold substringFrom
  split <;> simp [*]

theorem substring_eq_ok_iff {text cs : List Char} {start count : Int} :
    substring text start count = .ok cs ↔
      (0 ≤ start ∧ 0 ≤ count ∧ start + count ≤ text.length) ∧
        (text.drop start.toNat).take count.toNat = cs := by
  unfold substring
  split
  · next hneg =>
    refine iff_of_false (by simp) ?_
    rintro ⟨⟨hstart, -⟩, -⟩
    omega
  · next hstart =>
    split
    · next hcount => simp [hcount, Int.not_lt.mp hstart]
    · next hcount =>
      refine iff_of_false (by simp) ?_
      rintro ⟨⟨-, hinside⟩, -⟩
      exact hcount hinside

/-- A part that is as long as another text is that text just where it occurs. -/
theorem substring_eq_needle_iff {text needle : List Char} {start : Int} :
    substring text start needle.length = .ok needle ↔ 0 ≤ start ∧ Occurs needle text start.toNat := by
  rw [substring_eq_ok_iff, Int.toNat_natCast, Occurs, List.prefix_iff_eq_take, eq_comm]
  constructor
  · rintro ⟨⟨hstart, -, hlength⟩, hneedle⟩
    exact ⟨hstart, by omega, hneedle⟩
  · rintro ⟨hstart, hle, hneedle⟩
    have hlength : needle.length ≤ (text.drop start.toNat).length := by
      rw [hneedle]
      exact List.length_take_le' _ _
    rw [List.length_drop] at hlength
    exact ⟨⟨hstart, by omega, by omega⟩, hneedle⟩

def occurrences (needle text : List Char) : Set Int32 :=
  {j | 0 ≤ j.toInt ∧ Occurs needle text j.toInt.toNat}

theorem isLeast_occurrences {needle text : List Char} {k : Int32} {i : Nat} (hk : k.toInt = i)
    (h : IsLeast {i | Occurs needle text i} i) : IsLeast (occurrences needle text) k := by
  constructor
  · refine ⟨by omega, ?_⟩
    rw [hk]
    exact h.1
  · rintro j ⟨hj, hoccurs⟩
    have := h.2 hoccurs
    rw [Int32.le_iff_toInt_le]
    omega

theorem ne_neg_one_of_toInt {k : Int32} {i : Nat} (h : k.toInt = i) : k ≠ -1 := by
  rintro rfl
  have : (-1 : Int32).toInt = -1 := by decide
  omega

/-- In a text that is not too long, searching gives the least position, or `-1` if there is none. -/
theorem indexOf_ok (needle : List Char) {text : List Char} (h : text.length < 2 ^ 31) :
    ∃ k : Int32, indexOf text needle = .ok k ∧ (find? needle text).isSome = (k ≠ -1 : Bool) ∧
      (k ≠ -1 → IsLeast (occurrences needle text) k) ∧
      (k = -1 ↔ ∀ j, j ∉ occurrences needle text) := by
  have hleast := find?_least needle text
  unfold indexOf
  cases hfind : find? needle text with
  | none =>
    rw [hfind] at hleast
    exact ⟨-1, rfl, by simp, fun hne => absurd rfl hne, iff_of_true rfl fun j hj => hleast _ hj.2⟩
  | some i =>
    rw [hfind] at hleast
    have hi : i < 2 ^ 31 := Nat.lt_of_le_of_lt hleast.1.1 h
    have hk : (Int32.ofNat i).toInt = i := Int32.toInt_ofNat_of_lt hi
    have hne := ne_neg_one_of_toInt hk
    have hk := isLeast_occurrences hk hleast
    have hfits : fitsSigned 32 i := fitsSigned_natCast.mpr hi
    simp only [hfits, if_true]
    exact ⟨_, rfl, by simp [hne], fun _ => hk, iff_of_false hne fun hnone => hnone _ hk.1⟩

/-! ## Calls -/

variable {engine : PatternEngine}

theorem keywordClass?_string :
    (runtimeLibrary engine).keywordClass? .string = some stringClass.asClass := by
  rw [Library.keywordClass?, runtimeLibrary_classes]
  rfl

/-- A call of a method of a string: the overload for the types of the arguments. -/
def callMethod? (engine : PatternEngine) (s : String) (name : String) (args : List Value) :
    Option (Except NativeError Value) := do
  let c ← (runtimeLibrary engine).keywordClass? .string
  let f ← (c.methodsNamed name).find? (·.params == args.map (·.type))
  pure (f.body.run (.string s :: args).toArray .empty).1

/-- A body that gives what a computation yields. -/
theorem run_lift {α : Type} (x : Except NativeError α) (make : α → Value) (args : Array Value)
    (sink : Sink) :
    (Native.run (do Native.give (make (← liftM x))) args sink).1 = x.map make := by
  cases x <;> rfl

def textOf (cs : List Char) : Value := .string (String.ofList cs)

theorem callMethod?_indexOf (s n : String) :
    callMethod? engine s "IndexOf" [.string n] = some ((indexOf s.toList n.toList).map .int) := by
  rw [callMethod?, keywordClass?_string]
  exact congrArg some (run_lift (indexOf s.toList n.toList) .int _ _)

theorem callMethod?_contains (s n : String) : callMethod? engine s "Contains" [.string n] =
    some (.ok (.bool (Text.find? n.toList s.toList).isSome)) := by
  rw [callMethod?, keywordClass?_string]
  rfl

theorem callMethod?_substringFrom (s : String) (i : Int32) :
    callMethod? engine s "Substring" [.int i] = some ((substringFrom s.toList i.toInt).map textOf) := by
  rw [callMethod?, keywordClass?_string]
  exact congrArg some (run_lift (substringFrom s.toList i.toInt) textOf _ _)

theorem callMethod?_substring (s : String) (i c : Int32) :
    callMethod? engine s "Substring" [.int i, .int c] =
      some ((substring s.toList i.toInt c.toInt).map textOf) := by
  rw [callMethod?, keywordClass?_string]
  let rest : Native Unit := do
    let count ← Native.int 2
    Native.giveChars (← substring s.toList i.toInt count.toInt)
  change some (Native.run
    (if i < 0 then Native.failWith (outsideString "startIndex") >>= fun _ : Unit => rest else rest)
    #[.string s, .int i, .int c] .empty).1 = _
  split
  · next h =>
    have hstart : i.toInt < 0 := Int32.lt_iff_toInt_lt.mp h
    rw [substring, if_pos hstart]
    rfl
  · exact congrArg some (run_lift (substring s.toList i.toInt c.toInt) textOf _ _)

def Succeeds (r : Option (Except NativeError Value)) : Prop := ∃ v, r = some (.ok v)

theorem succeeds_map_iff {x : Except NativeError (List Char)} :
    Succeeds (some (x.map textOf)) ↔ ∃ cs, x = .ok cs := by
  cases x <;> simp [Succeeds, Except.map]

theorem map_textOf_eq_ok_iff {x : Except NativeError (List Char)} {t : String} :
    x.map textOf = .ok (.string t) ↔ x = .ok t.toList := by
  cases x with
  | error e => simp [Except.map]
  | ok cs =>
    simp only [Except.map, textOf, Except.ok.injEq, Value.string.injEq]
    exact ⟨fun h => by rw [← h, String.toList_ofList], fun h => by rw [h, String.ofList_toList]⟩

/-- A part as long as another string is that string just where it occurs. -/
theorem callMethod?_substring_eq_iff (engine : PatternEngine) {s n : String} {needle : Int32} (h : needle.toInt = n.length)
    (i : Int32) : callMethod? engine s "Substring" [.int i, .int needle] = some (.ok (.string n)) ↔
      i ∈ occurrences n.toList s.toList := by
  rw [callMethod?_substring, Option.some_inj, map_textOf_eq_ok_iff, h, ← String.length_toList,
    substring_eq_needle_iff]
  rfl

/-- How the length of a string, the position of another one in it and its parts belong together. -/
structure PositionsAgree (engine : PatternEngine) (s n : String) (length needle index : Int32) : Prop where
  characters : length.toInt = s.length
  /-- What is found is the least position of a part that is the other string. -/
  first : index ≠ -1 →
    IsLeast {i | callMethod? engine s "Substring" [.int i, .int needle] = some (.ok (.string n))} index
  nowhere : index = -1 ↔
    ∀ i, callMethod? engine s "Substring" [.int i, .int needle] ≠ some (.ok (.string n))
  contained : callMethod? engine s "Contains" [.string n] = some (.ok (.bool (index ≠ -1)))
  inside : ∀ i, Succeeds (callMethod? engine s "Substring" [.int i]) ↔ 0 ≤ i ∧ i ≤ length
  /-- The sum is that of unbounded integers, so no position and count pass by wrapping around. -/
  within : ∀ i c, Succeeds (callMethod? engine s "Substring" [.int i, .int c]) ↔
    0 ≤ i ∧ 0 ≤ c ∧ i.toInt + c.toInt ≤ length.toInt
  /-- A part has the characters from its position on, as many as were asked for. -/
  part : ∀ i c t, callMethod? engine s "Substring" [.int i, .int c] = some (.ok (.string t)) →
    t.toList = (s.toList.drop i.toInt.toNat).take c.toInt.toNat
  parted : ∀ i, 0 ≤ i → i ≤ length → ∃ front back,
    callMethod? engine s "Substring" [.int 0, .int i] = some (.ok front) ∧
      callMethod? engine s "Substring" [.int i] = some (.ok back) ∧
        ∀ checked, Opcode.concat.evalBinary checked front back = .ok (.string s)

/-! ## Agreement -/

theorem strLen_eq {s : String} (h : s.length < 2 ^ 31) (checked : Bool) :
    Opcode.strLen.evalUnary checked (.string s) = .ok (.int (Int32.ofNat s.length)) := by
  have hfits : fitsSigned 32 s.length := fitsSigned_natCast.mpr h
  simp only [Opcode.evalUnary, hfits, if_true]

theorem nonneg_iff {i : Int32} : 0 ≤ i ↔ 0 ≤ i.toInt := Int32.le_iff_toInt_le

theorem succeeds_substringFrom_iff {s : String} {length : Int32} (h : length.toInt = s.length)
    (i : Int32) :
    Succeeds (callMethod? engine s "Substring" [.int i]) ↔ 0 ≤ i ∧ i ≤ length := by
  rw [callMethod?_substringFrom, succeeds_map_iff, nonneg_iff, Int32.le_iff_toInt_le, h,
    ← String.length_toList]
  simp only [substringFrom_eq_ok_iff, exists_eq_right']

theorem succeeds_substring_iff {s : String} {length : Int32} (h : length.toInt = s.length)
    (i c : Int32) :
    Succeeds (callMethod? engine s "Substring" [.int i, .int c]) ↔
      0 ≤ i ∧ 0 ≤ c ∧ i.toInt + c.toInt ≤ length.toInt := by
  rw [callMethod?_substring, succeeds_map_iff, nonneg_iff, nonneg_iff, h, ← String.length_toList]
  simp only [substring_eq_ok_iff, exists_eq_right']

theorem parted {s : String} {length i : Int32} (h : length.toInt = s.length) (hi : 0 ≤ i)
    (hle : i ≤ length) :
    ∃ front back, callMethod? engine s "Substring" [.int 0, .int i] = some (.ok front) ∧
      callMethod? engine s "Substring" [.int i] = some (.ok back) ∧
        ∀ checked, Opcode.concat.evalBinary checked front back = .ok (.string s) := by
  rw [nonneg_iff] at hi
  rw [Int32.le_iff_toInt_le, h, ← String.length_toList] at hle
  have hfront : substring s.toList (Int32.toInt 0) i.toInt = .ok (s.toList.take i.toInt.toNat) :=
    substring_eq_ok_iff.mpr ⟨⟨Int.le_refl 0, hi, by simpa using hle⟩, rfl⟩
  have hback := substringFrom_eq_ok_iff.mpr ⟨⟨hi, hle⟩, rfl⟩
  refine ⟨textOf (s.toList.take i.toInt.toNat), textOf (s.toList.drop i.toInt.toNat), ?_, ?_, ?_⟩
  · rw [callMethod?_substring, hfront]
    rfl
  · rw [callMethod?_substringFrom, hback]
    rfl
  · intro checked
    change Except.ok (Value.string (_ ++ _)) = _
    rw [← String.ofList_append, List.take_append_drop, String.ofList_toList]

/-- For strings that the length instruction can measure, the lengths, the position that searching gives
and the parts that can be taken agree. -/
theorem positions_agree (engine : PatternEngine) {s n : String} (hs : s.length < 2 ^ 31) (hn : n.length < 2 ^ 31)
    (checked : Bool) : ∃ length needle index : Int32,
      Opcode.strLen.evalUnary checked (.string s) = .ok (.int length) ∧
      Opcode.strLen.evalUnary checked (.string n) = .ok (.int needle) ∧
      callMethod? engine s "IndexOf" [.string n] = some (.ok (.int index)) ∧
      PositionsAgree engine s n length needle index := by
  have hlength := Int32.toInt_ofNat_of_lt hs
  have hneedle := Int32.toInt_ofNat_of_lt hn
  have hsize : s.toList.length < 2 ^ 31 := by rwa [String.length_toList]
  obtain ⟨k, hk, hcontains, hleast, hnone⟩ := indexOf_ok n.toList hsize
  have hoccurs := callMethod?_substring_eq_iff engine (s := s) hneedle
  refine ⟨_, _, k, strLen_eq hs checked, strLen_eq hn checked, ?_, hlength, ?_, ?_, ?_,
    succeeds_substringFrom_iff hlength, succeeds_substring_iff hlength, ?_,
    fun i => parted hlength⟩
  · rw [callMethod?_indexOf, hk]
    rfl
  · simp only [hoccurs]
    exact hleast
  · simpa only [ne_eq, hoccurs] using hnone
  · rw [callMethod?_contains, hcontains]
  · intro i c t h
    rw [callMethod?_substring, Option.some_inj, map_textOf_eq_ok_iff, substring_eq_ok_iff] at h
    exact h.2.symm

/-- A character outside the first plane is one position, like any other. -/
theorem positions_agree_clef : "𝄞ab".length < 2 ^ 31 ∧ "b".length < 2 ^ 31 ∧
    callMethod? literalEngine "𝄞ab" "IndexOf" [.string "b"] = some (.ok (.int 2)) ∧
    PositionsAgree literalEngine "𝄞ab" "b" 3 1 2 := by
  have hs : "𝄞ab".length < 2 ^ 31 := by decide
  have hn : "b".length < 2 ^ 31 := by decide
  have hfound : callMethod? literalEngine "𝄞ab" "IndexOf" [.string "b"] = some (.ok (.int 2)) := by
    rw [callMethod?_indexOf]
    decide
  obtain ⟨length, needle, index, hlength, hneedle, hindex, h⟩ := positions_agree literalEngine hs hn true
  cases hfound.symm.trans hindex
  cases (strLen_eq hs true).symm.trans hlength
  cases (strLen_eq hn true).symm.trans hneedle
  exact ⟨hs, hn, hfound, h⟩

end Standard
end ClassScript
