/-!
Module names: an ASCII letter or an underscore, then ASCII letters, digits and underscores.
-/

namespace ClassScript

namespace ModuleName

def isStart (c : Char) : Bool := c.isAlpha || c == '_'

def isRest (c : Char) : Bool := c.isAlphanum || c == '_'

/-- The characters of a text make a module name. -/
def isValid : List Char → Bool
  | [] => false
  | c :: cs => isStart c && cs.all isRest

end ModuleName

structure ModuleName where
  text : String
  valid : ModuleName.isValid text.toList = true
deriving DecidableEq

/-- A text that is no module name. -/
structure InvalidModuleName where
  text : String
deriving DecidableEq, Inhabited

def InvalidModuleName.message (e : InvalidModuleName) : String :=
  "'" ++ e.text ++ "' is not a valid module name"

namespace ModuleName

def ofText (text : String) : Except InvalidModuleName ModuleName :=
  if h : isValid text.toList = true then .ok ⟨text, h⟩ else .error ⟨text⟩

/-! ## Names drawn from random bytes -/

def letters : List Char := "abcdefghijklmnopqrstuvwxyz".toList

def alphanumerics : List Char := "abcdefghijklmnopqrstuvwxyz0123456789".toList

/-- The character of an alphabet that a byte picks. -/
def pick (alphabet : List Char) (b : UInt8) : Char :=
  alphabet.getD (b.toNat % alphabet.length) '_'

/-- A name of one letter, seven letters or digits, an underscore, and three more, for eleven bytes;
fewer bytes give a shorter name. -/
def drawn (first : UInt8) (rest : List UInt8) : String :=
  let cs := (rest.take 10).map (pick alphanumerics)
  let tail := if 7 < cs.length then cs.take 7 ++ '_' :: cs.drop 7 else cs
  String.ofList (pick letters first :: tail)

theorem isStart_pick (b : UInt8) : isStart (pick letters b) = true := by
  have h : ∀ i : Fin 26, isStart (letters.getD i.val '_') = true := by decide
  exact h ⟨b.toNat % 26, Nat.mod_lt _ (by decide)⟩

theorem isRest_pick (b : UInt8) : isRest (pick alphanumerics b) = true := by
  have h : ∀ i : Fin 36, isRest (alphanumerics.getD i.val '_') = true := by decide
  exact h ⟨b.toNat % 36, Nat.mod_lt _ (by decide)⟩

theorem isValid_drawn (first : UInt8) (rest : List UInt8) :
    isValid (drawn first rest).toList = true := by
  have hs : ∀ c ∈ (rest.take 10).map (pick alphanumerics), isRest c = true := by
    intro c hc
    obtain ⟨b, _, rfl⟩ := List.mem_map.mp hc
    exact isRest_pick b
  simp only [drawn, String.toList_ofList, isValid, isStart_pick, Bool.true_and, List.all_eq_true]
  intro c hc
  split at hc
  · rcases List.mem_append.mp hc with hc | hc
    · exact hs c (List.mem_of_mem_take hc)
    · rcases List.mem_cons.mp hc with rfl | hc
      · decide
      · exact hs c (List.mem_of_mem_drop hc)
  · exact hs c hc

/-- The name that random bytes give. -/
def random (first : UInt8) (rest : List UInt8) : ModuleName :=
  ⟨drawn first rest, isValid_drawn first rest⟩

end ModuleName
end ClassScript
