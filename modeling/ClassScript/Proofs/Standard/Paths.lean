import ClassScript.Proofs.Standard.Signatures

/-!
Paths and their parts.

Joining paths is associative, with the empty path as its unit, so it does not matter how the parts of a
longer path are put together. A file name that was joined to a directory, and the directory without the
separator that it may end with, are what the path is taken apart into. A file name is taken apart into
its stem and its extension, with nothing lost but a point at its end.

The searches from the end are one function, `splitLast`, and all that is said of the parts follows from
the two ways in which it can end (`splitLast_cases`). The results are about the functions of the class
for paths as they are called.
-/

namespace ClassScript.Standard

namespace Path

variable {a b c d f path front back cs : List Char} {sep : Char}

/-! ## Joining -/

def asDirectory (path : List Char) : List Char :=
  if path.getLast? = some '/' then path else path ++ ['/']

@[simp] theorem combine_nil_left (b : List Char) : combine [] b = b := by
  rw [combine, if_pos (.inr rfl)]

theorem combine_rooted (h : b.head? = some '/') (a : List Char) : combine a b = b := by
  rw [combine, if_pos (.inl h)]

@[simp] theorem combine_nil_right (a : List Char) : combine a [] = a := by
  by_cases h : a = [] <;> simp [combine, h]

theorem combine_inside (ha : a ≠ []) (hb : b ≠ []) (hroot : b.head? ≠ some '/') :
    combine a b = asDirectory a ++ b := by
  unfold combine asDirectory
  rw [if_neg (not_or.mpr ⟨hroot, ha⟩), if_neg hb]
  split <;> simp

theorem asDirectory_append (hb : b ≠ []) (a : List Char) :
    asDirectory (a ++ b) = a ++ asDirectory b := by
  unfold asDirectory
  rw [List.getLast?_append_of_ne_nil a hb]
  split <;> simp

theorem combine_assoc (a b c : List Char) : combine (combine a b) c = combine a (combine b c) := by
  by_cases hc : c = []
  · simp [hc]
  by_cases hcroot : c.head? = some '/'
  · simp [combine_rooted hcroot]
  by_cases hb : b = []
  · simp [hb]
  have hbc : combine b c = asDirectory b ++ c := combine_inside hb hc hcroot
  have hhead : (combine b c).head? = b.head? := by
    rw [hbc, asDirectory]
    obtain ⟨d, ds, rfl⟩ := List.exists_cons_of_ne_nil hb
    split <;> rfl
  by_cases hbroot : b.head? = some '/'
  · rw [combine_rooted hbroot, combine_rooted (hhead.trans hbroot)]
  by_cases ha : a = []
  · simp [ha]
  have hab : combine a b = asDirectory a ++ b := combine_inside ha hb hbroot
  have hne : asDirectory a ++ b ≠ [] := List.append_ne_nil_of_right_ne_nil _ hb
  have hne' : combine b c ≠ [] := hbc ▸ List.append_ne_nil_of_right_ne_nil _ hc
  calc combine (combine a b) c
      = asDirectory (asDirectory a ++ b) ++ c := by rw [hab, combine_inside hne hc hcroot]
    _ = asDirectory a ++ combine b c := by rw [asDirectory_append hb, List.append_assoc, hbc]
    _ = combine a (combine b c) := (combine_inside ha hne' (hhead ▸ hbroot)).symm

/-! ## Taking apart -/

/-- Either the separator does not occur, or the text is split at its last occurrence. -/
theorem splitLast_cases (sep : Char) (cs : List Char) :
    (sep ∉ cs ∧ splitLast sep cs = (none, cs)) ∨
      ∃ front back, cs = front ++ sep :: back ∧ sep ∉ back ∧
        splitLast sep cs = (some front, back) := by
  induction cs with
  | nil => exact .inl ⟨by simp, rfl⟩
  | cons c cs ih =>
    rw [splitLast]
    obtain ⟨hcs, hsplit⟩ | ⟨front, back, rfl, hback, hsplit⟩ := ih
    · rw [hsplit]
      by_cases hc : c = sep
      · subst hc
        exact .inr ⟨[], cs, rfl, hcs, by simp⟩
      · exact .inl ⟨by simp [Ne.symm hc, hcs], by simp [hc]⟩
    · rw [hsplit]
      exact .inr ⟨c :: front, back, rfl, hback, rfl⟩

theorem splitLast_of_not_mem (h : sep ∉ cs) : splitLast sep cs = (none, cs) := by
  obtain ⟨-, hsplit⟩ | ⟨front, back, rfl, -, -⟩ := splitLast_cases sep cs
  · exact hsplit
  · exact absurd (by simp) h

theorem splitLast_append (hback : sep ∉ back) (front : List Char) :
    splitLast sep (front ++ sep :: back) = (some front, back) := by
  induction front with
  | nil => simp [splitLast, splitLast_of_not_mem hback]
  | cons c front ih => rw [List.cons_append, splitLast, ih]

def bare (path : List Char) : List Char := if path.getLast? = some '/' then path.dropLast else path

theorem asDirectory_eq (path : List Char) : asDirectory path = bare path ++ ['/'] := by
  unfold asDirectory bare
  split
  · next h => exact (List.dropLast_append_getLast? '/' h).symm
  · rfl

theorem bare_eq_nil_iff (hd : d ≠ []) : bare d = [] ↔ d = ['/'] := by
  unfold bare
  split
  · next h =>
    have hlast := List.dropLast_append_getLast? '/' h
    constructor
    · intro hnil
      rw [← hlast, hnil, List.nil_append]
    · rintro rfl
      rfl
  · next h =>
    refine iff_of_false hd ?_
    rintro rfl
    exact h rfl

/-- A file name joined to a directory stands behind the last separator. -/
theorem combine_fileName (hd : d ≠ []) (hf : f ≠ []) (hslash : '/' ∉ f) :
    splitLast '/' (combine d f) = (some (bare d), f) := by
  have hroot : f.head? ≠ some '/' := fun h => hslash (List.mem_of_mem_head? h)
  rw [combine_inside hd hf hroot, asDirectory_eq, List.append_assoc]
  exact splitLast_append hslash (bare d)

theorem fileName_combine (hd : d ≠ []) (hf : f ≠ []) (hslash : '/' ∉ f) :
    fileName (combine d f) = f := by
  rw [fileName, combine_fileName hd hf hslash]

theorem directoryName_combine (hd : d ≠ []) (hf : f ≠ []) (hslash : '/' ∉ f) :
    directoryName (combine d f) = if d = ['/'] then ['/'] else bare d := by
  rw [directoryName, combine_fileName hd hf hslash]
  by_cases hroot : d = ['/']
  · rw [(bare_eq_nil_iff hd).mpr hroot, if_pos hroot]
    exact if_neg hf
  · obtain ⟨c, cs, hbare⟩ := List.exists_cons_of_ne_nil (mt (bare_eq_nil_iff hd).mp hroot)
    rw [hbare, if_neg hroot]

/-- A file name is its stem and its extension, or its stem and a point. -/
theorem stem_append_extension (path : List Char) :
    stem path ++ extension path = fileName path ∨ stem path ++ ['.'] = fileName path := by
  unfold stem extension
  obtain ⟨-, hsplit⟩ | ⟨front, back, hname, -, hsplit⟩ := splitLast_cases '.' (fileName path)
  · simp [hsplit]
  · rw [hsplit, hname]
    by_cases hback : back = []
    · simp [hback]
    · simp [hback]

end Path

/-! ## Calls -/

open Path

variable {engine : PatternEngine}

theorem findClass?_path :
    (runtimeLibrary engine).findClass? "System.IO.Path" = some pathClass.asClass := by
  rw [Library.findClass?, runtimeLibrary_classes]
  rfl

/-- What a call of a function for paths gives: of the overload that takes as many texts. -/
def callPath? (engine : PatternEngine) (name : String) (args : List String) : Option String := do
  let c ← (runtimeLibrary engine).findClass? "System.IO.Path"
  let f ← (c.functionsNamed name).find? (·.params == args.map fun _ => .string)
  match (f.body.run (args.map Value.string).toArray .empty).1 with
  | .ok (.string s) => some s
  | _ => none

theorem callPath?_combine (a b : String) :
    callPath? engine "Combine" [a, b] = some (.ofList (combine a.toList b.toList)) := by
  rw [callPath?, findClass?_path, ← combine_nil_left a.toList]
  rfl

theorem callPath?_combine₃ (a b c : String) : callPath? engine "Combine" [a, b, c] =
    some (.ofList (combine (combine a.toList b.toList) c.toList)) := by
  rw [callPath?, findClass?_path, ← combine_nil_left a.toList]
  rfl

theorem callPath?_fileName (p : String) :
    callPath? engine "GetFileName" [p] = some (.ofList (fileName p.toList)) := by
  rw [callPath?, findClass?_path]
  rfl

theorem callPath?_extension (p : String) :
    callPath? engine "GetExtension" [p] = some (.ofList (extension p.toList)) := by
  rw [callPath?, findClass?_path]
  rfl

theorem callPath?_stem (p : String) :
    callPath? engine "GetFileNameWithoutExtension" [p] = some (.ofList (stem p.toList)) := by
  rw [callPath?, findClass?_path]
  rfl

theorem callPath?_directoryName (p : String) :
    callPath? engine "GetDirectoryName" [p] = some (.ofList (directoryName p.toList)) := by
  rw [callPath?, findClass?_path]
  rfl

/-- How joining and taking apart belong together. -/
structure PathsAgree (engine : PatternEngine) : Prop where
  /-- Three paths are joined as in any grouping. -/
  grouped : ∀ a b c, ∃ p, callPath? engine "Combine" [a, b, c] = some p ∧
    (callPath? engine "Combine" [a, b]).bind (fun q => callPath? engine "Combine" [q, c]) = some p ∧
    (callPath? engine "Combine" [b, c]).bind (fun q => callPath? engine "Combine" [a, q]) = some p
  unit : ∀ a, callPath? engine "Combine" ["", a] = some a ∧
    callPath? engine "Combine" [a, ""] = some a
  /-- What was joined is taken apart again, the directory without the separator at its end. -/
  parted : ∀ d f, d ≠ "" → f ≠ "" → '/' ∉ f.toList → ∃ p r,
    callPath? engine "Combine" [d, f] = some p ∧
    callPath? engine "GetFileName" [p] = some f ∧ callPath? engine "GetDirectoryName" [p] = some r ∧
    (d = "/" → r = "/") ∧
    (d ≠ "/" → if d.toList.getLast? = some '/' then r ++ "/" = d else r = d)
  /-- Of a file name only a point at its end is lost. -/
  named : ∀ p, ∃ n stem ext, callPath? engine "GetFileName" [p] = some n ∧
    callPath? engine "GetFileNameWithoutExtension" [p] = some stem ∧
    callPath? engine "GetExtension" [p] = some ext ∧
    (stem ++ ext = n ∨ n.toList.getLast? = some '.' ∧ stem ++ "." = n)

theorem paths_agree (engine : PatternEngine) : PathsAgree engine where
  grouped a b c := by
    refine ⟨_, callPath?_combine₃ a b c, ?_, ?_⟩
    · simp [callPath?_combine]
    · simp [callPath?_combine, combine_assoc]
  unit a := by simp [callPath?_combine]
  parted d f hd hf hslash := by
    have hd' : d.toList ≠ [] := by simpa using hd
    have hf' : f.toList ≠ [] := by simpa using hf
    refine ⟨_, _, callPath?_combine d f, ?_, callPath?_directoryName _, ?_, ?_⟩
    · rw [callPath?_fileName, String.toList_ofList, fileName_combine hd' hf' hslash,
        String.ofList_toList]
    all_goals
      intro hroot
      rw [String.toList_ofList, directoryName_combine hd' hf' hslash]
    · rw [if_pos (by simp [hroot])]
    · have hroot' : d.toList ≠ ['/'] := fun h => hroot (String.toList_inj.mp h)
      rw [if_neg hroot', bare]
      split
      · next h =>
        rw [← String.toList_inj, String.toList_append, String.toList_ofList]
        exact List.dropLast_append_getLast? '/' h
      · exact String.ofList_toList
  named p := by
    refine ⟨_, _, _, callPath?_fileName p, callPath?_stem p, callPath?_extension p, ?_⟩
    obtain h | h := stem_append_extension p.toList
    · exact .inl (by rw [← String.ofList_append, h])
    · refine .inr ⟨?_, ?_⟩
      · rw [String.toList_ofList, ← h, List.getLast?_concat]
      · rw [← h, String.ofList_append]

theorem paths_agree_usr :
    "usr/" ≠ "" ∧ "bin" ≠ "" ∧ '/' ∉ "bin".toList ∧
      ∃ p, callPath? literalEngine "Combine" ["usr/", "bin"] = some p ∧
        callPath? literalEngine "GetFileName" [p] = some "bin" ∧
        callPath? literalEngine "GetDirectoryName" [p] = some "usr" := by
  have hd : "usr/" ≠ "" := by decide
  have hf : "bin" ≠ "" := by decide
  have hslash : '/' ∉ "bin".toList := by decide
  obtain ⟨p, r, hp, hname, hdirectory, -, hr⟩ :=
    (paths_agree literalEngine).parted "usr/" "bin" hd hf hslash
  have hr : r ++ "/" = "usr/" := hr (by decide)
  have hr := congrArg String.toList hr
  rw [String.toList_append, show "usr/".toList = "usr".toList ++ "/".toList by decide] at hr
  obtain rfl := String.toList_inj.mp (List.append_cancel_right hr)
  exact ⟨hd, hf, hslash, p, hp, hname, hdirectory⟩

end ClassScript.Standard
