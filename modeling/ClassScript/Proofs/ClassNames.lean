import ClassScript.Proofs.Namespaces
import ClassScript.Proofs.Returns
import Mathlib.Data.List.Induction

/-!
A dotted path as the name of a class, in types and in expressions.

A type tries the whole path in each of the namespaces around the class, innermost first. An expression
settles for the innermost one in which the first name is a namespace, and then goes on name by name.
So it can miss the class that a type means: where a nearer namespace hides the one that leads to it,
where a class stands in the way, and where there are more names than levels. Otherwise they agree, and
a class that an expression means is always the one that a type means.
-/

namespace ClassScript

/-! ## Paths as expressions -/

theorem Expr.path?_ne_nil {e : Expr} : e.path? ≠ some [] := by
  cases e with
  | member object name sp => simp [path?]
  | _ => simp [path?]

theorem Expr.eq_ident_of_path? {e : Expr} {name : Ident} (h : e.path? = some [name]) :
    e = .ident name := by
  cases e with
  | ident i =>
    cases h
    rfl
  | member object i sp =>
    obtain ⟨path, hpath, hname⟩ := Option.map_eq_some_iff.mp h
    cases path with
    | nil => exact absurd hpath path?_ne_nil
    | cons first path => simp at hname
  | _ => cases h

theorem Expr.eq_member_of_path? {e : Expr} {path : List Ident} {name : Ident} (hpath : path ≠ [])
    (h : e.path? = some (path ++ [name])) :
    ∃ object sp, e = .member object name sp ∧ object.path? = some path := by
  cases e with
  | ident i =>
    obtain ⟨first, path, rfl⟩ := List.exists_cons_of_ne_nil hpath
    simp [path?] at h
  | member object i sp =>
    obtain ⟨path', hpath', hname⟩ := Option.map_eq_some_iff.mp h
    obtain ⟨rfl, hi⟩ := List.append_inj' hname rfl
    cases hi
    exact ⟨object, sp, rfl, hpath'⟩
  | _ => cases h

/-- The name means no local, no member of the class, and no class. -/
structure Site.IsFree (site : Site) (locals : LocalScope) (name : String) : Prop where
  noLocal : locals.find? name = none
  noField : site.owner.field? name = none
  noMethod : site.owner.hasMethod name = false
  noClass : site.symbols.lookupClass? site.owner name = none

/-- Namespaces and classes are found outside of methods. -/
def Meaning.isOuter : Meaning → Bool
  | .space _ | .type _ => true
  | _ => false

/-- Below the namespace `n`, every beginning of the path names a namespace and no class. -/
def Symbols.Descends (s : Symbols) (n : String) (path : List String) : Prop :=
  ∀ front, front ≠ [] → front <+: path →
    s.findClass? (dotted (n :: front)) = none ∧ s.isNamespace (dotted (n :: front)) = true

theorem Symbols.descends_concat {s : Symbols} {n w : String} {path : List String} :
    s.Descends n (path ++ [w]) ↔ s.Descends n path ∧
      s.findClass? (dotted (n :: (path ++ [w]))) = none ∧
      s.isNamespace (dotted (n :: (path ++ [w]))) = true := by
  constructor
  · intro h
    refine ⟨fun front hne hfront => h front hne (hfront.trans (List.prefix_append _ _)), ?_⟩
    exact h (path ++ [w]) (by simp) List.prefix_rfl
  · rintro ⟨h, hlast⟩ front hne hfront
    obtain rfl | hfront := List.prefix_concat_iff.mp hfront
    · exact hlast
    · exact h front hne hfront

namespace Compile

variable {site : Site} {locals : LocalScope} {depth : Nat} {x t : CodeState} {e : Expr}
  {first name : Ident} {rest : List Ident} {n : String} {m : Meaning} {sp : Span}

theorem nameMeaning_space_iff (hfree : site.IsFree locals name.name) :
    Returns (nameMeaning site locals name) x (.space n) t ↔
      t = x ∧ site.symbols.lookupNamespace? site.owner name.name = some n := by
  obtain ⟨hlocal, hfield, hmethod, hclass⟩ := hfree
  simp only [nameMeaning, hlocal, hfield, hmethod, outerMeaning, hclass, Bool.false_eq_true, if_false]
  cases site.symbols.lookupNamespace? site.owner name.name with
  | some n' => simp [eq_comm, and_comm]
  | none => cases keywordMeaning? site name.name <;> simp

theorem isOuter_pure {o : Meaning} (ho : o.isOuter = false)
    (h : Returns (pure o : Compiling Meaning) x m t) : m.isOuter = false := by
  obtain ⟨rfl, -⟩ := Returns.pure_iff.mp h
  exact ho

theorem isOuter_valueMember {p : Pushed} (h : Returns (valueMember site p name) x m t) :
    m.isOuter = false := by
  unfold valueMember at h
  split at h
  · unfold lengthOf at h
    split at h
    · obtain ⟨v, s₁, -, h⟩ := Returns.bind h
      obtain ⟨q, s₂, -, h⟩ := Returns.bind h
      exact isOuter_pure rfl h
    · obtain ⟨_, s₁, -, h⟩ := Returns.bind h
      exact isOuter_pure rfl h
  · split at h
    · exact isOuter_pure rfl h
    · split at h
      · split at h
        · simp at h
        · exact isOuter_pure rfl h
      · simp at h

theorem isOuter_scriptMember {i : Nat} (h : Returns (scriptMember site i name) x m t) :
    m.isOuter = false := by
  unfold scriptMember at h
  dsimp only at h
  split at h
  · obtain ⟨_, s₁, -, h⟩ := Returns.bind h
    split at h
    · exact isOuter_pure rfl h
    · simp at h
  · split at h
    · exact isOuter_pure rfl h
    · simp at h

theorem isOuter_libraryMember {c : NativeClass} (h : Returns (libraryMember c name) x m t) :
    m.isOuter = false := by
  unfold libraryMember at h
  split at h
  · exact isOuter_pure rfl h
  · split at h
    · exact isOuter_pure rfl h
    · split at h <;> simp at h

theorem isOuter_thisMember (h : Returns (thisMember site name) x m t) : m.isOuter = false := by
  unfold thisMember at h
  split at h
  · split at h
    · simp at h
    · exact isOuter_pure rfl h
  · split at h
    · exact isOuter_pure rfl h
    · simp at h

/-- Only a namespace has members that are namespaces and classes. -/
theorem eq_space_of_member {object : Meaning} (h : Returns (memberMeaning site object sp name) x m t)
    (houter : m.isOuter = true) : ∃ n, object = .space n := by
  have hnot (hinner : m.isOuter = false) : ∃ n, object = .space n := by
    rw [hinner] at houter
    cases houter
  cases object with
  | space n => exact ⟨n, rfl⟩
  | type c =>
    cases c with
    | script i => exact hnot (isOuter_scriptMember h)
    | native c => exact hnot (isOuter_libraryMember h)
  | this => exact hnot (isOuter_thisMember h)
  | methods callee group => simp [memberMeaning] at h
  | localVar | field | constant | value =>
    obtain ⟨p, s₁, -, h⟩ := Returns.bind h
    exact hnot (isOuter_valueMember h)

theorem spaceMember_space_iff {full : String} : Returns (spaceMember site n name) x (.space full) t ↔
    t = x ∧ full = dotted [n, name.name] ∧ site.symbols.findClass? full = none ∧
      site.symbols.isNamespace full = true := by
  have hname : dotted [n, name.name] = n ++ "." ++ name.name := by
    rw [dotted_cons n (List.cons_ne_nil _ _), dotted_singleton]
  simp only [spaceMember, hname]
  split
  · next c hc =>
    simp only [Returns.pure_iff, reduceCtorEq, false_and, false_iff]
    rintro ⟨-, rfl, hnone, -⟩
    rw [hc] at hnone
    cases hnone
  · next hnone =>
    split
    · next hspace =>
      simp only [Returns.pure_iff, Meaning.space.injEq]
      constructor
      · rintro ⟨rfl, rfl⟩
        exact ⟨rfl, rfl, hnone, hspace⟩
      · rintro ⟨rfl, rfl, -, -⟩
        exact ⟨rfl, rfl⟩
    · next hspace =>
      simp only [Returns.fail_iff, false_iff]
      rintro ⟨-, rfl, -, hknown⟩
      exact hspace hknown

theorem spaceMember_type_iff {r : ClassRef} : Returns (spaceMember site n name) x (.type r) t ↔
    t = x ∧ site.symbols.findClass? (dotted [n, name.name]) = some r := by
  rw [dotted_cons n (List.cons_ne_nil _ _), dotted_singleton]
  unfold spaceMember
  dsimp only
  split
  · next c hc => simp [hc, eq_comm, and_comm]
  · next hnone => split <;> simp [hnone]

/-! ## What a path means -/

/-- A namespace or a class is a member of what the object means, one level deeper. -/
theorem member_iff {object : Expr} (houter : m.isOuter = true) :
    Returns (asObject depth (.member object name sp) fun d =>
        meaning site locals d .value (.member object name sp)) x m t ↔
      depth + 1 ≤ maxDepth ∧ ∃ n u,
        Returns (asObject (depth + 1) object fun d => meaning site locals d .value object) x
          (.space n) u ∧
        Returns (spaceMember site n name) u m t := by
  unfold asObject
  rw [Returns.enter_iff]
  refine and_congr_right fun _ => ?_
  simp only [meaning, objectLevels]
  rw [Returns.bind_iff]
  constructor
  · rintro ⟨o, u, hobject, hmember⟩
    obtain ⟨n, rfl⟩ := eq_space_of_member hmember houter
    exact ⟨n, u, hobject, hmember⟩
  · rintro ⟨n, u, hobject, hmember⟩
    exact ⟨.space n, u, hobject, hmember⟩

/-- A path with a free name in front means the namespace that it leads to. -/
theorem meaning_space_iff (hpath : e.path? = some (first :: rest))
    (hfree : site.IsFree locals first.name) {full : String} :
    Returns (asObject depth e fun d => meaning site locals d .value e) x (.space full) t ↔
      t = x ∧ depth + rest.length ≤ maxDepth ∧ ∃ n,
        site.symbols.lookupNamespace? site.owner first.name = some n ∧
        full = dotted (n :: rest.map (·.name)) ∧ site.symbols.Descends n (rest.map (·.name)) := by
  induction rest using List.reverseRecOn generalizing e depth full t with
  | nil =>
    obtain rfl := Expr.eq_ident_of_path? hpath
    unfold asObject
    rw [Returns.enter_iff]
    simp only [meaning, objectLevels, nameMeaning_space_iff hfree, List.map_nil, dotted_singleton]
    constructor
    · rintro ⟨hdepth, rfl, hspace⟩
      refine ⟨rfl, hdepth, full, hspace, rfl, fun front hne hfront => ?_⟩
      exact absurd (List.prefix_nil.mp hfront) hne
    · rintro ⟨rfl, hdepth, n, hspace, rfl, -⟩
      exact ⟨hdepth, rfl, hspace⟩
  | append_singleton rest name ih =>
    obtain ⟨object, sp, rfl, hobject⟩ := Expr.eq_member_of_path? (List.cons_ne_nil first rest) hpath
    rw [member_iff rfl]
    simp only [ih hobject, spaceMember_space_iff, List.map_append, List.map_cons, List.map_nil,
      List.length_append, List.length_singleton, Symbols.descends_concat]
    constructor
    · rintro ⟨-, n', u, ⟨rfl, hdepth, n, hspace, rfl, hdescends⟩, rfl, rfl, hnone, hknown⟩
      rw [dotted_dotted (List.cons_ne_nil _ _)] at hnone hknown ⊢
      exact ⟨rfl, by omega, n, hspace, rfl, hdescends, hnone, hknown⟩
    · rintro ⟨rfl, hdepth, n, hspace, rfl, hdescends, hnone, hknown⟩
      refine ⟨by omega, dotted (n :: rest.map (·.name)), t, ?_, ?_⟩
      · exact ⟨rfl, by omega, n, hspace, rfl, hdescends⟩
      rw [dotted_dotted (List.cons_ne_nil _ _)]
      exact ⟨rfl, rfl, hnone, hknown⟩

/-- A path with a free name in front means the class that it leads to through namespaces. -/
theorem meaning_type_iff (hpath : e.path? = some (first :: (rest ++ [name])))
    (hfree : site.IsFree locals first.name) {r : ClassRef} :
    Returns (asObject depth e fun d => meaning site locals d .value e) x (.type r) t ↔
      t = x ∧ depth + (rest.length + 1) ≤ maxDepth ∧ ∃ n,
        site.symbols.lookupNamespace? site.owner first.name = some n ∧
        site.symbols.findClass? (dotted (n :: (rest ++ [name]).map (·.name))) = some r ∧
        site.symbols.Descends n (rest.map (·.name)) := by
  obtain ⟨object, sp, rfl, hobject⟩ := Expr.eq_member_of_path? (List.cons_ne_nil first rest) hpath
  rw [member_iff rfl]
  simp only [meaning_space_iff hobject hfree, spaceMember_type_iff, List.map_append, List.map_cons,
    List.map_nil]
  constructor
  · rintro ⟨-, n', u, ⟨rfl, hdepth, n, hspace, rfl, hdescends⟩, rfl, hfound⟩
    rw [dotted_dotted (List.cons_ne_nil _ _)] at hfound
    exact ⟨rfl, by omega, n, hspace, hfound, hdescends⟩
  · rintro ⟨rfl, hdepth, n, hspace, hfound, hdescends⟩
    refine ⟨by omega, dotted (n :: rest.map (·.name)), t, ?_, rfl, ?_⟩
    · exact ⟨rfl, by omega, n, hspace, rfl, hdescends⟩
    rw [dotted_dotted (List.cons_ne_nil _ _)]
    exact hfound

end Compile

/-! ## What a path means in a type -/

namespace Symbols

/-- What registration guarantees where names are looked up inside a class. -/
structure Settled (s : Symbols) (c : ClassSymbol) : Prop where
  className : ∀ {name r}, s.findClass? name = some r → s.className r = name
  rooted : ∀ {name r}, s.findClass? name = some r → Rooted (s.isNamespace · = true) name
  space : ∀ v ∈ c.name.namespacePath, IsWord v

theorem settled_of_source {source : List Char} {p : Parsed} {libraries : List Library}
    {usings : List String} {c : ClassSymbol} (hsource : Parsed.ofSource source = .ok p)
    (hlibraries : ∀ l ∈ libraries, l.IsPlain)
    (hc : c ∈ (Registration.ofScript libraries usings p.script).symbols.classes.toList) :
    (Registration.ofScript libraries usings p.script).symbols.Settled c where
  className := (Registration.ofScript_madeOf libraries usings p.script).className
  rooted := (Registration.ofScript_madeOf libraries usings p.script).rooted hlibraries
    (Parsed.worded_of_source hsource)
  space v hv := by
    obtain ⟨d, hd, hname, -, -⟩ := (Registration.ofScript_madeOf libraries usings p.script).declared c hc
    rw [hname] at hv
    obtain ⟨i, hi, rfl⟩ := List.mem_map.mp hv
    exact (Parsed.worded_of_source hsource d hd).space i hi

variable {s : Symbols} {c : ClassSymbol} {w n : String} {path : List String} {r : ClassRef}

theorem mem_candidates (h : n ∈ candidates c w) :
    ∃ space, space <+: c.name.namespacePath ∧ n = dotted (space ++ [w]) := by
  obtain ⟨k, -, rfl⟩ := List.mem_map.mp h
  exact ⟨_, List.take_prefix k _, qualify_eq _ w⟩

/-- Whatever leads to a class from one of the names that are tried is a namespace. -/
theorem Settled.isNamespace (h : s.Settled c) {p q : List String}
    (hwords : ∀ v ∈ w :: (p ++ q), IsWord v) (hq : q ≠ []) (hn : n ∈ candidates c w)
    (hfound : s.findClass? (dotted (n :: (p ++ q))) ≠ none) :
    s.isNamespace (dotted (n :: p)) = true := by
  obtain ⟨space, haround, rfl⟩ := mem_candidates hn
  obtain ⟨r, hr⟩ := Option.ne_none_iff_exists'.mp hfound
  rw [dotted_dotted (by simp), List.append_assoc] at hr
  rw [dotted_dotted (by simp), List.append_assoc]
  refine h.rooted hr (space ++ ([w] ++ p)) q (by simp) hq (fun v hv => ?_) (by simp)
  rw [List.append_assoc, List.mem_append] at hv
  obtain hv | hv := hv
  · exact h.space v (haround.subset hv)
  · exact hwords v (by simpa using hv)

/-- In each namespace around the class, the path is looked for below its first name. -/
theorem lookupClass?_dotted (s : Symbols) (c : ClassSymbol) (w : String) (hpath : path ≠ []) :
    s.lookupClass? c (dotted (w :: path)) =
      (candidates c w).findSome? fun n => s.findClass? (dotted (n :: path)) := by
  have hcandidates : candidates c (dotted (w :: path)) =
      (candidates c w).map fun n => dotted (n :: path) := by
    unfold candidates
    rw [List.map_map]
    refine List.map_congr_left fun k _ => ?_
    rw [Function.comp_apply, qualify_dotted _ (List.cons_ne_nil _ _), qualify_eq, dotted_cons _ hpath,
      ← dotted_append (by simp) hpath, List.append_assoc, List.singleton_append]
  have hpoint : (dotted (w :: path)).contains '.' = true := by
    rw [dotted_cons w hpath, String.contains_char_eq]
    simp
  rw [lookupClass?, hcandidates, List.findSome?_map, hpoint, if_pos rfl]
  split
  · next h => exact h.symm
  · next h => exact h.symm

end Symbols

/-- Something is found for the first one with a property, which all have for which something is
found. -/
theorem findSome?_of_find? {α β : Type} {as : List α} {P : α → Bool} {f : α → Option β} {a : α} {b : β}
    (ha : as.find? P = some a) (hb : f a = some b) (hP : ∀ a' ∈ as, f a' ≠ none → P a' = true) :
    as.findSome? f = some b := by
  obtain ⟨-, front, back, rfl, hfront⟩ := List.find?_eq_some_iff_append.mp ha
  have hnone : front.findSome? f = none := by
    rw [List.findSome?_eq_none_iff]
    intro a' ha'
    by_contra hsome
    have := hfront a' ha'
    rw [hP a' (List.mem_append_left _ ha') hsome] at this
    cases this
  rw [List.findSome?_append, hnone, Option.none_or, List.findSome?_cons, hb]

/-! ## Empty classes -/

theorem Symbols.candidates_eq {c d : ClassSymbol} (h : c.name = d.name) :
    candidates c = candidates d := by
  funext w
  rw [candidates, candidates, h]

theorem Symbols.isFree_of_bare {libraries : List Library} {script : Script} {site : Site} {w : String}
    (hsymbols : site.symbols = (Registration.ofScript libraries [] script).symbols)
    (howner : site.owner ∈ (Registration.ofScript libraries [] script).symbols.classes.toList)
    (hbare : site.owner.decl.members = []) (husings : site.owner.usings = [])
    (hnone : ∀ n ∈ candidates site.owner w, Registration.declaresClass libraries script n = false) :
    site.IsFree .start w := by
  obtain ⟨hfield, hmethod⟩ := Registration.ofScript_bare howner hbare w
  refine ⟨by simp [LocalScope.find?, LocalScope.start], hfield, hmethod, ?_⟩
  have hglobal : site.symbols.globalUsings = [] := List.eq_nil_iff_forall_not_mem.mpr fun u hu =>
    absurd ((Registration.ofScript_madeOf libraries [] script).usings u (hsymbols ▸ hu)) List.not_mem_nil
  have hfirst : (candidates site.owner w).findSome? site.symbols.findClass? = none := by
    rw [List.findSome?_eq_none_iff]
    intro n hn
    rw [hsymbols, Registration.ofScript_findClass?_eq_none]
    exact hnone n hn
  rw [lookupClass?, hfirst, husings, hglobal]
  exact ite_self _

theorem exists_ok_of_any {ε α : Type} {result : Except ε α} {P : α → Bool}
    (h : result.toOption.any P = true) : ∃ a, result = .ok a ∧ P a = true := by
  cases result with
  | error e => cases h
  | ok a => exact ⟨a, rfl, h⟩

/-- Whether the script has a class of this full name, and all that are declared by it are empty, under no
using directive and with no class that `w` means, and pass the check of the names that are tried. -/
def declaresBare (libraries : List Library) (script : Script) (owner w : String)
    (check : List String → Bool) : Bool :=
  script.classes.any (fun q => (Registration.classSymbol q).name.text == owner) &&
  script.classes.all fun q => (Registration.classSymbol q).name.text != owner ||
    let around := Symbols.candidates (Registration.classSymbol q) w
    q.decl.members.isEmpty && q.usings.isEmpty &&
      around.all (!Registration.declaresClass libraries script ·) && check around

theorem exists_of_declaresBare {libraries : List Library} {script : Script} {owner w : String}
    {check : List String → Bool} (h : declaresBare libraries script owner w check = true) :
    ∃ c ∈ (Registration.ofScript libraries [] script).symbols.classes.toList, c.name.text = owner ∧
      check (Symbols.candidates c w) = true ∧ ∀ site : Site,
        site.symbols = (Registration.ofScript libraries [] script).symbols → site.owner = c →
        site.IsFree .start w := by
  obtain ⟨hsome, hall⟩ := Bool.and_eq_true_iff.mp h
  obtain ⟨q, hq, hqname⟩ := List.any_eq_true.mp hsome
  have hdeclared : ∃ q ∈ script.classes, (Registration.classSymbol q).name.text = owner :=
    ⟨q, hq, eq_of_beq hqname⟩
  obtain ⟨c, hc, hname, q', hq', hqc⟩ := Registration.ofScript_exists libraries [] hdeclared
  have hbare := List.all_eq_true.mp hall q' hq'
  rw [Bool.or_eq_true, or_iff_right (by simp [← hqc.name, hname])] at hbare
  simp only [Bool.and_eq_true, List.isEmpty_iff, List.all_eq_true, Bool.not_eq_true',
    ← Symbols.candidates_eq hqc.name] at hbare
  obtain ⟨⟨⟨hmembers, husings⟩, hnone⟩, hcheck⟩ := hbare
  refine ⟨c, hc, hname, hcheck, fun site hsymbols howner => ?_⟩
  refine Symbols.isFree_of_bare hsymbols (howner ▸ hc) ?_ ?_ (howner ▸ hnone)
  · rw [howner, hqc.decl, hmembers]
  · rw [howner, hqc.usings, Registration.classSymbol, husings]
    rfl

/-! ## Both ways to a class -/

/-- No class is on the way down the path from the namespace `n`. -/
def Symbols.IsOpen (s : Symbols) (n : String) (path : List String) : Prop :=
  ∀ front, front ≠ [] → front <+: path → front ≠ path → s.findClass? (dotted (n :: front)) = none

/-- A class below the first namespace of a name is the one that the whole path means. -/
theorem Symbols.Settled.descends_iff {s : Symbols} {c : ClassSymbol} {w last : String}
    {init : List String} {r : ClassRef} (h : s.Settled c)
    (hwords : ∀ v ∈ w :: (init ++ [last]), IsWord v) :
    (∃ n, s.lookupNamespace? c w = some n ∧ s.findClass? (dotted (n :: (init ++ [last]))) = some r ∧
        s.Descends n init) ↔
      s.lookupClass? c (dotted (w :: (init ++ [last]))) = some r ∧ ∃ n, s.lookupNamespace? c w = some n ∧
        s.className r = dotted (n :: (init ++ [last])) ∧ s.IsOpen n (init ++ [last]) := by
  have hne : init ++ [last] ≠ [] := by simp
  rw [lookupClass?_dotted s c w hne]
  constructor
  · rintro ⟨n, hn, hfound, hdescends⟩
    refine ⟨findSome?_of_find? hn hfound fun n' hn' hfound' => ?_, n, hn, h.className hfound,
      fun front hfront hpre hproper => ?_⟩
    · have := h.isNamespace (p := []) hwords hne hn' hfound'
      rwa [dotted_singleton] at this
    · exact (hdescends front hfront ((List.prefix_concat_iff.mp hpre).resolve_left hproper)).1
  · rintro ⟨hfirst, n, hn, hname, hopen⟩
    obtain ⟨n', -, hfound⟩ := List.exists_of_findSome?_eq_some hfirst
    rw [← h.className hfound, hname] at hfound
    refine ⟨n, hn, hfound, ?_⟩
    rintro front hfront ⟨more, rfl⟩
    rw [List.append_assoc] at hwords hfound hopen
    refine ⟨hopen front hfront (List.prefix_append _ _) (by simp), ?_⟩
    exact h.isNamespace hwords (by simp) (List.mem_of_find?_eq_some hn) (by simp [hfound])

/-- An expression that is a path with a free name in front means a class exactly if a type that is the
path means it, the class has the rest of the path as its name below the namespace that the first name
means, no class is on the way to it, and there are levels for all names. -/
theorem member_names_class {source : List Char} {p : Parsed} {libraries : List Library}
    {usings : List String} {site : Site} {locals : LocalScope} {e : Expr} {first : Ident}
    {rest : List Ident} (hsource : Parsed.ofSource source = .ok p)
    (hlibraries : ∀ l ∈ libraries, l.IsPlain)
    (hsymbols : site.symbols = (Registration.ofScript libraries usings p.script).symbols)
    (howner : site.symbols.classes[site.cls]? = some site.owner)
    (hpath : e.path? = some (first :: rest)) (hrest : rest ≠ [])
    (hwords : ∀ i ∈ first :: rest, IsWord i.name) (hfree : site.IsFree locals first.name)
    (depth : Nat) (x t : CodeState) (r : ClassRef) :
    Returns (Compile.asObject depth e fun d => Compile.meaning site locals d .value e) x (.type r) t ↔
      t = x ∧ depth + rest.length ≤ Compile.maxDepth ∧
      site.symbols.lookupClass? site.owner (dottedText (first :: rest)) = some r ∧
      ∃ n, site.symbols.lookupNamespace? site.owner first.name = some n ∧
        site.symbols.className r = dotted (n :: rest.map (·.name)) ∧
        site.symbols.IsOpen n (rest.map (·.name)) := by
  have hsettled : site.symbols.Settled site.owner := by
    have hmem := List.mem_of_getElem? (Array.getElem?_toList.trans howner)
    rw [hsymbols] at hmem ⊢
    exact Symbols.settled_of_source hsource hlibraries hmem
  obtain ⟨init, last, rfl⟩ := (List.eq_nil_or_concat' rest).resolve_left hrest
  have hnames : ∀ v ∈ first.name :: (init.map (·.name) ++ [last.name]), IsWord v := by
    intro v hv
    have hv : v ∈ (first :: (init ++ [last])).map (·.name) := by simpa using hv
    obtain ⟨i, hi, rfl⟩ := List.mem_map.mp hv
    exact hwords i hi
  rw [Compile.meaning_type_iff hpath hfree, List.map_append, List.map_singleton,
    hsettled.descends_iff hnames, List.length_append, List.length_singleton]
  simp [dottedText, dotted]

/-- A class of a library in an outer namespace. -/
theorem member_names_class_outer : ∃ (p : Parsed) (site : Site) (r : ClassRef),
    Parsed.ofSource "namespace A.B \x7b class T \x7b\x7d \x7d".toList = .ok p ∧
    site.symbols =
      (Registration.ofScript [.build "L" [] [⟨"A.N", "X", none, [], []⟩]] [] p.script).symbols ∧
    site.owner.name.text = "A.B.T" ∧ site.symbols.className r = "A.N.X" ∧
    ∀ x sp, Returns (Compile.asObject 0 (.member (.ident ⟨"N", sp⟩) ⟨"X", sp⟩ sp) fun d =>
      Compile.meaning site .start d .value (.member (.ident ⟨"N", sp⟩) ⟨"X", sp⟩ sp)) x (.type r) x := by
  let libraries : List Library := [.build "L" [] [⟨"A.N", "X", none, [], []⟩]]
  have hplain : ∀ l ∈ libraries, l.IsPlain := fun l hl =>
    ⟨"L", [], [⟨"A.N", "X", none, [], []⟩], List.mem_singleton.mp hl, by decide⟩
  have hdeclared : (Parsed.ofSource "namespace A.B \x7b class T \x7b\x7d \x7d".toList).toOption.any
      (fun p => declaresBare libraries p.script "A.B.T" "N" fun around =>
        around.find? (Registration.declaresSpace libraries p.script) == some "A.N" &&
        around.find? (fun n => Registration.declaresClass libraries p.script (dotted [n, "X"])) ==
          some "A.N") = true := by
    decide +kernel
  obtain ⟨p, hp, hbare⟩ := exists_ok_of_any hdeclared
  obtain ⟨c, hc, hname, hcheck, hfree⟩ := exists_of_declaresBare hbare
  obtain ⟨hfirst, hmeant⟩ := Bool.and_eq_true_iff.mp hcheck
  obtain ⟨i, hi⟩ := List.getElem?_of_mem hc
  let symbols := (Registration.ofScript libraries [] p.script).symbols
  have hclass {name : String} : symbols.findClass? name ≠ none ↔
      Registration.declaresClass libraries p.script name = true := by
    rw [ne_eq, Registration.ofScript_findClass?_eq_none, Bool.not_eq_false]
  have hspace : symbols.lookupNamespace? c "N" = some "A.N" := by
    rw [Symbols.lookupNamespace?, show symbols.isNamespace = _ from funext fun name =>
      Registration.ofScript_isNamespace libraries [] p.script name]
    exact eq_of_beq hfirst
  have hfound : symbols.findClass? "A.N.X" ≠ none := by
    have := List.find?_some (eq_of_beq hmeant)
    exact hclass.mpr this
  obtain ⟨r, hr⟩ := Option.ne_none_iff_exists'.mp hfound
  have hlookup : symbols.lookupClass? c (dotted ["N", "X"]) = some r := by
    rw [Symbols.lookupClass?_dotted symbols c "N" (List.cons_ne_nil "X" [])]
    exact findSome?_of_find? (eq_of_beq hmeant) hr fun n _ hn => hclass.mp hn
  have hr : symbols.className r = "A.N.X" := (Symbols.settled_of_source hp hplain hc).className hr
  have hopen : symbols.IsOpen "A.N" ["X"] := by
    intro front hne hfront hproper
    obtain rfl | ⟨more, rfl, hmore⟩ := List.prefix_cons_iff.mp hfront
    · exact absurd rfl hne
    · rw [List.prefix_nil.mp hmore] at hproper
      exact absurd rfl hproper
  have howner : symbols.classes[i]? = some c := Array.getElem?_toList.symm.trans hi
  let site : Site := ⟨symbols, false, i, c, .method, true, "", .void⟩
  have hsymbols : site.symbols = (Registration.ofScript libraries [] p.script).symbols := rfl
  refine ⟨p, site, r, hp, hsymbols, hname, hr, fun x sp => ?_⟩
  have hwords : ∀ j ∈ [(⟨"N", sp⟩ : Ident), ⟨"X", sp⟩], IsWord j.name := by
    simp only [List.forall_mem_cons]
    exact ⟨by decide, by decide, nofun⟩
  have hdepth : 0 + 1 ≤ Compile.maxDepth := by decide
  exact (member_names_class hp hplain hsymbols howner rfl (List.cons_ne_nil _ _) hwords
    (hfree site hsymbols rfl) 0 x x r).mpr ⟨rfl, hdepth, hlookup, "A.N", hspace, hr, hopen⟩

/-! ## Where they part -/

/-- Inside the class of this full name, the path means a class in a type and none in an expression,
although its first name is free. -/
def TypeOnly (libraries : List Library) (source owner : String) (path : List String) : Prop :=
  ∃ p c, Parsed.ofSource source.toList = .ok p ∧
    c ∈ (Registration.ofScript libraries [] p.script).symbols.classes.toList ∧ c.name.text = owner ∧
    ((Registration.ofScript libraries [] p.script).symbols.lookupClass? c (dotted path)).isSome = true ∧
    ∀ (site : Site) (e : Expr) (names : List Ident),
      site.symbols = (Registration.ofScript libraries [] p.script).symbols → site.owner = c →
      e.path? = some names → names.map (·.name) = path →
      site.IsFree .start (path.headD "") ∧ ∀ depth x t r,
        ¬ Returns (Compile.asObject depth e fun d => Compile.meaning site .start d .value e) x
          (.type r) t

/-- Whether no class is at the end of the path below the first of several names that is a namespace, by
what is declared. -/
def strays (libraries : List Library) (script : Script) (around path : List String) : Bool :=
  let isClass := Registration.declaresClass libraries script
  Compile.maxDepth < path.length ||
    match around.find? (Registration.declaresSpace libraries script) with
    | none => true
    | some n => !isClass (dotted (n :: path)) ||
      (List.range path.length).any fun k => 0 < k && isClass (dotted (n :: path.take k))

/-- Whether an expression misses the class that a type means, by what is declared. -/
def misses (libraries : List Library) (owner w : String) (path : List String) (script : Script) : Bool :=
  declaresBare libraries script owner w fun around =>
    around.any (fun n => Registration.declaresClass libraries script (dotted (n :: path))) &&
      strays libraries script around path

theorem not_returns_of_strays {libraries : List Library} {script : Script} {site : Site}
    {locals : LocalScope} {w : String} {path : List String} {e : Expr} {names : List Ident}
    (hsymbols : site.symbols = (Registration.ofScript libraries [] script).symbols)
    (hstrays : strays libraries script (Symbols.candidates site.owner w) path = true)
    (hfree : site.IsFree locals w) (hpath : e.path? = some names)
    (hnames : names.map (·.name) = w :: path) (hne : path ≠ []) (depth : Nat) (x t : CodeState) (r : ClassRef) :
    ¬ Returns (Compile.asObject depth e fun d => Compile.meaning site locals d .value e) x
      (.type r) t := by
  obtain ⟨first, rest, rfl, rfl, rfl⟩ := List.map_eq_cons_iff.mp hnames
  have hrest : rest ≠ [] := by simpa using hne
  obtain ⟨init, last, rfl⟩ := (List.eq_nil_or_concat' rest).resolve_left hrest
  have hspaces : site.symbols.isNamespace = Registration.declaresSpace libraries script := by
    funext name
    rw [hsymbols, Registration.ofScript_isNamespace]
  rw [Compile.meaning_type_iff hpath hfree]
  rintro ⟨-, hdepth, n, hn, hfound, hdescends⟩
  have hclass {name : String} : site.symbols.findClass? name = none ↔
      Registration.declaresClass libraries script name = false := by
    rw [hsymbols, Registration.ofScript_findClass?_eq_none]
  rw [Symbols.lookupNamespace?, hspaces] at hn
  simp only [strays, hn, Bool.or_eq_true, decide_eq_true_eq, Bool.not_eq_true', List.any_eq_true,
    List.mem_range, Bool.and_eq_true] at hstrays
  simp only [List.length_map, List.length_append, List.length_singleton] at hstrays
  obtain hlong | hnone | ⟨k, hk, hpos, hmet⟩ := hstrays
  · omega
  · rw [hclass.mpr hnone] at hfound
    cases hfound
  · have hlength : k ≤ (init.map (·.name)).length := by
      rw [List.length_map]
      omega
    rw [List.map_append, List.take_append_of_le_length hlength] at hmet
    have hfront : (init.map (·.name)).take k ≠ [] := by
      rw [ne_eq, List.take_eq_nil_iff, ← List.length_eq_zero_iff]
      omega
    rw [hclass.mp (hdescends _ hfront (List.take_prefix k _)).1] at hmet
    cases hmet

theorem typeOnly_of_misses {libraries : List Library} {source owner w : String} {path : List String}
    (hpath : path ≠ []) (h : (Parsed.ofSource source.toList).toOption.any
      (fun p => misses libraries owner w path p.script) = true) :
    TypeOnly libraries source owner (w :: path) := by
  obtain ⟨p, hp, hmisses⟩ := exists_ok_of_any h
  obtain ⟨c, hc, hname, hcheck, hfree⟩ := exists_of_declaresBare hmisses
  obtain ⟨hmeant, hstrays⟩ := Bool.and_eq_true_iff.mp hcheck
  obtain ⟨n, hn, hclass⟩ := List.any_eq_true.mp hmeant
  refine ⟨p, c, hp, hc, hname, ?_, fun site e names hsymbols howner he hnames => ?_⟩
  · rw [Symbols.lookupClass?_dotted _ _ _ hpath, List.findSome?_isSome_iff]
    refine ⟨n, hn, ?_⟩
    rw [Option.isSome_iff_ne_none]
    intro hnot
    rw [Registration.ofScript_findClass?_eq_none, hclass] at hnot
    cases hnot
  · refine ⟨hfree site hsymbols howner, ?_⟩
    exact not_returns_of_strays hsymbols (howner ▸ hstrays) (hfree site hsymbols howner) he hnames hpath

/-- An expression misses a class behind a nearer namespace, behind a class, behind too many names, and
behind a point in the name that a library gave it. -/
theorem member_misses_class :
    TypeOnly [] "namespace A.N \x7b class X \x7b\x7d \x7d namespace A.B.N \x7b class Y \x7b\x7d \x7d
      namespace A.B \x7b class T \x7b\x7d \x7d" "A.B.T" ["N", "X"] ∧
    TypeOnly [] "namespace A \x7b class B \x7b\x7d \x7d namespace A.B \x7b class X \x7b\x7d \x7d
      class T \x7b\x7d" "T" ["A", "B", "X"] ∧
    TypeOnly [] ("namespace A" ++ String.join (List.replicate 64 ".A") ++
      " \x7b class X \x7b\x7d \x7d class T \x7b\x7d") "T" (List.replicate 65 "A" ++ ["X"]) ∧
    TypeOnly [.build "L" [] [⟨"", "A.X", none, [], []⟩]] "class T \x7b\x7d" "T" ["A", "X"] := by
  refine ⟨?_, ?_, ?_, ?_⟩
  all_goals exact typeOnly_of_misses (by simp) (by decide +kernel)

end ClassScript
