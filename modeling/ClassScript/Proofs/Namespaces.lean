import ClassScript.Proofs.Declarations
import ClassScript.Proofs.Libraries
import ClassScript.Proofs.Progress.Words

/-!
Every class is in a namespace that is known.

A script makes the namespaces known that it declares, with all those around them, and a library those
of its classes. So where the full name of a class is cut at a point, a known namespace is in front of
it, unless a library gave a class a name with a point in it.
-/

namespace ClassScript

/-! ## Dotted names -/

theorem dotted_append {p q : List String} (hp : p ≠ []) (hq : q ≠ []) :
    dotted (p ++ q) = dotted p ++ "." ++ dotted q := String.intercalate_append_of_ne_nil hp hq

theorem dotted_singleton (w : String) : dotted [w] = w := String.intercalate_singleton

theorem dotted_cons (w : String) {q : List String} (hq : q ≠ []) :
    dotted (w :: q) = w ++ "." ++ dotted q := String.intercalate_cons_of_ne_nil hq

/-- A dotted name in front of further names. -/
theorem dotted_dotted {p : List String} (hp : p ≠ []) (q : List String) :
    dotted (dotted p :: q) = dotted (p ++ q) := by
  cases q with
  | nil => rw [dotted_singleton, List.append_nil]
  | cons w q => rw [dotted_cons _ (List.cons_ne_nil w q), dotted_append hp (List.cons_ne_nil w q)]

/-- Names without points are told apart in a dotted one. -/
theorem eq_of_dotted_eq {p q : List String} (hp : ∀ w ∈ p, '.' ∉ w.toList) (hpne : p ≠ [])
    (hq : ∀ w ∈ q, '.' ∉ w.toList) (hqne : q ≠ []) (h : dotted p = dotted q) : p = q := by
  have hsplit {p : List String} (hp : ∀ w ∈ p, '.' ∉ w.toList) (hne : p ≠ []) :
      List.splitOn '.' (dotted p).toList = p.map String.toList := by
    rw [dotted, String.toList_intercalate]
    exact List.splitOn_intercalate '.' (by simpa using hp) (by simpa using hne)
  have hchars : p.map String.toList = q.map String.toList := by
    rw [← hsplit hp hpne, h, hsplit hq hqne]
  exact List.map_injective_iff.mpr (fun _ _ => String.toList_inj.mp) hchars

theorem QualifiedName.text_eq (n : QualifiedName) : n.text = dotted (n.namespacePath ++ [n.simple]) := by
  obtain ⟨simple, path⟩ := n
  change String.join (path.map (· ++ ".")) ++ simple = dotted (path ++ [simple])
  induction path with
  | nil => simp [dotted_singleton]
  | cons w path ih =>
    rw [List.map_cons, String.join_cons, String.append_assoc, ih, List.cons_append,
      dotted_cons w (by simp)]

namespace Symbols

theorem qualify_eq (space : List String) (name : String) :
    qualify space name = dotted (space ++ [name]) := by
  unfold qualify
  cases space with
  | nil => exact (dotted_singleton name).symm
  | cons w space =>
    rw [dotted_append (List.cons_ne_nil _ _) (List.cons_ne_nil _ _), dotted_singleton]
    rfl

/-- A path inside a namespace. -/
theorem qualify_dotted (space : List String) {path : List String} (hpath : path ≠ []) :
    qualify space (dotted path) = dotted (space ++ path) := by
  rw [qualify_eq]
  cases space with
  | nil => exact dotted_singleton _
  | cons w space =>
    rw [dotted_append (List.cons_ne_nil _ _) (List.cons_ne_nil _ _),
      dotted_append (List.cons_ne_nil _ _) hpath, dotted_singleton]

end Symbols

/-- Wherever the name is cut at a point, what is in front of it is known. -/
def Rooted (known : String → Prop) (name : String) : Prop :=
  ∀ p q : List String, p ≠ [] → q ≠ [] → (∀ w ∈ p ++ q, IsWord w) → name = dotted (p ++ q) →
    known (dotted p)

namespace Rooted

variable {known known' : String → Prop} {name : String}

theorem mono (h : Rooted known name) (hknown : ∀ space, known space → known' space) :
    Rooted known' name := fun p q hp hq hwords hname => hknown _ (h p q hp hq hwords hname)

/-- A name in a namespace that is known with all those around it. -/
theorem of_dotted {space : List String} (hspace : ∀ w ∈ space, '.' ∉ w.toList)
    (hname : '.' ∉ name.toList) (hknown : ∀ n, 0 < n → n ≤ space.length →
      (∀ w ∈ space.take n, IsWord w) → known (dotted (space.take n))) :
    Rooted known (dotted (space ++ [name])) := by
  intro p q hp hq hwords heq
  have hpoints : ∀ w ∈ space ++ [name], '.' ∉ w.toList := by
    intro w hw
    obtain hw | hw := List.mem_append.mp hw
    · exact hspace w hw
    · exact List.mem_singleton.mp hw ▸ hname
  have hparts : ∀ w ∈ p ++ q, '.' ∉ w.toList := fun w hw => (hwords w hw).no_point
  have hsplit := eq_of_dotted_eq hpoints (by simp) hparts (by simp [hp]) heq
  have hlength := congrArg List.length hsplit
  simp only [List.length_append, List.length_singleton] at hlength
  have hppos := List.length_pos_of_ne_nil hp
  have hqpos := List.length_pos_of_ne_nil hq
  have htake : space.take p.length = p := by
    have hle : p.length ≤ space.length := by omega
    calc space.take p.length
      _ = (space ++ [name]).take p.length := (List.take_append_of_le_length hle).symm
      _ = p := by rw [hsplit, List.take_left]
  have := hknown p.length hppos (by omega) fun w hw => hwords w (List.mem_append_left q (htake ▸ hw))
  rwa [htake] at this

end Rooted

/-! ## Libraries -/

theorem Text.not_mem_splitOn {sep : Char} {text piece : List Char} (h : piece ∈ Text.splitOn sep text) :
    sep ∉ piece := by
  induction text generalizing piece with
  | nil =>
    obtain rfl := List.mem_singleton.mp h
    exact List.not_mem_nil
  | cons c text ih =>
    unfold Text.splitOn at h
    split at h
    · obtain rfl | h := List.mem_cons.mp h
      · exact List.not_mem_nil
      · exact ih h
    · next hc =>
      have hnot {piece : List Char} (hp : sep ∉ piece) : sep ∉ c :: piece :=
        fun hmem => (List.mem_cons.mp hmem).elim (fun heq => hc heq.symm) hp
      split at h
      · obtain rfl := List.mem_singleton.mp h
        exact hnot List.not_mem_nil
      · next first more hsplit =>
        obtain rfl | h := List.mem_cons.mp h
        · exact hnot (ih (hsplit ▸ List.mem_cons_self))
        · exact ih (hsplit ▸ List.mem_cons_of_mem _ h)

/-- A library that was put together by descriptions of classes whose own names have no point. -/
def Library.IsPlain (l : Library) : Prop :=
  ∃ name spaces specs, l = Library.build name spaces specs ∧ ∀ s ∈ specs, '.' ∉ s.name.toList

namespace Library

variable {l : Library} {s : ClassSpec} {c : NativeClass}

def segments (space : String) : List String :=
  ((Text.splitOn '.' space.toList).filter (!·.isEmpty)).map String.ofList

theorem no_point_of_mem_segments {space w : String} (h : w ∈ segments space) : '.' ∉ w.toList := by
  obtain ⟨piece, hpiece, rfl⟩ := List.mem_map.mp h
  rw [String.toList_ofList]
  exact Text.not_mem_splitOn (List.mem_filter.mp hpiece).1

theorem mem_of_findClass? {name : String} (h : l.findClass? name = some c) :
    c ∈ l.classes ∧ c.name = name :=
  ⟨List.mem_of_find?_eq_some h, by simpa using List.find?_some h⟩

theorem mem_addNamespace {space name : String} (h : name ∈ l.namespaces ∨ name ∈ spaces space) :
    name ∈ (l.addNamespace space).namespaces := by
  unfold addNamespace
  dsimp only
  generalize l.namespaces = known at h
  generalize spaces space = new at h
  induction new generalizing known with
  | nil => exact h.resolve_right List.not_mem_nil
  | cons w new ih =>
    refine ih _ ?_
    dsimp only
    obtain h | h := h
    · split
      · exact .inl h
      · exact .inl (List.mem_append_left _ h)
    · obtain rfl | h := List.mem_cons.mp h
      · left
        split
        · next hmem => exact List.contains_iff_mem.mp hmem
        · exact List.mem_append_right _ (List.mem_singleton_self _)
      · exact .inr h

theorem mem_addClass_namespaces {name : String} (h : name ∈ l.namespaces) :
    name ∈ (l.addClass s).namespaces := mem_addNamespace (.inl h)

theorem fullName_rooted (hs : '.' ∉ s.name.toList) :
    Rooted (· ∈ (l.addClass s).namespaces) s.fullName := by
  by_cases hspace : s.space.isEmpty = true
  · rw [ClassSpec.fullName, if_pos hspace, ← dotted_singleton s.name, ← List.nil_append [s.name]]
    exact .of_dotted nofun hs fun n hpos hle => absurd hpos (Nat.not_lt_of_le hle)
  · rw [ClassSpec.fullName, if_neg hspace, QualifiedName.text_eq]
    change Rooted _
      (dotted (((segments s.space).dropLast ++ [(segments s.space).getLastD ""]) ++ [s.name]))
    by_cases hnil : segments s.space = []
    · refine .of_dotted (by simp [hnil]) hs fun n hpos hle hwords => ?_
      simp only [hnil, List.dropLast_nil, List.getLastD_nil, List.nil_append,
        List.length_singleton] at hle hwords
      obtain rfl : n = 1 := by omega
      exact absurd rfl (hwords "" (by simp)).1
    · have hall : (segments s.space).dropLast ++ [(segments s.space).getLastD ""] = segments s.space := by
        rw [List.getLastD_eq_getLast?, List.getLast?_eq_some_getLast hnil, Option.getD_some,
          List.dropLast_append_getLast]
      rw [hall]
      refine .of_dotted (fun w => no_point_of_mem_segments) hs fun n hpos hle _ => ?_
      refine mem_addNamespace (.inr (List.mem_map.mpr ⟨n - 1, List.mem_range.mpr ?_, ?_⟩))
      · change n - 1 < (segments s.space).length
        omega
      · rw [show n - 1 + 1 = n by omega]
        rfl

theorem addClass_rooted (h : ∀ c ∈ l.classes, Rooted (· ∈ l.namespaces) c.name)
    (hs : '.' ∉ s.name.toList) :
    ∀ c ∈ (l.addClass s).classes, Rooted (· ∈ (l.addClass s).namespaces) c.name := by
  have hold {c : NativeClass} (hc : c ∈ l.classes) : Rooted (· ∈ (l.addClass s).namespaces) c.name :=
    (h c hc).mono fun _ => mem_addClass_namespaces
  intro c hc
  rw [addClass_classes] at hc
  split at hc
  · obtain ⟨d, hd, rfl⟩ := List.mem_map.mp hc
    have hname : (if d.name == s.fullName then extendClass s (described s) d else d).name = d.name := by
      split <;> rfl
    rw [hname]
    exact hold hd
  · obtain hc | hc := List.mem_append.mp hc
    · exact hold hc
    · rw [List.mem_singleton.mp hc]
      exact fullName_rooted hs

/-- The classes of a plain library are in its namespaces. -/
theorem IsPlain.rooted (h : l.IsPlain) : ∀ c ∈ l.classes, Rooted (· ∈ l.namespaces) c.name := by
  obtain ⟨name, spaces, specs, rfl, hspecs⟩ := h
  have hstart : ∀ c ∈ (spaces.foldl addNamespace (empty name)).classes,
      Rooted (· ∈ (spaces.foldl addNamespace (empty name)).namespaces) c.name := by
    rw [(build_classes name spaces).1]
    nofun
  unfold build
  generalize spaces.foldl addNamespace (empty name) = start at hstart
  induction specs generalizing start with
  | nil => exact hstart
  | cons s specs ih =>
    exact ih (fun s hs => hspecs s (List.mem_cons_of_mem _ hs)) _
      (addClass_rooted hstart (hspecs s List.mem_cons_self))

end Library

/-! ## Scripts -/

namespace Registration

variable {libraries : List Library} {globalUsings : List String} {script : Script} {s : Symbols}
  {reports : List SemanticError}

mutual

/-- The namespaces around a class, as far as the item declares them, are among those it declares. -/
theorem mem_spaces (outer : List Ident) (us : List UsingDirective) (item : Item) {c : PlacedClass}
    (hc : c ∈ item.classes outer us) : outer <+: c.space ∧ ∀ n, outer.length < n → n ≤ c.space.length →
      dotted ((c.space.map (·.name)).take n) ∈ spaces (outer.map (·.name)) item := by
  match item with
  | .type decl =>
    obtain rfl := List.mem_singleton.mp hc
    exact ⟨List.prefix_rfl, fun n hlt hle => absurd hlt (Nat.not_lt_of_le hle)⟩
  | .scope path inner items _ _ =>
    obtain ⟨hfront, hdeeper⟩ := mem_spacesOf (outer ++ path) (us ++ inner) items hc
    refine ⟨(List.prefix_append outer path).trans hfront, fun n hlt hle => ?_⟩
    rw [spaces, ← List.map_append]
    by_cases hn : n ≤ (outer ++ path).length
    · refine List.mem_append_left _ (List.mem_map.mpr ⟨n - 1, List.mem_range.mpr ?_, ?_⟩)
      · rw [List.length_map]
        omega
      · obtain ⟨more, hmore⟩ := hfront
        rw [show n - 1 + 1 = n by omega, ← List.map_take, ← List.map_take, ← hmore,
          List.take_append_of_le_length hn]
    · exact List.mem_append_right _ (hdeeper n (Nat.lt_of_not_le hn) hle)

theorem mem_spacesOf (outer : List Ident) (us : List UsingDirective) (items : List Item)
    {c : PlacedClass} (hc : c ∈ Item.classesOf outer us items) :
    outer <+: c.space ∧ ∀ n, outer.length < n → n ≤ c.space.length →
      dotted ((c.space.map (·.name)).take n) ∈ spacesOf (outer.map (·.name)) items := by
  match items with
  | [] => cases hc
  | item :: items =>
    obtain hc | hc := List.mem_append.mp hc
    · obtain ⟨hfront, hspaces⟩ := mem_spaces outer us item hc
      exact ⟨hfront, fun n hlt hle => List.mem_append_left _ (hspaces n hlt hle)⟩
    · obtain ⟨hfront, hspaces⟩ := mem_spacesOf outer us items hc
      exact ⟨hfront, fun n hlt hle => List.mem_append_right _ (hspaces n hlt hle)⟩

end

/-- A class that is named by words is in the namespaces that its script declares. -/
theorem classSymbol_rooted {c : PlacedClass} (hc : c ∈ script.classes) (hwords : c.Worded) :
    Rooted (· ∈ spacesOf [] script.items) (classSymbol c).name.text := by
  rw [QualifiedName.text_eq]
  refine .of_dotted (fun w hw => ?_) hwords.name.no_point fun n hpos hle _ => ?_
  · obtain ⟨i, hi, rfl⟩ := List.mem_map.mp hw
    exact (hwords.space i hi).no_point
  · exact (mem_spacesOf [] script.usings script.items hc).2 n hpos (by simpa [classSymbol] using hle)

/-- The class has what its declaration gives it, whatever its members are. -/
structure DeclaredBy (p : PlacedClass) (c : ClassSymbol) : Prop where
  name : c.name = (classSymbol p).name
  usings : c.usings = (classSymbol p).usings
  decl : c.decl = p.decl

/-- What symbols are made of: the namespaces of libraries and script, and classes of the script, each
at the place of its name. -/
structure MadeOf (libraries : List Library) (globalUsings : List String) (script : Script)
    (s : Symbols) : Prop where
  references : s.libraries = libraries
  namespaces : ∀ name, s.isNamespace name = true ↔
    (∃ l ∈ libraries, name ∈ l.namespaces) ∨ name ∈ spacesOf [] script.items
  usings : ∀ u ∈ s.globalUsings, u ∈ globalUsings
  places : ∀ (name : String) (i : Nat), s.places[name]? = some i → (classNames s)[i]? = some name
  declared : ∀ c ∈ s.classes.toList, ∃ p ∈ script.classes, DeclaredBy p c

theorem addClass_madeOf (h : MadeOf libraries globalUsings script s) {p : PlacedClass}
    (hp : p ∈ script.classes) : MadeOf libraries globalUsings script (addClass s (classSymbol p)) where
  references := h.references
  namespaces := h.namespaces
  usings := h.usings
  places name i hi := by
    have hnames : classNames (addClass s (classSymbol p)) =
        classNames s ++ [(classSymbol p).name.text] := by simp [classNames, addClass]
    rw [addClass, Std.HashMap.getElem?_insert] at hi
    rw [hnames]
    split at hi
    · next hname =>
      cases hi
      simp [classNames, eq_of_beq hname]
    · have hold := h.places name i hi
      rwa [List.getElem?_append_left (List.getElem?_eq_some_iff.mp hold).1]
  declared c hc := by
    simp only [addClass, Array.toList_push, List.mem_append, List.mem_singleton] at hc
    obtain hc | rfl := hc
    · exact h.declared c hc
    · exact ⟨p, hp, rfl, rfl, rfl⟩

theorem addClasses_madeOf (h : MadeOf libraries globalUsings script s) {placed : List PlacedClass}
    (hplaced : ∀ p ∈ placed, p ∈ script.classes) :
    MadeOf libraries globalUsings script (addClasses s placed).1 := by
  unfold addClasses
  generalize ([] : List SemanticError) = reports
  induction placed generalizing s reports with
  | nil => exact h
  | cons p placed ih =>
    obtain ⟨hp, hplaced⟩ := List.forall_mem_cons.mp hplaced
    rw [List.foldl_cons]
    cases he : classError? s (classSymbol p) with
    | some e => simpa [he] using ih h hplaced _
    | none => simpa [he] using ih (addClass_madeOf h hp) hplaced _

theorem addMembers_madeOf (h : MadeOf libraries globalUsings script s) (i : Nat) :
    MadeOf libraries globalUsings script (addMembers s reports i).1 where
  references := h.references
  namespaces := h.namespaces
  usings := h.usings
  places name j hj := by
    rw [addMembers_names]
    exact h.places name j hj
  declared c hc := by
    obtain ⟨j, hj⟩ := List.getElem?_of_mem hc
    rw [addMembers_classes, Array.getElem?_toList, Array.getElem?_setIfInBounds] at hj
    generalize hd : s.classes.getD i default = d at hj
    split at hj
    · split at hj
      · next hlt =>
        cases hj
        obtain ⟨p, hp, hname, husings, hdecl⟩ := h.declared d (by simp [← hd, hlt])
        exact ⟨p, hp, hname, husings, hdecl⟩
      · cases hj
    · exact h.declared c (List.mem_of_getElem? (Array.getElem?_toList ▸ hj))

theorem addAllMembers_madeOf (h : MadeOf libraries globalUsings script s) (reports : List SemanticError)
    (is : List Nat) : MadeOf libraries globalUsings script (addAllMembers s reports is).1 := by
  induction is generalizing s reports with
  | nil => exact h
  | cons i is ih =>
    rw [addAllMembers_cons]
    exact ih (addMembers_madeOf h i) _

theorem contains_start (libraries : List Library) (name : String) :
    (Symbols.start libraries).namespaces.contains name = true ↔
      ∃ l ∈ libraries, name ∈ l.namespaces := by
  have hfold (known : Std.HashSet String) :
      (libraries.foldl (fun known l => known.insertMany l.namespaces) known).contains name = true ↔
        known.contains name = true ∨ ∃ l ∈ libraries, name ∈ l.namespaces := by
    induction libraries generalizing known with
    | nil => simp
    | cons l libraries ih =>
      rw [List.foldl_cons, ih, Std.HashSet.contains_insertMany_list]
      simp [or_assoc]
  exact (hfold ∅).trans (by simp)

/-- The symbols of every script are made of what is declared. -/
theorem ofScript_madeOf (libraries : List Library) (globalUsings : List String) (script : Script) :
    MadeOf libraries globalUsings script (ofScript libraries globalUsings script).symbols := by
  change MadeOf _ _ _ (addAllMembers (addClasses _ script.classes).1 _ _).1
  refine addAllMembers_madeOf (addClasses_madeOf ?_ fun _ => id) _ _
  refine ⟨rfl, fun name => ?_, fun u hu => ?_, fun name i hi => ?_, by simp [Symbols.start]⟩
  · change (Std.HashSet.insertMany _ _).contains name = true ↔ _
    rw [Std.HashSet.contains_insertMany_list, Bool.or_eq_true, contains_start, List.contains_iff_mem]
  · change u ∈ (List.partition _ globalUsings).1.eraseDups at hu
    rw [List.partition_eq_filter_filter, List.mem_eraseDups] at hu
    exact (List.mem_filter.mp hu).1
  · simp [Symbols.start] at hi

/-! ## Classes that are found -/

namespace MadeOf

variable {name : String} {r : ClassRef}

theorem class_of_place (h : MadeOf libraries globalUsings script s) {i : Nat}
    (hi : s.places[name]? = some i) : ∃ c, s.classes[i]? = some c ∧ c.name.text = name := by
  have hplace := h.places name i hi
  rw [classNames, List.getElem?_map, Array.getElem?_toList] at hplace
  exact Option.map_eq_some_iff.mp hplace

/-- A class is found by its full name only. -/
theorem className (h : MadeOf libraries globalUsings script s) (hfound : s.findClass? name = some r) :
    s.className r = name := by
  unfold Symbols.findClass? at hfound
  split at hfound
  · next i hi =>
    cases hfound
    obtain ⟨c, hc, rfl⟩ := h.class_of_place hi
    simp [Symbols.className, Array.getD_eq_getD_getElem?, hc]
  · obtain ⟨c, hc, rfl⟩ := Option.map_eq_some_iff.mp hfound
    obtain ⟨l, -, hl⟩ := List.exists_of_findSome?_eq_some hc
    exact (Library.mem_of_findClass? hl).2

/-- Where words name the classes of the script, and no library gave a class a name with a point, every
class that is found is in known namespaces. -/
theorem rooted (h : MadeOf libraries globalUsings script s) (hplain : ∀ l ∈ libraries, l.IsPlain)
    (hwords : ∀ c ∈ script.classes, c.Worded) (hfound : s.findClass? name = some r) :
    Rooted (s.isNamespace · = true) name := by
  unfold Symbols.findClass? at hfound
  split at hfound
  · next i hi =>
    obtain ⟨c, hc, rfl⟩ := h.class_of_place hi
    obtain ⟨p, hp, hname, -, -⟩ := h.declared c (List.mem_of_getElem? (Array.getElem?_toList.trans hc))
    rw [hname]
    refine (classSymbol_rooted hp (hwords p hp)).mono fun space hspace => ?_
    exact (h.namespaces space).mpr (.inr hspace)
  · obtain ⟨c, hc, rfl⟩ := Option.map_eq_some_iff.mp hfound
    obtain ⟨l, hl, hcl⟩ := List.exists_of_findSome?_eq_some hc
    obtain ⟨hmem, rfl⟩ := Library.mem_of_findClass? hcl
    refine ((hplain l (h.references ▸ hl)).rooted c hmem).mono fun space hspace => ?_
    exact (h.namespaces space).mpr (.inl ⟨l, h.references ▸ hl, hspace⟩)

end MadeOf

theorem contains_addClasses {name : String} (placed : List PlacedClass)
    (h : s.places.contains name = true ∨ ∃ p ∈ placed, (classSymbol p).name.text = name) :
    (addClasses s placed).1.places.contains name = true := by
  unfold addClasses
  generalize ([] : List SemanticError) = reports
  induction placed generalizing s reports with
  | nil => simpa using h
  | cons p placed ih =>
    have hkept {s' : Symbols} (hold : s.places.contains name = true → s'.places.contains name = true)
        (hp : s'.places.contains (classSymbol p).name.text = true) :
        s'.places.contains name = true ∨ ∃ q ∈ placed, (classSymbol q).name.text = name := by
      obtain h | ⟨q, hq, rfl⟩ := h
      · exact .inl (hold h)
      · obtain rfl | hq := List.mem_cons.mp hq
        · exact .inl hp
        · exact .inr ⟨q, hq, rfl⟩
    rw [List.foldl_cons]
    cases he : classError? s (classSymbol p) with
    | some e =>
      have hp : s.places.contains (classSymbol p).name.text = true := by
        unfold classError? at he
        split at he
        · assumption
        · cases he
      simpa only [he] using ih (hkept id hp) (e :: reports)
    | none =>
      have hadded := ih (s := addClass s (classSymbol p)) (hkept (fun hold => ?_) ?_) reports
      · simpa only [he] using hadded
      all_goals simp_all [addClass]

theorem addAllMembers_places (s : Symbols) (reports : List SemanticError) (is : List Nat) :
    (addAllMembers s reports is).1.places = s.places := by
  induction is generalizing s reports with
  | nil => rfl
  | cons i is ih =>
    rw [addAllMembers_cons, ih]
    rfl

/-- The place of every name that is declared is known, even if its class was left out for another one
of the same name. -/
theorem ofScript_places (libraries : List Library) (globalUsings : List String) {name : String}
    (hname : ∃ p ∈ script.classes, (classSymbol p).name.text = name) :
    ∃ i, (ofScript libraries globalUsings script).symbols.places[name]? = some i := by
  refine Option.isSome_iff_exists.mp (Std.HashMap.contains_eq_isSome_getElem?.symm.trans ?_)
  change (addAllMembers (addClasses _ script.classes).1 _ _).1.places.contains name = true
  rw [addAllMembers_places]
  exact contains_addClasses script.classes (.inr hname)

/-- A class of every name that is declared. -/
theorem ofScript_exists (libraries : List Library) (globalUsings : List String) {name : String}
    (hname : ∃ p ∈ script.classes, (classSymbol p).name.text = name) :
    ∃ c ∈ (ofScript libraries globalUsings script).symbols.classes.toList, c.name.text = name ∧
      ∃ p ∈ script.classes, DeclaredBy p c := by
  have h := ofScript_madeOf libraries globalUsings script
  obtain ⟨i, hi⟩ := ofScript_places libraries globalUsings hname
  obtain ⟨c, hc, htext⟩ := h.class_of_place hi
  have hmem := List.mem_of_getElem? (Array.getElem?_toList.trans hc)
  exact ⟨c, hmem, htext, h.declared c hmem⟩

/-- Whether the script or a library declares a class of this full name. -/
def declaresClass (libraries : List Library) (script : Script) (name : String) : Bool :=
  script.classes.any (fun p => (classSymbol p).name.text == name) ||
    libraries.any fun l => (l.findClass? name).isSome

/-- Whether the script or a library declares a namespace of this full name. -/
def declaresSpace (libraries : List Library) (script : Script) (name : String) : Bool :=
  (spacesOf [] script.items).contains name || libraries.any (·.namespaces.contains name)

theorem ofScript_findClass?_eq_none {name : String} :
    (ofScript libraries globalUsings script).symbols.findClass? name = none ↔
      declaresClass libraries script name = false := by
  have h := ofScript_madeOf libraries globalUsings script
  rw [declaresClass, Bool.or_eq_false_iff, List.any_eq_false, List.any_eq_false, Symbols.findClass?,
    h.references]
  cases hi : (ofScript libraries globalUsings script).symbols.places[name]? with
  | some i =>
    obtain ⟨c, hc, rfl⟩ := h.class_of_place hi
    obtain ⟨p, hp, hname, -, -⟩ := h.declared c (List.mem_of_getElem? (Array.getElem?_toList.trans hc))
    simp only [reduceCtorEq, beq_iff_eq, false_iff, not_and]
    exact fun hnone => absurd (congrArg QualifiedName.text hname.symm) (hnone p hp)
  | none =>
    have hnone : ∀ p ∈ script.classes, ¬ ((classSymbol p).name.text == name) = true := by
      intro p hp hname
      obtain ⟨i, hplace⟩ := ofScript_places libraries globalUsings ⟨p, hp, eq_of_beq hname⟩
      rw [hi] at hplace
      cases hplace
    dsimp only
    rw [Option.map_eq_none_iff, List.findSome?_eq_none_iff]
    simp only [Bool.not_eq_true, Option.isSome_eq_false_iff, Option.isNone_iff_eq_none]
    exact ⟨fun hlibraries => ⟨by simpa using hnone, hlibraries⟩, And.right⟩

theorem ofScript_isNamespace (libraries : List Library) (globalUsings : List String) (script : Script)
    (name : String) : (ofScript libraries globalUsings script).symbols.isNamespace name =
      declaresSpace libraries script name := by
  rw [declaresSpace, Bool.eq_iff_iff, (ofScript_madeOf libraries globalUsings script).namespaces,
    Bool.or_eq_true, List.any_eq_true, or_comm]
  simp

/-- A class without declarations has nothing that can be named. -/
theorem ofScript_bare {c : ClassSymbol}
    (hc : c ∈ (ofScript libraries globalUsings script).symbols.classes.toList)
    (hbare : c.decl.members = []) (name : String) : c.field? name = none ∧ c.hasMethod name = false := by
  refine ofScript_made (P := fun c => c.decl.members = [] → c.field? name = none ∧ c.hasMethod name = false)
    (fun s c hbare => ?_) libraries globalUsings script c hc hbare
  have hdeclared : declaredMembers s c = .start s.staticCount := by
    rw [declaredMembers, show c.decl.members = [] from hbare]
    rfl
  have hstart : (constructed c (declaredMembers s c)).fields = #[] ∧
      ∀ f ∈ (constructed c (declaredMembers s c)).methods.toList, f.isInvocable = false := by
    rw [hdeclared, constructed]
    split
    · exact ⟨rfl, by simp [Members.start]⟩
    · refine ⟨rfl, fun f hf => ?_⟩
      obtain rfl : f = _ := by simpa [Members.addMethod, Members.start] using hf
      rfl
  constructor
  · rw [ClassSymbol.field?, show _ = _ from members_fields s c, hstart.1]
    rfl
  · rw [ClassSymbol.hasMethod, Array.any_eq_false']
    intro f hf
    have hmethod : f.isInvocable = false := by
      obtain hf | rfl := mem_members_methods (s := s) (c := c) (Array.mem_toList_iff.mpr hf)
      · exact hstart.2 f hf
      · rfl
    simp [hmethod]

end Registration
end ClassScript
