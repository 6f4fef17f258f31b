import ClassScript.Proofs.Spelling.Tree

/-!
Outlines: what a tree is written as, with the places of its nodes.

An outline keeps the nodes of a tree around the glyphs that they are written as, each with its span.
`Covers E` lays outlines over tokens: the glyphs spell them in order, and every node has the relation
`E` between its span and the tokens that are its own. So it tells both that nothing is lost and that
the places are right.

The tokens of a node stand in source order, one behind the other, on one line each behind the end of
the one before. The region of such tokens starts with the first of them, and if they are on one line it
reaches to the end of the last one. Merging the region of the tokens that come first with the region of
those that come last gives that of all of them, whatever lies between.
-/

namespace ClassScript

/-! ## Regions of tokens -/

/-- The column at which a token ends, if it is on one line. -/
def Token.stop (t : Token) : Nat := t.span.col.toNat + t.span.len.toNat

/-- `u` stands on a later line than `t`, or on the same one behind its end. -/
def Token.Precedes (t u : Token) : Prop :=
  t.span.line < u.span.line ∨ t.span.line = u.span.line ∧ t.stop ≤ u.span.col.toNat

/-- Tokens in source order, the columns of which fit a word. -/
structure Token.Ordered (ts : List Token) : Prop where
  precedes : ts.Pairwise Token.Precedes
  fits : ∀ t ∈ ts, t.stop < UInt32.size

theorem Token.Ordered.sublist {ts us : List Token} (h : Ordered ts) (hsub : us.Sublist ts) :
    Ordered us :=
  ⟨h.precedes.sublist hsub, fun t ht => h.fits t (hsub.subset ht)⟩

/-- No token starts before the first one. -/
theorem Token.Ordered.first_le {t u : Token} {ts : List Token} (h : Ordered (t :: ts))
    (hu : u ∈ t :: ts) :
    t.span.line ≤ u.span.line ∧ (t.span.line = u.span.line → t.span.col ≤ u.span.col) := by
  obtain rfl | hu := List.mem_cons.mp hu
  · exact ⟨UInt32.le_refl _, fun _ => UInt32.le_refl _⟩
  · obtain hline | ⟨hline, hcol⟩ := List.rel_of_pairwise_cons h.precedes hu
    · exact ⟨UInt32.le_of_lt hline, fun heq => absurd (heq ▸ hline) (UInt32.lt_irrefl _)⟩
    · refine ⟨hline ▸ UInt32.le_refl _, fun _ => UInt32.le_iff_toNat_le.mpr ?_⟩
      exact Nat.le_trans (Nat.le_add_right _ _) hcol

/-- No token on the line of the last one ends behind it. -/
theorem Token.Ordered.stop_le_last {t u : Token} {ts : List Token} (h : Ordered (ts ++ [t]))
    (hu : u ∈ ts ++ [t]) (hline : u.span.line = t.span.line) : u.stop ≤ t.stop := by
  obtain hu | hu := List.mem_append.mp hu
  · obtain hlt | ⟨-, hcol⟩ := (List.pairwise_append.mp h.precedes).2.2 u hu t (List.mem_singleton_self t)
    · exact absurd (hline ▸ hlt) (UInt32.lt_irrefl _)
    · exact Nat.le_trans hcol (Nat.le_add_right _ _)
  · exact Nat.le_of_eq (congrArg Token.stop (List.mem_singleton.mp hu))

namespace Span

/-- The span starts with the first of the tokens, and if all are on one line, it reaches to the end of
the last one. -/
structure Spans (s : Span) (ts : List Token) : Prop where
  line : ∀ t ∈ ts.head?, s.line = t.span.line
  col : ∀ t ∈ ts.head?, s.col = t.span.col
  stop : (∀ t ∈ ts, t.span.line = s.line) → ∀ t ∈ ts.getLast?, s.col.toNat + s.len.toNat = t.stop

theorem spans_nil (s : Span) : s.Spans [] := ⟨nofun, nofun, nofun⟩

theorem spans_singleton (t : Token) : t.span.Spans [t] where
  line := by simp
  col := by simp
  stop _ u hu := by
    obtain rfl := Option.mem_some.mp hu
    rfl

/-! ### Merging -/

theorem merge_of_not_before {s t : Span} (h : t.before s = false) : s.merge t =
    if s.line = t.line then ⟨s.line, s.col, max (s.col + s.len) (t.col + t.len) - s.col⟩
    else ⟨s.line, s.col, s.len + t.len⟩ := by
  simp [merge, h]

/-- What starts with a later token does not start before what starts with the first one. -/
theorem not_before {s t : Span} (hline : s.line ≤ t.line)
    (hcol : s.line = t.line → s.col ≤ t.col) : t.before s = false := by
  simp only [before, Bool.or_eq_false_iff, Bool.and_eq_false_iff, decide_eq_false_iff_not, beq_eq_false_iff_ne]
  refine ⟨UInt32.not_lt.mpr hline, ?_⟩
  by_cases heq : s.line = t.line
  · exact .inr (UInt32.not_lt.mpr (hcol heq))
  · exact .inl (Ne.symm heq)

/-- On one line, the later end is reached. -/
theorem merge_stop {s t : Span} {m n : Nat} (hs : s.col.toNat + s.len.toNat = m)
    (ht : t.col.toNat + t.len.toNat = n) (hcol : s.col ≤ t.col) (hle : m ≤ n) (hfits : n < UInt32.size) :
    s.col.toNat + (max (s.col + s.len) (t.col + t.len) - s.col).toNat = n := by
  have hs' : (s.col + s.len).toNat = m := by
    rw [UInt32.toNat_add, hs]
    exact Nat.mod_eq_of_lt (Nat.lt_of_le_of_lt hle hfits)
  have ht' : (t.col + t.len).toNat = n := by
    rw [UInt32.toNat_add, ht]
    exact Nat.mod_eq_of_lt hfits
  have hmax : max (s.col + s.len) (t.col + t.len) = t.col + t.len :=
    if_pos (UInt32.le_iff_toNat_le.mpr (by omega))
  have hcol := UInt32.le_iff_toNat_le.mp hcol
  rw [hmax, UInt32.toNat_sub_of_le _ _ (UInt32.le_iff_toNat_le.mpr (by omega)), ht']
  omega

variable {s t : Span} {ts us vs : List Token}

/-- The region from the first tokens to the last ones. -/
theorem Spans.merge (h : Token.Ordered ts) (hfirst : us <+: ts) (hlast : vs <:+ ts) (hus : us ≠ [])
    (hvs : vs ≠ []) (hs : s.Spans us) (ht : t.Spans vs) : (s.merge t).Spans ts := by
  obtain ⟨f, us, rfl⟩ := List.exists_cons_of_ne_nil hus
  obtain ⟨g, vs', hg⟩ := List.exists_cons_of_ne_nil hvs
  obtain ⟨vs, l, rfl⟩ := List.eq_nil_or_concat vs |>.resolve_left hvs
  rw [List.concat_eq_append] at *
  have hvsmem : ∀ u ∈ vs ++ [l], u ∈ ts := fun u hu => hlast.subset hu
  have hgmem : g ∈ ts := hvsmem g (hg ▸ List.mem_cons_self)
  have htline : t.line = g.span.line := ht.line g (by rw [hg]; rfl)
  have htcol : t.col = g.span.col := ht.col g (by rw [hg]; rfl)
  have hsline : s.line = f.span.line := hs.line f rfl
  have hscol : s.col = f.span.col := hs.col f rfl
  obtain ⟨rest, rfl⟩ := hfirst
  obtain ⟨front, hfront⟩ := hlast
  rw [← List.append_assoc] at hfront
  obtain ⟨hline, hcol⟩ := h.first_le hgmem
  rw [merge_of_not_before (not_before (by rwa [hsline, htline])
    fun heq => by rw [hscol, htcol]; exact hcol (by rw [← hsline, heq, htline]))]
  constructor
  · rintro _ ⟨⟩
    split <;> exact hsline
  · rintro _ ⟨⟩
    split <;> exact hscol
  · intro hall u hu
    have hall (u : Token) (hu : u ∈ f :: us ++ rest) : u.span.line = s.line := by
      have hu := hall u hu
      split at hu <;> exact hu
    obtain rfl : l = u := by simpa [← hfront] using hu
    have heq : s.line = t.line := by rw [htline, hall g hgmem]
    rw [if_pos heq]
    obtain ⟨m, hm⟩ : ∃ m, (f :: us).getLast? = some m := ⟨_, List.getLast?_eq_some_getLast hus⟩
    have hmmem : m ∈ f :: us ++ rest := List.mem_append_left _ (List.mem_of_getLast? hm)
    have hlmem : l ∈ f :: us ++ rest := hfront ▸ List.mem_append_right _ (List.mem_singleton_self l)
    have hsstop := hs.stop (fun u hu => hall u (List.mem_append_left _ hu)) m hm
    have htstop := ht.stop (fun u hu => by rw [hall u (hvsmem u hu), heq]) l (by simp)
    have hcols : s.col ≤ t.col := by
      rw [hscol, htcol]
      exact hcol (by rw [← hsline, heq, htline])
    have hle : m.stop ≤ l.stop := by
      rw [← hfront] at h hmmem
      exact h.stop_le_last hmmem (by rw [hall m (hfront ▸ hmmem), hall l hlmem])
    have hmerge := merge_stop hsstop htstop hcols hle (h.fits l hlmem)
    exact hmerge

end Span

/-! ## Outlines -/

inductive Outline where
  | glyph (g : Glyph)
  | node (span : Span) (parts : List Outline)

namespace Outline

/-- A name, a keyword or a symbol that is no node. -/
def text (t : String) : Outline := .glyph (.text t)

mutual

def glyphs : Outline → List Glyph
  | glyph g => [g]
  | node _ parts => glyphsOf parts

def glyphsOf : List Outline → List Glyph
  | [] => []
  | o :: os => o.glyphs ++ glyphsOf os

end

@[simp] theorem glyphs_text (t : String) : (text t).glyphs = [.text t] := by
  rw [text, glyphs]

@[simp] theorem glyphsOf_append (os os' : List Outline) :
    glyphsOf (os ++ os') = glyphsOf os ++ glyphsOf os' := by
  induction os with
  | nil => rfl
  | cons o os ih => simp [glyphsOf, ih]

end Outline

inductive Covers (E : Span → List Token → Prop) : List Outline → List Token → Prop
  | nil : Covers E [] []
  | glyph {g : Glyph} {os : List Outline} {ts ts' : List Token} (head : g.Spelled ts)
    (tail : Covers E os ts') : Covers E (.glyph g :: os) (ts ++ ts')
  | node {span : Span} {parts os : List Outline} {ts ts' : List Token} (extent : E span ts)
    (inner : Covers E parts ts) (tail : Covers E os ts') : Covers E (.node span parts :: os) (ts ++ ts')

namespace Covers

variable {E E' : Span → List Token → Prop} {os os' : List Outline} {ts ts' : List Token}

theorem append (h : Covers E os ts) (h' : Covers E os' ts') : Covers E (os ++ os') (ts ++ ts') := by
  induction h with
  | nil => exact h'
  | glyph head _ ih => simpa only [List.cons_append, List.append_assoc] using glyph head ih
  | node extent inner _ _ ih => simpa only [List.cons_append, List.append_assoc] using node extent inner ih

theorem singleton {g : Glyph} (h : g.Spelled ts) : Covers E [.glyph g] ts := by
  simpa only [List.append_nil] using glyph h nil

theorem text {t : Token} {text : String} (h : t.Spells text) : Covers E [.text text] [t] :=
  singleton (.text h)

/-- A node over the tokens of its parts. -/
theorem within {span : Span} (h : Covers E os ts) (hspan : E span ts) : Covers E [.node span os] ts := by
  simpa only [List.append_nil] using node hspan h nil

/-- What is laid over tokens is spelled by them. -/
theorem spelled (h : Covers E os ts) : Spelled (Outline.glyphsOf os) ts := by
  induction h with
  | nil => exact .nil
  | glyph head _ ih => exact .cons head ih
  | node _ _ _ hinner htail =>
    rw [Outline.glyphsOf, Outline.glyphs]
    exact hinner.append htail

/-- Relations between spans and tokens may be exchanged, looking only at a part of the tokens. -/
theorem mono (h : Covers E os ts) (hE : ∀ span us, us <:+: ts → E span us → E' span us) :
    Covers E' os ts := by
  induction h with
  | nil => exact .nil
  | glyph head _ ih =>
    exact .glyph head (ih fun span us hus => hE span us (hus.trans (List.suffix_append _ _).isInfix))
  | @node _ _ _ ts ts' extent _ _ hinner htail =>
    have hhead {us : List Token} (hus : us <:+: ts) : us <:+: ts ++ ts' :=
      hus.trans (List.prefix_append ts ts').isInfix
    refine .node (hE _ _ (hhead List.infix_rfl) extent) (hinner fun span us hus => hE span us (hhead hus)) ?_
    exact htail fun span us hus => hE span us (hus.trans (List.suffix_append ts ts').isInfix)

end Covers

/-! ## Nodes over ordered tokens -/

/-- The region of these tokens, if they are in source order. -/
def Span.Measures (span : Span) (ts : List Token) : Prop := Token.Ordered ts → span.Spans ts

/-- Outlines over tokens, right where the tokens are in source order. -/
abbrev Outlined : List Outline → List Token → Prop := Covers Span.Measures

/-- In source order all places are right. -/
theorem Covers.exact {os : List Outline} {ts : List Token} (h : Outlined os ts) (hts : Token.Ordered ts) :
    Covers Span.Spans os ts :=
  h.mono fun _ _ hus hspan => hspan (hts.sublist hus.sublist)

/-- Outlines over at least one token. -/
structure Filled (os : List Outline) (ts : List Token) : Prop where
  nonempty : ts ≠ []
  covers : Outlined os ts

section

variable {os os' : List Outline} {s t : Span} {ts us vs : List Token}

theorem Filled.text {t : Token} {text : String} (h : t.Spells text) : Filled [.text text] [t] :=
  ⟨List.cons_ne_nil t [], .text h⟩

theorem Filled.append (h : Filled os us) (h' : Outlined os' vs) : Filled (os ++ os') (us ++ vs) :=
  ⟨List.append_ne_nil_of_left_ne_nil h.nonempty vs, h.covers.append h'⟩

theorem Covers.appendFilled (h : Outlined os us) (h' : Filled os' vs) : Filled (os ++ os') (us ++ vs) :=
  ⟨List.append_ne_nil_of_right_ne_nil us h'.nonempty, h.append h'.covers⟩

/-- A node over the tokens of its parts. -/
theorem Filled.within (h : Filled os ts) (hspan : s.Measures ts) : Filled [.node s os] ts :=
  ⟨h.nonempty, h.covers.within hspan⟩

/-- The region of a node. -/
theorem Filled.measures (h : Filled [.node s os] ts) : s.Measures ts := by
  generalize hos : [Outline.node s os] = nodes at h
  cases h.covers with
  | node extent inner tail =>
    cases hos
    cases tail
    rwa [List.append_nil]
  | nil | glyph => cases hos

theorem Span.measures_singleton (t : Token) : t.span.Measures [t] := fun _ => spans_singleton t

theorem Span.measures_nil (s : Span) : s.Measures [] := fun _ => s.spans_nil

/-- From the first tokens to the last ones, and what lies between. -/
theorem Span.Measures.merge (hs : s.Measures us) (ht : t.Measures vs) (hus : us ≠ []) (hvs : vs ≠ [])
    (hfirst : us <+: ts) (hlast : vs <:+ ts) : (s.merge t).Measures ts := fun h =>
  Spans.merge h hfirst hlast hus hvs (hs (h.sublist hfirst.sublist)) (ht (h.sublist hlast.sublist))

/-- A place grows to the region of the token that stands there. -/
theorem Span.measures_merge_point (t : Token) :
    ((Span.point t.span.line t.span.col).merge t.span).Measures [t] := by
  intro h
  have hfits := h.fits t (List.mem_singleton_self t)
  have hstop := merge_stop (s := .point t.span.line t.span.col) (t := t.span) rfl rfl (UInt32.le_refl _)
    (Nat.add_le_add_left (Nat.zero_le _) _) hfits
  have hbefore : t.span.before (point t.span.line t.span.col) = false :=
    not_before (UInt32.le_refl _) fun _ => UInt32.le_refl _
  have hline : (point t.span.line t.span.col).line = t.span.line := rfl
  rw [merge_of_not_before hbefore, if_pos hline]
  refine ⟨by simp [point], by simp [point], fun _ u hu => ?_⟩
  obtain rfl : t = u := by simpa using hu
  exact hstop

end

end ClassScript
