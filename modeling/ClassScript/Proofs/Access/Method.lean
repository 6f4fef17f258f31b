import ClassScript.Proofs.Access.Expression
import ClassScript.Proofs.Layout.Module

/-!
What the code of statements and methods reaches for.

The jumps of statements reach for nothing, so the code of a statement is granted as that of its
expressions is. Initializers of fields are compiled without a receiver; what is granted to them is
granted to the constructors that they are put in front of.
-/

namespace ClassScript

open Code (Instruction)
open Compile

namespace Layout

open Flow Fragment

variable {T : Tables} {site : Site} {locals : LocalScope} {is js : Asm} {F G : Fragment}

/-! ## Pieces -/

def GrantsPieces (site : Site) (F : Fragment) : Prop := ∀ i, Piece.op i ∈ F → site.Grants i

@[simp] theorem grantsPieces_nil : GrantsPieces site [] := nofun

@[simp] theorem grantsPieces_op {i : Instruction} :
    GrantsPieces site (.op i :: F) ↔ site.Grants i ∧ GrantsPieces site F := by
  simp [GrantsPieces]

@[simp] theorem grantsPieces_leave : GrantsPieces site (.leave :: F) ↔ GrantsPieces site F := by
  simp [GrantsPieces]

@[simp] theorem grantsPieces_again : GrantsPieces site (.again :: F) ↔ GrantsPieces site F := by
  simp [GrantsPieces]

@[simp] theorem grantsPieces_append :
    GrantsPieces site (F ++ G) ↔ GrantsPieces site F ∧ GrantsPieces site G := by
  simp [GrantsPieces, or_imp, forall_and]

@[simp] theorem grantsPieces_ops : GrantsPieces site (ops is) ↔ site.GrantsAll is := by
  simp [GrantsPieces, Site.GrantsAll, ops]

/-- Jumps of statements reach for nothing. -/
theorem grants_jump {op : Opcode} (h : op.isReaching = false) (n : Nat) : site.Grants (.unary op n) :=
  Site.grants_of_not_reaching h

theorem GrantsPieces.forward (h : GrantsPieces site F) : GrantsPieces site F.forward := by
  induction F with
  | nil => exact grantsPieces_nil
  | cons x F ih =>
    cases x with
    | op i => exact grantsPieces_op.mpr ⟨(grantsPieces_op.mp h).1, ih (grantsPieces_op.mp h).2⟩
    | leave => exact grantsPieces_leave.mpr (ih (grantsPieces_leave.mp h))
    | again => exact grantsPieces_op.mpr ⟨grants_jump rfl _, ih (grantsPieces_again.mp h)⟩

theorem GrantsPieces.closed (h : GrantsPieces site F) (o : Nat) : site.GrantsAll (Fragment.closed o F) := by
  induction F generalizing o with
  | nil => exact Site.grantsAll_nil
  | cons x F ih =>
    cases x with
    | op i => exact Site.grantsAll_cons.mpr ⟨(grantsPieces_op.mp h).1, ih (grantsPieces_op.mp h).2 _⟩
    | leave => exact Site.grantsAll_cons.mpr ⟨grants_jump rfl _, ih (grantsPieces_leave.mp h) _⟩
    | again => exact Site.grantsAll_cons.mpr ⟨grants_jump rfl _, ih (grantsPieces_again.mp h) _⟩

theorem grants_heading (h : site.GrantsAll is) (known : Option Bool) (distance : Nat) :
    site.GrantsAll (heading is known distance) := by
  unfold heading
  split
  · exact Site.grantsAll_nil
  · exact Site.grantsAll_append.mpr ⟨h, Site.grantsAll_single rfl⟩

theorem grants_returning (h : site.GrantsAll is) (known : Option Bool) :
    GrantsPieces site (returning is known) := by
  cases known with
  | none => simpa [returning, h] using grants_jump rfl 3
  | some b => cases b <;> simp [returning]

theorem grants_skip (wanted : Bool) (distance : Nat) : site.GrantsAll (skip wanted distance) := by
  unfold skip
  split
  · exact Site.grantsAll_single rfl
  · exact Site.grantsAll_nil

theorem grants_popping (p : Pushed) : site.GrantsAll (popping p) := by
  unfold popping
  split
  · exact Site.grantsAll_nil
  · exact Site.grantsAll_single rfl

/-! ## Parts of statements -/

section

variable (howner : site.owner = classAt site site.cls)

include howner

theorem Evaluates.granted {e : Expr} {type : ValueType} {p : Pushed}
    (h : Evaluates T site locals e type is p) : site.GrantsAll is := by
  cases h with
  | intro h hc => exact grants_coerces (h.granted howner) hc

theorem Tests.granted {e : Expr} {known : Option Bool} (h : Tests T site locals e is known) :
    site.GrantsAll is := by
  cases h with
  | known h => exact h.granted howner
  | unknown h => exact h.granted howner

theorem Heads.granted {e : Option Expr} {known : Option Bool} (h : Heads T site locals e is known) :
    site.GrantsAll is := by
  cases h with
  | always => exact Site.grantsAll_nil
  | tested h => exact h.granted howner

theorem Acts.granted {e : Expr} (h : Acts T site locals e is) : site.GrantsAll is := by
  cases h with
  | intro h hp =>
    exact Site.grantsAll_append.mpr ⟨(h.granted howner).materializes hp, grants_popping _⟩

theorem ActsAll.granted {es : List Expr} (h : ActsAll T site locals es is) : site.GrantsAll is := by
  induction h with
  | nil => exact Site.grantsAll_nil
  | cons h _ ih => exact Site.grantsAll_append.mpr ⟨h.granted howner, ih⟩

theorem Begins.granted {v : Declarator} {declared : Option ValueType} {type : ValueType}
    (h : Begins T site locals v declared is type) : site.GrantsAll is := by
  cases h with
  | given _ h => exact h.granted howner
  | default _ h => exact grants_pushes h
  | inferred _ h => exact h.granted howner

theorem Declares.granted {declared : Option ValueType} {vs : List Declarator} {locals' : LocalScope}
    (h : Declares T site declared vs locals is locals') : site.GrantsAll is := by
  induction h with
  | nil => exact Site.grantsAll_nil
  | cons h _ _ ih =>
    exact Site.grantsAll_append.mpr
      ⟨h.granted howner, Site.grantsAll_cons.mpr ⟨grants_jump rfl _, ih⟩⟩

theorem DeclaresAll.granted {d : VarDecl} {locals' : LocalScope}
    (h : DeclaresAll T site d locals is locals') : site.GrantsAll is := by
  cases h with
  | intro _ h => exact h.granted howner

theorem Starts.granted {first : Option ForInit} {locals' : LocalScope}
    (h : Starts T site locals first is locals') : site.GrantsAll is := by
  cases h with
  | none => exact Site.grantsAll_nil
  | decl h => exact h.granted howner
  | exprs h => exact h.granted howner

end

/-! ## Statements -/

mutual

/-- The code of a statement is granted to the method that it stands in. -/
theorem Lays.granted (howner : site.owner = classAt site site.cls) {live : Bool} {s : Stmt}
    {locals locals' : LocalScope} {F : Fragment} {x : Exits} {B : List Extent} :
    Lays T site live s locals F locals' x B → GrantsPieces site F
  | .block h => h.granted howner
  | .decl h => grantsPieces_ops.mpr (h.granted howner)
  | .expr h => grantsPieces_ops.mpr (h.granted howner)
  | .ifThen hc hy => by
    simpa [hc.granted howner, hy.granted howner] using grants_jump rfl _
  | .ifElse hc hy hn => by
    simpa [hc.granted howner, hy.granted howner, hn.granted howner, grants_skip]
      using grants_jump rfl _
  | .whileLoop hc hb => by
    refine grantsPieces_ops.mpr (GrantsPieces.closed ?_ 0)
    simpa [hb.granted howner] using grants_heading (hc.granted howner) _ _
  | .doLoop hb hc => by
    refine grantsPieces_ops.mpr (GrantsPieces.closed ?_ 0)
    exact grantsPieces_append.mpr
      ⟨(hb.granted howner).forward, grants_returning (hc.granted howner) _⟩
  | .forLoop hs hc hb hu => by
    refine grantsPieces_ops.mpr
      (Site.grantsAll_append.mpr ⟨hs.granted howner, GrantsPieces.closed ?_ 0⟩)
    simpa [(hb.granted howner).forward, hu.granted howner]
      using grants_heading (hc.granted howner) _ _
  | .ret _ h => by
    simpa [h.granted howner] using Site.grants_of_operandCount rfl
  | .retVoid _ => by
    simpa using Site.grants_of_operandCount rfl
  | .breakLoop => by simp
  | .continueLoop => by simp
  | .empty => grantsPieces_nil

theorem Nests.granted (howner : site.owner = classAt site site.cls) {live : Bool} {s : Stmt}
    {locals locals' : LocalScope} {F : Fragment} {x : Exits} {B : List Extent} :
    Nests T site live s locals F locals' x B → GrantsPieces site F
  | .kept _ h => h.granted howner
  | .dropped _ _ => grantsPieces_nil

theorem LaysAll.granted (howner : site.owner = classAt site site.cls) {live : Bool} {ss : List Stmt}
    {locals locals' : LocalScope} {F : Fragment} {x : Exits} {B : List Extent} :
    LaysAll T site live ss locals F locals' x B → GrantsPieces site F
  | .nil => grantsPieces_nil
  | .cons h hs => grantsPieces_append.mpr ⟨h.granted howner, hs.granted howner⟩

end

/-! ## Methods -/

theorem LaysBody.granted (howner : site.owner = classAt site site.cls) {b : Body}
    {locals' : LocalScope} {B : List Extent} (h : LaysBody T site locals b is locals' B) :
    site.GrantsAll is := by
  cases h with
  | falls h => simpa [grantsPieces_ops.mp (h.granted howner)] using Site.grants_of_operandCount rfl
  | returns h => exact grantsPieces_ops.mp (h.granted howner)
  | effect _ h => simpa [h.granted howner] using Site.grants_of_operandCount rfl
  | value _ h => simpa [h.granted howner] using Site.grants_of_operandCount rfl

variable {c : ClassSite} {f : MethodSymbol}

/-- What is granted without a receiver is granted with one. -/
theorem grants_of_initializer {isStatic : Bool} {i : Instruction}
    (hkind : f.kind = (initializerSite c isStatic).kind)
    (h : (initializerSite c isStatic).Grants i) : (methodSite c f).Grants i where
  call hop := by
    obtain ⟨g, hfound, hg, haccess, hreceiver⟩ := h.call hop
    exact ⟨g, hfound, hg, haccess, .inl (hreceiver.resolve_right (by simp [initializerSite]))⟩
  getField hop := by
    obtain ⟨g, hreceiver, -⟩ := h.getField hop
    cases hreceiver
  setField hop := by
    obtain ⟨g, ⟨hreceiver, -⟩, -⟩ := h.setField hop
    cases hreceiver
  getStatic hop := by
    obtain ⟨k, g, hmem, hstatic, hslot, haccess⟩ := h.getStatic hop
    exact ⟨k, g, hmem, hstatic, hslot, haccess⟩
  setStatic hop := by
    obtain ⟨k, g, ⟨hmem, hstatic, hslot, haccess⟩, hreadonly⟩ := h.setStatic hop
    exact ⟨k, g, ⟨hmem, hstatic, hslot, haccess⟩,
      fun hr => ⟨(hreadonly hr).1, hkind.trans (hreadonly hr).2⟩⟩

/-- The initializers of fields that a method may store to. -/
theorem Initializes.granted {isStatic : Bool} {store : Opcode} {fs : List FieldSymbol}
    (howner : c.owner = classAt (initializerSite c isStatic) c.cls)
    (hkind : f.kind = (initializerSite c isStatic).kind)
    (hstore : ∀ g ∈ fs, (methodSite c f).Grants (.unary store g.slot))
    (h : Initializes T (initializerSite c isStatic) store fs is) : (methodSite c f).GrantsAll is := by
  induction h with
  | nil => exact Site.grantsAll_nil
  | unset _ _ ih => exact ih fun g hg => hstore g (List.mem_cons_of_mem _ hg)
  | set _ h _ ih =>
    have hvalue := Evaluates.granted howner h
    refine Site.grantsAll_append.mpr ⟨fun i hi => grants_of_initializer hkind (hvalue i hi), ?_⟩
    exact Site.grantsAll_cons.mpr
      ⟨hstore _ List.mem_cons_self, ih fun g hg => hstore g (List.mem_cons_of_mem _ hg)⟩

/-- The code in front of the body of a method stores to the fields that its kind makes. -/
theorem Prologue.granted (howner : c.symbols.classes[c.cls]? = some c.owner) (hf : f.Sound)
    (h : Prologue T c f.kind is) : (methodSite c f).GrantsAll is := by
  have hclass (site : Site) (hs : site.symbols = c.symbols) : c.owner = classAt site c.cls := by
    rw [classAt, hs, Array.getD_eq_getD_getElem?, howner, Option.getD_some]
  cases hkind : f.kind with
  | method =>
    rw [hkind] at h
    obtain rfl : is = [] := h
    exact Site.grantsAll_nil
  | constructor =>
    rw [hkind] at h
    have hsite : f.kind = (initializerSite c false).kind := hkind
    refine Initializes.granted (hclass _ rfl) hsite (fun g hg => ?_) h
    obtain ⟨hmem, hinstance⟩ := List.mem_filter.mp hg
    refine ⟨nofun, nofun, fun _ => ⟨g, ⟨hf.constructor hkind, ?_, eq_of_beq hinstance, rfl⟩,
      fun _ => hkind⟩, nofun, nofun⟩
    exact hclass (methodSite c f) rfl ▸ Array.mem_toList_iff.mp hmem
  | typeInitializer =>
    rw [hkind] at h
    have hsite : f.kind = (initializerSite c true).kind := hkind
    refine Initializes.granted (hclass _ rfl) hsite (fun g hg => ?_) h
    obtain ⟨hmem, hstatic⟩ := List.mem_filter.mp hg
    refine ⟨nofun, nofun, nofun, nofun, fun _ => ⟨c.cls, g, ⟨?_, eq_of_beq hstatic, rfl, .inl rfl⟩,
      fun _ => ⟨rfl, hkind⟩⟩⟩
    exact hclass (methodSite c f) rfl ▸ Array.mem_toList_iff.mp hmem

/-- The code of a method is granted to it. -/
theorem LaysMethod.granted (howner : c.symbols.classes[c.cls]? = some c.owner) (hf : f.Sound)
    {B : List Extent} (h : LaysMethod T c f is locals B) : (methodSite c f).GrantsAll is := by
  have hclass : c.owner = classAt (methodSite c f) c.cls := by
    rw [classAt, Array.getD_eq_getD_getElem?]
    exact (congrArg (·.getD default) howner).symm
  cases h with
  | declared _ _ his hb =>
    exact Site.grantsAll_append.mpr ⟨his.granted howner hf, hb.granted hclass⟩
  | implied _ his =>
    exact Site.grantsAll_append.mpr ⟨his.granted howner hf, Site.grantsAll_single rfl⟩

end Layout
end ClassScript
