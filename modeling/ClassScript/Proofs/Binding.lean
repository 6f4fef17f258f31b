import ClassScript.Instance
import ClassScript.Proofs.Declarations
import ClassScript.Proofs.Dispatch

/-!
What a name and a signature bind.

The methods of a compiled class are those of its symbol, in the same order, so no two of them that
can be called from outside have one name and the same parameters: binding never has to choose.
-/

namespace ClassScript

open Compile Layout

/-- Of things of which no two have a property, one has it at most. -/
theorem countP_le_one {α : Type} {P : α → Bool} {as : List α}
    (h : as.Pairwise fun a b => ¬(P a = true ∧ P b = true)) : as.countP P ≤ 1 := by
  induction h with
  | nil => exact Nat.zero_le _
  | @cons a as hfirst _ ih =>
    by_cases ha : P a = true
    · have hnone : as.countP P = 0 := by
        rw [List.countP_eq_zero]
        exact fun b hb hPb => hfirst b hb ⟨ha, hPb⟩
      rw [List.countP_cons_of_pos ha, hnone]
    · rw [List.countP_cons_of_neg ha]
      exact ih

/-- What the symbols of two methods are kept apart by keeps their images apart. -/
theorem Layout.Compiled.pairwise {T : Tables} {c : ClassSite} {fs : List MethodSymbol}
    {gs : List MethodImage} (h : List.Forall₂ (Compiled T c) fs gs)
    (hapart : fs.Pairwise MethodSymbol.Apart) (name : String) (s : CallSignature) :
    gs.Pairwise fun g g' =>
      ¬(Instance.isBindable name s g = true ∧ Instance.isBindable name s g' = true) := by
  induction h with
  | nil => exact .nil
  | @cons f g fs gs hfg hrest ih =>
    obtain ⟨hfirst, hapart⟩ := List.pairwise_cons.mp hapart
    refine List.pairwise_cons.mpr ⟨fun g' hg' ⟨hbind, hbind'⟩ => ?_, ih hapart⟩
    obtain ⟨f', hf', hfg'⟩ : ∃ f' ∈ fs, Compiled T c f' g' := by
      obtain ⟨i, hi⟩ := List.getElem?_of_mem hg'
      obtain ⟨f', hf', hfg'⟩ := Flow.forall₂_getElem? hrest.flip hi
      exact ⟨f', List.mem_of_getElem? hf', hfg'⟩
    simp only [Instance.isBindable, Bool.and_eq_true, beq_iff_eq] at hbind hbind'
    obtain ⟨⟨⟨⟨⟨hkind, -⟩, -⟩, hname⟩, hparams⟩, -⟩ := hbind
    obtain ⟨⟨⟨⟨⟨hkind', -⟩, -⟩, hname'⟩, hparams'⟩, -⟩ := hbind'
    rw [hfg.kind] at hkind
    rw [hfg'.kind] at hkind'
    refine hfirst f' hf' ⟨hkind.trans hkind'.symm, fun _ => ?_, fun _ => ?_⟩
    · rw [← hfg.name, ← hfg'.name, hname, hname']
    · rw [← hfg.params, ← hfg'.params, hparams, hparams']

namespace Compilation
variable {name : String} {options : Options} {libraries : List Library} {script : Script} {m : Image}

theorem bindable_le_one (h : (Compilation.ofScript name options libraries script).image = some m)
    {k : ClassImage} (hk : k ∈ m.classes.toList) (method : String) (s : CallSignature) :
    k.methods.toList.countP (Instance.isBindable method s) ≤ 1 := by
  obtain ⟨i, hi⟩ := List.getElem?_of_mem hk
  obtain ⟨site, hsite, hcompiled⟩ := Flow.forall₂_getElem? (laid_of_compiled h).classes.flip hi
  obtain ⟨hc, -⟩ := Flow.of_getElem?_sites hsite
  have hapart := Registration.ofScript_apart libraries options.usings script site.owner
    (List.mem_of_getElem? (Array.getElem?_toList ▸ hc))
  exact countP_le_one (Compiled.pairwise hcompiled.methods hapart method s)

end Compilation

/-- Registration keeps its promises on every script, with errors or without, and in every image that
is compiled a name and a signature have one method at most. -/
theorem Registration.keeps_invariants (options : Options) (libraries : List Library)
    (script : Script) :
    (ofScript libraries options.usings script).symbols.Registered ∧
      ∀ name m, (Compilation.ofScript name options libraries script).image = some m →
        ∀ k ∈ m.classes.toList, ∀ method s,
          k.methods.toList.countP (Instance.isBindable method s) ≤ 1 :=
  ⟨ofScript_registered libraries options.usings script,
    fun _ _ h _ hk method s => Compilation.bindable_le_one h hk method s⟩

/-- The class of `public class T { public int M() => true.Pick(); }` has a method to bind. -/
theorem Registration.keeps_invariants_pick :
    ∃ m, (Compilation.ofScript "m" {} pickLibraries pickScript).image = some m ∧
      ∃ k ∈ m.classes.toList, k.methods.toList.countP (Instance.isBindable "M" ⟨[], .int⟩) ≤ 1 ∧
        k.methods.toList.countP (Instance.isBindable "M" ⟨[], .int⟩) = 1 := by
  have himage : (Compilation.ofScript "m" {} pickLibraries pickScript).image = some pickImage :=
    congrArg (·.image) (Compilation.ofScript_pickScript keywordClass_pick)
  obtain ⟨-, hbind⟩ := keeps_invariants {} pickLibraries pickScript
  refine ⟨pickImage, himage, _, List.mem_singleton.mpr rfl, ?_, by decide⟩
  exact hbind "m" pickImage himage _ (List.mem_singleton.mpr rfl) "M" ⟨[], .int⟩

end ClassScript
