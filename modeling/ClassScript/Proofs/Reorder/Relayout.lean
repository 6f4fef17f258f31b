import ClassScript.Proofs.Release.Method
import ClassScript.Proofs.Reorder.Module
import ClassScript.Proofs.Reorder.Relocation

/-!
The code of methods in two modules.

The code of an expression is determined in the second module, so it is the relocated code of the first
one. The same goes for statements, which are left in the same ways, and for methods: the same method of
both modules has one frame and code that differs in places only.
-/

namespace ClassScript

open Code (Instruction)
open Compile Layout
open Layout.Fragment

variable {ρ : Relocation} {is is' js js' ks ks' : Asm} {F F' G G' : Fragment}

/-! ## Pieces -/

namespace Relocation

inductive MapsPiece (ρ : Relocation) : Piece → Piece → Prop
  | op {i j : Instruction} (h : ρ.Maps i j) : ρ.MapsPiece (.op i) (.op j)
  | leave : ρ.MapsPiece .leave .leave
  | again : ρ.MapsPiece .again .again

abbrev MapsPieces (ρ : Relocation) : Fragment → Fragment → Prop := List.Forall₂ ρ.MapsPiece

namespace MapsPieces

theorem cons {x y : Piece} (h : ρ.MapsPiece x y) (h' : ρ.MapsPieces F G) :
    ρ.MapsPieces (x :: F) (y :: G) := List.Forall₂.cons h h'

theorem append (h : ρ.MapsPieces F F') (h' : ρ.MapsPieces G G') : ρ.MapsPieces (F ++ G) (F' ++ G') :=
  List.rel_append h h'

theorem ops (h : ρ.MapsAll is js) : ρ.MapsPieces (Fragment.ops is) (Fragment.ops js) := by
  induction h with
  | nil => exact .nil
  | cons h _ ih => exact .cons (.op h) ih

theorem of_ops (h : ρ.MapsPieces (Fragment.ops is) (Fragment.ops js)) : ρ.MapsAll is js := by
  induction is generalizing js with
  | nil =>
    cases js with
    | nil => exact .nil
    | cons => cases h
  | cons i is ih =>
    cases js with
    | nil => cases h
    | cons j js =>
      cases h with
      | cons hij h =>
        cases hij with
        | op hij => exact .cons hij (ih h)

theorem size (h : ρ.MapsPieces F G) : F.size = G.size := by
  induction h with
  | nil => rfl
  | cons hxy _ ih =>
    rw [size_cons, size_cons, ih]
    cases hxy with
    | op hij => rw [Piece.width_op, Piece.width_op, hij.width]
    | leave | again => rfl

theorem forward (h : ρ.MapsPieces F G) : ρ.MapsPieces F.forward G.forward := by
  induction h with
  | nil => exact .nil
  | cons hxy h ih =>
    cases hxy with
    | op hij => exact .cons (.op hij) ih
    | leave => exact .cons .leave ih
    | again =>
      rw [Fragment.forward, Fragment.forward, size h]
      exact .cons (.op (.same rfl)) ih

theorem returning (h : ρ.MapsAll is js) (known : Option Bool) :
    ρ.MapsPieces (returning is known) (returning js known) := by
  have hagain : ρ.MapsPieces [.again] [.again] := .cons .again .nil
  cases known with
  | none => exact (ops h).append (.cons (.op (.same rfl)) hagain)
  | some b =>
    cases b with
    | true => exact hagain
    | false => exact .nil

end MapsPieces

namespace MapsAll

theorem closed (h : ρ.MapsPieces F G) (o : Nat) : ρ.MapsAll (closed o F) (closed o G) := by
  induction h generalizing o with
  | nil => exact .nil
  | cons hxy h ih =>
    cases hxy with
    | op hij =>
      rw [Fragment.closed, Fragment.closed, hij.width]
      exact .cons hij (ih _)
    | leave =>
      rw [Fragment.closed, Fragment.closed, MapsPieces.size h]
      exact .cons (.same rfl) (ih _)
    | again => exact .cons (.same rfl) (ih _)

theorem heading (h : ρ.MapsAll is js) (known : Option Bool) (d : Nat) :
    ρ.MapsAll (heading is known d) (heading js known d) := by
  unfold Layout.heading
  split
  · exact .nil
  · exact h.append (.single rfl)

theorem skip (wanted : Bool) (d : Nat) : ρ.MapsAll (skip wanted d) (Layout.skip wanted d) := by
  cases wanted with
  | false => exact .nil
  | true => exact .single rfl

end MapsAll

end Relocation

/-- Two methods of one signature, with frames of one size and code that differs in places only. -/
structure MethodImage.Relocates (ρ : Relocation) (g g' : MethodImage) : Prop where
  outline : g.outline = g'.outline
  code : ∃ is js, Spells g.code is ∧ Spells g'.code js ∧ ρ.MapsAll is js

/-! ## Expressions -/

namespace Layout

variable {site site' : Site} {l l₁ l₂ : LocalScope} {p p' : Pushed}

section

variable (h : ρ.Joins site site') (hT : ρ.target.Distinct)

include h hT

theorem Values.maps {e e' : Expr} (he : e.placeless = e'.placeless) (hv : Values ρ.source site l e is p)
    (hv' : Values ρ.target site' l e' is' p') : ρ.MapsAll is is' ∧ p.Like p' := by
  obtain ⟨js, hmaps, hvalues⟩ := hv.relocated h he
  obtain ⟨rfl, hp⟩ := (hvalues.unique hT).1 _ _ hv'
  exact ⟨hmaps, hp⟩

theorem Means.maps {use : Use} {e e' : Expr} {m m' : Meaning} (he : e.placeless = e'.placeless)
    (hm : Means ρ.source site l use e is m) (hm' : Means ρ.target site' l use e' is' m') :
    ρ.MapsAll is is' ∧ ∃ n, m.Akin n ∧ n.Like m' := by
  obtain ⟨js, n, hmaps, hakin, hmeans⟩ := hm.relocated h he
  obtain ⟨rfl, hlike⟩ := hmeans.unique hT hm'
  exact ⟨hmaps, n, hakin, hlike⟩

theorem Evaluates.maps {e e' : Expr} {type : ValueType} (he : e.placeless = e'.placeless)
    (hv : Evaluates ρ.source site l e type is p) (hv' : Evaluates ρ.target site' l e' type is' p') :
    ρ.MapsAll is is' ∧ p.Like p' := by
  obtain ⟨hv, hc⟩ := hv
  obtain ⟨js, hmaps, hvalues⟩ := hv.relocated h he
  obtain ⟨js', hmaps', hcoerces⟩ := hc.relocated h hmaps
  have hevaluates : Evaluates ρ.target site' l e' type js' p := ⟨hvalues, hcoerces⟩
  obtain ⟨rfl, hp⟩ := hevaluates.unique hT hv'
  exact ⟨hmaps', hp⟩

theorem Acts.maps {e e' : Expr} (he : e.placeless = e'.placeless) (ha : Acts ρ.source site l e is)
    (ha' : Acts ρ.target site' l e' is') : ρ.MapsAll is is' := by
  obtain ⟨hm, hp⟩ := ha
  obtain ⟨js, n, hmaps, hakin, hmeans⟩ := hm.relocated h he
  obtain ⟨js', hmaps', hmat⟩ := hp.relocated h hakin
  have hacts : Acts ρ.target site' l e' _ := ⟨hmeans, hmat⟩
  obtain rfl := hacts.unique hT ha'
  refine (hmaps.append hmaps').append ?_
  unfold popping
  split
  · exact .nil
  · exact .plain rfl

/-! ## Parts of statements -/

theorem Tests.maps {e e' : Expr} {known known' : Option Bool} (he : e.placeless = e'.placeless)
    (ht : Tests ρ.source site l e is known) (ht' : Tests ρ.target site' l e' is' known') :
    ρ.MapsAll is is' ∧ known = known' := by
  cases ht with
  | known hv hb =>
    cases ht' with
    | known hv' hb' =>
      obtain ⟨hmaps, hp⟩ := hv.maps h hT he hv'
      cases hb.symm.trans (hp.constant.trans hb')
      exact ⟨hmaps, rfl⟩
    | unknown hv' hb' => exact absurd ((hv.maps h hT he hv').2.constant.symm.trans hb) (hb' _)
  | unknown hv hb =>
    cases ht' with
    | known hv' hb' => exact absurd ((hv.maps h hT he hv').2.constant.trans hb') (hb _)
    | unknown hv' => exact ⟨(hv.maps h hT he hv').1, rfl⟩

theorem Heads.maps {cond cond' : Option Expr} {known known' : Option Bool}
    (he : cond.map Expr.placeless = cond'.map Expr.placeless)
    (hc : Heads ρ.source site l cond is known) (hc' : Heads ρ.target site' l cond' is' known') :
    ρ.MapsAll is is' ∧ known = known' := by
  cases hc with
  | always =>
    cases hc' with
    | always => exact ⟨.nil, rfl⟩
    | tested => cases he
  | tested ht =>
    cases hc' with
    | always => cases he
    | tested ht' => exact ht.maps h hT (Option.some.inj he) ht'

theorem ActsAll.maps {es es' : List Expr} (he : Expr.placelessAll es = Expr.placelessAll es')
    (ha : ActsAll ρ.source site l es is) (ha' : ActsAll ρ.target site' l es' is') :
    ρ.MapsAll is is' := by
  induction ha generalizing es' is' with
  | nil =>
    obtain rfl := Expr.of_nil he
    cases ha'
    exact .nil
  | cons ha _ ih =>
    obtain ⟨f, fs, rfl, hf, hfs⟩ := Expr.of_cons he
    cases ha' with
    | cons ha' hs' => exact (ha.maps h hT hf ha').append (ih hfs hs')

theorem Begins.maps {v v' : Declarator} {declared : Option ValueType} {type type' : ValueType}
    (hv : v.placeless = v'.placeless) (hb : Begins ρ.source site l v declared is type)
    (hb' : Begins ρ.target site' l v' declared is' type') : ρ.MapsAll is is' ∧ type = type' := by
  have hvalue : v.value.map Expr.placeless = v'.value.map Expr.placeless := (Declarator.mk.inj hv).2.1
  cases hb with
  | given hv he =>
    cases hb' with
    | given hv' he' =>
      rw [hv, hv'] at hvalue
      exact ⟨(he.maps h hT (Option.some.inj hvalue) he').1, rfl⟩
    | default hv' =>
      rw [hv, hv'] at hvalue
      cases hvalue
  | default hv hp =>
    cases hb' with
    | given hv' =>
      rw [hv, hv'] at hvalue
      cases hvalue
    | default _ hp' =>
      obtain ⟨js, hmaps, hpushes⟩ := Pushes.relocated h hp
      obtain rfl := hpushes.unique hT hp' rfl
      exact ⟨hmaps, rfl⟩
  | inferred hv he =>
    cases hb' with
    | inferred hv' he' =>
      rw [hv, hv'] at hvalue
      obtain ⟨hmaps, hp⟩ := he.maps h hT (Option.some.inj hvalue) he'
      exact ⟨hmaps, hp.type⟩

theorem Declares.maps {declared : Option ValueType} {vs vs' : List Declarator}
    (hvs : vs.map Declarator.placeless = vs'.map Declarator.placeless)
    (hd : Declares ρ.source site declared vs l is l₁)
    (hd' : Declares ρ.target site' declared vs' l is' l₂) : ρ.MapsAll is is' ∧ l₁ = l₂ := by
  induction hd generalizing vs' is' with
  | nil =>
    cases List.map_eq_nil_iff.mp hvs.symm
    cases hd'
    exact ⟨.nil, rfl⟩
  | cons hb _ _ ih =>
    cases hd' with
    | nil => cases hvs
    | cons hb' _ hs' =>
      obtain ⟨hv, hvs⟩ := List.cons.inj hvs
      obtain ⟨hmaps, rfl⟩ := hb.maps h hT hv hb'
      rw [← Ident.name_eq (Declarator.mk.inj hv).1] at hs' ⊢
      obtain ⟨hmaps', rfl⟩ := ih hvs hs'
      exact ⟨hmaps.append (.cons (.same rfl) hmaps'), rfl⟩

theorem DeclaresAll.maps {d d' : VarDecl} (hd : d.placeless = d'.placeless)
    (hs : DeclaresAll ρ.source site d l is l₁) (hs' : DeclaresAll ρ.target site' d' l is' l₂) :
    ρ.MapsAll is is' ∧ l₁ = l₂ := by
  obtain ⟨hdeclared, hs⟩ := hs
  obtain ⟨hdeclared', hs'⟩ := hs'
  obtain rfl := Except.ok.inj ((Retraces.declaredType_eq h.sites hd hdeclared).symm.trans hdeclared')
  exact hs.maps h hT (VarDecl.mk.inj hd).2.1 hs'

theorem Starts.maps {first first' : Option ForInit}
    (hfirst : first.map ForInit.placeless = first'.map ForInit.placeless)
    (hs : Starts ρ.source site l first is l₁) (hs' : Starts ρ.target site' l first' is' l₂) :
    ρ.MapsAll is is' ∧ l₁ = l₂ := by
  cases hs with
  | none =>
    cases hs' with
    | none => exact ⟨.nil, rfl⟩
    | _ => cases hfirst
  | decl hd =>
    cases hs' with
    | decl hd' => exact hd.maps h hT (ForInit.decl.inj (Option.some.inj hfirst)) hd'
    | _ => cases hfirst
  | exprs ha =>
    cases hs' with
    | exprs ha' => exact ⟨ha.maps h hT (ForInit.exprs.inj (Option.some.inj hfirst)) ha', rfl⟩
    | _ => cases hfirst

end

/-! ## Statements -/

mutual

/-- The same statement has relocated code, declares the same and is left in the same ways. -/
theorem Lays.maps (h : ρ.Joins site site') (hT : ρ.target.Distinct)
    {l l₁ l₂ : LocalScope} {F F' : Fragment} {x x' : Exits} {B B' : List Extent} {reachable : Bool}
    {s s' : Stmt} : Lays ρ.source site reachable s l F l₁ x B →
    s.placeless = s'.placeless → Lays ρ.target site' reachable s' l F' l₂ x' B' →
      ρ.MapsPieces F F' ∧ l₁ = l₂ ∧ x = x'
  | .block hs, heq, h' => by
    obtain ⟨ss', sp', rfl, hss⟩ := Stmt.of_block heq
    cases h' with
    | block hs' =>
      obtain ⟨hmaps, rfl, rfl⟩ := hs.maps h hT hss hs'
      exact ⟨hmaps, rfl, rfl⟩
  | .decl hd, heq, h' => by
    obtain ⟨d', rfl, hdd⟩ := Stmt.of_decl heq
    cases h' with
    | decl hd' =>
      obtain ⟨hmaps, rfl⟩ := hd.maps h hT hdd hd'
      exact ⟨.ops hmaps, rfl, rfl⟩
  | .expr ha, heq, h' => by
    obtain ⟨e', sp', rfl, he⟩ := Stmt.of_expr heq
    cases h' with
    | expr ha' => exact ⟨.ops (ha.maps h hT he ha'), rfl, rfl⟩
  | .ifThen hc hy, heq, h' => by
    obtain ⟨e', yes', sp', rfl, he, hyes⟩ := Stmt.of_ifThen heq
    cases h' with
    | ifThen hc' hy' =>
      obtain ⟨hcond, rfl⟩ := hc.maps h hT he hc'
      obtain ⟨hbranch, rfl, rfl⟩ := hy.maps h hT hyes hy'
      rw [hbranch.size]
      exact ⟨.append (.ops hcond) (.cons (.op (.same rfl)) hbranch), rfl, rfl⟩
  | .ifElse hc hy hn, heq, h' => by
    obtain ⟨e', yes', no', sp', rfl, he, hyes, hno⟩ := Stmt.of_ifElse heq
    cases h' with
    | ifElse hc' hy' hn' =>
      obtain ⟨hcond, rfl⟩ := hc.maps h hT he hc'
      obtain ⟨hfirst, rfl, rfl⟩ := hy.maps h hT hyes hy'
      obtain ⟨hsecond, rfl, rfl⟩ := hn.maps h hT hno hn'
      rw [hfirst.size, hsecond.size]
      refine ⟨.append (.append (.ops hcond) (.cons (.op (.same rfl)) ?_)) hsecond, rfl, rfl⟩
      exact hfirst.append (.ops (.skip _ _))
  | .whileLoop hc hb, heq, h' => by
    obtain ⟨e', body', sp', rfl, he, hbody⟩ := Stmt.of_whileLoop heq
    cases h' with
    | whileLoop hc' hb' =>
      obtain ⟨hcond, rfl⟩ := hc.maps h hT he hc'
      obtain ⟨hround, rfl, rfl⟩ := hb.maps h hT hbody hb'
      rw [hround.size]
      refine ⟨.ops (.closed ?_ 0), rfl, rfl⟩
      exact .append (.ops (.heading hcond _ _)) (hround.append (.cons .again .nil))
  | .doLoop hb hc, heq, h' => by
    obtain ⟨body', e', sp', rfl, hbody, he⟩ := Stmt.of_doLoop heq
    cases h' with
    | doLoop hb' hc' =>
      obtain ⟨hround, rfl, rfl⟩ := hb.maps h hT hbody hb'
      obtain ⟨hcond, rfl⟩ := hc.maps h hT he hc'
      refine ⟨.ops (.closed ?_ 0), rfl, rfl⟩
      exact hround.forward.append (.returning hcond _)
  | .forLoop hs hc hb hu, heq, h' => by
    obtain ⟨first', cond', update', body', sp', rfl, hfirst, hcond, hupdate, hbody⟩ := Stmt.of_forLoop heq
    cases h' with
    | forLoop hs' hc' hb' hu' =>
      obtain ⟨hstart, rfl⟩ := hs.maps h hT hfirst hs'
      obtain ⟨htest, rfl⟩ := hc.maps h hT hcond hc'
      obtain ⟨hround, rfl, rfl⟩ := hb.maps h hT hbody hb'
      have hnext := hu.maps h hT hupdate hu'
      rw [hround.size, hnext.size]
      refine ⟨.ops (hstart.append (.closed ?_ 0)), rfl, rfl⟩
      exact .append (.ops (.heading htest _ _))
        (hround.forward.append (.append (.ops hnext) (.cons .again .nil)))
  | .ret htype hv, heq, h' => by
    obtain ⟨value', sp', rfl, hvalue⟩ := Stmt.of_ret heq
    cases h' with
    | ret _ hv' =>
      rw [← h.sites.returns] at hv'
      exact ⟨.ops ((hv.maps h hT (Option.some.inj hvalue) hv').1.append (.plain rfl)), rfl, rfl⟩
    | retVoid => cases hvalue
  | .retVoid htype, heq, h' => by
    obtain ⟨value', sp', rfl, hvalue⟩ := Stmt.of_ret heq
    cases h' with
    | ret => cases hvalue
    | retVoid => exact ⟨.cons (.op (.same rfl)) .nil, rfl, rfl⟩
  | .breakLoop, heq, h' => by
    obtain ⟨sp', rfl⟩ := Stmt.of_breakLoop heq
    cases h'
    exact ⟨.cons .leave .nil, rfl, rfl⟩
  | .continueLoop, heq, h' => by
    obtain ⟨sp', rfl⟩ := Stmt.of_continueLoop heq
    cases h'
    exact ⟨.cons .again .nil, rfl, rfl⟩
  | .empty, heq, h' => by
    obtain ⟨sp', rfl⟩ := Stmt.of_empty heq
    cases h'
    exact ⟨.nil, rfl, rfl⟩

theorem Nests.maps (h : ρ.Joins site site') (hT : ρ.target.Distinct)
    {l l₁ l₂ : LocalScope} {F F' : Fragment} {x x' : Exits} {B B' : List Extent} {reachable : Bool}
    {s s' : Stmt} : Nests ρ.source site reachable s l F l₁ x B →
    s.placeless = s'.placeless → Nests ρ.target site' reachable s' l F' l₂ x' B' →
      ρ.MapsPieces F F' ∧ l₁ = l₂ ∧ x = x'
  | .kept hlive hs, heq, h' => by
    cases h' with
    | kept _ hs' => exact hs.maps h hT heq hs'
    | dropped hrelease =>
      rw [← h.sites.release] at hrelease
      simp [hrelease] at hlive
  | .dropped hrelease hs, heq, h' => by
    cases h' with
    | kept hlive =>
      rw [← h.sites.release, hrelease] at hlive
      simp at hlive
    | dropped _ hs' =>
      obtain ⟨-, rfl, rfl⟩ := hs.maps h hT heq hs'
      exact ⟨.nil, rfl, rfl⟩

theorem LaysAll.maps (h : ρ.Joins site site') (hT : ρ.target.Distinct)
    {l l₁ l₂ : LocalScope} {F F' : Fragment} {x x' : Exits} {B B' : List Extent} {reachable : Bool}
    {ss ss' : List Stmt} : LaysAll ρ.source site reachable ss l F l₁ x B →
    Stmt.placelessAll ss = Stmt.placelessAll ss' → LaysAll ρ.target site' reachable ss' l F' l₂ x' B' →
      ρ.MapsPieces F F' ∧ l₁ = l₂ ∧ x = x'
  | .nil, heq, h' => by
    obtain rfl := Stmt.of_nil heq
    cases h'
    exact ⟨.nil, rfl, rfl⟩
  | .cons hs hss, heq, h' => by
    obtain ⟨s', ss', rfl, hs', hss'⟩ := Stmt.of_cons heq
    cases h' with
    | cons h₁ h₂ =>
      obtain ⟨hmaps, rfl, rfl⟩ := hs.maps h hT hs' h₁
      obtain ⟨hmaps', rfl, rfl⟩ := hss.maps h hT hss' h₂
      exact ⟨hmaps.append hmaps', rfl, rfl⟩

end

/-! ## Methods -/

theorem Enters.maps {ps ps' : List Param} {ts : List ValueType}
    (hps : ps.map Param.placeless = ps'.map Param.placeless) (he : Enters ps ts l l₁)
    (he' : Enters ps' ts l l₂) : l₁ = l₂ := by
  induction he generalizing ps' with
  | none hnil =>
    cases he' with
    | none => rfl
    | cons =>
      obtain rfl | hnil := hnil
      · cases hps
      · cases hnil
  | cons _ _ ih =>
    cases ps' with
    | nil => cases hps
    | cons p' ps' =>
      obtain ⟨hp, hps⟩ := List.cons.inj hps
      cases he' with
      | none hnil => simp at hnil
      | cons _ he' =>
        rw [← Ident.name_eq (Param.mk.inj hp).2.1] at he'
        exact ih hps he'

section

variable (h : ρ.Joins site site') (hT : ρ.target.Distinct)

include h hT

theorem Initializes.maps {op : Opcode} (hop : op.refers = false) {fs fs' : List FieldSymbol}
    (hfs : fs.map FieldSymbol.placeless = fs'.map FieldSymbol.placeless)
    (hi : Initializes ρ.source site op fs is) (hi' : Initializes ρ.target site' op fs' is') :
    ρ.MapsAll is is' := by
  induction hi generalizing fs' is' with
  | nil =>
    cases List.map_eq_nil_iff.mp hfs.symm
    cases hi'
    exact .nil
  | @unset f fs is hv _ ih =>
    cases fs' with
    | nil => cases hfs
    | cons f' fs' =>
      obtain ⟨hf, hfs⟩ := List.cons.inj hfs
      have hvalue : f.value.map Expr.placeless = f'.value.map Expr.placeless := by
        have hvalue := congrArg FieldSymbol.value hf
        exact hvalue
      cases hi' with
      | unset _ hi' => exact ih hfs hi'
      | set hv' =>
        rw [hv, hv'] at hvalue
        cases hvalue
  | @set f fs e is js p hv he _ ih =>
    cases fs' with
    | nil => cases hfs
    | cons f' fs' =>
      obtain ⟨hf, hfs⟩ := List.cons.inj hfs
      have hvalue : f.value.map Expr.placeless = f'.value.map Expr.placeless := by
        have hvalue := congrArg FieldSymbol.value hf
        exact hvalue
      obtain ⟨htype, -, -, -, hslot⟩ := FieldSymbol.eq_of_placeless hf
      cases hi' with
      | unset hv' =>
        rw [hv, hv'] at hvalue
        cases hvalue
      | set hv' he' hs' =>
        rw [hv, hv'] at hvalue
        rw [← htype] at he'
        rw [← hslot]
        exact (he.maps h hT (Option.some.inj hvalue) he').1.append (.cons (.same hop) (ih hfs hs'))

theorem LaysBody.maps {b b' : Body} {X Y : List Extent} (hb : b.placeless = b'.placeless)
    (hl : LaysBody ρ.source site l b is l₁ X) (hl' : LaysBody ρ.target site' l b' is' l₂ Y) :
    ρ.MapsAll is is' ∧ l₁ = l₂ := by
  have blocks {ss ss' : List Stmt} {sp sp' : Span}
      (hb : (Body.block ss sp).placeless = (Body.block ss' sp').placeless) :
      (Stmt.block ss sp).placeless = (Stmt.block ss' sp').placeless := by
    rw [Stmt.placeless, Stmt.placeless, (Body.block.inj hb).1]
  cases hl with
  | falls hs hends =>
    cases hl' with
    | falls hs' =>
      obtain ⟨hmaps, rfl, -⟩ := hs.maps h hT (blocks hb) hs'
      exact ⟨hmaps.of_ops.append (.plain rfl), rfl⟩
    | returns hs' hends' =>
      obtain ⟨-, -, rfl⟩ := hs.maps h hT (blocks hb) hs'
      cases hends.symm.trans hends'
    | _ => cases hb
  | returns hs hends =>
    cases hl' with
    | falls hs' hends' =>
      obtain ⟨-, -, rfl⟩ := hs.maps h hT (blocks hb) hs'
      cases hends.symm.trans hends'
    | returns hs' =>
      obtain ⟨hmaps, rfl, -⟩ := hs.maps h hT (blocks hb) hs'
      exact ⟨hmaps.of_ops, rfl⟩
    | _ => cases hb
  | effect hr ha =>
    cases hl' with
    | effect _ ha' => exact ⟨(ha.maps h hT (Body.arrow.inj hb) ha').append (.plain rfl), rfl⟩
    | value hr' =>
      rw [← h.sites.returns, hr] at hr'
      cases hr'
    | _ => cases hb
  | value hr hv =>
    cases hl' with
    | effect hr' =>
      rw [← h.sites.returns, hr] at hr'
      cases hr'
    | value _ hv' =>
      rw [← h.sites.returns] at hv'
      exact ⟨(hv.maps h hT (Body.arrow.inj hb) hv').1.append (.plain rfl), rfl⟩
    | _ => cases hb

end

section

variable {c c' : ClassSite} {f f' : MethodSymbol} {g g' : MethodImage} (h : c.Akin c')
  (hρ : ρ.Covers c.symbols c'.symbols) (hT : ρ.target.Distinct)

include h hρ hT

theorem Prologue.maps {kind : MethodKind} (hp : Prologue ρ.source c kind is)
    (hp' : Prologue ρ.target c' kind is') : ρ.MapsAll is is' := by
  cases kind with
  | method =>
    obtain rfl : is = [] := hp
    obtain rfl : is' = [] := hp'
    exact .nil
  | constructor => exact Initializes.maps ⟨h.initializerSite false, hρ⟩ hT rfl (h.fields false) hp hp'
  | typeInitializer => exact Initializes.maps ⟨h.initializerSite true, hρ⟩ hT rfl (h.fields true) hp hp'

theorem LaysMethod.maps {X Y : List Extent} (hf : f.placeless = f'.placeless)
    (hl : LaysMethod ρ.source c f is l₁ X) (hl' : LaysMethod ρ.target c' f' is' l₂ Y) :
    ρ.MapsAll is is' ∧ l₁ = l₂ := by
  have hsource : f.source.placeless = f'.source.placeless := by
    have hsource := congrArg MethodSymbol.source hf
    exact hsource
  have hkind : f.kind = f'.kind := (MethodSymbol.mk.inj hf).2.1
  have hjoins : ρ.Joins (methodSite c f) (methodSite c' f') := ⟨h.methodSite hf, hρ⟩
  cases hl with
  | declared hdecl hparams his hb =>
    cases hl' with
    | declared hdecl' hparams' his' hb' =>
      rw [hdecl, hdecl'] at hsource
      obtain ⟨hps, hbody, -⟩ := MethodSource.declared.inj hsource
      rw [← (MethodSymbol.eq_of_placeless hf).2.2.1] at hparams'
      rw [← hkind] at his'
      obtain rfl := hparams.maps hps hparams'
      obtain ⟨hmaps, rfl⟩ := hb.maps hjoins hT hbody hb'
      exact ⟨(his.maps h hρ hT his').append hmaps, rfl⟩
    | implied hdecl' =>
      rw [hdecl, hdecl'] at hsource
      cases hsource
  | implied hdecl his =>
    cases hl' with
    | declared hdecl' =>
      rw [hdecl, hdecl'] at hsource
      cases hsource
    | implied _ his' =>
      rw [← hkind] at his'
      exact ⟨(his.maps h hρ hT his').append (.plain rfl), rfl⟩

theorem Compiled.relocates (hf : f.placeless = f'.placeless) (hg : Compiled ρ.source c f g)
    (hg' : Compiled ρ.target c' f' g') : g.Relocates ρ g' := by
  obtain ⟨is, l, X, hlays, hspells, hlocals⟩ := hg.laid
  obtain ⟨js, l', Y, hlays', hspells', hlocals'⟩ := hg'.laid
  obtain ⟨hmaps, rfl⟩ := hlays.maps h hρ hT hf hlays'
  have hframe : g.locals = g'.locals := hlocals.trans hlocals'.symm
  obtain ⟨hname, hkind, -⟩ := MethodSymbol.mk.inj hf
  obtain ⟨hvisibility, hstatic, hparams, hreturns⟩ := MethodSymbol.eq_of_placeless hf
  refine ⟨?_, is, js, hspells, hspells', hmaps⟩
  simp only [MethodImage.outline, hg.name, hg.kind, hg.visibility, hg.isStatic, hg.params, hg.returns,
    hg'.name, hg'.kind, hg'.visibility, hg'.isStatic, hg'.params, hg'.returns, hframe, hname, hkind,
    hvisibility, hstatic, hparams, hreturns]

end

end Layout
end ClassScript
