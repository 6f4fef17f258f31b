import ClassScript.Conversion

/-!
Overload resolution.

A candidate is applicable if it has a parameter for every argument and each argument converts to its
parameter. The call means the one applicable candidate that is better than every other: at least as
good for every argument, and preferred for one.
-/

namespace ClassScript

inductive OverloadError where
  /-- No candidate has the right number of parameters. -/
  | noArity
  /-- The first candidate with the right number of parameters refuses an argument. -/
  | mismatch (index : Nat) (expected : ValueType)
  /-- Two candidates are equally good. -/
  | ambiguous (first second : Nat)
deriving DecidableEq, Repr

namespace Overload

/-- Parameter types of one candidate. -/
abbrev Params := List ValueType

/-- Every argument converts to its parameter, as far as both lists reach. -/
def accepts (params : Params) (args : List ValueType) : Bool :=
  (params.zip args).all fun (p, a) => a.convertsTo p

/-- The first parameter that refuses its argument. -/
def firstRefusal? (params : Params) (args : List ValueType) : Option (Nat × ValueType) :=
  ((params.zip args).zipIdx.find? fun ((p, a), _) => !a.convertsTo p).map fun ((p, _), i) => (i, p)

/-- Some argument prefers `p` to `q`. -/
def prefersSome : List ValueType → Params → Params → Bool
  | a :: args, p :: ps, q :: qs => a.prefers p q || prefersSome args ps qs
  | _, _, _ => false

/-- `p` is a better match than `q`. -/
def better (args : List ValueType) (p q : Params) : Bool :=
  !prefersSome args q p && prefersSome args p q

/-- The position of the candidate a call means. -/
def resolve (candidates : List Params) (args : List ValueType) : Except OverloadError Nat :=
  let matching := candidates.zipIdx.filter fun (p, _) => p.length == args.length
  match matching with
  | [] => .error .noArity
  | (first, _) :: _ =>
    match matching.filter fun (p, _) => accepts p args with
    | [] =>
      let (index, expected) := (firstRefusal? first args).getD (0, .void)
      .error (.mismatch index expected)
    | [(_, only)] => .ok only
    | (p, i) :: (q, j) :: rest =>
      let all := (p, i) :: (q, j) :: rest
      match all.find? fun (c, k) => all.all fun (d, l) => l == k || better args c d with
      | some (_, best) => .ok best
      | none => .error (.ambiguous i j)

end Overload
end ClassScript
