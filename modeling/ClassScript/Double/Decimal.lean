import ClassScript.Double

/-!
Decimal text of doubles.

Writing takes the fewest significant digits that read back as the same double, the nearer of two
such decimals of one length, and the larger if both are equally near. The text is always positional
and an integral value has no point. Reading accepts an optional sign, digits with an optional point
among or beside them, and an optional exponent, and rounds to the nearest double.
-/

namespace ClassScript

/-- The number `digits * 10 ^ exponent`. -/
structure Decimal where
  digits : Nat
  exponent : Int
deriving DecidableEq, Repr

namespace Decimal

/-- The same number with no zero at the end of its digits. -/
def strip : Nat → Decimal → Decimal
  | 0, d => d
  | n + 1, d =>
    if d.digits ≠ 0 ∧ d.digits % 10 = 0 then strip n ⟨d.digits / 10, d.exponent + 1⟩ else d

/-- Positional notation; a point stands only before a digit that is not an added zero. -/
def text (d : Decimal) : String :=
  let cs := Nat.toDigits 10 d.digits
  if 0 ≤ d.exponent then String.ofList (cs ++ List.replicate d.exponent.toNat '0')
  else
    let places := (-d.exponent).toNat
    let cs := List.replicate (places + 1 - cs.length) '0' ++ cs
    String.ofList (cs.take (cs.length - places) ++ '.' :: cs.drop (cs.length - places))

end Decimal

namespace Double

/-- The gap below a power of two is half the gap above it. -/
def narrowBelow (x : Double) : Bool := x.significand == leadingBit && x.exponent > -1074

/-- Four times the ends of the interval of numbers that round to `x`, in units of its last place. -/
def lowerEnd (x : Double) : Nat := 4 * x.significand - (if x.narrowBelow then 1 else 2)
def upperEnd (x : Double) : Nat := 4 * x.significand + 2

/-- With `unit / den` the last place of `x` in steps of a decimal grid: grid point `c` lies in the
interval of `x`, whose ends belong to it exactly if the significand is even. -/
def covers (x : Double) (unit den c : Nat) : Bool :=
  let a := x.lowerEnd * unit
  let b := x.upperEnd * unit
  let p := 4 * c * den
  if x.significand % 2 = 0 then a ≤ p && p ≤ b else a < p && p < b

/-- The nearer of the two neighbours of `x` on the grid of step `10 ^ e` among those that read
back. -/
def onGrid (x : Double) (e : Int) : Option Decimal :=
  let unit := power 2 x.exponent * power 10 (-e)
  let den := power 2 (-x.exponent) * power 10 e
  let low := x.significand * unit / den
  match x.covers unit den low, x.covers unit den (low + 1) with
  | true, true =>
    some ⟨if 2 * (x.significand * unit) < (2 * low + 1) * den then low else low + 1, e⟩
  | true, false => some ⟨low, e⟩
  | false, true => some ⟨low + 1, e⟩
  | false, false => none

/-- `10 ^ k` exceeds the magnitude of `x`. -/
def below (x : Double) (k : Int) : Bool :=
  x.significand * power 2 x.exponent * power 10 (-k) < power 10 k * power 2 (-x.exponent)

/-- The number of digits before the point, for a magnitude of at least one. The binary logarithm
gives a start that is never too large. -/
def scale (x : Double) : Int :=
  let k := ((x.significand.log2 : Int) + x.exponent) * 30103 / 100000 - 1
  if x.below k then k
  else if x.below (k + 1) then k + 1
  else if x.below (k + 2) then k + 2
  else k + 3

/-- The first decimal grid with a point that reads back, from coarse to fine. -/
def search (x : Double) (k : Int) : Nat → Nat → Option Decimal
  | 0, _ => none
  | fuel + 1, n =>
    match x.onGrid (k - n) with
    | some d => some d
    | none => search x k fuel (n + 1)

/-- The exact value of a finite magnitude. -/
def exact (x : Double) : Decimal :=
  if 0 ≤ x.exponent then ⟨x.significand * power 2 x.exponent, 0⟩
  else ⟨x.significand * power 5 (-x.exponent), x.exponent⟩

/-- The shortest decimal of a finite magnitude other than zero. -/
def shortest (x : Double) : Decimal :=
  ((x.search x.scale 17 1).getD x.exact).strip 400

/-- The text of a double. -/
def text (x : Double) : String :=
  if x.isNaN then "NaN"
  else
    (if x.isNegative then "-" else "") ++
      if x.isInfinite then "Infinity" else if x.isZero then "0" else x.shortest.text

/-! ## Reading -/

/-- The value of a list of decimal digits. -/
def digitsValue (cs : List Char) : Nat :=
  cs.foldl (fun n c => 10 * n + (c.toNat - '0'.toNat)) 0

/-- The double nearest to `n * 10 ^ e`. Exponents beyond the range of doubles are decided by the
number of digits, so no power is larger than the digits call for. -/
def ofDecimal (negative : Bool) (n : Nat) (e : Int) : Double :=
  if n = 0 then signedZero negative
  else
    let magnitude := e + (Nat.toDigits 10 n).length
    if 400 < magnitude then signedInfinity negative
    else if magnitude < -400 then signedZero negative
    else ofRatio negative (n * power 10 e) (power 10 (-e))

/-- The value of an exponent: an optional sign and at least one digit. -/
def exponentValue? (cs : List Char) : Option Int :=
  let (negative, cs) : Bool × List Char :=
    match cs with
    | '-' :: cs => (true, cs)
    | '+' :: cs => (false, cs)
    | cs => (false, cs)
  if cs.isEmpty || !cs.all Char.isDigit then none
  else
    let n : Int := digitsValue cs
    some (if negative then -n else n)

/-- The part after the digits: nothing, or an exponent. -/
def exponentPart? : List Char → Option Int
  | [] => some 0
  | c :: cs => if c = 'e' ∨ c = 'E' then exponentValue? cs else none

/-- A decimal without sign. -/
def parseMagnitude? (negative : Bool) (cs : List Char) : Option Double :=
  let whole := cs.takeWhile Char.isDigit
  let rest := cs.dropWhile Char.isDigit
  let (fraction, rest) : List Char × List Char :=
    match rest with
    | '.' :: rest => (rest.takeWhile Char.isDigit, rest.dropWhile Char.isDigit)
    | rest => ([], rest)
  if whole.isEmpty && fraction.isEmpty then none
  else
    (exponentPart? rest).map fun e =>
      ofDecimal negative (digitsValue (whole ++ fraction)) (e - fraction.length)

/-- The double a text denotes. -/
def parse? : List Char → Option Double
  | '-' :: cs => parseMagnitude? true cs
  | '+' :: cs => parseMagnitude? false cs
  | cs => parseMagnitude? false cs

end Double
end ClassScript
