/-!
Double-precision numbers, held by their sixty-four bits.

Two doubles are the same object exactly when their bits are: zeros of different sign and NaNs of
different payload stay apart, which is what a constant pool and a module image need. Numeric
comparison and arithmetic are functions on the bits. Arithmetic on numbers is the IEEE-754
operation rounded to nearest; a NaN operand is passed on (the left one first), and an operation
without a numeric result gives the negative quiet NaN.
-/

namespace ClassScript

structure Double where
  bits : UInt64
deriving DecidableEq, Hashable, Inhabited, Repr

namespace Double

/-- The quiet NaN of literals and library constants. -/
def nan : Double := ⟨0x7ff8000000000000⟩

/-- The NaN an operation on numbers yields when it has no numeric result. -/
def invalid : Double := ⟨0xfff8000000000000⟩

def infinity : Double := ⟨0x7ff0000000000000⟩
def negInfinity : Double := ⟨0xfff0000000000000⟩
def maxValue : Double := ⟨0x7fefffffffffffff⟩
def minValue : Double := ⟨0xffefffffffffffff⟩
def epsilon : Double := ⟨1⟩
def zero : Double := ⟨0⟩
def one : Double := ⟨0x3ff0000000000000⟩

/-- The bits without the sign, as a number. Doubles of one sign are ordered by it. -/
def magnitude (x : Double) : Nat := (x.bits &&& 0x7fffffffffffffff).toNat

def isNegative (x : Double) : Bool := x.bits &&& 0x8000000000000000 != 0

def isNaN (x : Double) : Bool := x.magnitude > 0x7ff0000000000000

def isInfinite (x : Double) : Bool := x.magnitude == 0x7ff0000000000000

def isZero (x : Double) : Bool := x.magnitude == 0

def isFinite (x : Double) : Bool := x.magnitude < 0x7ff0000000000000

/-- The double with the given sign and magnitude bits. -/
def ofMagnitude (negative : Bool) (magnitude : Nat) : Double :=
  ⟨(if negative then 0x8000000000000000 else 0) ||| UInt64.ofNat magnitude⟩

def signedZero (negative : Bool) : Double := ofMagnitude negative 0

def signedInfinity (negative : Bool) : Double := ofMagnitude negative 0x7ff0000000000000

/-- The place of the bit that the significands of normal doubles leave out. -/
def leadingBit : Nat := 0x10000000000000

/-- The power of a base; one for an exponent below zero. -/
def power (base : Nat) (e : Int) : Nat := Nat.pow base e.toNat

/-- A finite double is `significand * 2 ^ exponent`, up to its sign. -/
def significand (x : Double) : Nat :=
  if x.magnitude / leadingBit = 0 then x.magnitude else leadingBit + x.magnitude % leadingBit

def exponent (x : Double) : Int :=
  if x.magnitude / leadingBit = 0 then -1074 else (x.magnitude / leadingBit : Nat) - 1075

/-- A quotient of naturals rounded to the nearest natural, halves to the even one. -/
def roundDiv (num den : Nat) : Nat :=
  let q := num / den
  let r := 2 * (num % den)
  if den < r ∨ (r = den ∧ q % 2 = 1) then q + 1 else q

/-- The double nearest to `num / den`, halves to the even significand. The grid is the one on which
the quotient has fifty-three binary digits, or the finest grid there is. -/
def ofRatio (negative : Bool) (num den : Nat) : Double :=
  if num = 0 then signedZero negative
  else
    let e : Int := (num.log2 : Int) - (den.log2 : Int) - 52
    let short := num * power 2 (-e) < leadingBit * den * power 2 e
    let e := max (if short then e - 1 else e) (-1074)
    let q := roundDiv (num * power 2 (-e)) (den * power 2 e)
    ofMagnitude negative (min ((e + 1074).toNat * leadingBit + q) 0x7ff0000000000000)

/-- The double nearest to an integer. -/
def ofInt (n : Int) : Double := ofRatio (n < 0) n.natAbs 1

/-! ## Comparison -/

/-- Numeric order: a NaN is related to nothing, and the two zeros are equal. -/
def key (x : Double) : Int := if x.isNegative then -(x.magnitude : Int) else x.magnitude

def eq (x y : Double) : Bool := !x.isNaN && !y.isNaN && x.key == y.key
def lt (x y : Double) : Bool := !x.isNaN && !y.isNaN && x.key < y.key
def le (x y : Double) : Bool := !x.isNaN && !y.isNaN && x.key ≤ y.key

/-! ## Arithmetic -/

def quiet (x : Double) : Double := ⟨x.bits ||| 0x0008000000000000⟩

/-- An operation on numbers, extended to NaN operands. -/
def lift₂ (f : Float → Float → Float) (x y : Double) : Double :=
  if x.isNaN then x.quiet
  else if y.isNaN then y.quiet
  else
    let r : Double := ⟨(f (Float.ofBits x.bits) (Float.ofBits y.bits)).toBits⟩
    if r.isNaN then invalid else r

def add (x y : Double) : Double := lift₂ (· + ·) x y
def sub (x y : Double) : Double := lift₂ (· - ·) x y
def mul (x y : Double) : Double := lift₂ (· * ·) x y
def div (x y : Double) : Double := lift₂ (· / ·) x y

/-- The remainder of division toward zero; it is exact and has the sign of the dividend. -/
def rem (x y : Double) : Double :=
  if x.isNaN then x.quiet
  else if y.isNaN then y.quiet
  else if x.isInfinite || y.isZero then invalid
  else if y.isInfinite || x.isZero then x
  else
    let e := min x.exponent y.exponent
    let a := x.significand * power 2 (x.exponent - e)
    let b := y.significand * power 2 (y.exponent - e)
    ofRatio x.isNegative (a % b * power 2 e) (power 2 (-e))

def neg (x : Double) : Double := ⟨x.bits ^^^ 0x8000000000000000⟩

def abs (x : Double) : Double := ⟨x.bits &&& 0x7fffffffffffffff⟩

/-- The larger operand, the left one if they are equal; a NaN if either is one. -/
def larger (x y : Double) : Double :=
  if x.isNaN || y.isNaN then nan else if x.lt y then y else x

/-- The smaller operand, the left one if they are equal; a NaN if either is one. -/
def smaller (x y : Double) : Double :=
  if x.isNaN || y.isNaN then nan else if y.lt x then y else x

def sqrt (x : Double) : Double :=
  if x.isNaN then x.quiet
  else
    let r : Double := ⟨(Float.ofBits x.bits).sqrt.toBits⟩
    if r.isNaN then invalid else r

def pow (x y : Double) : Double := ⟨(Float.pow (Float.ofBits x.bits) (Float.ofBits y.bits)).toBits⟩

/-! ## Rounding to integers -/

/-- How the distance to the next integer toward zero decides. -/
inductive Rounding where
  | down
  | up
  | halfEven

/-- The natural a magnitude `n + r / d` goes to, with `r < d`. -/
def Rounding.pick (mode : Rounding) (negative : Bool) (num den : Nat) : Nat :=
  match mode with
  | .down => if negative then (num + den - 1) / den else num / den
  | .up => if negative then num / den else (num + den - 1) / den
  | .halfEven => roundDiv num den

/-- The integer a finite double rounds to. -/
def roundToInt (mode : Rounding) (x : Double) : Int :=
  let n := mode.pick x.isNegative (x.significand * power 2 x.exponent) (power 2 (-x.exponent))
  if x.isNegative then -(n : Int) else n

/-- Rounding to an integral double keeps the sign, also of a zero, and leaves the rest alone. -/
def round (mode : Rounding) (x : Double) : Double :=
  if x.isNaN then x.quiet
  else if x.isInfinite then x
  else ofRatio x.isNegative (x.roundToInt mode).natAbs 1

def floor : Double → Double := round .down
def ceiling : Double → Double := round .up
def roundHalfEven : Double → Double := round .halfEven

/-- The integer nearest to a finite double, halves to even. -/
def toInt? (x : Double) : Option Int :=
  if x.isFinite then some (x.roundToInt .halfEven) else none

end Double
end ClassScript
