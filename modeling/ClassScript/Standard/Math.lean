import ClassScript.Library

/-!
Mathematics. A NaN among two operands makes their maximum and their minimum a NaN.
-/

namespace ClassScript.Standard

/-- A function of one double. -/
def ofDouble (name : String) (f : Double → Double) : FunctionSpec :=
  .static name [.double] .double (do Native.give (.double (f (← Native.double 0))))

/-- Functions of two arguments of one type, the left one read first. -/
def ofInts (name : String) (f : Int32 → Int32 → Int32) : FunctionSpec :=
  .static name [.int, .int] .int (do
    let x ← Native.int 0
    let y ← Native.int 1
    Native.give (.int (f x y)))

def ofLongs (name : String) (f : Int64 → Int64 → Int64) : FunctionSpec :=
  .static name [.long, .long] .long (do
    let x ← Native.long 0
    let y ← Native.long 1
    Native.give (.long (f x y)))

def ofDoubles (name : String) (f : Double → Double → Double) : FunctionSpec :=
  .static name [.double, .double] .double (do
    let x ← Native.double 0
    let y ← Native.double 1
    Native.give (.double (f x y)))

/-- The size of a number; the least number has none. -/
def absInt : Native Unit := do
  let x ← Native.int 0
  if x = Int32.minValue then Native.failWith .overflow
  else Native.give (.int (if x < 0 then -x else x))

def absLong : Native Unit := do
  let x ← Native.long 0
  if x = Int64.minValue then Native.failWith .overflow
  else Native.give (.long (if x < 0 then -x else x))

def mathClass : ClassSpec where
  space := "System"
  name := "Math"
  keyword := none
  constants := [
    ("PI", .double ⟨0x400921fb54442d18⟩), ("E", .double ⟨0x4005bf0a8b145769⟩)]
  functions := [
    .static "Abs" [.int] .int absInt,
    .static "Abs" [.long] .long absLong,
    ofDouble "Abs" Double.abs,
    ofInts "Max" max,
    ofLongs "Max" max,
    ofDoubles "Max" Double.larger,
    ofInts "Min" min,
    ofLongs "Min" min,
    ofDoubles "Min" Double.smaller,
    ofDouble "Sqrt" Double.sqrt,
    ofDouble "Floor" Double.floor,
    ofDouble "Ceiling" Double.ceiling,
    ofDouble "Round" Double.roundHalfEven,
    ofDoubles "Pow" Double.pow]

end ClassScript.Standard
