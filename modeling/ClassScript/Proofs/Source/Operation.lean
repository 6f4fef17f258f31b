import ClassScript.Fault
import ClassScript.Operator
import ClassScript.SignedRange
import ClassScript.Value

/-!
What operators mean on values.

Types of numbers are ordered by what they can hold, and an operator works on the one of its two types
that the other one suits. Integers are computed as whole numbers and then brought into the range of
their type. Of several candidates a call means the one that leads over all others.

A value of a type that is not expected is refused in the name of an instruction. Nothing else is said
about code here.
-/

namespace ClassScript.Source

/-! ## Types -/

/-- How much a type of numbers can hold. -/
def breadth? : ValueType → Option Nat
  | .int => some 0
  | .long => some 1
  | .double => some 2
  | _ => none

def isNumber (type : ValueType) : Bool := (breadth? type).isSome

/-- Values of the first type can stand where the second one is asked for: it is the same type, or a
broader type of numbers. -/
def suits (source target : ValueType) : Bool :=
  match breadth? source, breadth? target with
  | some a, some b => a ≤ b
  | _, _ => source == target && source != .void

/-- The one of two types that values of the other one suit. -/
def common? (left right : ValueType) : Option ValueType :=
  if suits left right then some right else if suits right left then some left else none

/-! ## Refusals -/

/-- The instruction that does the same for each type of numbers. -/
def forType (int long double : Opcode) : ValueType → Opcode
  | .long => long
  | .double => double
  | _ => int

/-- The instruction that an operator on numbers of a type is refused as. -/
def instruction (type : ValueType) : BinaryOp → Opcode
  | .add => forType .addI32 .addI64 .addF64 type
  | .sub => forType .subI32 .subI64 .subF64 type
  | .mul => forType .mulI32 .mulI64 .mulF64 type
  | .div => forType .divI32 .divI64 .divF64 type
  | .rem => forType .modI32 .modI64 .modF64 type
  | .less => forType .ltI32 .ltI64 .ltF64 type
  | .lessEqual => forType .leI32 .leI64 .leF64 type
  | .greater => forType .gtI32 .gtI64 .gtF64 type
  | .greaterEqual => forType .geI32 .geI64 .geF64 type
  | .notEqual => .ne
  | _ => .eq

def refuse (op : Opcode) (vs : List Value) : Except EvalError Value :=
  .error (.typeMismatch op (vs.map (·.type)))

/-! ## Values in other types -/

/-- A value of the type `source` as one of the type `target`, which it suits: a number stays the same
number. -/
def convert (source target : ValueType) (v : Value) : Except EvalError Value :=
  match source, target, v with
  | .int, .long, .int n => .ok (.long (.ofInt n.toInt))
  | .int, .double, .int n => .ok (.double (.ofInt n.toInt))
  | .long, .double, .long n => .ok (.double (.ofInt n.toInt))
  | .int, .long, v => refuse .i32ToI64 [v]
  | .int, .double, v => refuse .i32ToF64 [v]
  | .long, .double, v => refuse .i64ToF64 [v]
  | _, _, v => .ok v

def textOf (type : ValueType) (v : Value) : Except EvalError Value :=
  if type = .string then .ok v
  else if v = .void then refuse .toStr [v]
  else .ok (.string v.text)

def lengthOf : Value → Except EvalError Value
  | .string s => if fitsSigned 32 s.length then .ok (.int (.ofInt s.length)) else .error .overflow
  | v => refuse .strLen [v]

def join : Value → Value → Except EvalError Value
  | .string s, .string t => .ok (.string (s ++ t))
  | x, y => refuse .concat [x, y]

/-! ## Arithmetic -/

/-- The whole number that an operator gives. A quotient is cut off toward zero. -/
def whole : BinaryOp → Int → Int → Int
  | .add, x, y => x + y
  | .sub, x, y => x - y
  | .mul, x, y => x * y
  | .div, x, y => x.tdiv y
  | _, x, y => x.tmod y

/-- Nothing is divided by zero, and a quotient has to fit, even if only its remainder is wanted. Any
other number that does not fit fails where arithmetic is checked. -/
def integer (checked : Bool) (bits : Nat) (op : BinaryOp) (x y : Int) : Except EvalError Int :=
  let divides := op = .div ∨ op = .rem
  if divides ∧ y = 0 then .error .divideByZero
  else if divides ∧ ¬ fitsSigned bits (x.tdiv y) then .error .overflow
  else if checked ∧ ¬ fitsSigned bits (whole op x y) then .error .overflow
  else .ok (whole op x y)

def real : BinaryOp → Double → Double → Double
  | .add => Double.add
  | .sub => Double.sub
  | .mul => Double.mul
  | .div => Double.div
  | _ => Double.rem

/-- What an operator gives for two numbers of a type. An integer that does not fit the type is counted
around its range. -/
def calculate (checked : Bool) (op : BinaryOp) (type : ValueType) (x y : Value) :
    Except EvalError Value :=
  match type, x, y with
  | .int, .int x, .int y => (integer checked 32 op x.toInt y.toInt).map fun n => .int (.ofInt n)
  | .long, .long x, .long y => (integer checked 64 op x.toInt y.toInt).map fun n => .long (.ofInt n)
  | .double, .double x, .double y => .ok (.double (real op x y))
  | _, x, y => refuse (instruction type op) [x, y]

def unit : ValueType → Value
  | .long => .long 1
  | .double => .double (.ofInt 1)
  | _ => .int 1

def next (checked up : Bool) (type : ValueType) (v : Value) : Except EvalError Value :=
  calculate checked (if up then .add else .sub) type v (unit type)

/-- The number on the other side of zero. -/
def negate (checked : Bool) (type : ValueType) (v : Value) : Except EvalError Value :=
  match type, v with
  | .int, .int n =>
    if checked ∧ ¬ fitsSigned 32 (-n.toInt) then .error .overflow else .ok (.int (.ofInt (-n.toInt)))
  | .long, .long n =>
    if checked ∧ ¬ fitsSigned 64 (-n.toInt) then .error .overflow else .ok (.long (.ofInt (-n.toInt)))
  | .double, .double x => .ok (.double x.neg)
  | _, v => refuse (forType .negI32 .negI64 .negF64 type) [v]

def invert : Value → Except EvalError Value
  | .bool b => .ok (.bool (!b))
  | v => refuse .not [v]

/-! ## Comparisons -/

/-- Whether two values of one type are the same. Doubles are compared as numbers. -/
def same? : Value → Value → Option Bool
  | .int x, .int y => some (x == y)
  | .long x, .long y => some (x == y)
  | .double x, .double y => some (x.eq y)
  | .bool x, .bool y => some (x == y)
  | .string x, .string y => some (x == y)
  | _, _ => none

def equate (op : BinaryOp) (x y : Value) : Except EvalError Value :=
  match same? x y with
  | some same => .ok (.bool (if op = .equal then same else !same))
  | none => refuse (instruction .void op) [x, y]

/-- Whether a comparison holds where numbers are ordered by `less` and by `atMost`. -/
def holds {α : Type} (less atMost : α → α → Bool) (op : BinaryOp) (x y : α) : Bool :=
  match op with
  | .less => less x y
  | .lessEqual => atMost x y
  | .greater => less y x
  | _ => atMost y x

def compare (op : BinaryOp) (type : ValueType) (x y : Value) : Except EvalError Value :=
  let onInt (x y : Int) : Value := .bool (holds (· < ·) (· ≤ ·) op x y)
  match type, x, y with
  | .int, .int x, .int y => .ok (onInt x.toInt y.toInt)
  | .long, .long x, .long y => .ok (onInt x.toInt y.toInt)
  | .double, .double x, .double y => .ok (.bool (holds Double.lt Double.le op x y))
  | _, x, y => refuse (instruction type op) [x, y]

/-! ## Operators -/

structure Operation where
  /-- What becomes of each operand first. -/
  left : Value → Except EvalError Value
  right : Value → Except EvalError Value
  apply : Value → Value → Except EvalError Value
  /-- The type of the result. -/
  type : ValueType

/-- What an operator gives for two values of one type, and the type of it. -/
def operator? (checked : Bool) (op : BinaryOp) (type : ValueType) :
    Option ((Value → Value → Except EvalError Value) × ValueType) :=
  match op with
  | .equal | .notEqual => some (equate op, .bool)
  | .less | .lessEqual | .greater | .greaterEqual =>
    if isNumber type then some (compare op type, .bool) else none
  | .add | .sub | .mul | .div | .rem =>
    if isNumber type then some (calculate checked op type, type) else none
  | .logicalOr | .logicalAnd => none

/-- What an operator does with operands of two types. A text takes in the text of what is added to
it. -/
def operation? (checked : Bool) (op : BinaryOp) (l r : ValueType) : Option Operation :=
  if op = .add ∧ (l = .string ∨ r = .string) then
    if l = .void ∨ r = .void then none else some ⟨textOf l, textOf r, join, .string⟩
  else do
    let type ← common? l r
    let (apply, result) ← operator? checked op type
    some ⟨convert l type, convert r type, apply, result⟩

def turn? (checked : Bool) (op : UnaryOp) (type : ValueType) :
    Option (Value → Except EvalError Value) :=
  match op with
  | .plus => if isNumber type then some .ok else none
  | .neg => if isNumber type then some (negate checked type) else none
  | .not => if type = .bool then some invert else none
  | .increment | .decrement => none

def inside? : AssignOp → Option BinaryOp
  | .assign => none
  | .addAssign => some .add
  | .subAssign => some .sub
  | .mulAssign => some .mul
  | .divAssign => some .div
  | .remAssign => some .rem

/-! ## Overloads -/

/-- A candidate has a parameter for every argument, which the argument suits. -/
def takes (args params : List ValueType) : Bool :=
  params.length == args.length && (params.zip args).all fun (p, a) => suits a p

/-- An argument is nearer to the type `p` than to `q`: it is of that type, or `p` itself suits `q`. -/
def nearer (arg p q : ValueType) : Bool := p != q && (arg == p || (arg != q && suits p q))

/-- Some argument is nearer to its parameter in `p`. -/
def leads (args p q : List ValueType) : Bool :=
  (args.zip (p.zip q)).any fun (a, s, t) => nearer a s t

/-- The place of the candidate that leads over all others, and over which no other one leads. -/
def best? (args : List ValueType) (candidates : List (List ValueType)) : Option Nat :=
  let able := candidates.zipIdx.filter fun (p, _) => takes args p
  let winner := able.find? fun (p, i) =>
    able.all fun (q, j) => j == i || (leads args p q && !leads args q p)
  winner.map (·.2)

end ClassScript.Source
