import ClassScript.Image.Encode
import ClassScript.Image.Verify

/-!
Images from bytes.

A reader takes bytes from the front and fails at the offset where they end too early or say nothing.
A list whose count promises more than the rest of the image can hold is refused at the count. An
image is handed out only if nothing is left over and its code passes verification.
-/

namespace ClassScript

/-- A reader of a source with so many bytes in all, of which the given ones are left. -/
def Reader (α : Type) : Type := Nat → List UInt8 → Except ImageError (α × List UInt8)

namespace Reader

@[inline] protected def pure {α : Type} (a : α) : Reader α := fun _ rest => .ok (a, rest)

@[inline] protected def bind {α β : Type} (r : Reader α) (f : α → Reader β) : Reader β :=
  fun total rest =>
    match r total rest with
    | .ok (a, rest) => f a total rest
    | .error e => .error e

instance : Monad Reader where
  pure := Reader.pure
  bind := Reader.bind

/-- Fails at the place where `rest` is still to come. -/
def failAt {α : Type} (rest : List UInt8) (e : Nat → ImageError) : Reader α := fun total _ =>
  .error (e (total - rest.length))

/-- What is left. -/
def remaining : Reader (List UInt8) := fun _ rest => .ok (rest, rest)

/-- The next `n` bytes, the last one first, behind those in `done`. -/
def takeOnto : Nat → List UInt8 → List UInt8 → Option (List UInt8 × List UInt8)
  | 0, done, rest => some (done, rest)
  | _ + 1, _, [] => none
  | n + 1, done, b :: rest => takeOnto n (b :: done) rest

/-- The next `n` bytes. -/
def take (n : Nat) : Reader (List UInt8) := fun total rest =>
  match takeOnto n [] rest with
  | some (taken, rest) => .ok (taken.reverse, rest)
  | none => .error (.truncated (total - rest.length))

/-- The number that bytes spell, the low one first. -/
def number : List UInt8 → Nat
  | [] => 0
  | b :: bs => b.toNat + 256 * number bs

def nat (size : Nat) : Reader Nat := do
  let bs ← take size
  pure (number bs)

def byte : Reader UInt8 := do
  let bs ← take 1
  pure (bs.headD 0)

/-- The number of items that follow, each of at least `least` bytes. -/
def count (least : Nat) : Reader Nat := do
  let start ← remaining
  let n ← nat 4
  let rest ← remaining
  if rest.length < n * least then failAt start .truncated else pure n

def bytes : Reader (List UInt8) := do
  let n ← nat 4
  take n

def text : Reader String := do
  let start ← remaining
  let bs ← bytes
  match Text.ofBytes? bs with
  | some s => pure s
  | none => failAt start .invalidString

/-- A byte with a meaning. -/
def tag {α : Type} (what : String) (meaning : UInt8 → Option α) : Reader α := do
  let start ← remaining
  let b ← byte
  match meaning b with
  | some a => pure a
  | none => failAt start (.invalidTag what b)

/-- `n` items, behind those in `done`, of which the last comes first. -/
def timesOnto {α : Type} (r : Reader α) : Nat → List α → Reader (List α)
  | 0, done => pure done.reverse
  | n + 1, done => fun total rest =>
    match r total rest with
    | .ok (a, rest) => timesOnto r n (a :: done) total rest
    | .error e => .error e

def times {α : Type} (n : Nat) (r : Reader α) : Reader (List α) := timesOnto r n []

end Reader

namespace Decode

open Reader

def valueType : Reader ValueType := tag "type" ValueType.ofTag?

def visibility : Reader Visibility := tag "visibility" Visibility.ofTag?

def types : Reader (List ValueType) := do
  let n ← byte
  times n.toNat valueType

/-- Two flags, the first one in the lowest bit. -/
def flags? (b : UInt8) : Option (Bool × Bool) :=
  if b < 4 then some (b &&& 1 != 0, b &&& 2 != 0) else none

def bool? (b : UInt8) : Option Bool :=
  if b = 0 then some false else if b = 1 then some true else none

inductive ConstantTag where
  | int
  | long
  | double
  | string

def constantTag? (b : UInt8) : Option ConstantTag :=
  if b = 1 then some .int
  else if b = 2 then some .long
  else if b = 3 then some .double
  else if b = 4 then some .string
  else none

def constant : Reader Constant := do
  match ← tag "constant" constantTag? with
  | .int => pure (.int (UInt32.ofNat (← nat 4)).toInt32)
  | .long => pure (.long (UInt64.ofNat (← nat 8)).toInt64)
  | .double => pure (.double ⟨UInt64.ofNat (← nat 8)⟩)
  | .string => pure (.string (← text))

def nativeImport : Reader NativeImport := do
  let hash ← nat 8
  let name ← text
  let params ← types
  let returns ← valueType
  pure ⟨⟨UInt64.ofNat hash⟩, name, params, returns⟩

def field : Reader FieldImage := do
  let name ← text
  let type ← valueType
  let vis ← visibility
  let (isStatic, isReadonly) ← tag "field flags" flags?
  let slot ← nat 2
  pure ⟨name, type, vis, isStatic, isReadonly, UInt16.ofNat slot⟩

def method : Reader MethodImage := do
  let name ← text
  let kind ← tag "method kind" MethodKind.ofTag?
  let vis ← visibility
  let isStatic ← tag "static flag" bool?
  let params ← types
  let returns ← valueType
  let locals ← nat 2
  let code ← bytes
  pure ⟨name, kind, vis, isStatic, params, returns, UInt16.ofNat locals, code.toArray⟩

def class_ : Reader ClassImage := do
  let name ← text
  let vis ← visibility
  let fields ← times (← nat 2) field
  let methods ← times (← nat 2) method
  pure ⟨name, vis, fields.toArray, methods.toArray⟩

def magic : Reader Unit := fun total rest =>
  match take 4 total rest with
  | .ok (bs, rest) => if bs = Encode.magic then .ok ((), rest) else .error .badMagic
  | .error _ => .error .badMagic

def version : Reader Unit := do
  let v ← nat 2
  if v = Encode.version then pure () else fun _ _ => .error (.unsupportedVersion v)

def kind? (b : UInt8) : Option Unit := if b = Encode.libraryKind then some () else none

/-- An image whose code is not verified yet. The least sizes of items are those of empty ones. -/
def image : Reader Image := do
  magic
  version
  let (checked, release) ← tag "flags" flags?
  tag "output kind" kind?
  let name ← text
  let references ← times (← count 4) text
  let constants ← times (← count 5) constant
  let imports ← times (← count 14) nativeImport
  let classes ← times (← count 9) class_
  pure ⟨name, checked, release, references, constants.toArray, imports.toArray, classes.toArray⟩

end Decode

/-- The image that bytes spell. -/
def Image.decode (bytes : List UInt8) : Except ImageError Image :=
  match Decode.image bytes.length bytes with
  | .error e => .error e
  | .ok (m, rest) =>
    if rest.isEmpty then (Verify.image m).map fun _ => m else .error (.trailingBytes rest.length)

end ClassScript
