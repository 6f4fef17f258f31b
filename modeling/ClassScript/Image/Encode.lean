import ClassScript.Image

/-!
Images as bytes.

Numbers are written low byte first, texts and code with their length in front. Operands inside code
keep their own order.
-/

namespace ClassScript

/-- Why an image cannot be written: a list is longer than its count can say. -/
structure EncodeError where
  what : String
deriving DecidableEq, Inhabited

def EncodeError.message (e : EncodeError) : String := "too many " ++ e.what ++ " to encode"

namespace Encode

/-- The lowest `n` bytes of a number, low byte first. -/
def littleEndian : Nat → Nat → List UInt8
  | 0, _ => []
  | n + 1, v => UInt8.ofNat v :: littleEndian n (v / 256)

/-- A count that takes `size` bytes. -/
def count (size : Nat) (what : String) (n : Nat) : Except EncodeError (List UInt8) :=
  if n < Nat.pow 256 size then .ok (littleEndian size n) else .error ⟨what⟩

def bytes (bs : List UInt8) : Except EncodeError (List UInt8) := do
  let n ← count 4 "bytes" bs.length
  pure (n ++ bs)

def text (s : String) : Except EncodeError (List UInt8) := bytes (Text.bytesOf s)

/-- The pieces of a list, one behind the other. -/
def all {α : Type} (f : α → Except EncodeError (List UInt8)) (xs : List α) :
    Except EncodeError (List UInt8) := do
  let pieces ← xs.mapM f
  pure pieces.flatten

/-- A list behind its count. -/
def counted {α : Type} (size : Nat) (what : String) (f : α → Except EncodeError (List UInt8))
    (xs : List α) : Except EncodeError (List UInt8) := do
  let n ← count size what xs.length
  let items ← all f xs
  pure (n ++ items)

def types (ts : List ValueType) : Except EncodeError (List UInt8) := do
  let n ← count 1 "parameters" ts.length
  pure (n ++ ts.map (·.tag))

def constant : Constant → Except EncodeError (List UInt8)
  | .int n => pure (1 :: littleEndian 4 n.toUInt32.toNat)
  | .long n => pure (2 :: littleEndian 8 n.toUInt64.toNat)
  | .double d => pure (3 :: littleEndian 8 d.bits.toNat)
  | .string s => do
    let t ← text s
    pure (4 :: t)

def nativeImport (i : NativeImport) : Except EncodeError (List UInt8) := do
  let name ← text i.name
  let params ← types i.params
  pure (littleEndian 8 i.identity.value.toNat ++ (name ++ (params ++ [i.returns.tag])))

/-- One bit per flag, the first flag lowest. -/
def flags (a b : Bool) : UInt8 := (if a then 1 else 0) + (if b then 2 else 0)

def field (f : FieldImage) : Except EncodeError (List UInt8) := do
  let name ← text f.name
  pure (name ++ ([f.type.tag, f.visibility.tag, flags f.isStatic f.isReadonly] ++
    littleEndian 2 f.slot.toNat))

def method (m : MethodImage) : Except EncodeError (List UInt8) := do
  let name ← text m.name
  let params ← types m.params
  let code ← bytes m.code.toList
  pure (name ++ ([m.kind.tag, m.visibility.tag, if m.isStatic then 1 else 0] ++
    (params ++ (m.returns.tag :: (littleEndian 2 m.locals.toNat ++ code)))))

def class_ (c : ClassImage) : Except EncodeError (List UInt8) := do
  let name ← text c.name
  let fields ← counted 2 "fields" field c.fields.toList
  let methods ← counted 2 "methods" method c.methods.toList
  pure (name ++ (c.visibility.tag :: (fields ++ methods)))

/-- What every image starts with. -/
def magic : List UInt8 := [0x51, 0x43, 0x49, 0x4c]

def version : Nat := 1

/-- The kind of module; there is one, a library of classes. -/
def libraryKind : UInt8 := 0

end Encode

open Encode in
/-- The bytes of an image. -/
def Image.encode (m : Image) : Except EncodeError (List UInt8) := do
  let name ← text m.name
  let references ← counted 4 "references" text m.references
  let constants ← counted 4 "constants" constant m.constants.toList
  let imports ← counted 4 "imports" nativeImport m.imports.toList
  let classes ← counted 4 "classes" class_ m.classes.toList
  pure (magic ++ (littleEndian 2 version ++ ([flags m.checked m.release, libraryKind] ++
    (name ++ (references ++ (constants ++ (imports ++ classes)))))))

end ClassScript
