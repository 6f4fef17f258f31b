/-!
UTF-8. Strings are valid byte sequences already; here is the way from bytes that may not be.
-/

namespace ClassScript.Text

/-- The bytes of a string. -/
def bytesOf (s : String) : List UInt8 := s.toByteArray.data.toList

/-- The string with exactly these bytes, if they are well formed. -/
def ofBytes? (bytes : List UInt8) : Option String :=
  let b : ByteArray := ⟨bytes.toArray⟩
  if h : b.IsValidUTF8 then some (String.ofByteArray b h) else none

/-- A byte inside a sequence. -/
def isContinuation (b : UInt8) : Bool := 0x80 ≤ b && b ≤ 0xbf

/-- A second byte that can follow the first byte of a sequence of three or four. -/
def isSecond (first second : UInt8) : Bool :=
  if first = 0xe0 then 0xa0 ≤ second && second ≤ 0xbf
  else if first = 0xed then 0x80 ≤ second && second ≤ 0x9f
  else if first = 0xf0 then 0x90 ≤ second && second ≤ 0xbf
  else if first = 0xf4 then 0x80 ≤ second && second ≤ 0x8f
  else isContinuation second

/-- The payload of a continuation byte. -/
def low (b : UInt8) : Nat := b.toNat % 64

/-- What stands for bytes that are no character. -/
def replacement : Char := '\uFFFD'

/-- The characters of a byte sequence; each longest start of a character that breaks off, and each
byte that starts none, becomes one replacement character. -/
def lossy : List UInt8 → List Char
  | [] => []
  | a :: rest =>
    if a < 0x80 then Char.ofNat a.toNat :: lossy rest
    else if 0xc2 ≤ a && a ≤ 0xdf then
      match rest with
      | b :: rest' =>
        if isContinuation b then Char.ofNat (a.toNat % 32 * 64 + low b) :: lossy rest'
        else replacement :: lossy (b :: rest')
      | [] => [replacement]
    else if 0xe0 ≤ a && a ≤ 0xef then
      match rest with
      | b :: c :: rest' =>
        if isSecond a b then
          if isContinuation c then
            Char.ofNat (a.toNat % 16 * 4096 + low b * 64 + low c) :: lossy rest'
          else replacement :: lossy (c :: rest')
        else replacement :: lossy (b :: c :: rest')
      | [b] => if isSecond a b then [replacement] else replacement :: lossy [b]
      | [] => [replacement]
    else if 0xf0 ≤ a && a ≤ 0xf4 then
      match rest with
      | b :: c :: d :: rest' =>
        if isSecond a b then
          if isContinuation c then
            if isContinuation d then
              Char.ofNat (a.toNat % 8 * 262144 + low b * 4096 + low c * 64 + low d) :: lossy rest'
            else replacement :: lossy (d :: rest')
          else replacement :: lossy (c :: d :: rest')
        else replacement :: lossy (b :: c :: d :: rest')
      | [b, c] =>
        if isSecond a b then
          if isContinuation c then [replacement] else replacement :: lossy [c]
        else replacement :: lossy [b, c]
      | [b] => if isSecond a b then [replacement] else replacement :: lossy [b]
      | [] => [replacement]
    else replacement :: lossy rest

/-- The bytes a character takes. -/
def width (c : Char) : Nat := c.utf8Size

end ClassScript.Text
