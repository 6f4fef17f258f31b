/-!
The sixty-four bit xxHash of a byte sequence.
-/

namespace ClassScript.XxHash64

def prime₁ : UInt64 := 0x9E3779B185EBCA87
def prime₂ : UInt64 := 0xC2B2AE3D27D4EB4F
def prime₃ : UInt64 := 0x165667B19E3779F9
def prime₄ : UInt64 := 0x85EBCA77C2B2AE63
def prime₅ : UInt64 := 0x27D4EB2F165667C5

def rotl (x : UInt64) (n : UInt64) : UInt64 := (x <<< n) ||| (x >>> (64 - n))

/-- Bytes as a little-endian number. -/
def littleEndian (bytes : List UInt8) : UInt64 :=
  bytes.foldr (fun b n => (n <<< 8) ||| b.toUInt64) 0

def round (acc lane : UInt64) : UInt64 := rotl (acc + lane * prime₂) 31 * prime₁

def merge (acc lane : UInt64) : UInt64 := (acc ^^^ round 0 lane) * prime₁ + prime₄

/-- Four accumulators, each fed one lane of eight bytes out of every stripe of thirty-two. -/
structure Stripes where
  a : UInt64
  b : UInt64
  c : UInt64
  d : UInt64

def Stripes.start (seed : UInt64) : Stripes :=
  ⟨seed + prime₁ + prime₂, seed + prime₂, seed, seed - prime₁⟩

def Stripes.feed (s : Stripes) (stripe : List UInt8) : Stripes :=
  ⟨round s.a (littleEndian (stripe.take 8)), round s.b (littleEndian ((stripe.drop 8).take 8)),
    round s.c (littleEndian ((stripe.drop 16).take 8)),
    round s.d (littleEndian ((stripe.drop 24).take 8))⟩

def Stripes.finish (s : Stripes) : UInt64 :=
  let acc := rotl s.a 1 + rotl s.b 7 + rotl s.c 12 + rotl s.d 18
  merge (merge (merge (merge acc s.a) s.b) s.c) s.d

/-- All whole stripes of the input, of which there are `n`, and what is left. -/
def consume (s : Stripes) (bytes : List UInt8) : Nat → Stripes × List UInt8
  | 0 => (s, bytes)
  | n + 1 => consume (s.feed (bytes.take 32)) (bytes.drop 32) n

/-- The last bytes, fewer than thirty-two: by eights, a four, then one by one. -/
def tailBytes (acc : UInt64) (bytes : List UInt8) : UInt64 :=
  bytes.foldl (fun acc b => rotl (acc ^^^ (b.toUInt64 * prime₅)) 11 * prime₁) acc

def tailFour (acc : UInt64) (bytes : List UInt8) : UInt64 :=
  if 4 ≤ bytes.length then
    tailBytes (rotl (acc ^^^ (littleEndian (bytes.take 4) * prime₁)) 23 * prime₂ + prime₃)
      (bytes.drop 4)
  else tailBytes acc bytes

def tailEights (acc : UInt64) (bytes : List UInt8) : Nat → UInt64
  | 0 => tailFour acc bytes
  | n + 1 =>
    tailEights (rotl (acc ^^^ round 0 (littleEndian (bytes.take 8))) 27 * prime₁ + prime₄)
      (bytes.drop 8) n

def avalanche (h : UInt64) : UInt64 :=
  let h := (h ^^^ (h >>> 33)) * prime₂
  let h := (h ^^^ (h >>> 29)) * prime₃
  h ^^^ (h >>> 32)

def hash (bytes : List UInt8) (seed : UInt64) : UInt64 :=
  let n := bytes.length
  let (acc, rest) :=
    if 32 ≤ n then
      let (s, rest) := consume (.start seed) bytes (n / 32)
      (s.finish, rest)
    else (seed + prime₅, bytes)
  avalanche (tailEights (acc + UInt64.ofNat n) rest (rest.length / 8))

end ClassScript.XxHash64
