import Launcher.Bytes.Basic

/-!
The hash of 256 bits of the second secure hash family. A message is padded to blocks of 64 bytes,
and each block in turn is stirred into a state of eight words.
-/
namespace Launcher.Sha256

structure State where
  a : UInt32
  b : UInt32
  c : UInt32
  d : UInt32
  e : UInt32
  f : UInt32
  g : UInt32
  h : UInt32
deriving DecidableEq, Repr

/-- The first 32 bits after the point of the square roots of the first eight primes. -/
def initial : State :=
  ⟨0x6a09e667, 0xbb67ae85, 0x3c6ef372, 0xa54ff53a, 0x510e527f, 0x9b05688c, 0x1f83d9ab, 0x5be0cd19⟩

/-- The first 32 bits after the point of the cube roots of the first 64 primes. -/
def roundConstants : List UInt32 :=
  [0x428a2f98, 0x71374491, 0xb5c0fbcf, 0xe9b5dba5, 0x3956c25b, 0x59f111f1, 0x923f82a4, 0xab1c5ed5,
    0xd807aa98, 0x12835b01, 0x243185be, 0x550c7dc3, 0x72be5d74, 0x80deb1fe, 0x9bdc06a7, 0xc19bf174,
    0xe49b69c1, 0xefbe4786, 0x0fc19dc6, 0x240ca1cc, 0x2de92c6f, 0x4a7484aa, 0x5cb0a9dc, 0x76f988da,
    0x983e5152, 0xa831c66d, 0xb00327c8, 0xbf597fc7, 0xc6e00bf3, 0xd5a79147, 0x06ca6351, 0x14292967,
    0x27b70a85, 0x2e1b2138, 0x4d2c6dfc, 0x53380d13, 0x650a7354, 0x766a0abb, 0x81c2c92e, 0x92722c85,
    0xa2bfe8a1, 0xa81a664b, 0xc24b8b70, 0xc76c51a3, 0xd192e819, 0xd6990624, 0xf40e3585, 0x106aa070,
    0x19a4c116, 0x1e376c08, 0x2748774c, 0x34b0bcb5, 0x391c0cb3, 0x4ed8aa4a, 0x5b9cca4f, 0x682e6ff3,
    0x748f82ee, 0x78a5636f, 0x84c87814, 0x8cc70208, 0x90befffa, 0xa4506ceb, 0xbef9a3f7, 0xc67178f2]

def rotate (x n : UInt32) : UInt32 := (x >>> n) ||| (x <<< (32 - n))

/-- The words of a block with 48 more, each mixed from four before it. -/
def schedule (words : Array UInt32) : Array UInt32 :=
  (List.range 48).foldl (fun ws i =>
    let near := ws.getD (i + 1) 0
    let far := ws.getD (i + 14) 0
    let low := rotate near 7 ^^^ rotate near 18 ^^^ (near >>> 3)
    let high := rotate far 17 ^^^ rotate far 19 ^^^ (far >>> 10)
    ws.push (ws.getD i 0 + low + ws.getD (i + 9) 0 + high)) words

/-- Stir in one word. -/
def round (s : State) (word : UInt32) : State :=
  let mixed := rotate s.e 6 ^^^ rotate s.e 11 ^^^ rotate s.e 25
  let choice := (s.e &&& s.f) ^^^ (~~~s.e &&& s.g)
  let new := s.h + mixed + choice + word
  let spread := rotate s.a 2 ^^^ rotate s.a 13 ^^^ rotate s.a 22
  let majority := (s.a &&& s.b) ^^^ (s.a &&& s.c) ^^^ (s.b &&& s.c)
  ⟨new + spread + majority, s.a, s.b, s.c, s.d + new, s.e, s.f, s.g⟩

/-- The number that bytes spell, most significant first. -/
def word (bs : Bytes) : UInt32 := bs.foldl (fun w b => (w <<< 8) ||| b.toUInt32) 0

/-- The first words of a byte string. -/
def words : (count : Nat) → Bytes → List UInt32
  | 0, _ => []
  | count + 1, bs => word (bs.take 4) :: words count (bs.drop 4)

/-- Stir in a block. -/
def compress (s : State) (block : Bytes) : State :=
  let ws := (schedule (words 16 block).toArray).toList
  let t := (List.zipWith (· + ·) roundConstants ws).foldl round s
  ⟨s.a + t.a, s.b + t.b, s.c + t.c, s.d + t.d, s.e + t.e, s.f + t.f, s.g + t.g, s.h + t.h⟩

/-- Stir in so many blocks. -/
def compressAll : (count : Nat) → Bytes → State → State
  | 0, _, s => s
  | count + 1, bs, s => compressAll count (bs.drop 64) (compress s (bs.take 64))

/-- The bytes of a number, of which there are `k`, most significant first. -/
def encodeBE (k n : Nat) : Bytes := (Bytes.encodeLE k n).reverse

/-- A message with a one bit, zeros, and its length in bits behind it. -/
def pad (bs : Bytes) : Bytes :=
  bs ++ 0x80 :: List.replicate ((119 - bs.length % 64) % 64) 0 ++ encodeBE 8 (8 * bs.length)

def State.bytes (s : State) : Bytes :=
  [s.a, s.b, s.c, s.d, s.e, s.f, s.g, s.h].flatMap fun w => encodeBE 4 w.toNat

/-- The hash of a message. -/
def digest (bs : Bytes) : Bytes :=
  let padded := pad bs
  (compressAll (padded.length / 64) padded initial).bytes

/-- The hash of a message in hexadecimal digits. -/
def hexDigest (bs : Bytes) : String :=
  String.ofList ((digest bs).flatMap fun b =>
    [Nat.digitChar (b.toNat / 16), Nat.digitChar (b.toNat % 16)])

end Launcher.Sha256
