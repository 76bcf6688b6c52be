import Launcher.Bytes.Basic

/-!
Decompression of deflated data. The data is a row of blocks, stored as they are or written in
prefix codes that are either fixed or given by the block. Bits come from each byte starting with
the least significant.
-/
namespace Launcher.Inflate

/-- Bits still to come: bytes, of the first of which `used` bits are gone. -/
structure Bits where
  bytes : Bytes
  used : Nat := 0

/-- Why decompression ends before the last block does. -/
inductive Stop where
  /-- The data ends. -/
  | cutOff
  /-- The data is none of the format. -/
  | corrupt
deriving DecidableEq, Repr

def bit (b : Bits) : Except Stop (Nat × Bits) :=
  match b.bytes with
  | [] => .error .cutOff
  | byte :: rest =>
    let value := byte.toNat >>> b.used % 2
    .ok (value, if b.used < 7 then ⟨b.bytes, b.used + 1⟩ else ⟨rest, 0⟩)

/-- A number of `n` bits, the least significant first. -/
def bits : (n : Nat) → Bits → Except Stop (Nat × Bits)
  | 0, b => .ok (0, b)
  | n + 1, b => do
    let (low, b) ← bit b
    let (high, b) ← bits n b
    .ok (low + 2 * high, b)

/-! ## Prefix codes -/

/-- A prefix code: how many words there are of each length, and the symbols in the order of their
words. Words of one length are consecutive, and follow those that are shorter. -/
structure PrefixCode where
  counts : Array Nat
  symbols : Array Nat

def maxLength : Nat := 15

/-- The code in which symbol `i` has a word of length `lengths[i]`, or none if that is 0. -/
def PrefixCode.ofLengths (lengths : List Nat) : PrefixCode :=
  let pairs := lengths.zipIdx
  { counts := ((List.range (maxLength + 1)).map fun n => lengths.count n).toArray
    symbols := ((List.range maxLength).flatMap fun n =>
      (pairs.filter fun (length, _) => length = n + 1).map Prod.snd).toArray }

/-- How many words of the full length are left over; negative if there are too many words. -/
def PrefixCode.slack (c : PrefixCode) : Int :=
  (List.range maxLength).foldl (fun left n => 2 * left - (c.counts.getD (n + 1) 0 : Int)) 1

/-- The code has all the words it can have. -/
def PrefixCode.isFull (c : PrefixCode) : Bool := c.slack == 0

/-- The code has one word, which is a single bit. -/
def PrefixCode.isSingle (c : PrefixCode) : Bool := c.symbols.size == 1 && c.counts.getD 1 0 == 1

def PrefixCode.isEmpty (c : PrefixCode) : Bool := c.symbols.isEmpty

/-- The length of the longest words. Of a code without words, one bit is still read. -/
def PrefixCode.longest (c : PrefixCode) : Nat :=
  (List.range maxLength).foldl (fun l n => if c.counts.getD (n + 1) 0 = 0 then l else n + 1) 1

/-- Follow the bits of a word: `word` is what was read, `first` the first word of this length and
`index` its place among the symbols. -/
def symbolFrom (c : PrefixCode) :
    (tries length word first index : Nat) → Bits → Except Stop (Nat × Bits)
  | 0, _, _, _, _, _ => .error .corrupt
  | tries + 1, length, word, first, index, b => do
    let (x, b) ← bit b
    let word := 2 * word + x
    let first := 2 * first
    let count := c.counts.getD length 0
    if word < first + count then
      match c.symbols[index + (word - first)]? with
      | some s => .ok (s, b)
      | none => .error .corrupt
    else symbolFrom c tries (length + 1) word (first + count) (index + count) b

def symbol (c : PrefixCode) (b : Bits) : Except Stop (Nat × Bits) :=
  symbolFrom c c.longest 1 0 0 0 b

/-! ## Blocks -/

/-- The least length that a length symbol stands for, and how many bits are added to it. -/
def lengthBases : Array (Nat × Nat) :=
  #[(3, 0), (4, 0), (5, 0), (6, 0), (7, 0), (8, 0), (9, 0), (10, 0), (11, 1), (13, 1), (15, 1),
    (17, 1), (19, 2), (23, 2), (27, 2), (31, 2), (35, 3), (43, 3), (51, 3), (59, 3), (67, 4),
    (83, 4), (99, 4), (115, 4), (131, 5), (163, 5), (195, 5), (227, 5), (258, 0)]

/-- The least distance that a distance symbol stands for, and how many bits are added to it. -/
def distanceBases : Array (Nat × Nat) :=
  #[(1, 0), (2, 0), (3, 0), (4, 0), (5, 1), (7, 1), (9, 2), (13, 2), (17, 3), (25, 3), (33, 4),
    (49, 4), (65, 5), (97, 5), (129, 6), (193, 6), (257, 7), (385, 7), (513, 8), (769, 8),
    (1025, 9), (1537, 9), (2049, 10), (3073, 10), (4097, 11), (6145, 11), (8193, 12),
    (12289, 12), (16385, 13), (24577, 13)]

def based (bases : Array (Nat × Nat)) (i : Nat) (b : Bits) : Except Stop (Nat × Bits) :=
  match bases[i]? with
  | none => .error .corrupt
  | some (base, extra) => do
    let (n, b) ← bits extra b
    .ok (base + n, b)

/-- Append `n` bytes, each a copy of the one `distance` before it. In front of the first byte all
are zero. -/
def copyBack (distance : Nat) : (n : Nat) → Array UInt8 → Array UInt8
  | 0, out => out
  | n + 1, out =>
    let copied := if distance ≤ out.size then out.getD (out.size - distance) 0 else 0
    copyBack distance n (out.push copied)

/-- The bits after a block, and the content so far. -/
abbrev Outcome := Except Stop (Bits × Array UInt8)

/-- The length and the distance of a copy, of which the length symbol is read. -/
def reference (distances : PrefixCode) (lengthSymbol : Nat) (b : Bits) :
    Except Stop (Nat × Nat × Bits) := do
  let (length, b) ← based lengthBases (lengthSymbol - 257) b
  let (d, b) ← symbol distances b
  let (distance, b) ← based distanceBases d b
  .ok (length, distance, b)

/-- The symbols of a block up to its end. Each takes a bit, so the number of bits bounds the
rounds. -/
def compressed (literals distances : PrefixCode) : (rounds : Nat) → Bits → Array UInt8 → Outcome
  | 0, _, _ => .error .cutOff
  | rounds + 1, b, out => do
    let (s, b) ← symbol literals b
    if s < 256 then compressed literals distances rounds b (out.push (UInt8.ofNat s))
    else if s = 256 then .ok (b, out)
    else
      let (length, distance, b) ← reference distances s b
      compressed literals distances rounds b (copyBack distance length out)

def fixedLiterals : PrefixCode :=
  .ofLengths (List.replicate 144 8 ++ List.replicate 112 9 ++ List.replicate 24 7 ++
    List.replicate 8 8)

def fixedDistances : PrefixCode := .ofLengths (List.replicate 32 5)

/-- The order in which the lengths of the code for lengths are given. -/
def lengthOrder : List Nat := [16, 17, 18, 0, 8, 7, 9, 6, 10, 5, 11, 4, 12, 3, 13, 2, 14, 1, 15]

/-- Numbers of three bits. -/
def triples : (n : Nat) → Bits → Except Stop (List Nat × Bits)
  | 0, b => .ok ([], b)
  | n + 1, b => do
    let (x, b) ← bits 3 b
    let (xs, b) ← triples n b
    .ok (x :: xs, b)

/-- Word lengths, of which `total` are wanted; a symbol above 15 repeats one. They come in reverse
order. -/
def wordLengths (c : PrefixCode) (total : Nat) :
    (rounds : Nat) → List Nat → Bits → Except Stop (List Nat × Bits)
  | 0, _, _ => .error .corrupt
  | rounds + 1, seen, b =>
    if total ≤ seen.length then
      if seen.length = total then .ok (seen, b) else .error .corrupt
    else do
      let (s, b) ← symbol c b
      if s < 16 then wordLengths c total rounds (s :: seen) b
      else if s = 16 then
        match seen with
        | [] => .error .corrupt
        | last :: _ =>
          let (n, b) ← bits 2 b
          wordLengths c total rounds (List.replicate (3 + n) last ++ seen) b
      else if s = 17 then
        let (n, b) ← bits 3 b
        wordLengths c total rounds (List.replicate (3 + n) 0 ++ seen) b
      else
        let (n, b) ← bits 7 b
        wordLengths c total rounds (List.replicate (11 + n) 0 ++ seen) b

/-- The codes that a block gives: for literals and lengths, and for distances. The code for lengths
must be full, and the others full or single; that for distances can also be empty. -/
def givenCodes (b : Bits) : Except Stop (PrefixCode × PrefixCode × Bits) := do
  let (hlit, b) ← bits 5 b
  let (hdist, b) ← bits 5 b
  let (hclen, b) ← bits 4 b
  let literalCount := hlit + 257
  let distanceCount := hdist + 1
  if 286 < literalCount ∨ 30 < distanceCount then .error .corrupt
  let (given, b) ← triples (hclen + 4) b
  let table := lengthOrder.zip given
  let lengthCode := PrefixCode.ofLengths ((List.range 19).map fun i => (table.lookup i).getD 0)
  if !lengthCode.isFull then .error .corrupt
  let total := literalCount + distanceCount
  let (reversed, b) ← wordLengths lengthCode total (total + 1) [] b
  let lengths := reversed.reverse
  let literals := PrefixCode.ofLengths (lengths.take literalCount)
  let distances := PrefixCode.ofLengths (lengths.drop literalCount)
  if (literals.isFull || literals.isSingle) &&
      (distances.isFull || distances.isSingle || distances.isEmpty) then
    .ok (literals, distances, b)
  else .error .corrupt

/-- A number of two bytes. -/
def short (bytes : Bytes) : Except Stop (Nat × Bytes) :=
  match Bytes.takeLE 2 bytes with
  | some r => .ok r
  | none => .error .cutOff

/-- A block that is stored as it is, from the next full byte on. -/
def stored (b : Bits) (out : Array UInt8) : Outcome := do
  let (length, bytes) ← short (if b.used = 0 then b.bytes else b.bytes.drop 1)
  let (complement, bytes) ← short bytes
  if length + complement ≠ 0xFFFF then .error .corrupt
  else
    match Bytes.takeBytes length bytes with
    | some (content, rest) => .ok (⟨rest, 0⟩, out.appendList content)
    | none => .error .cutOff

def bitCount (b : Bits) : Nat := 8 * b.bytes.length

/-- The content of a block by its kind. -/
def block (kind : Nat) (b : Bits) (out : Array UInt8) : Outcome :=
  match kind with
  | 0 => stored b out
  | 1 => compressed fixedLiterals fixedDistances (bitCount b) b out
  | 2 => do
    let (literals, distances, b) ← givenCodes b
    compressed literals distances (bitCount b) b out
  | _ => .error .corrupt

/-- Blocks up to the last one. -/
def blocks : (rounds : Nat) → Bits → Array UInt8 → Outcome
  | 0, _, _ => .error .cutOff
  | rounds + 1, b, out => do
    let (last, b) ← bits 1 b
    let (kind, b) ← bits 2 b
    let (b, out) ← block kind b out
    if last = 1 then .ok (b, out) else blocks rounds b out

/-- The content of deflated data. -/
def inflate (bs : Bytes) : Except Stop Bytes :=
  (blocks (8 * bs.length) ⟨bs, 0⟩ #[]).map fun (_, out) => out.toList

end Launcher.Inflate
