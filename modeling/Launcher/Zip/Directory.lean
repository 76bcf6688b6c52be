import Launcher.Text.CodePage437
import Launcher.Zip.Extra

/-!
The directory of an archive. A record at the end of the archive says where the directory is, and
the directory describes the members one by one. Bytes may stand in front of the archive, in which
case all places are further back than the archive says. Of several end records the last one counts
that leads to a sound directory.
-/
namespace Launcher.Zip

def localSignature : Bytes := [0x50, 0x4B, 3, 4]

def centralSignature : Bytes := [0x50, 0x4B, 1, 2]

def endSignature : Bytes := [0x50, 0x4B, 5, 6]

def wideEndSignature : Bytes := [0x50, 0x4B, 6, 6]

def locatorSignature : Bytes := [0x50, 0x4B, 6, 7]

/-- The number in the `k` bytes at position `i` of a record. -/
def field (r : Bytes) (i k : Nat) : Nat := Bytes.valueLE ((r.drop i).take k)

def startsWith (bs signature : Bytes) : Bool := signature.isPrefixOf bs

/-- The record of a size at a place, which a signature must open. -/
def recordAt? (bytes signature : Bytes) (size place : Nat) : Option Bytes :=
  let r := (bytes.drop place).take size
  if r.length = size ∧ startsWith r signature then some r else none

/-! ## Members -/

/-- A text in UTF-8, or else in the old character set. -/
def legacyText (utf8 : Bool) (bs : Bytes) : String :=
  if utf8 then Utf8.decodeLossy bs else CodePage437.decode bs

/-- The method of members that are encrypted by AES; the true one is in an extra field. -/
def aesMethod : Nat := 99

/-- Where a directory is, and how many members it describes. -/
structure Extent where
  /-- Where the archive begins. -/
  base : Nat
  start : Nat
  count : Nat
deriving DecidableEq, Repr

/-- The member described at a place, and where its description ends. It must begin before the
directory does. -/
def memberAt? (bytes : Bytes) (x : Extent) (place : Nat) : Option (Member × Nat) := do
  let r ← recordAt? bytes centralSignature 46 place
  let flags := field r 8 2
  let utf8 := flags >>> 11 % 2 = 1
  let (name, rest) ← Bytes.takeBytes (field r 28 2) (bytes.drop (place + 46))
  let (extra, rest) ← Bytes.takeBytes (field r 30 2) rest
  let (comment, _) ← Bytes.takeBytes (field r 32 2) rest
  let described : Member :=
    { name := legacyText utf8 name, rawName := name, comment := legacyText utf8 comment
      encrypted := flags % 2 = 1, method := field r 10 2, checksum := field r 16 4
      compressedSize := field r 20 4, size := field r 24 4, header := field r 42 4 }
  let m ← described.corrected? extra
  let header := m.header + x.base
  if (m.method = aesMethod ∧ !m.sealed) ∨ x.start ≤ header then none
  else some ({ m with header }, place + 46 + name.length + extra.length + comment.length)

/-- The members that are described from a place on. -/
def membersFrom? (bytes : Bytes) (x : Extent) : (count place : Nat) → Option (List Member)
  | 0, _ => some []
  | count + 1, place => do
    let (m, next) ← memberAt? bytes x place
    let members ← membersFrom? bytes x count next
    some (m :: members)

/-! ## End records -/

/-- The first answer of `f` at a place from `place` on where a signature stands. -/
def firstAt? {α : Type} (signature : Bytes) (f : Nat → Option α) :
    (rest : Bytes) → (place : Nat) → Option α
  | [], _ => none
  | b :: rest, place =>
    if startsWith (b :: rest) signature then (f place).or (firstAt? signature f rest (place + 1))
    else firstAt? signature f rest (place + 1)

/-- The first answer between two places. -/
def firstBetween? {α : Type} (bytes signature : Bytes) (lo hi : Nat) (f : Nat → Option α) :
    Option α :=
  firstAt? signature f ((bytes.drop lo).take (hi - lo)) lo

/-- A directory that is all in one part of an archive. -/
def undivided? (disk directoryDisk : Nat) (x : Extent) : Option Extent :=
  if disk = directoryDisk then some x else none

/-- What an end record `r` at `place` says. The directory is looked for from where it would be if
the archive had nothing in front. -/
def narrowExtent? (bytes r : Bytes) (place : Nat) : Option Extent := do
  let offset := field r 16 4
  let base ←
    if field r 10 2 = 0 then some (place - offset)
    else if place ≤ offset then none
    else firstBetween? bytes centralSignature offset place fun p => some (p - offset)
  undivided? (field r 4 2) (field r 6 2) ⟨base, offset + base, field r 8 2⟩

/-- The wide end record at `p`, if it agrees with the locator `l` at `place`. -/
def wideRecord? (bytes l : Bytes) (place p : Nat) : Option (Nat × Bytes) := do
  let w ← recordAt? bytes wideEndSignature 56 p
  let size := field w 4 8
  if 44 ≤ size ∧ p + size + 12 = place ∧ field w 20 4 = field l 4 4 ∧
      field w 32 8 * 46 + field w 48 8 ≤ p then
    some (p, w)
  else none

/-- What the locator `l` at `place` leads to. -/
def wideExtent? (bytes l : Bytes) (place : Nat) : Option Extent := do
  let offset := field l 8 8
  if place ≤ offset ∨ 1 < field l 16 4 then none
  let (p, w) ← firstBetween? bytes wideEndSignature offset place (wideRecord? bytes l place)
  if field w 32 8 < field w 24 8 ∨ field w 12 2 < field w 14 2 then none
  let base := p - offset
  undivided? (field w 16 4) (field w 20 4) ⟨base, field w 48 8 + base, field w 32 8⟩

/-- Where the directory is by the end record at a place. A wide record counts where the numbers of
this one do not fit and there is a locator in front of it. -/
def extentAt? (bytes : Bytes) (place : Nat) : Option Extent := do
  let r ← recordAt? bytes endSignature 22 place
  if bytes.length < place + 22 + field r 20 2 then none
  let wide := field r 10 2 = 0xFFFF ∨ field r 16 4 = 0xFFFFFFFF
  let locator :=
    if wide ∧ 20 ≤ place then recordAt? bytes locatorSignature 20 (place - 20) else none
  match locator with
  | some l => wideExtent? bytes l (place - 20)
  | none => narrowExtent? bytes r place

/-- The members by the end record at a place. -/
def membersAt? (bytes : Bytes) (place : Nat) : Option (List Member) := do
  let x ← extentAt? bytes place
  membersFrom? bytes x x.count x.start

/-- The last answer of `f` at a place where an end record stands, or else `best`. -/
def lastAt? {α : Type} (f : Nat → Option α) (best : Option α) :
    (rest : Bytes) → (place : Nat) → Option α
  | [], _ => best
  | b :: rest, place =>
    let here := if startsWith (b :: rest) endSignature then f place else none
    lastAt? f (here.or best) rest (place + 1)

/-- The members of an archive. -/
def directory? (bytes : Bytes) : Option (List Member) := lastAt? (membersAt? bytes) none bytes 0

end Launcher.Zip
