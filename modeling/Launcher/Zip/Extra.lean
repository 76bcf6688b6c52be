import Launcher.Bytes.Utf8
import Launcher.Checksum.Crc32

/-!
Members of an archive as its directory describes them, and the extra fields of a description. An
extra field has a number, the length of its content and the content. Some correct what the
description says: sizes and places of eight bytes, names and comments in UTF-8, and the method of
a member that is encrypted in a way of its own.
-/
namespace Launcher.Zip

/-- A member as the directory of an archive describes it. -/
structure Member where
  name : String
  /-- The bytes of the name. -/
  rawName : Bytes
  comment : String
  encrypted : Bool
  method : Nat
  checksum : Nat
  size : Nat
  compressedSize : Nat
  /-- Where the header in front of the content begins. -/
  header : Nat
  /-- The content is encrypted by AES. -/
  sealed : Bool := false
deriving DecidableEq, Repr

/-- Why extra fields are read no further. -/
inductive ExtraStop where
  /-- They end within a field; what was read counts. -/
  | short
  /-- A field is wrong, and so is the archive. -/
  | wrong
deriving DecidableEq, Repr

namespace Extra

/-- A reader of what follows the number and the length of a field. It gives the member as corrected,
also when it stops. -/
abbrev Reader := Member → Bytes → Member × Except ExtraStop Bytes

def take (n : Nat) (bs : Bytes) : Except ExtraStop (Bytes × Bytes) :=
  match Bytes.takeBytes n bs with
  | some r => .ok r
  | none => .error .short

def takeNat (n : Nat) (bs : Bytes) : Except ExtraStop (Nat × Bytes) :=
  (take n bs).map fun (h, t) => (Bytes.valueLE h, t)

def wrongUnless (p : Prop) [Decidable p] : Except ExtraStop Unit :=
  if p then .ok () else .error .wrong

/-- A reader that corrects the member only when it has read all. -/
def whole (read : Member → Bytes → Except ExtraStop (Member × Bytes)) : Reader := fun m bs =>
  match read m bs with
  | .ok (m, rest) => (m, .ok rest)
  | .error e => (m, .error e)

/-! ## Numbers of eight bytes -/

/-- A number of four bytes with this value stands in an extra field. -/
def elsewhere : Nat := 0xFFFFFFFF

/-- A number of a member. -/
structure Slot where
  get : Member → Nat
  set : Nat → Member → Member

def slots : List Slot :=
  [⟨Member.size, fun n m => { m with size := n }⟩,
   ⟨Member.compressedSize, fun n m => { m with compressedSize := n }⟩,
   ⟨Member.header, fun n m => { m with header := n }⟩]

/-- Numbers for those of the slots that say so, or for all if the field has room for them. `used` is
the part of the field that is read. -/
def wide (length : Nat) : List Slot → (used : Nat) → Reader
  | [], used => whole fun m bs => do
    wrongUnless (used ≤ length)
    let (_, rest) ← take (length - used) bs
    .ok (m, rest)
  | s :: slots, used => fun m bs =>
    if 24 ≤ length ∨ s.get m = elsewhere then
      match takeNat 8 bs with
      | .ok (n, rest) => wide length slots (used + 8) (s.set n m) rest
      | .error e => (m, .error e)
    else wide length slots used m bs

/-! ## Other fields -/

/-- Three times of a file system. -/
def fileTimes (length : Nat) : Reader := whole fun m bs => do
  wrongUnless (length = 32)
  let (_, bs) ← take 4 bs
  let (tag, bs) ← takeNat 2 bs
  wrongUnless (tag = 1)
  let (size, bs) ← takeNat 2 bs
  wrongUnless (size = 24)
  let (_, bs) ← take 24 bs
  .ok (m, bs)

/-- How many of the lowest `n` bits of a number are set. -/
def bitCount : (n : Nat) → Nat → Nat
  | 0, _ => 0
  | n + 1, v => v % 2 + bitCount n (v / 2)

/-- Up to three times of four bytes, each there if its bit is set. A field of one time has that of
the last change. -/
def times (length : Nat) : Reader := whole fun m bs => do
  let (flags, bs) ← takeNat 1 bs
  wrongUnless (length = 5 ∨ length = 1 + 4 * bitCount 8 flags)
  let count := if length = 5 then 1 else bitCount 3 flags
  let (_, bs) ← take (4 * count) bs
  .ok (m, bs)

/-- How a member is encrypted, and its method. -/
def aes (length : Nat) : Reader := whole fun m bs => do
  wrongUnless (length = 7)
  let (version, bs) ← takeNat 2 bs
  let (vendor, bs) ← takeNat 2 bs
  let (strength, bs) ← takeNat 1 bs
  let (method, bs) ← takeNat 2 bs
  wrongUnless (vendor = 0x4541 ∧ (version = 1 ∨ version = 2) ∧ 1 ≤ strength ∧ strength ≤ 3)
  .ok ({ m with method, sealed := true }, bs)

/-- A text in UTF-8 with the checksum of the text that it replaces. -/
def unicode (length : Nat) (replaced bs : Bytes) : Except ExtraStop (Bytes × String × Bytes) := do
  let (_, bs) ← take 1 bs
  let (checksum, bs) ← takeNat 4 bs
  wrongUnless (5 ≤ length)
  let (content, bs) ← take (length - 5) bs
  wrongUnless ((Crc32.checksum replaced).toNat = checksum)
  match Utf8.decode? content with
  | some text => .ok (content, text, bs)
  | none => .error .wrong

def unicodeComment (length : Nat) : Reader := whole fun m bs => do
  let (_, text, bs) ← unicode length (Bytes.ofString m.comment) bs
  .ok ({ m with comment := text }, bs)

def unicodeName (length : Nat) : Reader := whole fun m bs => do
  let (raw, text, bs) ← unicode length m.rawName bs
  .ok ({ m with rawName := raw, name := text }, bs)

def unknown (length : Nat) : Reader := whole fun m bs => do
  let (_, bs) ← take length bs
  .ok (m, bs)

/-- The reader of a field by its number. -/
def reader (number length : Nat) : Reader :=
  match number with
  | 0x0001 => wide length slots 0
  | 0x000A => fileTimes length
  | 0x9901 => aes length
  | 0x5455 => times length
  | 0x6375 => unicodeComment length
  | 0x7075 => unicodeName length
  | _ => unknown length

/-- A member as corrected by its extra fields, or none if one of them is wrong. A field has four
bytes at least, so the number of bytes bounds the rounds. -/
def apply : (rounds : Nat) → Member → Bytes → Option Member
  | 0, m, _ => some m
  | rounds + 1, m, bs =>
    match Bytes.takeLE 2 bs with
    | none => some m
    | some (number, bs) =>
      match Bytes.takeLE 2 bs with
      | none => some m
      | some (length, bs) =>
        match reader number length m bs with
        | (m, .ok rest) => apply rounds m rest
        | (m, .error .short) => some m
        | (_, .error .wrong) => none

end Extra

/-- A member as its extra fields say. -/
def Member.corrected? (m : Member) (extra : Bytes) : Option Member :=
  Extra.apply extra.length m extra

end Launcher.Zip
