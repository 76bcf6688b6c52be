import Launcher.Bytes.Utf8
import Launcher.Checksum.Crc32
import Launcher.Table.Error

/-!
The byte form of a table: a header of 24 bytes (magic, version, encoding, number of records before
the sentinel, checksum of all that follows) and the records up to the sentinel. A record is the
length of its name, the name, a byte of flags, the size in four bytes and the code. Numbers have
their least significant byte first, and one that is too large for its bytes loses its upper part.
-/
namespace Launcher.Table.Format

def magic : Bytes := [0x46, 0x52, 0x5A, 0x54, 0x41, 0x42, 0x4C, 0]

def version : Nat := 1

def headerSize : Nat := 24

/-! ## Writing -/

/-- A signed number in four bytes. -/
def encodeInt (i : Int) : Bytes := Bytes.encodeLE 4 (i % 0x100000000).toNat

/-- The flags of a record: bit 0 for code, bit 1 for a package where the encoding flags them. -/
def flags (encoding : Encoding) (r : Record) : UInt8 :=
  (if r.code.isSome then 1 else 0) + (if r.isPackage ∧ encoding = .packageFlag then 2 else 0)

def encodeRecord (encoding : Encoding) (r : Record) : Bytes :=
  let name := Bytes.ofString r.name
  Bytes.encodeLE 4 name.length ++ name ++ flags encoding r :: encodeInt r.size ++ r.code.getD []

/-- The records up to the first sentinel, and that sentinel if there is one. -/
def upToSentinel (rs : List Record) : List Record :=
  rs.takeWhile (!·.isSentinel) ++ (rs.find? (·.isSentinel)).toList

/-- The byte form of a list of records, which ends at its first sentinel. -/
def write (encoding : Encoding) (rs : List Record) : Bytes :=
  let body := (upToSentinel rs).flatMap (encodeRecord encoding)
  magic ++ Bytes.encodeLE 4 version ++ Bytes.encodeLE 4 encoding.number ++
    Bytes.encodeLE 4 (rs.takeWhile (!·.isSentinel)).length ++
    Bytes.encodeLE 4 (Crc32.checksum body).toNat ++ body

/-! ## Reading -/

/-- A place in the bytes of a table. -/
structure Place where
  offset : Nat
  rest : Bytes

/-- Take `n` bytes, which must be there. -/
def take (n : Nat) (p : Place) : Except TableError (Bytes × Place) :=
  match Bytes.takeBytes n p.rest with
  | some (bs, rest) => .ok (bs, ⟨p.offset + n, rest⟩)
  | none => .error (.truncated p.offset)

def takeNat (n : Nat) (p : Place) : Except TableError (Nat × Place) :=
  (take n p).map fun (bs, p) => (Bytes.valueLE bs, p)

/-- Take a signed number of four bytes. -/
def takeInt (p : Place) : Except TableError (Int × Place) :=
  (takeNat 4 p).map fun (n, p) => (if n < 0x80000000 then (n : Int) else n - 0x100000000, p)

/-- Whether a record is a package. A negative size needs the flag where the encoding has one. -/
def packageOf (encoding : Encoding) (name : String) (flags : Nat) (size : Int) :
    Except TableError Bool :=
  match encoding with
  | .signedSize => .ok (size < 0)
  | .packageFlag =>
    let flagged := flags / 2 % 2 = 1
    if size < 0 ∧ ¬flagged then .error (.inconsistentRecord name) else .ok flagged

/-- The code of a record, if its flags say that it has any; the size says how long it is. -/
def takeCode (flags : Nat) (size : Int) (p : Place) : Except TableError (Option Bytes × Place) :=
  if flags % 2 = 1 then (take size.natAbs p).map fun (code, p) => (some code, p) else .ok (none, p)

/-- The record at a place, or nothing if it is a sentinel; of that the code is left. -/
def takeRecord (encoding : Encoding) (p : Place) : Except TableError (Option Record × Place) := do
  let start := p.offset
  let (length, p) ← takeNat 4 p
  let (bytes, p) ← take length p
  match Utf8.decode? bytes with
  | none => .error (.invalidUtf8 start)
  | some name =>
    let (flags, p) ← takeNat 1 p
    let (size, p) ← takeInt p
    if name.isEmpty then .ok (none, p)
    else
      let (code, p) ← takeCode flags size p
      let isPackage ← packageOf encoding name flags size
      .ok (some ⟨name, code, size, isPackage⟩, p)

/-- The records up to the sentinel. Each is at least nine bytes long, so the number of bytes
bounds the rounds. -/
def takeRecords (encoding : Encoding) : (rounds : Nat) → Place → Except TableError (List Record)
  | 0, _ => .error .missingSentinel
  | rounds + 1, p =>
    if p.rest.isEmpty then .error .missingSentinel
    else do
      match ← takeRecord encoding p with
      | (none, _) => .ok []
      | (some r, p) =>
        let more ← takeRecords encoding rounds p
        .ok (r :: more)

/-- The encoding and the records of a byte form. -/
def read (bs : Bytes) : Except TableError (Encoding × List Record) :=
  if bs.length < headerSize then .error (.truncated bs.length)
  else if bs.take 8 ≠ magic then .error (.invalidMagic (bs.take 8))
  else do
    let (found, p) ← takeNat 4 ⟨8, bs.drop 8⟩
    if found ≠ version then .error (.unsupportedVersion found)
    else
      let (number, p) ← takeNat 4 p
      match Encoding.ofNumber? number with
      | none => .error (.unknownEncoding number)
      | some encoding =>
        let (count, p) ← takeNat 4 p
        let (expected, p) ← takeNat 4 p
        let actual := (Crc32.checksum (bs.drop headerSize)).toNat
        if actual ≠ expected then .error (.checksumMismatch expected actual)
        else
          let rs ← takeRecords encoding bs.length p
          let found := rs.length % 0x100000000
          if found ≠ count then .error (.entryCountMismatch count found)
          else .ok (encoding, rs)

end Launcher.Table.Format
