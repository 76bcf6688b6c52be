import Launcher.Table.Unit

/-!
What can be wrong with the units given for a table, and with the bytes of one.
-/
namespace Launcher.Table

inductive TableError where
  | duplicateUnitName (name : String)
  /-- A unit is also listed as a forced failure. -/
  | conflictingBlacklist (name : String)
  | invalidUnitName (name : String)
  | unitTooLarge (name : String) (size : Nat)
  /-- Two names share the identifier of their code. -/
  | identifierCollision (identifier first second : String)
  /-- A size of 0 has no sign to mark a package with. -/
  | ambiguousEmptyPackage (name : String)
  | invalidMagic (found : Bytes)
  | unsupportedVersion (version : Nat)
  | unknownEncoding (encoding : Nat)
  | checksumMismatch (expected actual : Nat)
  | truncated (offset : Nat)
  | missingSentinel
  | entryCountMismatch (expected actual : Nat)
  | invalidUtf8 (offset : Nat)
  /-- The flags of a record contradict its size. -/
  | inconsistentRecord (name : String)
deriving DecidableEq, Repr

namespace TableError

def hexNumber (n : Nat) : String := "0x" ++ String.ofList (Nat.toDigits 16 n)

def quote (s : String) : String := "'" ++ s ++ "'"

def byteList (bs : Bytes) : String :=
  "[" ++ ", ".intercalate (bs.map fun b => toString b.toNat) ++ "]"

def message : TableError → String
  | duplicateUnitName name => "duplicate unit name " ++ quote name
  | conflictingBlacklist name =>
    "unit " ++ quote name ++ " is both frozen and listed as a forced import failure"
  | invalidUnitName name => "invalid unit name " ++ quote name
  | unitTooLarge name size =>
    "unit " ++ quote name ++ s!" is too large for the table ({size} bytes)"
  | identifierCollision identifier first second =>
    "units " ++ quote first ++ " and " ++ quote second ++ " both map to blob identifier " ++
      quote identifier
  | ambiguousEmptyPackage name =>
    "empty package " ++ quote name ++ " cannot be represented in the signed-size encoding"
  | invalidMagic found => "invalid table magic: " ++ byteList found
  | unsupportedVersion version => s!"unsupported table version {version}"
  | unknownEncoding encoding => s!"unknown table encoding {encoding}"
  | checksumMismatch expected actual =>
    "table checksum mismatch: expected " ++ hexNumber expected ++ ", got " ++ hexNumber actual
  | truncated offset => s!"table truncated at offset {offset}"
  | missingSentinel => "table has no sentinel record"
  | entryCountMismatch expected actual =>
    s!"table header announces {expected} entries, found {actual}"
  | invalidUtf8 offset => s!"record name at offset {offset} is not valid UTF-8"
  | inconsistentRecord name => "record " ++ quote name ++ " has inconsistent flags and size"

end TableError

/-- How a table says that a unit is a package. -/
inductive Encoding where
  /-- A package has a negative size. -/
  | signedSize
  /-- A package has a negative size and a flag. -/
  | packageFlag
deriving DecidableEq, Repr

namespace Encoding

def all : List Encoding := [signedSize, packageFlag]

def name : Encoding → String
  | signedSize => "signed-size"
  | packageFlag => "package-flag"

def number : Encoding → Nat
  | signedSize => 0
  | packageFlag => 1

def ofNumber? (n : Nat) : Option Encoding := all.find? (·.number = n)

/-- The encoding of a name, or the complaint that there is none. -/
def ofName (name : String) : Except String Encoding :=
  match all.find? (·.name = name) with
  | some e => .ok e
  | none =>
    .error ("unknown table encoding '" ++ name ++ "' (expected signed-size or package-flag)")

end Encoding

end Launcher.Table
