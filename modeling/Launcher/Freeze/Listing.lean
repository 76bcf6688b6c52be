import Launcher.Checksum.Sha256
import Launcher.Table.View

/-!
Listings of frozen tables: the encoding, a hash of the bytes, a line for each record, and how many
there are of which kind.
-/
namespace Launcher.Freeze.Listing

def kind (r : Table.Record) : String :=
  if r.isForcedFailure then "blocked" else if r.isPackage then "package" else "module"

/-- The spaces that a text is short of a width. -/
def padding (width : Nat) (s : String) : String :=
  String.ofList (List.replicate (width - s.length) ' ')

/-- A text with spaces behind it, up to a width. -/
def padRight (width : Nat) (s : String) : String := s ++ padding width s

/-- A text with spaces in front of it, up to a width. -/
def padLeft (width : Nat) (s : String) : String := padding width s ++ s

def line (r : Table.Record) : String :=
  padRight 8 (kind r) ++ " " ++ padLeft 9 (toString r.size) ++ " " ++ r.name ++ "\n"

/-- The listing of a table, given by its bytes. -/
def ofBytes (bs : Bytes) : Except Table.TableError String := do
  let t ← Table.FrozenTable.parse bs
  let blocked := t.entries.countP (·.isForcedFailure)
  let encoding := match t.encoding with
    | some e => "encoding: " ++ e.name ++ "\n"
    | none => ""
  .ok (encoding ++ "sha256: " ++ Sha256.hexDigest bs ++ "\n" ++
    String.join (t.entries.map line) ++
    s!"{t.entries.length - blocked} units, {blocked} blocked\n")

end Launcher.Freeze.Listing
