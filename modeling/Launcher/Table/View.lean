import Launcher.Table.Format

/-!
Tables as they are looked things up in: the records before the sentinel, of which the first with a
name speaks for it.
-/
namespace Launcher.Table

/-- The records of a table, and their encoding where it is known. -/
structure FrozenTable where
  encoding : Option Encoding := none
  entries : List Record := []
deriving DecidableEq, Repr

/-- The answer for a name. -/
inductive Lookup where
  | found (name : String) (code : Bytes) (isPackage : Bool)
  /-- The name must not be looked for anywhere else. -/
  | forcedFailure
  | notFound
deriving DecidableEq, Repr

namespace FrozenTable

/-- The table of a list of records that a sentinel ends. -/
def ofRecords (rs : List Record) : Except TableError FrozenTable :=
  if rs.any (·.isSentinel) then .ok { entries := rs.takeWhile (!·.isSentinel) }
  else .error .missingSentinel

/-- The table of a byte form. -/
def parse (bs : Bytes) : Except TableError FrozenTable :=
  (Format.read bs).map fun (encoding, rs) => ⟨some encoding, rs⟩

def find (t : FrozenTable) (name : String) : Lookup :=
  match t.entries.find? (·.name = name) with
  | none => .notFound
  | some r =>
    match r.code with
    | some code => .found r.name code r.isPackage
    | none => .forcedFailure

end FrozenTable

end Launcher.Table
