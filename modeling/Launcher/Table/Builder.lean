import Launcher.Table.View

/-!
Tables built from units and names whose import must fail: the units in the order of their names,
then the forced failures in theirs, then the sentinel. Equal inputs give equal tables, in whatever
order they come.
-/
namespace Launcher.Table

/-- The record of a unit whose name and size are allowed. -/
def encodeUnit (u : CompiledUnit) : Except TableError Record :=
  if !isUnitName u.name then .error (.invalidUnitName u.name)
  else if maxCodeSize < u.code.length then .error (.unitTooLarge u.name u.code.length)
  else .ok (Record.unit u.name u.code u.isPackage)

/-- What a table is built from. -/
structure Builder where
  encoding : Encoding := .packageFlag
  units : List CompiledUnit := []
  failImport : List String := []
deriving DecidableEq, Repr

/-- A finished table: its records, the sentinel last, and the identifiers of its code, one for
each unit. -/
structure BuiltTable where
  encoding : Encoding
  records : List Record
  identifiers : List String
deriving DecidableEq, Repr

namespace Builder

def addUnits (b : Builder) (us : List CompiledUnit) : Builder := { b with units := b.units ++ us }

def failNames (b : Builder) (names : List String) : Builder :=
  { b with failImport := b.failImport ++ names }

/-- The first member equal to the one after it. -/
def firstRepeated? : List String → Option String
  | a :: b :: rest => if a = b then some a else firstRepeated? (b :: rest)
  | _ => none

/-- A sorted list without repetitions. -/
def withoutRepeats : List String → List String
  | a :: b :: rest => if a = b then withoutRepeats (b :: rest) else a :: withoutRepeats (b :: rest)
  | names => names

/-- The first two names with the same identifier, in the order of the second one. `seen` holds the
names before, the latest first. -/
def collision? (seen : List String) : List String → Option (String × String)
  | [] => none
  | name :: names =>
    match seen.find? fun s => blobIdentifier s = blobIdentifier name with
    | some first => some (first, name)
    | none => collision? (name :: seen) names

def sorted (names : List String) : List String := names.mergeSort fun a b => decide (a ≤ b)

/-- The records of the units, in the order of their names. -/
def unitRecords (b : Builder) : Except TableError (List Record) := do
  let rs ← b.units.mapM encodeUnit
  let rs := rs.mergeSort fun a b => decide (a.name ≤ b.name)
  match firstRepeated? (rs.map (·.name)) with
  | some name => .error (.duplicateUnitName name)
  | none =>
    match rs.find? fun r => b.encoding = .signedSize ∧ r.isPackage ∧ r.code = some [] with
    | some r => .error (.ambiguousEmptyPackage r.name)
    | none => .ok rs

/-- The names whose import must fail, in order, each once and none the name of a unit. -/
def blockedNames (b : Builder) (units : List String) : Except TableError (List String) :=
  match b.failImport.find? (!isUnitName ·) with
  | some name => .error (.invalidUnitName name)
  | none =>
    let names := withoutRepeats (sorted b.failImport)
    match names.find? units.contains with
    | some name => .error (.conflictingBlacklist name)
    | none => .ok names

/-- The table of all that was added. -/
def build (b : Builder) : Except TableError BuiltTable := do
  let rs ← b.unitRecords
  let units := rs.map (·.name)
  let blocked ← b.blockedNames units
  match collision? [] units with
  | some (first, second) => .error (.identifierCollision (blobIdentifier second) first second)
  | none =>
    .ok ⟨b.encoding, rs ++ blocked.map Record.forcedFailure ++ [Record.sentinel],
      units.map blobIdentifier⟩

end Builder

namespace BuiltTable

def toBytes (t : BuiltTable) : Bytes := Format.write t.encoding t.records

def view (t : BuiltTable) : FrozenTable :=
  ⟨some t.encoding, t.records.takeWhile (!·.isSentinel)⟩

end BuiltTable

end Launcher.Table
