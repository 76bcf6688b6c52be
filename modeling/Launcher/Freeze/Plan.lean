import Launcher.Freeze.Collect
import Launcher.Freeze.Manifest
import Launcher.Table.Source

/-!
Plans for a frozen table, merged from a manifest and what was asked for beside it, and the files
that come of one.
-/
namespace Launcher.Freeze

/-- What is asked for beside the manifest. It goes before what the manifest says, except that names
whose import must fail are added to those of the manifest. -/
structure Request where
  sources : List SourceRoot := []
  failImport : List String := []
  encoding : Option Table.Encoding := none
  output : Option Path := none
  rustOutput : Option Path := none
  optimize : Nat := 0
deriving DecidableEq, Repr

structure Plan where
  sources : List SourceRoot
  failImport : List String
  encoding : Table.Encoding
  output : Path
  rustOutput : Option Path
  optimize : Nat
deriving DecidableEq, Repr

namespace Plan

/-- The file of a table that is given none. -/
def usualOutput : Path := ⟨"frozen.frz"⟩

def merge (m : Manifest) (r : Request) : Plan where
  sources := if r.sources.isEmpty then m.sources else r.sources
  failImport := m.failImport ++ r.failImport
  encoding := (r.encoding.or m.encoding).getD .packageFlag
  output := (r.output.or m.output).getD usualOutput
  rustOutput := r.rustOutput.or m.rustOutput
  optimize := r.optimize

/-- The table of a plan. -/
def table {σ : Type} (p : Plan) (fs : FileSystem) (host : Host σ) :
    Except FreezeError Table.BuiltTable := do
  if p.sources.isEmpty then .error .noSources
  let units ← p.sources.mapM (collect fs host p.optimize (p.encoding = .packageFlag))
  let b : Table.Builder := { encoding := p.encoding }
  ((b.addUnits units.flatten).failNames p.failImport).build.mapError .table

/-- Write a file, in a directory that is made where it is not there. -/
def writeFile (fs : FileSystem) (p : Path) (content : Bytes) : Except FreezeError FileSystem := do
  let fs ←
    match p.parent? with
    | some parent => if parent.text.isEmpty then .ok fs else
        (fs.makeDirs parent).mapError fun _ => .access .create parent
    | none => .ok fs
  (fs.write p content false).mapError fun _ => .access .create p

/-- Carry out a plan: the table, and the files with it written. -/
def run {σ : Type} (p : Plan) (fs : FileSystem) (host : Host σ) :
    Except FreezeError (Table.BuiltTable × FileSystem) := do
  let t ← p.table fs host
  let fs ← writeFile fs p.output t.toBytes
  match p.rustOutput with
  | none => .ok (t, fs)
  | some file => .ok (t, ← writeFile fs file (Bytes.ofString (Table.Source.text t)))

end Plan

end Launcher.Freeze
