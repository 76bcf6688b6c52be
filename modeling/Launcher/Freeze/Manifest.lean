import Launcher.Files.FileSystem
import Launcher.Bytes.Utf8
import Launcher.Freeze.Error
import Launcher.Freeze.SourceRoot
import Launcher.Toml.Fields
import Launcher.Toml.Reading

/-!
Manifests: TOML documents that say what to freeze. A key that a manifest does not know is an error.
-/
namespace Launcher.Freeze

open Toml.Value (elements? fields? orElse text? texts?)

structure Manifest where
  encoding : Option Table.Encoding := none
  output : Option Path := none
  /-- Where the table is also written as Rust source. -/
  rustOutput : Option Path := none
  sources : List SourceRoot := []
  failImport : List String := []
deriving DecidableEq, Repr

namespace Manifest

/-- What a document says in so many words. -/
structure Sections where
  encoding : Option String := none
  output : Option String := none
  rustOutput : Option String := none
  sources : List SourceRoot := []
  failImport : List String := []

def optional? (v : Option Toml.Value) : Option (Option String) :=
  orElse (fun v => (text? v).map some) none v

def source? (v : Toml.Value) : Option SourceRoot := do
  match ← fields? true ["path", "prefix"] v with
  | [some path, package] => some ⟨⟨← text? path⟩, ← optional? package⟩
  | _ => none

def sources? (v : Toml.Value) : Option (List SourceRoot) := do
  (← elements? v).mapM source?

/-- The part of a manifest that is about the table. -/
def table? (v : Toml.Value) : Option Sections := do
  match ← fields? true ["encoding", "output", "rust-output"] v with
  | [encoding, output, rust] =>
    some { encoding := ← optional? encoding, output := ← optional? output,
           rustOutput := ← optional? rust }
  | _ => none

def sections? (v : Toml.Value) : Option Sections := do
  match ← fields? true ["table", "sources", "fail-import"] v with
  | [table, sources, failImport] =>
    let s ← orElse table? {} table
    some { s with sources := ← orElse sources? [] sources,
                  failImport := ← orElse texts? [] failImport }
  | _ => none

/-- The manifest that a document describes. -/
def ofDocument (text : String) : Except ManifestError Manifest :=
  match (Toml.parse? text).bind sections? with
  | none => .error .unreadable
  | some s =>
    let manifest (encoding : Option Table.Encoding) : Manifest :=
      ⟨encoding, s.output.map Path.mk, s.rustOutput.map Path.mk, s.sources, s.failImport⟩
    match s.encoding.map Table.Encoding.ofName with
    | none => .ok (manifest none)
    | some (.ok encoding) => .ok (manifest (some encoding))
    | some (.error complaint) => .error (.encoding complaint)

/-- The manifest with its relative paths taken from a directory. -/
def rebase (m : Manifest) (base : Path) : Manifest :=
  let anchor (p : Path) : Path := base.join p.text
  { m with
    sources := m.sources.map fun s => { s with directory := anchor s.directory }
    output := m.output.map anchor
    rustOutput := m.rustOutput.map anchor }

/-- The manifest in a file. Its relative paths start where the file is. -/
def load (fs : FileSystem) (path : Path) : Except FreezeError Manifest :=
  match (fs.read path).toOption.bind Utf8.decode? with
  | none => .error (.access .read path)
  | some text =>
    match ofDocument text with
    | .ok m => .ok (m.rebase (path.parent?.getD ⟨""⟩))
    | .error e => .error (.manifest (some path) e)

end Manifest

end Launcher.Freeze
