import Launcher.Config
import Launcher.Files.FileSystem
import Launcher.Table.View
import Launcher.Target.Host
import Launcher.Zip.Archive

/-!
Finding modules by their dotted names: first in the frozen table, then in every entry of the search
path, a directory or an archive. A name that the table forces to fail is looked for nowhere else.
A directory of modules without code of its own is the answer only if no entry has code.
-/
namespace Launcher

/-- Where modules are looked for, and what their files look like. -/
structure Finder where
  table : Table.FrozenTable := {}
  searchPath : List Path := []
  sourceSuffixes : List String
  bytecodeSuffixes : List String
  magic : Bytes

namespace Finder

def ofConfig (config : Config) (table : Table.FrozenTable) (searchPath : List Path)
    (magic : Bytes) : Finder :=
  ⟨table, searchPath, config.sourceSuffixes, config.bytecodeSuffixes, magic⟩

/-- Put an entry in front of the search path. -/
def prepend (f : Finder) (entry : Path) : Finder := { f with searchPath := entry :: f.searchPath }

/-- A file that could hold a module: its name, and whether it is a package and compiled. -/
structure Candidate where
  file : String
  isPackage : Bool
  compiled : Bool
deriving DecidableEq, Repr

/-- The files that could hold the module at a relative place, packages first and sources before
bytecode. -/
def candidates (f : Finder) (relative : String) : List Candidate :=
  let atBase (base : String) (isPackage : Bool) : List Candidate :=
    f.sourceSuffixes.map (fun s => ⟨base ++ s, isPackage, false⟩) ++
      f.bytecodeSuffixes.map (fun s => ⟨base ++ s, isPackage, true⟩)
  atBase (relative ++ "/__init__") true ++ atBase relative false

/-- The module that a file holds. -/
def located (f : Finder) (name origin : String) (c : Candidate) (content : Bytes) :
    Except ImportError LocatedModule :=
  if c.compiled then
    match stripHeader? f.magic content with
    | some code => .ok ⟨name, origin, c.isPackage, .compiled code⟩
    | none => .error (.badBytecode origin)
  else
    match Utf8.decode content with
    | .ok text => .ok ⟨name, origin, c.isPackage, .source text⟩
    | .error fault => .error (.unreadable origin ⟨.invalidData, fault.message⟩)

/-- A place where modules can be, apart from how it is stored. -/
structure Shelf where
  hasFile : String → Bool
  hasDir : String → Bool
  read : String → Except ReadError Bytes
  /-- How a place in it is shown. -/
  origin : String → String

def directoryShelf (fs : FileSystem) (dir : Path) : Shelf where
  hasFile file := fs.isFile (dir.join file)
  hasDir file := fs.isDir (dir.join file)
  read file := fs.read (dir.join file)
  origin file := (dir.join file).text

def archiveShelf (path : Path) (a : Zip.Archive) : Shelf where
  hasFile := a.contains
  hasDir := a.containsDir
  read := a.read path.text
  origin member := path.text ++ "/" ++ member

/-- The shelf of an entry of the search path, if it is a directory or an archive. -/
def shelf? (fs : FileSystem) (entry : Path) : Except ImportError (Option Shelf) :=
  if fs.isDir entry then .ok (some (directoryShelf fs entry))
  else if fs.isFile entry then
    match fs.read entry with
    | .ok bytes => .ok ((Zip.Archive.ofBytes? bytes).map (archiveShelf entry))
    | .error e => .error (.unreadable entry.text e)
  else .ok none

/-- The module that a shelf has code for. -/
def onShelf (f : Finder) (name relative : String) (s : Shelf) :
    Except ImportError (Option LocatedModule) :=
  match (f.candidates relative).find? (s.hasFile ·.file) with
  | none => .ok none
  | some c =>
    match s.read c.file with
    | .ok content => (f.located name (s.origin c.file) c content).map some
    | .error e => .error (.unreadable (s.origin c.file) e)

/-- Look through entries of the search path. `package` is where a directory without code was seen
first. -/
def search (f : Finder) (fs : FileSystem) (name relative : String) :
    (package : Option String) → List Path → Except ImportError LocatedModule
  | some origin, [] => .ok ⟨name, origin, true, .namespacePackage⟩
  | none, [] => .error (.notFound name)
  | package, entry :: entries => do
    match ← shelf? fs entry with
    | none => search f fs name relative package entries
    | some s =>
      match ← f.onShelf name relative s with
      | some found => .ok found
      | none =>
        let here := if s.hasDir relative then some (s.origin relative) else none
        search f fs name relative (package.or here) entries

/-- The module of a dotted name. -/
def find (f : Finder) (fs : FileSystem) (name : String) : Except ImportError LocatedModule :=
  match f.table.find name with
  | .found _ code isPackage => .ok ⟨name, "<frozen>", isPackage, .compiled code⟩
  | .forcedFailure => .error (.blocked name)
  | .notFound =>
    let components := name.splitOn "."
    if components.any (·.isEmpty) then .error (.notFound name)
    else f.search fs name ("/".intercalate components) none f.searchPath

end Finder

end Launcher
