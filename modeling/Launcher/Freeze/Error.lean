import Launcher.Files.Path
import Launcher.Table.Error

/-!
What can go wrong when sources are frozen or an app is put together.
-/
namespace Launcher.Freeze

/-- Why a document is no manifest. -/
inductive ManifestError where
  /-- It is no TOML, a key is missing or unknown, or a key has a value of another kind. -/
  | unreadable
  | encoding (complaint : String)
deriving DecidableEq, Repr

namespace ManifestError

def message : ManifestError → String
  | unreadable => "not a manifest"
  | encoding complaint => complaint

end ManifestError

/-- What was to be done with a file or a directory that cannot be accessed. -/
inductive Access where
  | walk | read | readLauncher | create
deriving DecidableEq, Repr

namespace Access

def name : Access → String
  | walk => "walk"
  | read => "read"
  | readLauncher => "read launcher"
  | create => "create"

end Access

inductive FreezeError where
  /-- A manifest, from a file if one is given, cannot be used. -/
  | manifest (file : Option Path) (e : ManifestError)
  | access (access : Access) (path : Path)
  | noSources
  | missingDirectory (directory : Path)
  /-- A source file does not compile. -/
  | compile (file : Path) (report : String)
  | table (e : Table.TableError)
  /-- An app has no file to start with. -/
  | missingStart (directory : Path) (file : String)
deriving DecidableEq, Repr

namespace FreezeError

def message : FreezeError → String
  | manifest none e => e.message
  | manifest (some file) e => "parse " ++ file.text ++ ": " ++ e.message
  | access a path => a.name ++ " " ++ path.text
  | noSources => "no source directories given (use --source or a manifest)"
  | missingDirectory directory => "source directory " ++ directory.text ++ " does not exist"
  | compile file report => "compile " ++ file.text ++ ": " ++ report
  | table e => e.message
  | missingStart directory file => directory.text ++ " has no " ++ file

end FreezeError

end Launcher.Freeze
