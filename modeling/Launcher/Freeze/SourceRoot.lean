import Launcher.Files.Path
import Launcher.Table.Unit

/-!
Directories of sources to be frozen, written `DIR` or `DIR=PACKAGE`.
-/
namespace Launcher.Freeze

/-- A directory, and the dotted name of the package that its units go under, if any. -/
structure SourceRoot where
  directory : Path
  package : Option String := none
deriving DecidableEq, Repr

/-- Why a text names no source directory. -/
inductive SourceRootError where
  | emptyDirectory (arg : String)
  | invalidPackage (name : String)
deriving DecidableEq, Repr

namespace SourceRootError

def message : SourceRootError → String
  | emptyDirectory arg => "empty source directory in '" ++ arg ++ "'"
  | invalidPackage name => "invalid unit prefix '" ++ name ++ "'"

end SourceRootError

namespace SourceRoot

/-- Read a source directory. The first equals sign ends the directory. -/
def parse (arg : String) : Except SourceRootError SourceRoot :=
  let (directory, rest) := arg.toList.span (· != '=')
  if directory.isEmpty then .error (.emptyDirectory arg)
  else
    let directory : Path := ⟨String.ofList directory⟩
    match rest with
    | [] => .ok { directory }
    | _ :: package =>
      let package := String.ofList package
      if Table.isUnitName package then .ok { directory, package := some package }
      else .error (.invalidPackage package)

/-- The components that the names of all units below begin with. -/
def components (r : SourceRoot) : List String :=
  match r.package with
  | some package => package.splitOn "."
  | none => []

end SourceRoot

end Launcher.Freeze
