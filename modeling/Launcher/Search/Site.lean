import Launcher.Bytes.Utf8
import Launcher.Files.FileSystem

/-!
Site directories. A path file in one, whose name ends in `.pth`, names further directories line by
line; its import lines are recorded and never executed.
-/
namespace Launcher

/-- The directories that a site directory stands for, itself first, and the import lines found. -/
structure SiteExpansion where
  directories : List Path := []
  directives : List String := []
deriving DecidableEq, Repr

namespace Site

/-- The lines of a text, without the newline or the carriage return and newline at their ends. -/
def lines (text : String) : List String :=
  let pieces := text.splitOn "\n"
  let pieces := if pieces.getLast? = some "" then pieces.dropLast else pieces
  let last := pieces.length - 1
  pieces.zipIdx.map fun (line, i) =>
    if line.endsWith "\r" ∧ (i < last ∨ text.endsWith "\n") then (line.dropEnd 1).toString else line

/-- What a line of a path file means. -/
inductive Marker where
  | nothing
  | directive (text : String)
  | directory (text : String)
deriving DecidableEq, Repr

def marker (line : String) : Marker :=
  if line.startsWith "#" ∨ (trim line).isEmpty then .nothing
  else if line.startsWith "import " ∨ line.startsWith "import\t" then .directive (trimEnd line)
  else .directory (trimEnd line)

/-- The path files of a directory that can be read as text, in the order of their names. -/
def markerFiles (fs : FileSystem) (directory : Path) : List String :=
  match fs.entries directory with
  | .error _ => []
  | .ok entries =>
    let names := (entries.map Prod.fst).filter fun n => n.endsWith ".pth" && !n.startsWith "."
    (names.mergeSort fun a b => decide (a ≤ b)).filterMap fun n =>
      match fs.read (directory.join n) with
      | .ok content => Utf8.decode? content
      | .error _ => none

def isKnown (known : List Path) (p : Path) : Bool := known.any p.same

/-- Take one line into account. `known` are the paths that need no repetition. -/
def expandLine (fs : FileSystem) (directory : Path) (known : List Path) (e : SiteExpansion)
    (line : String) : SiteExpansion :=
  match marker line with
  | .nothing => e
  | .directive text => { e with directives := e.directives ++ [text] }
  | .directory text =>
    let entry := Path.normalize directory none text
    if fs.pathExists entry && !isKnown (known ++ e.directories) entry then
      { e with directories := e.directories ++ [entry] }
    else e

/-- The expansion of a site directory, without the paths that are known. -/
def expand (fs : FileSystem) (directory : Path) (known : List Path) : SiteExpansion :=
  let start : SiteExpansion :=
    { directories := if isKnown known directory then [] else [directory] }
  ((markerFiles fs directory).flatMap lines).foldl (expandLine fs directory known) start

end Site

end Launcher
