import Launcher.Freeze.Collect
import Launcher.Zip.Writer

/-!
Apps: a launcher with an archive behind it, which holds a directory of sources with a file to start
with.
-/
namespace Launcher.Freeze.App

def startFile : String := "__main__.py"

/-- The files below a directory that are not hidden, by the names that lead to them. -/
def files (n : FileNode) : List (List String) :=
  ((visible n).filter fun (_, n) => !n.isDir).map Prod.fst

/-- The files of a directory by the names that lead to them. A directory on the way must be one that
its path leads to, or what is in it cannot be seen. -/
def list (fs : FileSystem) (directory : Path) : Except FreezeError (List (List String)) :=
  match fs.look directory with
  | .ok n =>
    let seen := (visible n).all fun (names, n) =>
      !n.isDir || fs.isDir (names.foldl Path.join directory)
    if seen then .ok (files n) else .error (.access .walk directory)
  | .error _ => .error (.access .walk directory)

/-- A member of the archive, read from its file. -/
def member (fs : FileSystem) (directory : Path) (names : List String) :
    Except FreezeError (String × Bytes) :=
  let file := names.foldl Path.join directory
  match fs.read file with
  | .ok content => .ok ("/".intercalate names, content)
  | .error _ => .error (.access .read file)

/-- Put an app together: the number of its members, and the files with the app written. The output
is emptied before the members are read, and written when all are. So an output that is a file of the
tree goes into the app as an empty member; the program, which writes while it reads, puts in there
what its buffered writer has passed on by then. -/
def assemble (fs : FileSystem) (launcher source output : Path) :
    Except FreezeError (Nat × FileSystem) := do
  if !fs.isFile (source.join startFile) then .error (.missingStart source startFile)
  let front ← (fs.read launcher).mapError fun _ => .access .readLauncher launcher
  let write (fs : FileSystem) (content : Bytes) : Except FreezeError FileSystem :=
    (fs.write output content true).mapError fun _ => .access .create output
  let names ← list fs source
  let emptied ← write fs []
  let members ← names.mapM (member emptied source)
  .ok (members.length, ← write emptied (Zip.append front members))

end Launcher.Freeze.App
