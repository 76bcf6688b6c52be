import Launcher.Run.Dispatcher
import Launcher.Script.Session

/-!
The launcher as a program. It sees the files of the working directory, of the library beside it and
of the user's site directory as they are at the start, and hands over its output at the end.
-/
namespace Launcher.Main

/-- How deep directories are looked into. -/
def maxDepth : Nat := 32

/-- How many steps the target may take. -/
def stepBudget : Nat := 1000000000000

def bytes (b : ByteArray) : Bytes := b.data.toList

/-- What is at an entry of a directory. A file that cannot be read is taken for an empty one. -/
def readEntry : (depth : Nat) → IO.FS.DirEntry → IO FileNode
  | 0, _ => return .dir []
  | depth + 1, e => do
    if ← e.path.isDir then
      let children ← (← e.path.readDir).mapM fun c => do return (c.fileName, ← readEntry depth c)
      return .dir children.toList
    else
      try return .file (bytes (← IO.FS.readBinFile e.path))
      catch _ => return .file []

def names (p : Path) : List String := p.pieces.filter (!·.isEmpty)

/-- Add a directory with all below it, if it is there. -/
def addDirectory (root : FileNode) (p : Path) : IO FileNode := do
  try
    let entries ← ((← IO.currentDir) / p.text).readDir
    entries.foldlM (fun root e => do
      return FileNode.insert (← readEntry maxDepth e) (names p ++ [e.fileName]) root) root
  catch _ => return root

/-- Add a file, if it is there. -/
def addFile (root : FileNode) (p : Path) : IO FileNode := do
  try return FileNode.insert (.file (bytes (← IO.FS.readBinFile p.text))) (names p) root
  catch _ => return root

/-- The home directory of a user in the text of a password database. -/
def homeIn? (database user : String) : Option Path :=
  (database.splitOn "\n").findSome? fun line =>
    match line.splitOn ":" with
    | [_, _, number, _, _, home, _] => if number = user then some ⟨home⟩ else none
    | _ => none

/-- The number of the user of a process, in the text that the system has about the process. -/
def userIn? (status : String) : Option String :=
  (status.splitOn "\n").findSome? fun line =>
    match line.splitOn "\t" with
    | "Uid:" :: number :: _ => some number
    | _ => none

/-- The home directory that the system has for the user. -/
def systemHome : IO (Option Path) := do
  try
    let user := userIn? (← IO.FS.readFile "/proc/self/status")
    return user.bind (homeIn? (← IO.FS.readFile "/etc/passwd"))
  catch _ => return none

/-- The variables that the launcher reads, and the home directory of the user. -/
def environment (config : Config) : IO Environment := do
  let vars ← ("HOME" :: config.env.toList).filterMapM fun name => do
    return (← IO.getEnv name).map fun value => (name, value)
  return { Environment.ofList vars with systemHome := ← systemHome }

/-- The files that a run can need. -/
def snapshot (config : Config) (i : Invocation) : IO FileSystem := do
  let place := Installation.locate {} i.executable config i.env.home?
  let beside := (place.base.join "lib").join config.libName
  let directories := [i.cwd, beside, place.lib] ++ place.userSite.toList
  let root ← directories.foldlM addDirectory (.dir [])
  let program := i.executable.fileName?.getD config.name
  let root ← if config.isRuntimeName program then pure root else addFile root i.executable
  return ⟨root, names i.cwd⟩

def toByteArray (b : Bytes) : ByteArray := ⟨b.toArray⟩

/-- Run once, and give the status. -/
def run (args : List String) : IO Int := do
  let config : Config := {}
  let stdin ← IO.getStdin
  let terminal ← stdin.isTty
  let invocation : Invocation :=
    { executable := ⟨toString (← IO.appPath)⟩, args, cwd := ⟨toString (← IO.currentDir)⟩
      env := ← environment config, stdinIsTerminal := terminal }
  let files ← snapshot config invocation
  let input ← if terminal ∧ !args.isEmpty then pure [] else bytes <$> stdin.readBinToEnd
  let dispatcher : Dispatcher Script.Machine Unit :=
    ⟨config, {}, Script.Session.host stepBudget, files, SearchPath.pthExpander files⟩
  let (completion, s) := dispatcher.run invocation {} () { stdin := input }
  (← IO.getStdout).write (toByteArray s.streams.passed)
  (← IO.getStderr).write (toByteArray s.streams.stderr)
  return completion.status

end Launcher.Main

def main (args : List String) : IO UInt32 := do
  return UInt32.ofNat ((← Launcher.Main.run args) % 256).toNat
