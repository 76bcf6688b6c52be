import Launcher.Bytes.Basic
import Launcher.Files.Path
import Launcher.Import.Module

/-!
Trees of files and directories, and the working directory from which relative paths lead. There
are no links, so a path means what its pieces say, one after the other. A path and each name in it
have a greatest size.
-/
namespace Launcher

inductive FileNode where
  | file (content : Bytes) (executable : Bool := false)
  | dir (children : List (String × FileNode))
deriving Inhabited

namespace FileNode

def isDir : FileNode → Bool
  | .dir _ => true
  | .file .. => false

def children : FileNode → List (String × FileNode)
  | .dir cs => cs
  | .file .. => []

def child? (n : FileNode) (name : String) : Option FileNode := n.children.lookup name

/-- The node that a list of names leads to. -/
def at? : FileNode → List String → Option FileNode
  | n, [] => some n
  | n, name :: names =>
    match n.child? name with
    | some c => c.at? names
    | none => none

/-- Put a node in the place of the child of that name, or behind the others. -/
def putChild (name : String) (node : FileNode) : List (String × FileNode) → List (String × FileNode)
  | [] => [(name, node)]
  | (n, c) :: cs => if n = name then (name, node) :: cs else (n, c) :: putChild name node cs

/-- The tree with `leaf` at the end of a list of names. Directories on the way are made; a
directory that is there stays. -/
def insert (leaf : FileNode) : List String → FileNode → FileNode
  | [], n => if leaf.isDir && n.isDir then n else leaf
  | name :: names, n =>
    .dir (putChild name (insert leaf names ((n.child? name).getD (.dir []))) n.children)

mutual

/-- A node and all below it, each with the names that lead to it. -/
def walk : FileNode → List (List String × FileNode)
  | .file content executable => [([], .file content executable)]
  | .dir cs => ([], .dir cs) :: walkAll cs

/-- The nodes at and below the children of a directory. -/
def walkAll : List (String × FileNode) → List (List String × FileNode)
  | [] => []
  | (name, n) :: cs => (walk n).map (fun (names, n) => (name :: names, n)) ++ walkAll cs

end

end FileNode

structure FileSystem where
  root : FileNode := .dir []
  /-- The names that lead from the root to the working directory. -/
  cwd : List String := []

namespace FileSystem

def notFound : ReadError := ⟨.notFound, "No such file or directory (os error 2)"⟩

def notADirectory : ReadError := ⟨.notADirectory, "Not a directory (os error 20)"⟩

def isADirectory : ReadError := ⟨.isADirectory, "Is a directory (os error 21)"⟩

def nameTooLong : ReadError := ⟨.invalidFilename, "File name too long (os error 36)"⟩

def zeroByte : ReadError := ⟨.invalidInput, "file name contained an unexpected NUL byte"⟩

/-- The greatest size of a name in bytes. -/
def maxNameSize : Nat := 255

/-- The greatest size of a path in bytes. -/
def maxPathSize : Nat := 4095

/-- Complain about a path that leads nowhere in any file system. -/
def checkPath (p : Path) : Except ReadError Unit :=
  if p.text.contains '\x00' then .error zeroByte
  else if maxPathSize < p.text.utf8ByteSize then .error nameTooLong
  else .ok ()

/-- Follow one piece of a path from the node that the names `at` lead to. -/
def follow (fs : FileSystem) (names : List String) (piece : String) :
    Except ReadError (List String) :=
  match fs.root.at? names with
  | none => .error notFound
  | some n =>
    if piece.isEmpty then .ok names
    else if !n.isDir then .error notADirectory
    else if piece = "." then .ok names
    else if piece = ".." then .ok names.dropLast
    else if maxNameSize < piece.utf8ByteSize then .error nameTooLong
    else if (n.child? piece).isSome then .ok (names ++ [piece])
    else .error notFound

/-- The names that a path leads along. A slash at the end wants a directory. -/
def locate (fs : FileSystem) (p : Path) : Except ReadError (List String) :=
  if p.text.isEmpty then .error notFound
  else do
    checkPath p
    let names ← p.pieces.foldlM fs.follow (if p.isAbsolute then [] else fs.cwd)
    match fs.root.at? names with
    | none => .error notFound
    | some n => if p.text.endsWith "/" && !n.isDir then .error notADirectory else .ok names

/-- What a path leads to. -/
def look (fs : FileSystem) (p : Path) : Except ReadError FileNode := do
  let names ← fs.locate p
  match fs.root.at? names with
  | some n => .ok n
  | none => .error notFound

def pathExists (fs : FileSystem) (p : Path) : Bool := (fs.look p).isOk

def isDir (fs : FileSystem) (p : Path) : Bool :=
  match fs.look p with
  | .ok n => n.isDir
  | .error _ => false

def isFile (fs : FileSystem) (p : Path) : Bool :=
  match fs.look p with
  | .ok n => !n.isDir
  | .error _ => false

/-- The content of the file that a path leads to. -/
def read (fs : FileSystem) (p : Path) : Except ReadError Bytes := do
  match ← fs.look p with
  | .file content _ => .ok content
  | .dir _ => .error isADirectory

/-- The entries of the directory that a path leads to. -/
def entries (fs : FileSystem) (p : Path) : Except ReadError (List (String × FileNode)) := do
  match ← fs.look p with
  | .dir cs => .ok cs
  | .file .. => .error notADirectory

def isExecutable (fs : FileSystem) (p : Path) : Bool :=
  match fs.look p with
  | .ok (.file _ executable) => executable
  | _ => false

/-! ## Changes -/

/-- Follow one piece of a path, and make a directory where there is nothing. -/
def makeDir (state : FileSystem × List String) (piece : String) :
    Except ReadError (FileSystem × List String) :=
  let (fs, names) := state
  match fs.follow names piece with
  | .ok names => .ok (fs, names)
  | .error e =>
    if e.kind = .notFound then
      let names := names ++ [piece]
      .ok ({ fs with root := FileNode.insert (.dir []) names fs.root }, names)
    else .error e

/-- Make the directories that a path leads through and to, where they are not there. -/
def makeDirs (fs : FileSystem) (p : Path) : Except ReadError FileSystem := do
  checkPath p
  let (made, names) ← p.pieces.foldlM makeDir (fs, if p.isAbsolute then [] else fs.cwd)
  match made.root.at? names with
  | some n => if n.isDir then .ok made else .error notADirectory
  | none => .error notFound

/-- Write a file in a directory that is there. -/
def write (fs : FileSystem) (p : Path) (content : Bytes) (executable : Bool) :
    Except ReadError FileSystem :=
  match p.pieces.reverse with
  | [] => .error notFound
  | name :: before => do
    checkPath p
    if name.isEmpty ∨ name = "." ∨ name = ".." then .error isADirectory
    let names ← before.reverse.foldlM fs.follow (if p.isAbsolute then [] else fs.cwd)
    match fs.root.at? names with
    | none => .error notFound
    | some n =>
      if !n.isDir then .error notADirectory
      else if maxNameSize < name.utf8ByteSize then .error nameTooLong
      else if (n.child? name).any FileNode.isDir then .error isADirectory
      else
        let leaf : FileNode := .file content executable
        .ok { fs with root := FileNode.insert leaf (names ++ [name]) fs.root }

end FileSystem

end Launcher
