import Launcher.Bytes.Utf8
import Launcher.Files.FileSystem
import Launcher.Freeze.Error
import Launcher.Freeze.SourceRoot
import Launcher.Target.Host
import Launcher.Text.Blank

/-!
Units collected from a directory of sources. A file `a/b.py` is the module `a.b`, and the code of a
package is in its `__init__.py`; a directory without that file is a package without code where the
table can tell such a one, if there is a source below it. Names that start with a dot, and
`__pycache__`, are passed over with all below them.
-/
namespace Launcher.Freeze

def sourceSuffix : String := ".py"

def packageFile : String := "__init__.py"

def isHidden (name : String) : Bool := name.startsWith "." || name == "__pycache__"

/-- Names compared from the front on; none come before any. -/
def comesBefore : List String → List String → Bool
  | [], _ => true
  | _ :: _, [] => false
  | a :: names, b :: others => if a = b then comesBefore names others else decide (a ≤ b)

/-- The nodes below a node that are not hidden, each with the names that lead to it. A directory
comes before what is in it, and names come in order. -/
def visible (n : FileNode) : List (List String × FileNode) :=
  let shown := n.walk.filter fun (names, _) => !names.any isHidden
  shown.mergeSort fun a b => comesBefore a.1 b.1

/-- Whether there is a source below a node. -/
def holdsSource (n : FileNode) : Bool :=
  (visible n).any fun (names, n) => !n.isDir && (names.getLast?.any (·.endsWith sourceSuffix))

/-- What becomes of a node of the tree. -/
inductive Finding where
  /-- No unit comes of it. -/
  | nothing
  /-- A package without code. -/
  | namespacePackage (components : List String)
  | source (components : List String) (isPackage : Bool)
deriving DecidableEq, Repr

/-- What a node means that `names` lead to, below a package with the given components. -/
def finding (package names : List String) (n : FileNode) : Finding :=
  if n.isDir then
    let own := (n.child? packageFile).any (!·.isDir)
    if (package ++ names).isEmpty || own || !names.all Table.isIdentifier || !holdsSource n then
      .nothing
    else .namespacePackage (package ++ names)
  else
    match names.getLast? with
    | none => .nothing
    | some file =>
      let isPackage := file == packageFile
      let components :=
        if isPackage then names.dropLast
        else names.dropLast ++ [(file.dropEnd sourceSuffix.length).toString]
      if !file.endsWith sourceSuffix || (package ++ components).isEmpty ||
          !components.all Table.isIdentifier then .nothing
      else .source (package ++ components) isPackage

def dotted (components : List String) : String := ".".intercalate components

/-- The unit of a source file. -/
def compileFile {σ : Type} (fs : FileSystem) (host : Host σ) (optimize : Nat) (file : Path)
    (components : List String) (isPackage : Bool) : Except FreezeError Table.CompiledUnit :=
  match (fs.read file).toOption.bind Utf8.decode? with
  | none => .error (.access .read file)
  | some text =>
    match host.compile text file.text optimize with
    | .ok code => .ok ⟨dotted components, code, isPackage⟩
    | .error e => .error (.compile file (trimEnd e.report))

/-- The units that come of the node below a source directory that `names` lead to. A directory must
be one that its path leads to, or what is in it cannot be seen. -/
def unitsAt {σ : Type} (fs : FileSystem) (host : Host σ) (optimize : Nat) (namespaces : Bool)
    (root : SourceRoot) (names : List String) (n : FileNode) :
    Except FreezeError (List Table.CompiledUnit) :=
  let path := names.foldl Path.join root.directory
  if n.isDir && !fs.isDir path then .error (.access .walk root.directory)
  else
    match finding root.components names n with
    | .nothing => .ok []
    | .namespacePackage components =>
      .ok (if namespaces then [⟨dotted components, [], true⟩] else [])
    | .source components isPackage =>
      (compileFile fs host optimize path components isPackage).map ([·])

/-- The units of a source directory. `namespaces` says whether packages without code are wanted. -/
def collect {σ : Type} (fs : FileSystem) (host : Host σ) (optimize : Nat) (namespaces : Bool)
    (root : SourceRoot) : Except FreezeError (List Table.CompiledUnit) :=
  match fs.look root.directory with
  | .ok (.dir children) => do
    let found ← (visible (.dir children)).mapM fun (names, n) =>
      unitsAt fs host optimize namespaces root names n
    .ok found.flatten
  | _ => .error (.missingDirectory root.directory)

end Launcher.Freeze
