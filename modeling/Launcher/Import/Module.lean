import Launcher.Bytes.Basic

/-!
Modules as they are found: where a module's code came from and in which form, and why a name
yields none.
-/
namespace Launcher

/-- The kinds of failure of a file or an archive that is read. -/
inductive ReadErrorKind where
  | notFound
  | notADirectory
  | isADirectory
  | invalidFilename
  | invalidData
  | invalidInput
  | unexpectedEof
  | other
deriving DecidableEq, Repr

namespace ReadErrorKind

def name : ReadErrorKind → String
  | notFound => "NotFound"
  | notADirectory => "NotADirectory"
  | isADirectory => "IsADirectory"
  | invalidFilename => "InvalidFilename"
  | invalidData => "InvalidData"
  | invalidInput => "InvalidInput"
  | unexpectedEof => "UnexpectedEof"
  | other => "Other"

end ReadErrorKind

/-- A failure to read: its kind and its text. -/
structure ReadError where
  kind : ReadErrorKind
  message : String
deriving DecidableEq, Repr

/-- The code of a module that was found. -/
inductive ModuleCode where
  | source (text : String)
  | compiled (code : Bytes)
  /-- A directory of modules with no code of its own. -/
  | namespacePackage
deriving DecidableEq, Repr

/-- A module that was found. Its origin is a path, `archive/member` or `<frozen>`. -/
structure LocatedModule where
  name : String
  origin : String
  isPackage : Bool
  code : ModuleCode
deriving DecidableEq, Repr

/-- Why a name yields no module. -/
inductive ImportError where
  /-- The table forces the import of the name to fail. -/
  | blocked (name : String)
  | notFound (name : String)
  /-- A bytecode file with a header that is short or of another interpreter. -/
  | badBytecode (origin : String)
  | unreadable (origin : String) (error : ReadError)
deriving DecidableEq, Repr

namespace ImportError

def message : ImportError → String
  | blocked name => "import of '" ++ name ++ "' is blocked"
  | notFound name => "No module named '" ++ name ++ "'"
  | badBytecode origin => "bad magic number in '" ++ origin ++ "'"
  | unreadable origin error => "could not read '" ++ origin ++ "': " ++ error.message

end ImportError

end Launcher
