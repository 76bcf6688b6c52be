import Launcher.Bytes.Basic
import Launcher.Config

/-!
What a run executes, and the phases that it goes through.
-/
namespace Launcher

/-- What is executed. -/
inductive ExecutionMode where
  | script (path : Path)
  | module (name : String)
  /-- A source text from the command line or standard input. -/
  | inlineString (source : String)
  | codeFile (path : Path)
  /-- Bytecode from standard input. -/
  | codeString (bytes : Bytes)
  /-- A directory, an archive, or a file of another type. -/
  | pathEntry (path : Path)
  | interactive
  /-- The archive appended to the executable. -/
  | appSelf
deriving DecidableEq, Repr

namespace ExecutionMode

def kind : ExecutionMode → String
  | script _ => "script"
  | module _ => "module"
  | inlineString _ => "string"
  | codeFile _ => "codefile"
  | codeString _ => "codestring"
  | pathEntry _ => "path"
  | interactive => "interactive"
  | appSelf => "app"

/-- The path whose directory heads the search path. -/
def scriptReference? : ExecutionMode → Option Path
  | script path | codeFile path | pathEntry path => some path
  | _ => none

/-- The mode of a file reference, by its suffix; `bytecode` says that it is bytecode in any
case. -/
def ofReference (config : Config) (bytecode : Bool) (reference : String) : ExecutionMode :=
  if bytecode || config.isBytecode reference then codeFile ⟨reference⟩
  else if config.isSource reference then script ⟨reference⟩
  else pathEntry ⟨reference⟩

end ExecutionMode

/-- What kind of run it is. -/
inductive RunMode where
  | undetermined | script | interactive | appSelf
deriving DecidableEq, Repr

namespace RunMode

def name : RunMode → String
  | undetermined => "Undetermined"
  | script => "Script"
  | interactive => "Interactive"
  | appSelf => "AppSelf"

end RunMode

/-- How far a run has come. -/
inductive Phase where
  | startup | dispatching | executing | exited
deriving DecidableEq, Repr

namespace Phase

def rank : Phase → Nat
  | startup => 0
  | dispatching => 1
  | executing => 2
  | exited => 3

def name : Phase → String
  | startup => "Startup"
  | dispatching => "Dispatching"
  | executing => "Executing"
  | exited => "Exited"

/-- Go on to a later phase; there is no way back. -/
def enter (current next : Phase) : Phase := if next.rank ≤ current.rank then current else next

end Phase

end Launcher
