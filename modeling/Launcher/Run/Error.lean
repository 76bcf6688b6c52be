import Launcher.Run.CommandLine
import Launcher.Table.Error
import Launcher.Target.Error

/-!
Errors that end a run of the launcher before, or with, its target.
-/
namespace Launcher

/-- Why what is to be run cannot be found or read. -/
inductive ResolutionError where
  | stdinNotText
  | unreadableScript (path : String)
  | unreadableArchive (path reason : String)
  | incompatibleFile (path : String)
  | incompatibleString
  | notText (origin : String)
  | missingEntry (path entryPoint : String)
  | missingArchive (path : String)
  /-- A module or archive cannot be run, for the given reason. -/
  | couldNotRun (name reason : String)
deriving DecidableEq, Repr

namespace ResolutionError

def message : ResolutionError → String
  | stdinNotText => "standard input is not valid UTF-8"
  | unreadableScript path => "Could not find/read script file '" ++ path ++ "'"
  | unreadableArchive path reason =>
    "Could not find/read script file '" ++ path ++ "': " ++ reason
  | incompatibleFile path => "Incompatible bytecode file '" ++ path ++ "'"
  | incompatibleString => "Incompatible bytecode string"
  | notText origin => "Could not run '" ++ origin ++ "': source is not valid UTF-8"
  | missingEntry path entryPoint =>
    "Could not run '" ++ path ++ "': can't find '" ++ entryPoint ++ "' module in '" ++ path ++ "'"
  | missingArchive path => "Could not run '" ++ path ++ "': app missing appended archive"
  | couldNotRun name reason => "Could not run '" ++ name ++ "': " ++ reason

end ResolutionError

inductive BootstrapError where
  /-- An option that is unknown or lacks its value. -/
  | usage (message : String)
  /-- An option that is known and not supported. -/
  | unsupportedFeature (message : String)
  /-- What is to be run cannot be found or read. -/
  | resolution (message : String)
  | tableIntegrity (e : Table.TableError)
  /-- The target raised an error that nothing caught. -/
  | target (e : TargetError)
  /-- The streams of the launcher failed. -/
  | streams (message : String)
  /-- The target used up the steps it was given. -/
  | exhausted
deriving DecidableEq, Repr

namespace BootstrapError

def message : BootstrapError → String
  | usage m | unsupportedFeature m | resolution m | streams m => m
  | tableIntegrity e => "frozen table: " ++ e.message
  | target e => e.headline
  | exhausted => "step budget exhausted"

def exitCode (_ : BootstrapError) : Int := 1

/-- Whether the help text goes with the message. -/
def wantsUsage : BootstrapError → Bool
  | usage _ => true
  | _ => false

def ofCommandLine (e : CommandLineError) : BootstrapError :=
  match e with
  | .hashRandomization => .unsupportedFeature e.message
  | _ => .usage e.message

end BootstrapError

end Launcher
