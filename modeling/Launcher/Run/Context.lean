import Launcher.Run.Mode
import Launcher.Warning

/-!
The record of a run: all that is decided before the target starts. Afterwards only the warning
filters change.
-/
namespace Launcher

structure Context where
  /-- The name of the executable, as diagnostics show it. -/
  programName : String
  executable : Path
  cwd : Path
  flags : Flags
  filters : WarningFilters := []
  runMode : RunMode := .undetermined
  mode : Option ExecutionMode := none
  /-- The arguments of the target. -/
  argv : List String := []
  searchPath : List Path := []
  /-- Import lines of path files, which are recorded and not executed. -/
  directives : List String := []
  phase : Phase := .startup
deriving DecidableEq, Repr

namespace Context

def enter (c : Context) (phase : Phase) : Context := { c with phase := c.phase.enter phase }

end Context

/-- What a process hands to a run. -/
structure Invocation where
  executable : Path
  /-- The arguments after the name of the program. -/
  args : List String
  cwd : Path
  env : Environment
  stdinIsTerminal : Bool
deriving DecidableEq, Repr

end Launcher
