import Launcher.Dict
import Launcher.Files.Path
import Launcher.Flags
import Launcher.Text.Integer

/-!
Environment variables, the names of those that the launcher reads, and the switches they set.
-/
namespace Launcher

/-- The variables of a run, in the order of their names, and what the system knows of the user beside them. -/
structure Environment where
  vars : Dict String := []
  /-- The home directory that the system has for the user, if it has one. -/
  systemHome : Option Path := none
deriving DecidableEq, Repr

namespace Environment

/-- The environment of a list of variables; of two with one name the later counts. -/
def ofList (vars : List (String × String)) : Environment :=
  let dict := vars.foldl (fun (d : Dict String) (k, v) => d.set k v) []
  { vars := dict.mergeSort fun a b => decide (a.1 ≤ b.1) }

def get? (env : Environment) (name : String) : Option String := env.vars.get? name

/-- Whether a switch is on: any text but a blank one or `0` switches it on. -/
def flag? (env : Environment) (name : String) : Option Bool :=
  (env.get? name).map fun v =>
    let v := trim v
    !v.isEmpty && v != "0"

/-- A level below 256. Any other text counts as 1, and a blank one as nothing. -/
def level? (env : Environment) (name : String) : Option Nat :=
  match env.get? name with
  | none => none
  | some v =>
    let v := trim v
    if v.isEmpty then none else some ((natBelow? 256 v).getD 1)

/-- The home directory: that of the variable for it, or else that of the system. -/
def home? (env : Environment) : Option Path :=
  match env.get? "HOME" with
  | some h => if h.isEmpty then env.systemHome else some ⟨h⟩
  | none => env.systemHome

end Environment

/-- The names of the variables that the launcher reads. -/
structure EnvNames where
  path : String
  verbose : String
  debug : String
  optimize : String
  inspect : String
  unbuffered : String
  safePath : String
  ignoreEnvironment : String
  httpsVerify : String
deriving DecidableEq, Repr

namespace EnvNames

/-- The usual names behind a common beginning. -/
def beginningWith (start : String) : EnvNames :=
  let name (ending : String) : String := start ++ "_" ++ ending
  { path := name "PATH"
    verbose := name "VERBOSE"
    debug := name "DEBUG"
    optimize := name "OPTIMIZE"
    inspect := name "INSPECT"
    unbuffered := name "UNBUFFERED"
    safePath := name "SAFE_PATH"
    ignoreEnvironment := name "IGNORE_ENVIRONMENT"
    httpsVerify := name "HTTPS_VERIFY" }

def toList (n : EnvNames) : List String :=
  [n.path, n.verbose, n.debug, n.optimize, n.inspect, n.unbuffered, n.safePath,
    n.ignoreEnvironment, n.httpsVerify]

end EnvNames

namespace Flags

/-- The switches that the environment sets. When it says to ignore the environment, nothing else
in it is read. -/
def ofEnvironment (env : Environment) (names : EnvNames) : Flags :=
  if env.flag? names.ignoreEnvironment = some true then { ignoreEnvironment := true }
  else
    { verbose := (env.level? names.verbose).getD 0
      debug := (env.level? names.debug).getD 0
      optimize := (env.level? names.optimize).getD 0
      inspect := (env.flag? names.inspect).getD false
      unbuffered := (env.flag? names.unbuffered).getD false
      safePath := (env.flag? names.safePath).getD false
      httpsVerify := (env.flag? names.httpsVerify).getD true }

end Flags

end Launcher
