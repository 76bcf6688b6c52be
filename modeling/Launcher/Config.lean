import Launcher.Environment

/-!
The constants of a launcher: its name and version, the suffixes and names that it goes by.
-/
namespace Launcher

structure Config where
  /-- The name in diagnostics and in the version line. -/
  name : String := "frozenrun"
  version : String := "0.2.0"
  release : String := "0.2.0"
  /-- An executable whose name begins so is an interpreter; any other runs what is appended to
  it. -/
  runtimePrefixes : List String := ["frozenrun", "python"]
  sourceSuffixes : List String := [".py", ".pyw"]
  bytecodeSuffixes : List String := [".pyc", ".pyo"]
  /-- The module that is run of a directory or an archive. -/
  entryPoint : String := "__main__"
  /-- The name of the library's directory below `lib`. -/
  libName : String := "frozenrun0.2"
  env : EnvNames := EnvNames.beginningWith "FROZENRUN"
deriving DecidableEq, Repr

/-- What makes a configuration unusable. -/
inductive ConfigFault where
  | emptyName
  | entryPoint (name : String)
  | suffix (s : String)
deriving DecidableEq, Repr

namespace ConfigFault

def message : ConfigFault → String
  | emptyName => "Invalid launcher config: name cannot be empty"
  | entryPoint name =>
    "Invalid launcher config: entry point must be a plain unit name, got '" ++ name ++ "'"
  | suffix s => "Invalid launcher config: suffix '" ++ s ++ "' must start with '.'"

end ConfigFault

namespace Config

/-- The first fault of a configuration. -/
def fault? (c : Config) : Option ConfigFault :=
  if c.name.isEmpty then some .emptyName
  else if c.entryPoint.isEmpty ∨ c.entryPoint.contains '.' then some (.entryPoint c.entryPoint)
  else ((c.sourceSuffixes ++ c.bytecodeSuffixes).find? (!·.startsWith ".")).map .suffix

def isRuntimeName (c : Config) (program : String) : Bool :=
  c.runtimePrefixes.any (program.startsWith ·)

def isSource (c : Config) (reference : String) : Bool :=
  c.sourceSuffixes.any (reference.endsWith ·)

def isBytecode (c : Config) (reference : String) : Bool :=
  c.bytecodeSuffixes.any (reference.endsWith ·)

def versionLine (c : Config) : String :=
  c.name ++ " " ++ c.version ++ " (release " ++ c.release ++ ")"

end Config

end Launcher
