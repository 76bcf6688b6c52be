import Launcher.Config
import Launcher.Toml.Fields
import Launcher.Toml.Reading

/-!
Configurations written as TOML documents. Keys that are missing keep their usual values, and keys
that mean nothing are passed over.
-/
namespace Launcher

open Toml.Value (fields? text? texts? orElse)

/-- Why a document is no configuration. -/
inductive ConfigError where
  /-- It is no TOML, or a key has a value of another kind. -/
  | unreadable
  | fault (f : ConfigFault)
deriving DecidableEq, Repr

namespace EnvNames

def keys : List String :=
  ["path", "verbose", "debug", "optimize", "inspect", "unbuffered", "safe-path",
    "ignore-environment", "https-verify"]

def ofValue? (missing : EnvNames) (v : Toml.Value) : Option EnvNames := do
  match ← fields? false keys v with
  | [path, verbose, debug, optimize, inspect, unbuffered, safePath, ignore, https] =>
    some {
      path := ← orElse text? missing.path path
      verbose := ← orElse text? missing.verbose verbose
      debug := ← orElse text? missing.debug debug
      optimize := ← orElse text? missing.optimize optimize
      inspect := ← orElse text? missing.inspect inspect
      unbuffered := ← orElse text? missing.unbuffered unbuffered
      safePath := ← orElse text? missing.safePath safePath
      ignoreEnvironment := ← orElse text? missing.ignoreEnvironment ignore
      httpsVerify := ← orElse text? missing.httpsVerify https }
  | _ => none

end EnvNames

namespace Config

def keys : List String :=
  ["name", "version", "release", "runtime-prefixes", "source-suffixes", "bytecode-suffixes",
    "entry-point", "lib-name", "env"]

def ofValue? (v : Toml.Value) : Option Config := do
  let missing : Config := {}
  match ← fields? false keys v with
  | [name, version, release, runtimes, sources, bytecodes, entryPoint, libName, env] =>
    some {
      name := ← orElse text? missing.name name
      version := ← orElse text? missing.version version
      release := ← orElse text? missing.release release
      runtimePrefixes := ← orElse texts? missing.runtimePrefixes runtimes
      sourceSuffixes := ← orElse texts? missing.sourceSuffixes sources
      bytecodeSuffixes := ← orElse texts? missing.bytecodeSuffixes bytecodes
      entryPoint := ← orElse text? missing.entryPoint entryPoint
      libName := ← orElse text? missing.libName libName
      env := ← orElse (EnvNames.ofValue? missing.env) missing.env env }
  | _ => none

/-- The configuration that a document describes, if it is usable. -/
def ofDocument (text : String) : Except ConfigError Config :=
  match (Toml.parse? text).bind ofValue? with
  | none => .error .unreadable
  | some c =>
    match c.fault? with
    | some f => .error (.fault f)
    | none => .ok c

end Config

end Launcher
