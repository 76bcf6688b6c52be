import Launcher.Flags
import Launcher.Import.Module
import Launcher.Streams
import Launcher.Target.Error
import Launcher.Warning

/-!
Hosts: interpreters that compile and run the target for the launcher. A host works on a state of
its own and on the channels that the launcher lends it.
-/
namespace Launcher

/-- What a target can look at but not change. -/
structure Surroundings where
  find : String → Except ImportError LocatedModule
  argv : List String
  flags : Flags

/-- What a target can change outside its host: the warning filters and the standard streams. -/
structure Channels where
  filters : WarningFilters := []
  streams : Streams := {}

/-- How a run of a target ended. -/
abbrev Ending := Except Halt Unit

/-- An interpreter with states of type `σ`. -/
structure Host (σ : Type) where
  /-- The four bytes at the front of its bytecode files. -/
  magic : Bytes
  compile : (source file : String) → (optimize : Nat) → Except TargetError Bytes
  /-- Run code as the main module. -/
  runMain : (code : Bytes) → (file : String) → Surroundings → σ → Channels → Ending × σ × Channels
  /-- Read statements and run them in the main module until the input ends. -/
  interact : (banner : String) → Surroundings → σ → Channels → Ending × σ × Channels

/-- The header in front of the code in a bytecode file: the magic bytes, and four bytes that are
reserved. -/
def headerSize : Nat := 8

/-- A bytecode file with the given code. -/
def codeFile (magic code : Bytes) : Bytes := magic ++ [0, 0, 0, 0] ++ code

/-- The code in a bytecode file, unless its header is short or of another host. -/
def stripHeader? (magic file : Bytes) : Option Bytes :=
  if file.length < headerSize ∨ file.take 4 ≠ magic then none else some (file.drop headerSize)

end Launcher
