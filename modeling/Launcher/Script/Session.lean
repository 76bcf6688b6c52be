import Launcher.Script.Machine.Exec

/-!
The host of the script language: its main program and its read-eval loop. Both run in the module
`__main__`, and what one of them leaves there the next one finds.
-/
namespace Launcher.Script

namespace Session

def mainModule : String := "__main__"

/-- Run code bytes as the main module. -/
def runMain (env : Surroundings) (fuel : Nat) (code : Bytes) (file : String) : Run Unit := do
  let code ← Run.ofExcept (Code.ofBytes code)
  Action.modify (Machine.enter mainModule file)
  Exec.exec env fuel code mainModule

def interactiveFile : String := "<stdin>"

/-- Run one line in the main module. -/
def runLine (env : Surroundings) (fuel : Nat) (line : String) : Run Unit := do
  let mode : CompileMode := { dropAsserts := 0 < env.flags.optimize, echo := true }
  let code ← Run.ofExcept (compile mode interactiveFile line)
  Exec.exec env fuel code mainModule

/-- Ask the user for a line. -/
def ask : Run Streams.Line := fun m =>
  let (line, streams) := m.channels.streams.readLine ">>> "
  (.ok line, { m with channels.streams := streams })

/-- Report an error and go on; anything else that stops a line stops the loop. -/
def reporting (x : Run Unit) : Run Unit := fun m =>
  match x m with
  | (.error (.raised e), m) => Run.err e.report m
  | r => r

/-- Run one line, report its error and pass on what it has written. -/
def round (env : Surroundings) (fuel : Nat) (line : String) : Run Unit := do
  reporting (runLine env fuel line)
  Run.transfer Streams.flush

/-- End the line of the last prompt. Whether that is taken makes no difference. -/
def leave : Run Unit := Action.modify fun m => { m with channels.streams := m.channels.streams.tell "\n" }

/-- Read and run at most `rounds` lines. -/
def loop (env : Surroundings) (fuel : Nat) : (rounds : Nat) → Run Unit
  | 0 => Action.fail .exhausted
  | rounds + 1 => do
    match ← ask with
    | .endOfInput => leave
    | .failed message => Run.raise (Run.streamError message)
    | .line line =>
      if (trim line).isEmpty then loop env fuel rounds
      else do
        round env fuel line
        loop env fuel rounds

/-- How many lines can still be read up to a failure or the end, and one more for that. -/
def lineBound (s : Streams) : Nat :=
  match s.console with
  | some lines => lines.length + 1
  | none => s.stdin.length + 1

/-- Show the banner, unless it is empty, and enter the main module. -/
def greet (banner : String) : Run Unit := do
  if !banner.isEmpty then Run.err (banner ++ "\n")
  Action.modify (Machine.enter mainModule interactiveFile)

/-- Show the banner, and read and run lines until the input ends. -/
def interact (env : Surroundings) (fuel : Nat) (banner : String) : Run Unit := do
  greet banner
  let m ← Action.get
  loop env fuel (lineBound m.channels.streams)

/-- Run a computation with the channels that the launcher lends. -/
def lend (x : Run Unit) (m : Machine) (channels : Channels) : Ending × Machine × Channels :=
  let (ending, m) := x { m with channels }
  (ending, m, m.channels)

/-- The host of the script language, which gives up after `fuel` steps. -/
def host (fuel : Nat) : Host Machine where
  magic := [0x4D, 0x49, 0x4E, 0x49]
  compile source file optimize :=
    (compile { dropAsserts := 0 < optimize } file source).map Code.toBytes
  runMain code file env m channels := lend (runMain env fuel code file) m channels
  interact banner env m channels := lend (interact env fuel banner) m channels

end Session

end Launcher.Script
