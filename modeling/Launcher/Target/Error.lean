/-!
Errors raised by the target program, with the lines that were being executed, and the ways in
which a run of it stops short.
-/
namespace Launcher

/-- A place that was being executed when an error arose. -/
structure Frame where
  file : String
  line : Nat
  scope : String
deriving DecidableEq, Repr

/-- An error of the target: the name of its class, its message, and the active places, the
outermost first. -/
structure TargetError where
  kind : String
  message : String
  trace : List Frame := []
deriving DecidableEq, Repr

namespace TargetError

/-- Add a place outside the others. -/
def pushOuter (e : TargetError) (f : Frame) : TargetError := { e with trace := f :: e.trace }

/-- The last line of a report. -/
def headline (e : TargetError) : String :=
  if e.message.isEmpty then e.kind else e.kind ++ ": " ++ e.message

def frameLine (f : Frame) : String :=
  "  File \"" ++ f.file ++ s!"\", line {f.line}, in " ++ f.scope ++ "\n"

/-- The report of an error: the active places, if there are any, and the headline. -/
def report (e : TargetError) : String :=
  let trace :=
    if e.trace.isEmpty then ""
    else "Traceback (most recent call last):\n" ++ String.join (e.trace.map frameLine)
  trace ++ e.headline ++ "\n"

end TargetError

/-- How a run of the target ends when it does not finish: with an error that nothing caught, with
a status of its own choice, or because it used up the steps it was given. -/
inductive Halt where
  | raised (e : TargetError)
  | exit (status : Int)
  | exhausted
deriving DecidableEq, Repr

namespace Halt

def message : Halt → String
  | raised e => e.headline
  | exit status => s!"exit({status})"
  | exhausted => "step budget exhausted"

end Halt

end Launcher
