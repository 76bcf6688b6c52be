import Launcher.Action
import Launcher.Dict
import Launcher.Script.Value
import Launcher.Target.Host

/-!
The state of the script machine and computations on it. A computation that stops short keeps what
it has changed.
-/
namespace Launcher.Script

/-- The variables of a module. -/
abbrev Scope := Dict Value

/-- The state of a machine. `shown` holds the identities of the warnings that were printed once
and for all; `started` lists the modules whose code was started, the latest first. -/
structure Machine where
  modules : Dict Scope := []
  shown : List String := []
  started : List String := []
  channels : Channels := {}

/-- A computation on a machine. -/
abbrev Run (α : Type) : Type := Action Halt Machine α

namespace Run

variable {α : Type}

def raise (e : TargetError) : Run α := Action.fail (.raised e)

def ofExcept : Except TargetError α → Run α
  | .ok a => Action.pure a
  | .error e => raise e

/-- The error that a failure of the streams is to the target. -/
def streamError (message : String) : TargetError := ⟨"OSError", message, []⟩

/-- Do something with the streams. A failure of them is an error of the target. -/
def transfer (x : Streams.Transfer α) : Run α := fun m =>
  let (result, streams) := x m.channels.streams
  (result.mapError fun message => .raised (streamError message), { m with channels.streams := streams })

/-- Write a line to standard output. -/
def out (line : String) : Run Unit := transfer (Streams.outLine line)

/-- Write a text to standard error. -/
def err (text : String) : Run Unit := transfer (Streams.err text)

end Run

namespace Machine

/-- The variables that every module has from the start. -/
def freshScope (module file : String) : Scope :=
  [("__name__", .str module), ("__file__", .str file)]

/-- Enter a module in the table, unless it is there. -/
def enter (module file : String) (m : Machine) : Machine :=
  if m.modules.has module then m
  else { m with modules := m.modules.set module (freshScope module file) }

def remove (module : String) (m : Machine) : Machine :=
  { m with modules := m.modules.erase module }

def scope (module : String) (m : Machine) : Scope := (m.modules.get? module).getD []

/-- Bind a variable of a module that is in the table. -/
def bind (module name : String) (v : Value) (m : Machine) : Machine :=
  match m.modules.get? module with
  | some scope => { m with modules := m.modules.set module (scope.set name v) }
  | none => m

def noteStart (module : String) (m : Machine) : Machine :=
  { m with started := module :: m.started }

end Machine

end Launcher.Script
