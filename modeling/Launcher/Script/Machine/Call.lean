import Launcher.Script.Machine
import Launcher.Text.Blank
import Launcher.Text.Integer

/-!
The functions that every module can call.
-/
namespace Launcher.Script

/-- Where a call stands. -/
structure CallSite where
  file : String
  line : Nat
  module : String

namespace Call

def typeError (message : String) : TargetError := ⟨"TypeError", message, []⟩

def wrongCount (f : Builtin) (least most given : Nat) : TargetError :=
  let range := if least = most then toString least else s!"{least} to {most}"
  typeError (f.name ++ "() takes " ++ range ++ s!" arguments ({given} given)")

/-- A function that takes one argument. -/
def oneArg (f : Builtin) (args : List Value) (k : Value → Run Value) : Run Value :=
  match args with
  | [a] => k a
  | _ => Run.raise (wrongCount f 1 1 args.length)

/-- A function that takes one argument or none. -/
def optionalArg (f : Builtin) (args : List Value) (k : Option Value → Run Value) : Run Value :=
  match args with
  | [] => k none
  | [a] => k (some a)
  | _ => Run.raise (wrongCount f 0 1 args.length)

/-- A function that takes one argument or two. -/
def oneOrTwoArgs (f : Builtin) (args : List Value) (k : Value → Option Value → Run Value) :
    Run Value :=
  match args with
  | [a] => k a none
  | [a, b] => k a (some b)
  | _ => Run.raise (wrongCount f 1 2 args.length)

def ofNat (n : Nat) : Value := .int (Int64.ofNat n)

def len (v : Value) : Except TargetError Value :=
  match v with
  | .str s => .ok (ofNat s.length)
  | .list items => .ok (ofNat items.length)
  | v => .error (typeError ("object of type '" ++ v.typeName ++ "' has no len()"))

/-- An integer of 64 bits, the nearest one if there are too few. -/
def clamp (i : Int) : Int64 := Int64.ofInt (max Int64.minValue.toInt (min i Int64.maxValue.toInt))

/-- The integer that a value means. A fraction is cut off; a text is read as decimal digits. -/
def int (v : Option Value) : Except TargetError Value :=
  match v with
  | none => .ok (.int 0)
  | some (.int i) => .ok (.int i)
  | some (.bool b) => .ok (.int (if b then 1 else 0))
  | some (.str s) =>
    match int64? (trim s) with
    | some i => .ok (.int i)
    | none =>
      .error ⟨"ValueError", "invalid literal for int() with base 10: " ++ Value.quoted s, []⟩
  | some v =>
    let refused :=
      typeError ("int() argument must be a string or a number, not '" ++ v.typeName ++ "'")
    match v with
    | .float x => if x.isFinite then .ok (.int (clamp x.truncate)) else .error refused
    | _ => .error refused

/-- A status of 32 bits. -/
def status (i : Int64) : Int := i.toInt.bmod (1 <<< 32)

def exit (v : Option Value) : Run Value :=
  match v with
  | none | some .none => Action.fail (.exit 0)
  | some (.int i) => Action.fail (.exit (status i))
  | some (.bool b) => Action.fail (.exit (if b then 1 else 0))
  | some v => do
    Run.err (v.text ++ "\n")
    Action.fail (.exit 1)

/-- What tells a warning apart from others, under an action that shows it once. -/
def identity? (action : WarningAction) (w : Warning) : Option String :=
  match action with
  | .default => some (w.category ++ ":" ++ w.message ++ ":" ++ w.module ++ s!":{w.line}")
  | .module => some (w.category ++ ":" ++ w.message ++ ":" ++ w.module)
  | .once => some (w.category ++ ":" ++ w.message)
  | _ => none

/-- Give a warning. One that is shown once counts as shown also if standard error does not take it. -/
def warn (site : CallSite) (category message : String) : Run Unit := do
  let m ← Action.get
  let w : Warning := ⟨category, message, site.module, site.line⟩
  let line := site.file ++ s!":{site.line}: " ++ category ++ ": " ++ message ++ "\n"
  match m.channels.filters.actionFor w with
  | .ignore => Action.pure ()
  | .error => Run.raise ⟨category, message, []⟩
  | action =>
    match identity? action w with
    | none => Run.err line
    | some id =>
      if m.shown.contains id then Action.pure ()
      else do
        Action.modify fun m => { m with shown := id :: m.shown }
        Run.err line

def addFilter (spec : String) : Run Unit :=
  match WarningFilter.parse spec with
  | .ok f => Action.modify fun m => { m with channels.filters := m.channels.filters.add f }
  | .error e => Run.raise ⟨"ValueError", e.reason, []⟩

/-- Call a function. -/
def call (site : CallSite) (f : Builtin) (args : List Value) : Run Value :=
  match f with
  | .print => do
    Run.out (" ".intercalate (args.map Value.text))
    Action.pure .none
  | .str => optionalArg f args fun v => Action.pure (.str ((v.map Value.text).getD ""))
  | .repr => oneArg f args fun v => Action.pure (.str v.repr)
  | .len => oneArg f args fun v => Run.ofExcept (len v)
  | .int => optionalArg f args fun v => Run.ofExcept (int v)
  | .exit => optionalArg f args exit
  | .warn => oneOrTwoArgs f args fun message category => do
    warn site ((category.map Value.text).getD "UserWarning") message.text
    Action.pure .none
  | .filterWarnings => oneOrTwoArgs f args fun action message => do
    let spec :=
      match message with
      | some message => action.text ++ ":" ++ message.text
      | none => action.text
    addFilter spec
    Action.pure .none

end Call

end Launcher.Script
