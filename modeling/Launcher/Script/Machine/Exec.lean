import Launcher.Script.Code.Bytes
import Launcher.Script.Code.Compile
import Launcher.Script.Machine.Call
import Launcher.Script.Value.Arithmetic

/-!
Execution of code objects. The steps that a run may take are counted, since decoded code can jump
backwards for ever; a run that uses them up ends `exhausted`.
-/
namespace Launcher.Script

namespace Exec

/-- Runs the code of a module from its start. -/
abbrev Runner := Code → String → Run Unit

def underflow : TargetError := ⟨"SystemError", "stack underflow", []⟩

def pop : List Value → Except TargetError (Value × List Value)
  | v :: stack => .ok (v, stack)
  | [] => .error underflow

/-- The `n` values on top, the topmost last, and the rest. -/
def popMany (n : Nat) (stack : List Value) : Except TargetError (List Value × List Value) :=
  if n ≤ stack.length then .ok ((stack.take n).reverse, stack.drop n) else .error underflow

def constAt (code : Code) (i : Nat) : Except TargetError Const :=
  match code.consts[i]? with
  | some c => .ok c
  | none => .error Code.badData

def nameAt (code : Code) (i : Nat) : Except TargetError String :=
  match code.names[i]? with
  | some name => .ok name
  | none => .error Code.badData

/-- The value of a name in a module: its own variable, the arguments of the program, or a
function that every module has. -/
def loadName (env : Surroundings) (module name : String) (m : Machine) : Except TargetError Value :=
  match (m.scope module).get? name with
  | some v => .ok v
  | none =>
    if name = "argv" then .ok (.list (env.argv.map .str))
    else
      match Builtin.ofName? name with
      | some f => .ok (.builtin f)
      | none => .error ⟨"NameError", "name '" ++ name ++ "' is not defined", []⟩

/-- The attribute of a value; only modules have any. -/
def loadAttr (v : Value) (name : String) (m : Machine) : Except TargetError Value :=
  match v with
  | .module module =>
    match (m.modules.get? module).bind (·.get? name) with
    | some v => .ok v
    | none =>
      .error ⟨"AttributeError", "module '" ++ module ++ "' has no attribute '" ++ name ++ "'", []⟩
  | v =>
    .error ⟨"AttributeError", "'" ++ v.typeName ++ "' object has no attribute '" ++ name ++ "'", []⟩

/-! ## Imports -/

/-- The error that an import statement raises for a name that yields no module. -/
def importFailure (e : ImportError) : TargetError :=
  match e with
  | .notFound _ => ⟨"ModuleNotFoundError", e.message, []⟩
  | _ => ⟨"ImportError", e.message, []⟩

/-- The code of a module that was found. -/
def codeOf (env : Surroundings) (found : LocatedModule) : Except TargetError Code :=
  match found.code with
  | .source text => compile { dropAsserts := 0 < env.flags.optimize } found.origin text
  | .compiled bytes => Code.ofBytes bytes
  | .namespacePackage => .ok ⟨found.origin, [], [], []⟩

/-- The names that a dotted name passes through, the shortest first: `a`, `a.b`, `a.b.c`. -/
def throughNames (dotted : String) : List String :=
  let extend (parts : List String) (part : String) : List String :=
    match parts with
    | [] => [part]
    | q :: _ => (if q.isEmpty then part else q ++ "." ++ part) :: parts
  ((dotted.splitOn ".").foldl extend []).reverse

/-- The part of a dotted name before the last dot, and the part after it. -/
def splitLast? (dotted : String) : Option (String × String) :=
  match (dotted.splitOn ".").reverse with
  | child :: parent :: rest => some (".".intercalate (rest.reverse ++ [parent]), child)
  | _ => none

/-- Load one module, unless it is loaded. It is in the table while its code runs, and leaves it
if the code fails; afterwards its package gets a variable for it. -/
def importOne (env : Surroundings) (run : Runner) (name : String) : Run Unit := do
  let m ← Action.get
  if m.modules.has name then Action.pure ()
  else
    match env.find name with
    | .error e => Run.raise (importFailure e)
    | .ok found =>
      let code ← Run.ofExcept (codeOf env found)
      Action.modify fun m => (m.enter name found.origin).noteStart name
      (run code name).onFail (Machine.remove name)
      match splitLast? name with
      | some (parent, child) => Action.modify (Machine.bind parent child (.module name))
      | none => Action.pure ()

/-- Load modules, one after the other. -/
def importAll (env : Surroundings) (run : Runner) : List String → Run Unit
  | [] => Action.pure ()
  | name :: names => do
    importOne env run name
    importAll env run names

/-! ## Instructions -/

/-- What an instruction leaves: the stack, and where to go on if that is not the next place. -/
structure Next where
  stack : List Value
  jump : Option Nat := none

/-- Carry out one instruction. -/
def step (env : Surroundings) (run : Runner) (code : Code) (module : String) (s : Step)
    (stack : List Value) : Run Next := do
  match s.instr with
  | .loadConst i =>
    let c ← Run.ofExcept (constAt code i)
    Action.pure { stack := Value.ofConst c :: stack }
  | .loadName i =>
    let name ← Run.ofExcept (nameAt code i)
    let m ← Action.get
    let v ← Run.ofExcept (loadName env module name m)
    Action.pure { stack := v :: stack }
  | .storeName i =>
    let (v, stack) ← Run.ofExcept (pop stack)
    let name ← Run.ofExcept (nameAt code i)
    Action.modify (Machine.bind module name v)
    Action.pure { stack }
  | .loadAttr i =>
    let (object, stack) ← Run.ofExcept (pop stack)
    let name ← Run.ofExcept (nameAt code i)
    let m ← Action.get
    let v ← Run.ofExcept (loadAttr object name m)
    Action.pure { stack := v :: stack }
  | .binary op =>
    let (b, stack) ← Run.ofExcept (pop stack)
    let (a, stack) ← Run.ofExcept (pop stack)
    let v ← Run.ofExcept ((Value.binary op a b).mapError OperandError.toTarget)
    Action.pure { stack := v :: stack }
  | .compare op =>
    let (b, stack) ← Run.ofExcept (pop stack)
    let (a, stack) ← Run.ofExcept (pop stack)
    let v ← Run.ofExcept ((Value.compare op a b).mapError OperandError.toTarget)
    Action.pure { stack := v :: stack }
  | .negate =>
    let (a, stack) ← Run.ofExcept (pop stack)
    let v ← Run.ofExcept (a.negate.mapError OperandError.toTarget)
    Action.pure { stack := v :: stack }
  | .not =>
    let (a, stack) ← Run.ofExcept (pop stack)
    Action.pure { stack := .bool (!a.truthy) :: stack }
  | .call n =>
    let (args, stack) ← Run.ofExcept (popMany n stack)
    let (callee, stack) ← Run.ofExcept (pop stack)
    match callee with
    | .builtin f =>
      let v ← Call.call ⟨code.file, s.line, module⟩ f args
      Action.pure { stack := v :: stack }
    | v => Run.raise (Call.typeError ("'" ++ v.typeName ++ "' object is not callable"))
  | .subscript =>
    let (index, stack) ← Run.ofExcept (pop stack)
    let (object, stack) ← Run.ofExcept (pop stack)
    let v ← Run.ofExcept ((object.subscript index).mapError OperandError.toTarget)
    Action.pure { stack := v :: stack }
  | .buildList n =>
    let (items, stack) ← Run.ofExcept (popMany n stack)
    Action.pure { stack := .list items :: stack }
  | .importName i =>
    let dotted ← Run.ofExcept (nameAt code i)
    importAll env run (throughNames dotted)
    let top := (dotted.splitOn ".").headD dotted
    Action.modify (Machine.bind module top (.module top))
    Action.pure { stack }
  | .pop =>
    let (_, stack) ← Run.ofExcept (pop stack)
    Action.pure { stack }
  | .printExpr =>
    let (v, stack) ← Run.ofExcept (pop stack)
    if !v.isNone then Run.out v.repr
    Action.pure { stack }
  | .jumpIfTrue target =>
    let (v, stack) ← Run.ofExcept (pop stack)
    Action.pure { stack, jump := if v.truthy then some target else none }
  | .jumpIfFalseOrPop target =>
    let (v, rest) ← Run.ofExcept (pop stack)
    Action.pure (if v.truthy then { stack := rest } else { stack, jump := some target })
  | .jumpIfTrueOrPop target =>
    let (v, rest) ← Run.ofExcept (pop stack)
    Action.pure (if v.truthy then { stack, jump := some target } else { stack := rest })
  | .raise =>
    let (message, stack) ← Run.ofExcept (pop stack)
    let (kind, _) ← Run.ofExcept (pop stack)
    Run.raise ⟨kind.text, if message.isNone then "" else message.text, []⟩
  | .assertFail =>
    let (message, _) ← Run.ofExcept (pop stack)
    Run.raise ⟨"AssertionError", if message.isNone then "" else message.text, []⟩

/-- Put the place that was being executed around an error. -/
def inFrame (file : String) (line : Nat) : Halt → Halt
  | .raised e => .raised (e.pushOuter ⟨file, line, "<module>"⟩)
  | h => h

/-- Execute code from position `pos` on, in at most `fuel` steps. Modules that it imports share
the count. -/
def runFrom (env : Surroundings) :
    (fuel : Nat) → (code : Code) → (module : String) → (pos : Nat) → List Value → Run Unit
  | 0, _, _, _, _, m => (.error .exhausted, m)
  | fuel + 1, code, module, pos, stack, m =>
    match code.body[pos]? with
    | none => (.ok (), m)
    | some s =>
      let run : Runner := fun code module => runFrom env fuel code module 0 []
      match step env run code module s stack m with
      | (.ok next, m) =>
        runFrom env fuel code module (next.jump.getD (pos + 1)) next.stack m
      | (.error h, m) => (.error (inFrame code.file s.line h), m)

/-- Execute the code of a module, which is entered in the table if it is not there. -/
def exec (env : Surroundings) (fuel : Nat) (code : Code) (module : String) : Run Unit := do
  Action.modify (Machine.enter module code.file)
  runFrom env fuel code module 0 []

end Exec

end Launcher.Script
