import Launcher.Script.Token.Scan
import Launcher.Script.Tree.Reading
import Launcher.Target.Error

/-!
Code for syntax trees. The pools hold the constants and names of the whole program in the order in
which the code refers to them; then each node becomes instructions that leave its value on the
stack. `at` is the position of a node's first instruction.
-/
namespace Launcher.Script

namespace Expr

mutual

/-- The constants of an expression, in order of use. -/
def consts : Expr → List Const
  | .const _ c => [c]
  | .name _ _ => []
  | .list _ es => constsAll es
  | .call _ e es => consts e ++ constsAll es
  | .attr _ e _ | .negate _ e | .not _ e => consts e
  | .subscript _ a b | .binary _ _ a b | .compare _ _ a b | .and _ a b | .or _ a b =>
    consts a ++ consts b

def constsAll : List Expr → List Const
  | [] => []
  | e :: es => consts e ++ constsAll es

end

mutual

/-- The names of an expression, in order of use. -/
def names : Expr → List String
  | .const _ _ => []
  | .name _ id => [id]
  | .list _ es => namesAll es
  | .call _ e es => names e ++ namesAll es
  | .attr _ e id => names e ++ [id]
  | .negate _ e | .not _ e => names e
  | .subscript _ a b | .binary _ _ a b | .compare _ _ a b | .and _ a b | .or _ a b =>
    names a ++ names b

def namesAll : List Expr → List String
  | [] => []
  | e :: es => names e ++ namesAll es

end

end Expr

namespace Statement

/-- The constant that stands for a message, when there is no expression for it. -/
def messageConsts : Option Expr → List Const
  | some e => e.consts
  | none => [.none]

def messageNames : Option Expr → List String
  | some e => e.names
  | none => []

/-- The constants of a statement, in order of use. -/
def consts : Statement → List Const
  | .imports _ | .pass => []
  | .assert _ test _ message => test.consts ++ messageConsts message
  | .raise _ kind _ message => .str kind :: messageConsts message
  | .assign _ _ e | .expression _ e => e.consts

/-- The names of a statement, in order of use. -/
def names : Statement → List String
  | .imports dotted => dotted.map Prod.snd
  | .pass => []
  | .assert _ test _ message => test.names ++ messageNames message
  | .raise _ _ _ message => messageNames message
  | .assign _ id e => e.names ++ [id]
  | .expression _ e => e.names

end Statement

/-- The constants and names that instructions refer to. -/
structure Pools where
  consts : List Const
  names : List String

namespace Pools

def ofProgram (p : Program) : Pools :=
  ⟨internAll [] (p.flatMap Statement.consts), internAll [] (p.flatMap Statement.names)⟩

def loadConst (pools : Pools) (line : Nat) (c : Const) : Step :=
  ⟨.loadConst (pools.consts.idxOf c), line⟩

def name (pools : Pools) (id : String) : Nat := pools.names.idxOf id

end Pools

namespace Expr

mutual

/-- Instructions that push the value of an expression. -/
def code (pools : Pools) (pos : Nat) : Expr → List Step
  | .const line c => [pools.loadConst line c]
  | .name line id => [⟨.loadName (pools.name id), line⟩]
  | .list line es => codeAll pools pos es ++ [⟨.buildList es.length, line⟩]
  | .call line e es =>
    let callee := code pools pos e
    callee ++ codeAll pools (pos + callee.length) es ++ [⟨.call es.length, line⟩]
  | .attr line e id => code pools pos e ++ [⟨.loadAttr (pools.name id), line⟩]
  | .subscript line a b =>
    let object := code pools pos a
    object ++ code pools (pos + object.length) b ++ [⟨.subscript, line⟩]
  | .negate line e => code pools pos e ++ [⟨.negate, line⟩]
  | .binary line op a b =>
    let left := code pools pos a
    left ++ code pools (pos + left.length) b ++ [⟨.binary op, line⟩]
  | .compare line op a b =>
    let left := code pools pos a
    left ++ code pools (pos + left.length) b ++ [⟨.compare op, line⟩]
  | .not line e => code pools pos e ++ [⟨.not, line⟩]
  | .and line a b =>
    let left := code pools pos a
    let right := code pools (pos + left.length + 1) b
    left ++ ⟨.jumpIfFalseOrPop (pos + left.length + 1 + right.length), line⟩ :: right
  | .or line a b =>
    let left := code pools pos a
    let right := code pools (pos + left.length + 1) b
    left ++ ⟨.jumpIfTrueOrPop (pos + left.length + 1 + right.length), line⟩ :: right

/-- Instructions that push the values of expressions, the last on top. -/
def codeAll (pools : Pools) (pos : Nat) : List Expr → List Step
  | [] => []
  | e :: es =>
    let first := code pools pos e
    first ++ codeAll pools (pos + first.length) es

end

end Expr

/-- The choices that a compilation leaves open: whether assertions are left out, and whether the
values of expression statements are printed. -/
structure CompileMode where
  dropAsserts : Bool := false
  echo : Bool := false
deriving DecidableEq, Repr

namespace Statement

/-- Instructions that push the message of an error, or `None` if it has none. -/
def messageCode (pools : Pools) (pos line : Nat) : Option Expr → List Step
  | some e => e.code pools pos
  | none => [pools.loadConst line .none]

/-- Instructions that carry out a statement and leave the stack as it was. -/
def code (mode : CompileMode) (pools : Pools) (pos : Nat) : Statement → List Step
  | .imports dotted => dotted.map fun (line, id) => ⟨.importName (pools.name id), line⟩
  | .assert testLine test line message =>
    if mode.dropAsserts then []
    else
      let check := test.code pools pos
      let complaint := messageCode pools (pos + check.length + 1) line message
      check ++ ⟨.jumpIfTrue (pos + check.length + 1 + complaint.length + 1), testLine⟩ ::
        complaint ++ [⟨.assertFail, line⟩]
  | .raise kindLine kind line message =>
    pools.loadConst kindLine (.str kind) :: messageCode pools (pos + 1) line message ++
      [⟨.raise, line⟩]
  | .pass => []
  | .assign line id e => e.code pools pos ++ [⟨.storeName (pools.name id), line⟩]
  | .expression line e =>
    e.code pools pos ++ [⟨if mode.echo then .printExpr else .pop, line⟩]

end Statement

namespace Program

/-- Instructions that carry out statements one after the other. -/
def code (mode : CompileMode) (pools : Pools) (pos : Nat) : Program → List Step
  | [] => []
  | s :: ss =>
    let first := s.code mode pools pos
    first ++ code mode pools (pos + first.length) ss

/-- The code object of a program. -/
def compile (mode : CompileMode) (file : String) (p : Program) : Code :=
  let pools := Pools.ofProgram p
  ⟨file, pools.consts, pools.names, code mode pools 0 p⟩

end Program

def syntaxError (message file : String) (line : Nat) : TargetError :=
  ⟨"SyntaxError", message ++ " (" ++ file ++ s!", line {line})", []⟩

/-- The code object of a source text. -/
def compile (mode : CompileMode) (file source : String) : Except TargetError Code :=
  match tokenize source with
  | .error e => .error (syntaxError e.fault.message file e.line)
  | .ok ts =>
    match Program.ofTokens ts with
    | .error line => .error (syntaxError "invalid syntax" file line)
    | .ok p => .ok (p.compile mode file)

end Launcher.Script
