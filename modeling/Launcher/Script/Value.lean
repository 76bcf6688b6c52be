import Launcher.Number.Decimal
import Launcher.Script.Code

/-!
Values of the script language, their truth and their text.
-/
namespace Launcher.Script

/-- The functions that every module can call. -/
inductive Builtin where
  | print | str | repr | len | int | exit | warn | filterWarnings
deriving DecidableEq, Repr

namespace Builtin

def all : List Builtin := [print, str, repr, len, int, exit, warn, filterWarnings]

def name : Builtin → String
  | print => "print"
  | str => "str"
  | repr => "repr"
  | len => "len"
  | int => "int"
  | exit => "exit"
  | warn => "warn"
  | filterWarnings => "filterwarnings"

/-- The function of a name. -/
def ofName? (name : String) : Option Builtin := all.find? (·.name = name)

end Builtin

/-- A value. A module is known by its dotted name. -/
inductive Value where
  | none
  | bool (b : Bool)
  | int (i : Int64)
  | float (x : Double)
  | str (s : String)
  | list (items : List Value)
  | module (name : String)
  | builtin (f : Builtin)
deriving Repr, Inhabited

namespace Value

def ofConst : Const → Value
  | .none => .none
  | .bool b => .bool b
  | .int i => .int i
  | .float x => .float x
  | .str s => .str s

def typeName : Value → String
  | .none => "NoneType"
  | .bool _ => "bool"
  | .int _ => "int"
  | .float _ => "float"
  | .str _ => "str"
  | .list _ => "list"
  | .module _ => "module"
  | .builtin _ => "builtin_function_or_method"

def truthy : Value → Bool
  | .none => false
  | .bool b => b
  | .int i => i != 0
  | .float x => !x.isZero
  | .str s => !s.isEmpty
  | .list items => !items.isEmpty
  | .module _ | .builtin _ => true

def isNone : Value → Bool
  | .none => true
  | _ => false

/-- How floating-point numbers are written: positional from `10 ^ -4` up to below `10 ^ 16`, with
at least one digit after the point; beyond that with an exponent. -/
def floatText (x : Double) : String :=
  if x.isNaN then "nan"
  else
    let sign := if x.isNegative then "-" else ""
    if x.isInfinite then sign ++ "inf"
    else if x.isZero then sign ++ "0.0"
    else
      let d := Decimal.shortest x
      if d.point < -3 ∨ 16 < d.point then sign ++ d.scientific
      else if x.isIntegral then sign ++ toString x.wholePart ++ ".0"
      else sign ++ d.positional

/-- A character inside quotes. -/
def escape : Char → List Char
  | '\\' => ['\\', '\\']
  | '\'' => ['\\', '\'']
  | '\n' => ['\\', 'n']
  | '\t' => ['\\', 't']
  | c => [c]

/-- A text in single quotes. -/
def quoted (s : String) : String :=
  String.ofList ('\'' :: s.toList.flatMap escape ++ ['\''])

/-- The text of a value as it would be written in a source. -/
def repr : Value → String
  | .none => "None"
  | .bool true => "True"
  | .bool false => "False"
  | .int i => toString i.toInt
  | .float x => floatText x
  | .str s => quoted s
  | .list items => "[" ++ ", ".intercalate (items.map repr) ++ "]"
  | .module name => "<module '" ++ name ++ "'>"
  | .builtin f => "<built-in function " ++ f.name ++ ">"

/-- The text of a value; a string stands for itself. -/
def text : Value → String
  | .str s => s
  | v => v.repr

end Value

end Launcher.Script
