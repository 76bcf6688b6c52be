import Launcher.Number.Double

/-!
Code objects: instructions for a stack machine, and the pools of constants and names that they
refer to by position.
-/
namespace Launcher.Script

/-- A constant. Two are equal when kind and value are; floating-point numbers are compared by
their bits. -/
inductive Const where
  | none
  | bool (b : Bool)
  | int (i : Int64)
  | float (x : Double)
  | str (s : String)
deriving DecidableEq, Repr

inductive BinaryOp where
  | add | sub | mul | div | floorDiv | mod
deriving DecidableEq, Repr

namespace BinaryOp

def all : List BinaryOp := [add, sub, mul, div, floorDiv, mod]

def symbol : BinaryOp → String
  | add => "+"
  | sub => "-"
  | mul => "*"
  | div => "/"
  | floorDiv => "//"
  | mod => "%"

end BinaryOp

inductive Comparison where
  | eq | ne | lt | le | gt | ge
deriving DecidableEq, Repr

namespace Comparison

def all : List Comparison := [eq, ne, lt, le, gt, ge]

def symbol : Comparison → String
  | eq => "=="
  | ne => "!="
  | lt => "<"
  | le => "<="
  | gt => ">"
  | ge => ">="

end Comparison

/-- An instruction. Operands are positions in a pool, counts, or the position to go on at. -/
inductive Instr where
  | loadConst (i : Nat)
  | loadName (i : Nat)
  | storeName (i : Nat)
  | loadAttr (i : Nat)
  | binary (op : BinaryOp)
  | compare (op : Comparison)
  | negate
  | not
  /-- Call with `n` arguments. -/
  | call (n : Nat)
  | subscript
  | buildList (n : Nat)
  /-- Import a dotted name and bind its first component. -/
  | importName (i : Nat)
  | pop
  /-- Drop a value and print it, unless it is `None`. -/
  | printExpr
  /-- Drop a value, and jump if it is true. -/
  | jumpIfTrue (target : Nat)
  /-- Jump if the value on top is false; else drop it. -/
  | jumpIfFalseOrPop (target : Nat)
  /-- Jump if the value on top is true; else drop it. -/
  | jumpIfTrueOrPop (target : Nat)
  /-- Raise an error, given its class and message. -/
  | raise
  /-- Raise an assertion error, given its message. -/
  | assertFail
deriving DecidableEq, Repr

namespace Instr

/-- Where a jump goes. -/
def target? : Instr → Option Nat
  | jumpIfTrue t | jumpIfFalseOrPop t | jumpIfTrueOrPop t => some t
  | _ => Option.none

end Instr

/-- An instruction and the line of the source that it comes from. -/
structure Step where
  instr : Instr
  line : Nat
deriving DecidableEq, Repr

/-- A compiled source. -/
structure Code where
  file : String
  consts : List Const := []
  names : List String := []
  body : List Step := []
deriving DecidableEq, Repr

/-- The position of `a` in a pool, and the pool with `a` in it: a pool holds nothing twice. -/
def intern {α : Type} [DecidableEq α] (pool : List α) (a : α) : Nat × List α :=
  match pool.idxOf? a with
  | some i => (i, pool)
  | none => (pool.length, pool ++ [a])

/-- A pool of all members of a list, each at its first place. -/
def internAll {α : Type} [DecidableEq α] (pool : List α) (as : List α) : List α :=
  as.foldl (fun pool a => (intern pool a).2) pool

namespace Code

/-- Add a constant: its position. -/
def addConst (code : Code) (c : Const) : Nat × Code :=
  let (i, consts) := intern code.consts c
  (i, { code with consts })

/-- Add a name: its position. -/
def addName (code : Code) (name : String) : Nat × Code :=
  let (i, names) := intern code.names name
  (i, { code with names })

end Code

end Launcher.Script
