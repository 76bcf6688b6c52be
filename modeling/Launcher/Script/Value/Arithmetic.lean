import Launcher.Script.Value
import Launcher.Target.Error

/-!
Operators on values. Integers have 64 bits: a result is exact or an overflow error. Truth values
count as 0 and 1, and where an operand is a floating-point number so is the result.
-/
namespace Launcher.Script

/-- Why an operator refuses its operands. -/
inductive OperandError where
  | unsupported (op : BinaryOp) (left right : String)
  | unordered (op : Comparison) (left right : String)
  | noNegation (type : String)
  | badIndex (container index : String)
  | notSubscriptable (type : String)
  | overflow
  | divisionByZero
  | floorDivisionByZero
  | moduloByZero
  | floatDivisionByZero
  | floatFloorDivisionByZero
  | floatModuloByZero
  | listIndexOutOfRange
  | stringIndexOutOfRange
deriving DecidableEq, Repr

namespace OperandError

def quote (s : String) : String := "'" ++ s ++ "'"

def toTarget : OperandError → TargetError
  | unsupported op left right =>
    ⟨"TypeError", "unsupported operand type(s) for " ++ op.symbol ++ ": " ++ quote left ++
      " and " ++ quote right, []⟩
  | unordered op left right =>
    ⟨"TypeError", quote op.symbol ++ " not supported between instances of " ++ quote left ++
      " and " ++ quote right, []⟩
  | noNegation type => ⟨"TypeError", "bad operand type for unary -: " ++ quote type, []⟩
  | badIndex container index =>
    ⟨"TypeError", container ++ " indices must be integers, not " ++ index, []⟩
  | notSubscriptable type => ⟨"TypeError", quote type ++ " object is not subscriptable", []⟩
  | overflow => ⟨"OverflowError", "integer overflow", []⟩
  | divisionByZero => ⟨"ZeroDivisionError", "division by zero", []⟩
  | floorDivisionByZero => ⟨"ZeroDivisionError", "integer division or modulo by zero", []⟩
  | moduloByZero => ⟨"ZeroDivisionError", "integer modulo by zero", []⟩
  | floatDivisionByZero => ⟨"ZeroDivisionError", "float division by zero", []⟩
  | floatFloorDivisionByZero => ⟨"ZeroDivisionError", "float floor division by zero", []⟩
  | floatModuloByZero => ⟨"ZeroDivisionError", "float modulo by zero", []⟩
  | listIndexOutOfRange => ⟨"IndexError", "list index out of range", []⟩
  | stringIndexOutOfRange => ⟨"IndexError", "string index out of range", []⟩

end OperandError

namespace Value

/-- The integer that a value counts as. -/
def int? : Value → Option Int64
  | .bool b => some (if b then 1 else 0)
  | .int i => some i
  | _ => Option.none

/-- The floating-point number that a value counts as. -/
def number? : Value → Option Double
  | .bool b => some (Double.ofInt (if b then 1 else 0))
  | .int i => some (Double.ofInt i.toInt)
  | .float x => some x
  | _ => Option.none

/-- An integer value, if it has 64 bits. -/
def ofInt (i : Int) : Except OperandError Value :=
  if Int64.minValue.toInt ≤ i ∧ i ≤ Int64.maxValue.toInt then .ok (.int (Int64.ofInt i)) else .error .overflow

/-- The processor does not divide by 0, and not the least integer by -1, whose quotient has more than 64 bits. -/
def Divides (a b : Int64) : Prop := b ≠ 0 ∧ ¬(a = Int64.minValue ∧ b = -1)

instance (a b : Int64) : Decidable (Divides a b) := inferInstanceAs (Decidable (_ ∧ _))

/-- The quotient rounded towards zero. -/
def checkedDiv (a b : Int64) : Except OperandError Int64 := if Divides a b then .ok (a / b) else .error .overflow

/-- What the quotient rounded towards zero leaves. -/
def checkedRem (a b : Int64) : Except OperandError Int64 := if Divides a b then .ok (a % b) else .error .overflow

/-- One of the two is negative. -/
def oppose (a b : Int64) : Bool := decide (a < 0) != decide (b < 0)

/-- Arithmetic on integers. The quotient `//` is rounded down, and `%` is what is left of it: the processor rounds
towards zero, which is corrected where the operands have different signs and something is left. -/
def intOp (op : BinaryOp) (a b : Int64) : Except OperandError Value :=
  match op with
  | .add => ofInt (a.toInt + b.toInt)
  | .sub => ofInt (a.toInt - b.toInt)
  | .mul => ofInt (a.toInt * b.toInt)
  | .div =>
    if b = 0 then .error .divisionByZero
    else .ok (.float ((Double.ofInt a.toInt).div (Double.ofInt b.toInt)))
  | .floorDiv =>
    if b = 0 then .error .floorDivisionByZero
    else (checkedDiv a b).map fun q => .int (if a % b ≠ 0 ∧ oppose a b then q - 1 else q)
  | .mod =>
    if b = 0 then .error .moduloByZero
    else (checkedRem a b).map fun r => .int (if r ≠ 0 ∧ oppose r b then r + b else r)

/-- Arithmetic on floating-point numbers. The sign of `%` is that of the divisor. -/
def floatOp (op : BinaryOp) (x y : Double) : Except OperandError Value :=
  match op with
  | .add => .ok (.float (x.add y))
  | .sub => .ok (.float (x.sub y))
  | .mul => .ok (.float (x.mul y))
  | .div => if y.isZero then .error .floatDivisionByZero else .ok (.float (x.div y))
  | .floorDiv =>
    if y.isZero then .error .floatFloorDivisionByZero else .ok (.float (x.div y).floor)
  | .mod =>
    if y.isZero then .error .floatModuloByZero
    else
      let r := x.remainder y
      let zero : Double := ⟨0⟩
      let r := if !r.same zero && r.lt zero != y.lt zero then r.add y else r
      .ok (.float r)

/-- Arithmetic where it is defined on the numbers that both sides count as. -/
def numberOp (op : BinaryOp) (a b : Value) : Except OperandError Value :=
  match a.int?, b.int? with
  | some i, some j => intOp op i j
  | _, _ =>
    match a.number?, b.number? with
    | some x, some y => floatOp op x y
    | _, _ => .error (.unsupported op a.typeName b.typeName)

/-- How often an integer repeats a sequence. -/
def times (n : Int64) : Nat := n.toInt.toNat

def repeatText (s : String) (n : Int64) : Value :=
  .str (String.join (List.replicate (times n) s))

def repeatList (items : List Value) (n : Int64) : Value :=
  .list (List.replicate (times n) items).flatten

/-- `a op b`. Strings and lists can be joined, and repeated a number of times. -/
def binary (op : BinaryOp) (a b : Value) : Except OperandError Value :=
  match op, a, b with
  | .add, .str s, .str t => .ok (.str (s ++ t))
  | .add, .list s, .list t => .ok (.list (s ++ t))
  | .mul, .str s, n | .mul, n, .str s =>
    match n.int? with
    | some n => .ok (repeatText s n)
    | Option.none => numberOp op a b
  | .mul, .list s, n | .mul, n, .list s =>
    match n.int? with
    | some n => .ok (repeatList s n)
    | Option.none => numberOp op a b
  | _, _, _ => numberOp op a b

def negate : Value → Except OperandError Value
  | .int i => ofInt (-i.toInt)
  | .bool b => .ok (.int (if b then -1 else 0))
  | .float x => .ok (.float x.neg)
  | v => .error (.noNegation v.typeName)

mutual

/-- Values of one kind that agree. Numbers of different kinds do not, and a NaN agrees with
nothing. -/
def identical : Value → Value → Bool
  | .none, .none => true
  | .bool a, .bool b => a == b
  | .int a, .int b => a == b
  | .float a, .float b => a.same b
  | .str a, .str b => a == b
  | .list a, .list b => identicalAll a b
  | .module a, .module b => a == b
  | .builtin a, .builtin b => a == b
  | _, _ => false

def identicalAll : List Value → List Value → Bool
  | [], [] => true
  | a :: as, b :: bs => identical a b && identicalAll as bs
  | _, _ => false

end

/-- Equality: numbers are compared as floating-point numbers, all else by kind and content. -/
def equals (a b : Value) : Bool :=
  match a.number?, b.number? with
  | some x, some y => x.same y
  | _, _ => a.identical b

/-- The order of two values that have one: `none` if a NaN takes part. -/
def order (op : Comparison) (a b : Value) : Except OperandError (Option Ordering) :=
  let numbers : Except OperandError (Option Ordering) :=
    match a.number?, b.number? with
    | some x, some y =>
      .ok (if x.lt y then some .lt else if y.lt x then some .gt
        else if x.same y then some .eq else Option.none)
    | _, _ => .error (.unordered op a.typeName b.typeName)
  match a, b with
  | .str s, .str t => .ok (some (if s < t then .lt else if s = t then .eq else .gt))
  | _, _ => numbers

/-- The answer to a comparison, given the order. -/
def holds : Comparison → Option Ordering → Bool
  | .lt, some o => o == .lt
  | .le, some o => o != .gt
  | .gt, some o => o == .gt
  | .ge, some o => o != .lt
  | _, _ => false

/-- Whether `a op b`. -/
def compare (op : Comparison) (a b : Value) : Except OperandError Value :=
  match op with
  | .eq => .ok (.bool (a.equals b))
  | .ne => .ok (.bool (!a.equals b))
  | _ => (order op a b).map fun o => .bool (holds op o)

/-- The place that an index means in a sequence of `n` members: a negative one counts from the
end. -/
def place? (i : Int64) (n : Nat) : Option Nat :=
  let i := if i.toInt < 0 then i.toInt + n else i.toInt
  if 0 ≤ i ∧ i < n then some i.toNat else Option.none

/-- `v[index]`. -/
def subscript (v index : Value) : Except OperandError Value :=
  match index.int? with
  | Option.none => .error (.badIndex v.typeName index.typeName)
  | some i =>
    match v with
    | .list items =>
      match (place? i items.length).bind (items[·]?) with
      | some item => .ok item
      | Option.none => .error .listIndexOutOfRange
    | .str s =>
      let cs := s.toList
      match (place? i cs.length).bind (cs[·]?) with
      | some c => .ok (.str (String.singleton c))
      | Option.none => .error .stringIndexOutOfRange
    | v => .error (.notSubscriptable v.typeName)

end Value

end Launcher.Script
