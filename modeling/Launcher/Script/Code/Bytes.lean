import Launcher.Bytes.Utf8
import Launcher.Script.Code
import Launcher.Target.Error

/-!
Code objects as bytes. A text is its length in four bytes and its UTF-8 form; a list is its length
in four bytes and its members; numbers have their least significant byte first.
-/
namespace Launcher.Script

namespace Code

/-- The mark at the front of code bytes, and the version of their form. -/
def signature : Bytes := [0x4D, 0x43, 1]

/-! ## Writing -/

def encodeText (s : String) : Bytes :=
  let bs := Bytes.ofString s
  Bytes.encodeLE 4 bs.length ++ bs

def encodeList {α : Type} (encode : α → Bytes) (as : List α) : Bytes :=
  Bytes.encodeLE 4 as.length ++ as.flatMap encode

def encodeConst : Const → Bytes
  | .none => [0]
  | .bool false => [1]
  | .bool true => [2]
  | .int i => 3 :: Bytes.encodeLE 8 i.toUInt64.toNat
  | .float x => 4 :: Bytes.encodeLE 8 x.bits.toNat
  | .str s => 5 :: encodeText s

def operationNumber (op : BinaryOp) : Nat := BinaryOp.all.idxOf op

def comparisonNumber (op : Comparison) : Nat := Comparison.all.idxOf op

/-- The number of an instruction, and its operand. -/
def opcode : Instr → UInt8 × Nat
  | .loadConst i => (1, i)
  | .loadName i => (2, i)
  | .storeName i => (3, i)
  | .loadAttr i => (4, i)
  | .binary op => (5, operationNumber op)
  | .compare op => (6, comparisonNumber op)
  | .negate => (7, 0)
  | .not => (8, 0)
  | .call n => (9, n)
  | .subscript => (10, 0)
  | .buildList n => (11, n)
  | .importName i => (12, i)
  | .pop => (13, 0)
  | .printExpr => (14, 0)
  | .jumpIfTrue t => (15, t)
  | .jumpIfFalseOrPop t => (16, t)
  | .jumpIfTrueOrPop t => (17, t)
  | .raise => (18, 0)
  | .assertFail => (19, 0)

def encodeStep (s : Step) : Bytes :=
  let (number, operand) := opcode s.instr
  number :: Bytes.encodeLE 4 operand ++ Bytes.encodeLE 4 s.line

/-- The byte form of a code object. -/
def toBytes (code : Code) : Bytes :=
  signature ++ encodeText code.file ++ encodeList encodeConst code.consts ++
    encodeList encodeText code.names ++ encodeList encodeStep code.body

/-! ## Reading -/

def takeText (bs : Bytes) : Option (String × Bytes) := do
  let (n, bs) ← Bytes.takeLE 4 bs
  let (text, bs) ← Bytes.takeBytes n bs
  let s ← Utf8.decode? text
  some (s, bs)

/-- Take `n` members off the front. -/
def takeMany {α : Type} (takeOne : Bytes → Option (α × Bytes)) :
    Nat → Bytes → Option (List α × Bytes)
  | 0, bs => some ([], bs)
  | n + 1, bs => do
    let (a, bs) ← takeOne bs
    let (as, bs) ← takeMany takeOne n bs
    some (a :: as, bs)

def takeList {α : Type} (takeOne : Bytes → Option (α × Bytes)) (bs : Bytes) :
    Option (List α × Bytes) := do
  let (n, bs) ← Bytes.takeLE 4 bs
  takeMany takeOne n bs

def takeConst : Bytes → Option (Const × Bytes)
  | 0 :: bs => some (.none, bs)
  | 1 :: bs => some (.bool false, bs)
  | 2 :: bs => some (.bool true, bs)
  | 3 :: bs => (Bytes.takeLE 8 bs).map fun (n, bs) => (.int (UInt64.ofNat n).toInt64, bs)
  | 4 :: bs => (Bytes.takeLE 8 bs).map fun (n, bs) => (.float ⟨UInt64.ofNat n⟩, bs)
  | 5 :: bs => (takeText bs).map fun (s, bs) => (.str s, bs)
  | _ => none

/-- The instruction of a number and an operand. Where there is no operand its bytes are
ignored. -/
def instr? (number : UInt8) (operand : Nat) : Option Instr :=
  match number with
  | 1 => some (.loadConst operand)
  | 2 => some (.loadName operand)
  | 3 => some (.storeName operand)
  | 4 => some (.loadAttr operand)
  | 5 => (BinaryOp.all[operand]?).map .binary
  | 6 => (Comparison.all[operand]?).map .compare
  | 7 => some .negate
  | 8 => some .not
  | 9 => some (.call operand)
  | 10 => some .subscript
  | 11 => some (.buildList operand)
  | 12 => some (.importName operand)
  | 13 => some .pop
  | 14 => some .printExpr
  | 15 => some (.jumpIfTrue operand)
  | 16 => some (.jumpIfFalseOrPop operand)
  | 17 => some (.jumpIfTrueOrPop operand)
  | 18 => some .raise
  | 19 => some .assertFail
  | _ => none

def takeStep : Bytes → Option (Step × Bytes)
  | [] => none
  | number :: bs => do
    let (operand, bs) ← Bytes.takeLE 4 bs
    let (line, bs) ← Bytes.takeLE 4 bs
    let instr ← instr? number operand
    some (⟨instr, line⟩, bs)

/-- No jump leads beyond the end of the body. -/
def jumpsInside (body : List Step) : Bool :=
  body.all fun s => s.instr.target?.all (· ≤ body.length)

/-- The code object that bytes spell, with nothing left over. -/
def ofBytes? (bs : Bytes) : Option Code := do
  let bs ← Bytes.drop? signature bs
  let (file, bs) ← takeText bs
  let (consts, bs) ← takeList takeConst bs
  let (names, bs) ← takeList takeText bs
  let (body, bs) ← takeList takeStep bs
  if bs.isEmpty && jumpsInside body then some ⟨file, consts, names, body⟩ else none

/-- The error for code that refers to what is not there, and for bytes that are no code. -/
def badData : TargetError := ⟨"ValueError", "bad marshal data", []⟩

def ofBytes (bs : Bytes) : Except TargetError Code :=
  match ofBytes? bs with
  | some code => .ok code
  | none => .error badData

end Code

end Launcher.Script
