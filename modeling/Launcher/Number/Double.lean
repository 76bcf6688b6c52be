/-!
Binary floating-point numbers of 64 bits, kept as their bits. Sums, differences, products,
quotients and comparisons are those of `Float`; the floor, the remainder and the integer part are
computed exactly from the significand and the exponent.
-/
namespace Launcher

/-- A binary64 number. Two are equal when their bits are: the zeros differ and a NaN equals
itself. -/
structure Double where
  bits : UInt64
deriving DecidableEq, Repr, Inhabited

namespace Double

def toFloat (x : Double) : Float := Float.ofBits x.bits

def ofFloat (f : Float) : Double := ⟨f.toBits⟩

/-- The number nearest to an integer, a tie going to the even neighbour. -/
def ofInt (i : Int) : Double := ofFloat (Float.ofInt i)

def isNegative (x : Double) : Bool := 1 <<< 63 ≤ x.bits.toNat

/-- The eleven bits of the exponent. -/
def exponentField (x : Double) : Nat := (x.bits.toNat >>> 52) % (1 <<< 11)

/-- The 52 bits of the fraction. -/
def fraction (x : Double) : Nat := x.bits.toNat % (1 <<< 52)

def isFinite (x : Double) : Bool := x.exponentField != 2047

def isNaN (x : Double) : Bool := !x.isFinite && x.fraction != 0

def isInfinite (x : Double) : Bool := !x.isFinite && x.fraction == 0

/-- A finite number has the size `significand * 2 ^ exponent`. -/
def significand (x : Double) : Nat :=
  if x.exponentField = 0 then x.fraction else (1 <<< 52) + x.fraction

/-- A finite number has the size `significand * 2 ^ exponent`. -/
def exponent (x : Double) : Int :=
  if x.exponentField = 0 then -1074 else (x.exponentField : Int) - 1075

def isZero (x : Double) : Bool := x.isFinite && x.significand == 0

/-- The number of the given sign and the size `m * 2 ^ e`, for a size that a finite number has. -/
def pack (negative : Bool) (m : Nat) (e : Int) : Double :=
  let sign := if negative then 1 <<< 63 else 0
  if m = 0 then ⟨.ofNat sign⟩
  else
    let low := max (e + m.log2 - 52) (-1074)
    let whole := if e ≤ low then m >>> (low - e).toNat else m <<< (e - low).toNat
    ⟨.ofNat (sign + ((low + 1074).toNat <<< 52) + whole)⟩

def add (x y : Double) : Double := ofFloat (x.toFloat + y.toFloat)

def sub (x y : Double) : Double := ofFloat (x.toFloat - y.toFloat)

def mul (x y : Double) : Double := ofFloat (x.toFloat * y.toFloat)

def div (x y : Double) : Double := ofFloat (x.toFloat / y.toFloat)

/-- The same size with the other sign. -/
def neg (x : Double) : Double := ⟨x.bits ^^^ 0x8000000000000000⟩

/-- Equality of numbers: the zeros are equal, and a NaN equals nothing. -/
def same (x y : Double) : Bool := x.toFloat == y.toFloat

def lt (x y : Double) : Bool := decide (x.toFloat < y.toFloat)

/-- The integer part of the size of a finite number. -/
def wholePart (x : Double) : Nat :=
  if 0 ≤ x.exponent then x.significand <<< x.exponent.toNat
  else x.significand >>> (-x.exponent).toNat

/-- A finite number with its fraction cut off. -/
def truncate (x : Double) : Int :=
  if x.isNegative then -(x.wholePart : Int) else x.wholePart

/-- A finite number has no fraction. -/
def isIntegral (x : Double) : Bool :=
  0 ≤ x.exponent || x.significand % (1 <<< (-x.exponent).toNat) == 0

/-- The greatest integral number that is not above `x`. -/
def floor (x : Double) : Double :=
  if !x.isFinite || x.isIntegral then x
  else if x.isNegative then pack true (x.wholePart + 1) 0
  else pack false x.wholePart 0

def nan : Double := ⟨0x7ff8000000000000⟩

/-- What is left of `x` after taking away `y` as often as it fits; the sign is that of `x`.
The result is exact. -/
def remainder (x y : Double) : Double :=
  if !x.isFinite || y.isNaN || y.isZero then nan
  else if y.isInfinite then x
  else
    let e := min x.exponent y.exponent
    let a := x.significand <<< (x.exponent - e).toNat
    let b := y.significand <<< (y.exponent - e).toNat
    pack x.isNegative (a % b) e

end Double

end Launcher
