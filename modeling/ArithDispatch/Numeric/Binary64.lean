/-! Binary64 numbers as bit patterns. Two numbers are equal here when their bits are, so the zeros
differ and a pattern that is not a number equals itself; `isZero` is the test that ignores the sign. -/
namespace ArithDispatch

structure Binary64 where
  bits : UInt64
  deriving DecidableEq, Repr, Inhabited

namespace Binary64

def zero : Binary64 := ⟨0⟩

def one : Binary64 := ⟨0x3FF0000000000000⟩

def two : Binary64 := ⟨0x4000000000000000⟩

def three : Binary64 := ⟨0x4008000000000000⟩

/-- The weight of the leading bit of a normal significand, which has 53 bits. The fraction that is
stored stays below it. -/
def leadingBit : Nat := 0x10000000000000

/-- The eleven bits between the sign and the fraction. -/
def exponentField (x : Binary64) : Nat := x.bits.toNat / leadingBit % 2048

def fractionField (x : Binary64) : Nat := x.bits.toNat % leadingBit

/-- Zero of either sign. -/
def isZero (x : Binary64) : Bool := x.bits.toNat % 0x8000000000000000 == 0

def isFinite (x : Binary64) : Bool := x.exponentField != 2047

def isNaN (x : Binary64) : Bool := !x.isFinite && x.fractionField != 0

/-- The number with the other sign. -/
def negate (x : Binary64) : Binary64 := ⟨x.bits ^^^ 0x8000000000000000⟩

/-- The magnitude given by exponent and fraction together, with a sign in front. -/
def ofMagnitude (negative : Bool) (magnitude : UInt64) : Binary64 :=
  if negative then negate ⟨magnitude⟩ else ⟨magnitude⟩

def infinity (negative : Bool) : Binary64 := ofMagnitude negative 0x7FF0000000000000

def toFloat (x : Binary64) : Float := Float.ofBits x.bits

def ofFloat (x : Float) : Binary64 := ⟨x.toBits⟩

def add (x y : Binary64) : Binary64 := ofFloat (x.toFloat + y.toFloat)

def sub (x y : Binary64) : Binary64 := ofFloat (x.toFloat - y.toFloat)

def mul (x y : Binary64) : Binary64 := ofFloat (x.toFloat * y.toFloat)

def div (x y : Binary64) : Binary64 := ofFloat (x.toFloat / y.toFloat)

end Binary64

end ArithDispatch
