import ArithDispatch.Numeric.Binary64

/-! Correct rounding of a decimal `digits * 10 ^ exponent` to binary64. The quotient is formed in
exact natural arithmetic and rounded once, halves to the even neighbour. -/
namespace ArithDispatch.Binary64

/-- The integer nearest to `n / d`, the even one when two are equally near. -/
def roundQuotient (n d : Nat) : Nat :=
  let q := n / d
  let r := n % d
  if 2 * r < d then q else if d < 2 * r then q + 1 else q + q % 2

/-- The exponent of the last bit of a 53-bit significand for `n / d`, never below that of the
least subnormal. -/
def unitExponent (n d : Nat) : Int :=
  let guess : Int := (Nat.log2 n : Int) - Nat.log2 d - 53
  let below := if guess < 0 then (n <<< (-guess).toNat) / d else n / (d <<< guess.toNat)
  max (if below < 2 * leadingBit then guess else guess + 1) (-1074)

/-- The bits of the magnitude nearest to `n / d`. A significand that rounds up to 54 bits carries
into the exponent, and a magnitude past the largest finite one becomes infinite. -/
def quotientMagnitude (n d : Nat) : Nat :=
  let unit := unitExponent n d
  let significand :=
    if unit < 0 then roundQuotient (n <<< (-unit).toNat) d else roundQuotient n (d <<< unit.toNat)
  min ((unit + 1074).toNat * leadingBit + significand) (2047 * leadingBit)

/-- Decimals with more than 310 places before the point are infinite and those below `10 ^ -330`
round to zero, so neither needs a long quotient. -/
def ofDecimal (negative : Bool) (digits : Nat) (exponent : Int) : Binary64 :=
  let places : Int := ((Nat.toDigits 10 digits).length : Int) + exponent
  if digits = 0 || places < -330 then ofMagnitude negative 0
  else if 310 < places then infinity negative
  else if exponent < 0 then
    ofMagnitude negative (UInt64.ofNat (quotientMagnitude digits (Nat.pow 10 (-exponent).toNat)))
  else ofMagnitude negative (UInt64.ofNat (quotientMagnitude (digits * Nat.pow 10 exponent.toNat) 1))

end ArithDispatch.Binary64
