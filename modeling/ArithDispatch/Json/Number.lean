import ArithDispatch.Numeric.Decimal

/-! Numbers in JSON texts. A numeral without fraction and exponent stays exact while its digits stay
below `2 ^ 64`; all others are binary64. Those are made from the leading digits that fit into 64 bits
by one multiplication or division with a power of ten, and one that is not finite is out of range. -/
namespace ArithDispatch.Json

inductive Number where
  | natural (n : UInt64)
  /-- The number below zero, or minus zero, with this magnitude. -/
  | negative (magnitude : UInt64)
  | real (value : Binary64)
  deriving DecidableEq, Repr

/-- The number as a finite binary64, correctly rounded. -/
def Number.toBinary64? (number : Number) : Option Binary64 :=
  let value := match number with
    | natural n => Binary64.ofDecimal false n.toNat 0
    | negative magnitude => Binary64.ofDecimal true magnitude.toNat 0
    | real value => value
  if value.isFinite then some value else none

def powerOfTen (n : Nat) : Binary64 := Binary64.ofDecimal false 1 n

/-- Divides by `10 ^ n`, at most 308 places at a time. -/
def lower (x : Binary64) (n : Nat) : Binary64 :=
  if x.isZero then x
  else if n ≤ 308 then x.div (powerOfTen n)
  else lower (x.div (powerOfTen 308)) (n - 308)
termination_by n

/-- The number `± significand * 10 ^ exponent`, if it is in range. -/
def realOfParts (negative : Bool) (significand : Nat) (exponent : Int) : Option Number :=
  let x := Binary64.ofDecimal false significand 0
  let magnitude :=
    if exponent < 0 then lower x (-exponent).toNat
    else if x.isZero then x
    else x.mul (powerOfTen exponent.toNat)
  if magnitude.isFinite then
    some (.real (if negative then magnitude.negate else magnitude))
  else none

/-- A number as it is written. -/
structure Numeral where
  negative : Bool
  whole : List Char
  fraction : Option (List Char)
  exponent : Option Int
  deriving DecidableEq, Repr

namespace Numeral

/-- Appends digits to a significand while it stays below `2 ^ 64` and hands back the others. -/
def extend (significand : Nat) : List Char → Nat × List Char
  | [] => (significand, [])
  | digit :: rest =>
    let longer := 10 * significand + (digit.toNat - '0'.toNat)
    if longer < UInt64.size then extend longer rest else (significand, digit :: rest)

/-- What the numeral stands for, if that is in range. -/
def value? (numeral : Numeral) : Option Number :=
  let (significand, dropped) := extend 0 numeral.whole
  if numeral.fraction.isNone && numeral.exponent.isNone && dropped.isEmpty then
    some (if numeral.negative then .negative (.ofNat significand) else .natural (.ofNat significand))
  else
    let fraction := numeral.fraction.getD []
    let (significand, ignored) := extend significand fraction
    realOfParts numeral.negative significand
      ((dropped.length : Int) - (fraction.length - ignored.length) + numeral.exponent.getD 0)

/-- A fraction in front, if a point is, and what follows it. A point needs a digit behind it. -/
def takeFraction : List Char → Option (Option (List Char) × List Char)
  | '.' :: rest =>
    let digits := rest.takeWhile Char.isDigit
    if digits.isEmpty then none else some (some digits, rest.dropWhile Char.isDigit)
  | rest => some (none, rest)

/-- An exponent in front, if an `e` is, and what follows it. -/
def takeExponent : List Char → Option (Option Int × List Char)
  | e :: rest =>
    if e == 'e' || e == 'E' then
      let (negative, rest) := Numeric.takeSign rest
      let digits := rest.takeWhile Char.isDigit
      let magnitude : Int := Numeric.digitsValue digits
      if digits.isEmpty then none
      else some (some (if negative then -magnitude else magnitude), rest.dropWhile Char.isDigit)
    else some (none, e :: rest)
  | [] => some (none, [])

/-- A minus sign in front, if there is one, and what follows it. -/
def takeMinus : List Char → Bool × List Char
  | '-' :: rest => (true, rest)
  | rest => (false, rest)

/-- The whole part in front, and what follows it. It has a digit, and no zero leads others. -/
def takeWhole (cs : List Char) : Option (List Char × List Char) :=
  let digits := cs.takeWhile Char.isDigit
  if digits.isEmpty || (digits.head? == some '0' && digits.length != 1) then none
  else some (digits, cs.dropWhile Char.isDigit)

/-- The longest numeral in front, and what follows it. A point or an exponent once begun must be
complete. -/
def take (cs : List Char) : Option (Numeral × List Char) := do
  let (negative, cs) := takeMinus cs
  let (whole, rest) ← takeWhole cs
  let (fraction, rest) ← takeFraction rest
  let (exponent, rest) ← takeExponent rest
  pure ({ negative, whole, fraction, exponent }, rest)

private theorem length_dropDigits (cs : List Char) :
    (cs.dropWhile Char.isDigit).length ≤ cs.length :=
  (List.dropWhile_sublist _).length_le

private theorem length_takeMinus (cs : List Char) : (takeMinus cs).2.length ≤ cs.length := by
  unfold takeMinus
  split <;> simp

private theorem length_takeWhole {cs rest whole : List Char}
    (h : takeWhole cs = some (whole, rest)) : rest.length < cs.length := by
  simp only [takeWhole] at h
  split at h
  next => cases h
  next some_digit =>
    cases h
    cases cs with
    | nil => simp at some_digit
    | cons c rest =>
      by_cases digit : c.isDigit
      · simpa [List.dropWhile_cons, digit] using Nat.lt_succ_of_le (length_dropDigits rest)
      · simp [digit] at some_digit

private theorem length_takeFraction {cs rest : List Char} {fraction : Option (List Char)}
    (h : takeFraction cs = some (fraction, rest)) : rest.length ≤ cs.length := by
  simp only [takeFraction] at h
  split at h
  next tail =>
    split at h
    · cases h
    · cases h
      exact Nat.le_succ_of_le (length_dropDigits tail)
  next =>
    cases h
    exact Nat.le_refl _

private theorem length_takeExponent {cs rest : List Char} {exponent : Option Int}
    (h : takeExponent cs = some (exponent, rest)) : rest.length ≤ cs.length := by
  simp only [takeExponent] at h
  split at h
  next tail =>
    split at h
    · split at h
      · cases h
      · obtain ⟨_, rfl⟩ := Prod.mk.inj (Option.some.inj h)
        exact Nat.le_succ_of_le (Nat.le_trans (length_dropDigits _) (Numeric.length_takeSign tail))
    · cases h
      exact Nat.le_refl _
  next =>
    cases h
    exact Nat.le_refl _

theorem length_take {cs rest : List Char} {numeral : Numeral}
    (h : take cs = some (numeral, rest)) : rest.length < cs.length := by
  simp only [take, Option.bind_eq_bind, Option.bind_eq_some_iff, Option.pure_def] at h
  obtain ⟨⟨whole, afterWhole⟩, wholeTaken, ⟨fraction, afterFraction⟩, fractionTaken,
    ⟨exponent, afterExponent⟩, exponentTaken, eq⟩ := h
  obtain ⟨_, rfl⟩ := Prod.mk.inj (Option.some.inj eq)
  have := length_takeMinus cs
  have := length_takeWhole wholeTaken
  have := length_takeFraction fractionTaken
  have := length_takeExponent exponentTaken
  dsimp only at *
  omega

end Numeral

end ArithDispatch.Json
