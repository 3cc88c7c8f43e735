import ArithDispatch.Numeric.Rounding

/-! Written numbers: decimal literals with optional sign, point and exponent, and unsigned integers
below a bound. Digits are the ASCII ones. -/
namespace ArithDispatch.Numeric

/-- The number that a list of digits stands for. -/
def digitsValue (digits : List Char) : Nat :=
  digits.foldl (fun n c => 10 * n + (c.toNat - '0'.toNat)) 0

/-- A sign in front, and what follows it. -/
def takeSign : List Char → Bool × List Char
  | '-' :: rest => (true, rest)
  | '+' :: rest => (false, rest)
  | rest => (false, rest)

theorem length_takeSign (cs : List Char) : (takeSign cs).2.length ≤ cs.length := by
  unfold takeSign
  split <;> simp

/-- The exponent part up to the end of the text: nothing, or `e` with an optional sign and at least
one digit. -/
def readExponent : List Char → Option Int
  | [] => some 0
  | e :: rest =>
    let (negative, digits) := takeSign rest
    if (e == 'e' || e == 'E') && !digits.isEmpty && digits.all Char.isDigit then
      some (if negative then -(digitsValue digits : Int) else digitsValue digits)
    else none

/-- The digits after a point in front, and what follows them. -/
def takeFraction : List Char → List Char × List Char
  | '.' :: rest => (rest.takeWhile Char.isDigit, rest.dropWhile Char.isDigit)
  | rest => ([], rest)

/-- Reads `[+-]? (digits [. digits*] | . digits) ([eE] [+-]? digits)?`, correctly rounded. -/
def readDecimal (cs : List Char) : Option Binary64 :=
  let (negative, cs) := takeSign cs
  let whole := cs.takeWhile Char.isDigit
  let (fraction, rest) := takeFraction (cs.dropWhile Char.isDigit)
  if whole.isEmpty && fraction.isEmpty then none
  else do
    let exponent ← readExponent rest
    pure (Binary64.ofDecimal negative (digitsValue (whole ++ fraction)) (exponent - fraction.length))

/-- The finite number written in `text`. Infinities and non-numbers are no literals, in words or
through too large an exponent. -/
def readFinite (text : String) : Option Binary64 :=
  (readDecimal text.toList).filter Binary64.isFinite

/-- Reads `[+]? digits`, below `bound`. -/
def readUnsigned (bound : Nat) (text : String) : Option Nat :=
  let digits := match text.toList with
    | '+' :: rest => rest
    | cs => cs
  if !digits.isEmpty && digits.all Char.isDigit && digitsValue digits < bound then
    some (digitsValue digits)
  else none

end ArithDispatch.Numeric
