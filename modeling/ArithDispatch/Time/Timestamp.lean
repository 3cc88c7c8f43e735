import ArithDispatch.Numeric.Decimal
import ArithDispatch.Text.WhiteSpace

/-! Moments of the calendar in universal time, and their RFC 3339 form. Reading allows white space
between the parts, any offset below a day and a leap second; writing puts `Z` for the offset and as
many groups of three fraction digits as are needed. -/
namespace ArithDispatch

structure Timestamp where
  year : Int
  month : Nat
  day : Nat
  hour : Nat
  minute : Nat
  second : Nat
  /-- A leap second is second 59 with a billion nanoseconds more. -/
  nanosecond : Nat
  deriving DecidableEq, Repr

namespace Timestamp

/-- The first moment of 1970. -/
def epoch : Timestamp := ⟨1970, 1, 1, 0, 0, 0, 0⟩

def isLeapYear (year : Int) : Bool := year % 4 == 0 && (year % 100 != 0 || year % 400 == 0)

def daysInMonth (year : Int) (month : Nat) : Nat :=
  if month = 2 then if isLeapYear year then 29 else 28
  else if [4, 6, 9, 11].contains month then 30 else 31

/-- Whether the calendar knows the date. -/
def isDate (year : Int) (month day : Nat) : Bool :=
  -262143 ≤ year && year ≤ 262142 && 1 ≤ month && month ≤ 12 &&
    1 ≤ day && day ≤ daysInMonth year month

def nextDay (year : Int) (month day : Nat) : Int × Nat × Nat :=
  if day < daysInMonth year month then (year, month, day + 1)
  else if month < 12 then (year, month + 1, 1)
  else (year + 1, 1, 1)

def previousDay (year : Int) (month day : Nat) : Int × Nat × Nat :=
  if 1 < day then (year, month, day - 1)
  else if 1 < month then (year, month - 1, daysInMonth year (month - 1))
  else (year - 1, 12, 31)

/-- The same moment on a clock that is behind by `minutes`, where less than a day is meant. -/
def setBack (t : Timestamp) (minutes : Int) : Option Timestamp :=
  let total : Int := (t.hour * 60 + t.minute : Nat) - minutes
  let (year, month, day) :=
    if total < 0 then previousDay t.year t.month t.day
    else if total < 1440 then (t.year, t.month, t.day)
    else nextDay t.year t.month t.day
  let ofDay := (total % 1440).toNat
  if isDate year month day then
    some { t with year, month, day, hour := ofDay / 60, minute := ofDay % 60 }
  else none

/-- A number of at most `limit` digits in front, and what follows it. -/
def takeNumber (limit : Nat) (cs : List Char) : Option (Nat × List Char) :=
  let digits := (cs.takeWhile Char.isDigit).take limit
  if digits.isEmpty then none else some (Numeric.digitsValue digits, cs.drop digits.length)

/-- A year has at most four digits unless a sign stands before it. -/
def takeYear : List Char → Option (Int × List Char)
  | '-' :: rest => (takeNumber rest.length rest).map fun (n, rest) => (-(n : Int), rest)
  | '+' :: rest => (takeNumber rest.length rest).map fun (n, rest) => ((n : Int), rest)
  | cs => (takeNumber 4 cs).map fun (n, rest) => ((n : Int), rest)

/-- What follows a separator, which may have white space before it. -/
def skipMark (mark : Char) (cs : List Char) : Option (List Char) :=
  match Text.trimStart cs with
  | c :: rest => if c = mark then some rest else none
  | [] => none

def takePair (cs : List Char) : Option (Nat × List Char) := takeNumber 2 (Text.trimStart cs)

/-- The nanoseconds behind a point, of which the first nine digits count. -/
def takeFraction : List Char → Option (Nat × List Char)
  | '.' :: rest =>
    let digits := rest.takeWhile Char.isDigit
    if digits.isEmpty then none
    else
      let counted := digits.take 9
      some (Numeric.digitsValue counted * Nat.pow 10 (9 - counted.length), rest.dropWhile Char.isDigit)
  | rest => some (0, rest)

/-- Exactly two digits. -/
def takeTwoDigits : List Char → Option (Nat × List Char)
  | a :: b :: rest =>
    if a.isDigit && b.isDigit then some (Numeric.digitsValue [a, b], rest) else none
  | _ => none

/-- The offset in minutes, and what follows it. -/
def takeOffset (cs : List Char) : Option (Int × List Char) :=
  match cs with
  | 'Z' :: rest | 'z' :: rest => some (0, rest)
  | c :: rest =>
    if (cs.take 3).map Char.toUpper == ['U', 'T', 'C'] then some (0, cs.drop 3)
    else if c == '+' || c == '-' || c == '\u2212' then do
      let (hours, rest) ← takeTwoDigits rest
      let (minutes, rest) ←
        takeTwoDigits (rest.dropWhile fun c => c == ':' || Text.isWhiteSpace c)
      if minutes < 60 then
        let offset : Int := hours * 60 + minutes
        pure (if c == '+' then offset else -offset, rest)
      else none
    else none
  | [] => none

def isDateTimeMark (c : Char) : Bool := c == 'T' || c == 't' || c == ' '

def ofChars? (cs : List Char) : Option Timestamp := do
  let (year, cs) ← takeYear (Text.trimStart cs)
  let cs ← skipMark '-' cs
  let (month, cs) ← takePair cs
  let cs ← skipMark '-' cs
  let (day, cs) ← takePair cs
  let cs ← match cs with
    | c :: rest => if isDateTimeMark c then some rest else none
    | [] => none
  let (hour, cs) ← takePair cs
  let cs ← skipMark ':' cs
  let (minute, cs) ← takePair cs
  let cs ← skipMark ':' cs
  let (second, cs) ← takePair cs
  let (nanosecond, cs) ← takeFraction cs
  let (offset, cs) ← takeOffset (Text.trimStart cs)
  if cs.all Text.isWhiteSpace && isDate year month day && hour < 24 && minute < 60 && second ≤ 60 &&
      -1440 < offset && offset < 1440 then
    let t : Timestamp := { year, month, day, hour, minute, second, nanosecond }
    let t := if second = 60 then { t with second := 59, nanosecond := nanosecond + 1000000000 } else t
    t.setBack offset
  else none

def ofText? (text : String) : Option Timestamp := ofChars? text.toList

/-- At least `width` digits. -/
def padded (width n : Nat) : List Char :=
  let digits := Nat.toDigits 10 n
  List.replicate (width - digits.length) '0' ++ digits

/-- Four digits from year 0 to 9999; outside of that, a sign and at least four digits. -/
def yearChars (year : Int) : List Char :=
  if 0 ≤ year ∧ year ≤ 9999 then padded 4 year.toNat
  else (if year < 0 then '-' else '+') :: padded 4 year.natAbs

def fractionChars (nanosecond : Nat) : List Char :=
  if nanosecond = 0 then []
  else if nanosecond % 1000000 = 0 then '.' :: padded 3 (nanosecond / 1000000)
  else if nanosecond % 1000 = 0 then '.' :: padded 6 (nanosecond / 1000)
  else '.' :: padded 9 nanosecond

def chars (t : Timestamp) : List Char :=
  let leap := 1000000000 ≤ t.nanosecond
  yearChars t.year ++ '-' :: padded 2 t.month ++ '-' :: padded 2 t.day ++ 'T' :: padded 2 t.hour ++
    ':' :: padded 2 t.minute ++ ':' :: padded 2 (if leap then t.second + 1 else t.second) ++
    fractionChars (if leap then t.nanosecond - 1000000000 else t.nanosecond) ++ ['Z']

def text (t : Timestamp) : String := String.ofList t.chars

end Timestamp

end ArithDispatch
