import Pagewright.Number.Decimal

/-!
# Calendar dates

Dates of the Gregorian calendar, extended backwards, from year 1 to year 9999, and the day count
that orders them. Day 1 is the first of January of year 1, a Monday.
-/

namespace Pagewright

/-- A calendar date. -/
structure Date where
  year : Nat
  month : Nat
  day : Nat
  deriving Repr, DecidableEq

/-- A date with a time of day. -/
structure DateTime where
  date : Date
  hour : Nat
  minute : Nat
  second : Nat
  microsecond : Nat
  deriving Repr, DecidableEq

namespace Date

/-- Leap years: every fourth, of the centuries only every fourth. -/
def isLeapYear (year : Nat) : Bool := year % 4 == 0 && (year % 100 != 0 || year % 400 == 0)

/-- The length of a month. -/
def daysInMonth (year month : Nat) : Nat :=
  if month == 2 then (if isLeapYear year then 29 else 28)
  else if month == 4 || month == 6 || month == 9 || month == 11 then 30
  else 31

/-- Whether the parts name a day between the years 1 and 9999. -/
def isValid (d : Date) : Bool :=
  1 ≤ d.year && d.year ≤ 9999 && 1 ≤ d.month && d.month ≤ 12 && 1 ≤ d.day &&
    d.day ≤ daysInMonth d.year d.month

/-- The date with the given parts, if there is one. -/
def ofParts? (year month day : Nat) : Option Date :=
  let d : Date := ⟨year, month, day⟩
  if d.isValid then some d else none

/-- Days in the years before `year`. -/
def daysBeforeYear (year : Nat) : Nat :=
  let y := year - 1
  365 * y + y / 4 - y / 100 + y / 400

/-- Days of the year in the months before `month`. -/
def daysBeforeMonth (year month : Nat) : Nat :=
  (List.range' 1 (month - 1)).foldl (fun n m => n + daysInMonth year m) 0

/-- The number of a day, counted from the first of January of year 1, which is day 1. -/
def ordinal (d : Date) : Nat := daysBeforeYear d.year + daysBeforeMonth d.year d.month + d.day

/-- The month that day `n` of a year, counted from zero, falls in, starting the search at `month`. -/
def monthFrom (year : Nat) : Nat → Nat → Nat → Date
  | 0, month, n => ⟨year, month, n + 1⟩
  | fuel + 1, month, n =>
    let size := daysInMonth year month
    if n < size then ⟨year, month, n + 1⟩ else monthFrom year fuel (month + 1) (n - size)

/-- The date of a day number. -/
def ofOrdinal (n : Nat) : Date :=
  let n := n - 1
  let guess := n * 400 / 146097 + 1
  let year :=
    if daysBeforeYear (guess + 1) ≤ n then guess + 1
    else if daysBeforeYear guess ≤ n then guess
    else guess - 1
  monthFrom year 11 1 (n - daysBeforeYear year)

/-- The day of the week, Sunday being 0. -/
def weekday (d : Date) : Nat := d.ordinal % 7

/-- The day number of the first of January 1970. -/
def epoch : Nat := 719163

/-- A date as `2024-03-05`. -/
def isoChars (d : Date) : List Char :=
  Decimal.padded 4 d.year ++ '-' :: Decimal.padded 2 d.month ++ '-' :: Decimal.padded 2 d.day

/-- A date as `2024-03-05`. -/
def iso (d : Date) : String := String.ofList d.isoChars

end Date

namespace DateTime

/-- Whether the parts name a moment. -/
def isValid (t : DateTime) : Bool :=
  t.date.isValid && t.hour < 24 && t.minute < 60 && t.second < 60 && t.microsecond < 1000000

/-- A time of day as `23:59:59`. -/
def clockChars (t : DateTime) : List Char :=
  Decimal.padded 2 t.hour ++ ':' :: Decimal.padded 2 t.minute ++ ':' :: Decimal.padded 2 t.second

/-- A moment as `2024-03-05 23:59:59`, without the part below a second. -/
def toSecond (t : DateTime) : String := String.ofList (t.date.isoChars ++ ' ' :: t.clockChars)

/-- A moment with `mark` between date and time, and with microseconds unless they are zero. -/
def isoWith (mark : Char) (t : DateTime) : String :=
  let fraction := if t.microsecond = 0 then [] else '.' :: Decimal.padded 6 t.microsecond
  String.ofList (t.date.isoChars ++ mark :: t.clockChars ++ fraction)

/-- Microseconds since the start of year 1. -/
def microseconds (t : DateTime) : Nat :=
  (((t.date.ordinal - 1) * 24 + t.hour) * 60 + t.minute) * 60000000 + t.second * 1000000 +
    t.microsecond

/-- The moment a number of microseconds after the start of year 1. -/
def ofMicroseconds (n : Nat) : DateTime :=
  let second := n / 1000000
  { date := Date.ofOrdinal (second / 86400 + 1)
    hour := second / 3600 % 24
    minute := second / 60 % 60
    second := second % 60
    microsecond := n % 1000000 }

end DateTime

end Pagewright
