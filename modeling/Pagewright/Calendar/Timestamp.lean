import Pagewright.Calendar.Date
import Pagewright.Failure
import Pagewright.Number.Reader

/-!
# Timestamps

Moments in the ISO 8601 form, `2025-11-13T18:45:40.572549`: read (`Timestamp.read?`) in the extended
and the basic form, with week dates and offsets, and shown to people as an absolute time or as the
time that has passed.
-/

namespace Pagewright.Timestamp

/-- A moment as it was written, and whether an offset from universal time stood with it. -/
structure Stamp where
  moment : DateTime
  zoned : Bool
  deriving Repr

/-- A number in exactly `size` digits at the start of a text, and the rest. -/
def digits? (size : Nat) (s : List Char) : Option (Nat × List Char) :=
  let ds := s.take size
  if ds.length = size && size > 0 && ds.all Char.isDigit then
    some (Numeral.ofDigits (ds.map fun c => c.toNat - 48), s.drop size)
  else none

/-- The Monday of the first week of a year, the one that holds the fourth of January. -/
def firstMonday (year : Nat) : Nat :=
  let fourth := (⟨year, 1, 4⟩ : Date).ordinal
  fourth - (fourth + 6) % 7

/-- The date of a day in a week of a year. -/
def ofWeek? (year week day : Nat) : Option Date :=
  let weeks := (firstMonday (year + 1) - firstMonday year) / 7
  if 1 ≤ year && year ≤ 9999 && 1 ≤ week && week ≤ weeks && 1 ≤ day && day ≤ 7 then
    let d := Date.ofOrdinal (firstMonday year + (week - 1) * 7 + (day - 1))
    if d.isValid then some d else none
  else none

/-- The length of the date at the start of a text of at least eight characters. -/
def dateLength (s : List Char) : Nat :=
  if s[4]? == some '-' then
    if s[5]? == some 'W' then
      if s[8]? == some '-' && !(s[10]?.any Char.isDigit) then 10 else 8
    else 10
  else if s[4]? == some 'W' then
    let last := 7 + ((s.drop 7).takeWhile Char.isDigit).length
    if last < 9 then last else if last % 2 = 0 then 7 else 8
  else 8

/-- The rest of a text behind a hyphen, or the text itself where none is used. -/
def afterHyphen? (used : Bool) (s : List Char) : Option (List Char) :=
  match s with
  | '-' :: rest => if used then some rest else none
  | s => if used then none else some s

/-- A date, with or without hyphens. -/
def date? (s : List Char) : Option Date := do
  let (year, rest) ← digits? 4 s
  let hyphens := rest.head? == some '-'
  match ← afterHyphen? hyphens rest with
  | 'W' :: rest =>
    let (week, rest) ← digits? 2 rest
    if rest.isEmpty then ofWeek? year week 1
    else
      let (day, rest) ← digits? 1 (← afterHyphen? hyphens rest)
      if rest.isEmpty then ofWeek? year week day else none
  | rest =>
    let (month, rest) ← digits? 2 rest
    let (day, rest) ← digits? 2 (← afterHyphen? hyphens rest)
    if rest.isEmpty then Date.ofParts? year month day else none

/-- A time of day as it was written, and whether more text follows it. -/
structure Clock where
  hour : Nat
  minute : Nat
  second : Nat
  microsecond : Nat
  more : Bool
  deriving Repr

/-- The clock with the given hour, minute and second, as far as they were written. -/
def clockOf (fields : List Nat) (microsecond : Nat) (more : Bool) : Clock :=
  ⟨fields.getD 0 0, fields.getD 1 0, fields.getD 2 0, microsecond, more⟩

/-- Digits of a fraction, up to six of them counting; digits past the sixth are passed over. -/
def withFraction? (fields : List Nat) (last : Bool) (s : List Char) : Option Clock := do
  let (_, rest) ← digits? (min 6 s.length) s
  let six := (s.take (min 6 s.length) ++ List.replicate 6 '0').take 6
  let micros := Numeral.ofDigits (six.map fun c => c.toNat - 48)
  return clockOf fields micros (!(rest.dropWhile Char.isDigit).isEmpty || !last)

/-- Hours, minutes and seconds with or without colons, then a fraction. `missing` fields may still
follow those in `fields`; `last` tells that nothing stands behind `s`. A single character behind a
field ends the clock. -/
def clockFrom (last : Bool) : Nat → List Nat → Bool → List Char → Option Clock
  | 0, fields, _, s => withFraction? fields last s
  | missing + 1, fields, colons, s => do
    let (n, rest) ← digits? 2 s
    let colons := if fields.isEmpty then rest.head? == some ':' else colons
    let fields := fields ++ [n]
    match rest with
    | [] => return clockOf fields 0 (!last)
    | [_] => return clockOf fields 0 true
    | c :: rest' =>
      if colons && c == ':' then clockFrom last missing fields colons rest'
      else if c == '.' || c == ',' then withFraction? fields last rest'
      else if colons then none
      else clockFrom last missing fields colons rest

/-- Hours, minutes, seconds and microseconds. -/
def clock? (last : Bool) (s : List Char) : Option Clock := clockFrom last 3 [] true s

/-- Whether a character starts an offset. -/
def isOffsetMark (c : Char) : Bool := c == '+' || c == '-' || c == 'Z'

/-- A time of day, and whether an offset of less than a day follows it. -/
def time? (s : List Char) : Option (Clock × Bool) := do
  let written := s.takeWhile fun c => !isOffsetMark c
  match s.dropWhile fun c => !isOffsetMark c with
  | [] =>
    let clock ← clock? true written
    if clock.more then none else return (clock, false)
  | ['Z'] => return (← clock? false written, true)
  | 'Z' :: _ => none
  | _ :: zone =>
    let clock ← clock? false written
    let offset ← clock? true zone
    let seconds := (offset.hour * 60 + offset.minute) * 60 + offset.second
    if !offset.more && seconds < 86400 then return (clock, true) else none

/-- The moment that a text spells. -/
def read? (text : String) : Option Stamp := do
  let s := text.toList
  if s.length < 7 then none
  let size := if s.length = 7 then 7 else dateLength s
  let date ← date? (s.take size)
  let (clock, zoned) ←
    if s.length ≤ size then some (clockOf [] 0 false, false) else time? (s.drop (size + 1))
  let moment : DateTime := ⟨date, clock.hour, clock.minute, clock.second, clock.microsecond⟩
  if moment.isValid then return ⟨moment, zoned⟩ else none

/-- A moment as `2025-11-13 18:45:40`; the year is written without zeros in front. -/
def absolute (t : DateTime) : String :=
  toString t.date.year ++
    String.ofList ('-' :: Decimal.padded 2 t.date.month ++ '-' :: Decimal.padded 2 t.date.day ++
      ' ' :: t.clockChars)

/-- The time between a moment and now, in the largest unit that it fills. -/
def relative (t now : DateTime) : String :=
  let a := now.microseconds
  let b := t.microseconds
  let (distance, direction) := if b ≤ a then (a - b, "ago") else (b - a, "from now")
  let seconds := distance / 1000000
  let minutes := seconds / 60
  let hours := minutes / 60
  let amount :=
    if seconds < 60 then toString seconds ++ "s"
    else if minutes < 60 then toString minutes ++ "m"
    else if hours < 24 then toString hours ++ "h"
    else toString (hours / 24) ++ "d"
  amount ++ " " ++ direction

/-- A stored timestamp as an absolute time; what is none is shown as it is. -/
def showAbsolute (v : Value) : Value :=
  match v.text?.bind read? with
  | some stamp => .text (absolute stamp.moment)
  | none => v

/-- A stored timestamp as the time passed; one with an offset cannot be compared with the clock. -/
def showRelative (v : Value) (now : DateTime) : Outcome Value :=
  match v.text?.bind read? with
  | some stamp =>
    if stamp.zoned then undefinedOn (.wrongKind v) else .ok (.text (relative stamp.moment now))
  | none => .ok v

end Pagewright.Timestamp
