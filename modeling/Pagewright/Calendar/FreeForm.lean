import Pagewright.Calendar.Date
import Pagewright.Number.Reader
import Pagewright.Text.Scan

/-!
# Free-form dates

Reads a complete date in the ways people write it: `2024-03-05T10:30:00Z`, `20240305`, `3/5/2024`,
`Tue, 5 March 2024 10:30 PM`. A text is cut into numbers, words and signs. Numbers and a month name
are collected as parts of the date, a time of day and an offset are checked and passed over, and the
three parts are then told apart: a number too large for a day is the year, which else comes last, and
of two short numbers the month comes first unless it cannot be one. Anything else in the text makes it
unreadable.
-/

namespace Pagewright.FreeForm

/-- A unit of a written date. -/
inductive Token where
  | number (digits : List Char)
  | word (letters : List Char)
  | sign (c : Char)
  deriving Repr, DecidableEq

/-- The tokens of a text; blanks separate and are dropped. `run` holds the current run of digits or
letters, last character first. -/
def tokensFrom : List Char → List Char → List Token
  | [], [] => []
  | run, [] => [close run]
  | [], c :: rest => start c rest
  | d :: run, c :: rest =>
    if c.isDigit && d.isDigit || Text.isLetter c && !d.isDigit then tokensFrom (c :: d :: run) rest
    else close (d :: run) :: start c rest
where
  /-- A finished run. -/
  close (run : List Char) : Token :=
    if run.all Char.isDigit then .number run.reverse else .word run.reverse
  /-- The tokens of a text that starts with `c`. -/
  start (c : Char) (rest : List Char) : List Token :=
    if c.isDigit || Text.isLetter c then tokensFrom [c] rest
    else if Text.isBlank c then tokensFrom [] rest
    else .sign c :: tokensFrom [] rest

/-- A part of a date as it was written. -/
inductive Part where
  | number (value : Nat) (size : Nat)
  | month (value : Nat)
  deriving Repr, DecidableEq

/-- What has been read so far. -/
structure State where
  parts : List Part := []
  hour : Option Nat := none
  zoned : Bool := false
  deriving Repr

/-- English month names, each with its short forms. -/
def monthNames : List (List String) :=
  [["jan", "january"], ["feb", "february"], ["mar", "march"], ["apr", "april"], ["may"],
   ["jun", "june"], ["jul", "july"], ["aug", "august"], ["sep", "sept", "september"],
   ["oct", "october"], ["nov", "november"], ["dec", "december"]]

/-- English names of the days of the week. -/
def weekdayNames : List String :=
  ["mon", "monday", "tue", "tuesday", "wed", "wednesday", "thu", "thursday", "fri", "friday", "sat",
   "saturday", "sun", "sunday"]

/-- Words that stand between the parts of a date without a meaning of their own. -/
def fillers : List String := ["at", "on", "and", "ad", "m", "t", "of", "st", "nd", "rd", "th"]

/-- Signs that stand between the parts of a date. -/
def separators : List Char := ['.', ',', ';', '-', '/', '\'']

/-- The number of a month name. -/
def monthOf? (word : String) : Option Nat :=
  (monthNames.findIdx? (·.contains word)).map (· + 1)

/-- The number that digits spell. -/
def valueOf (digits : List Char) : Nat := Numeral.ofDigits (digits.map fun c => c.toNat - 48)

/-- Record an hour, minute and second; there may be one time of day. -/
def State.setTime (s : State) (hour minute second : Nat) : Option State :=
  if s.hour.isNone && hour < 24 && minute < 60 && second < 60 then some { s with hour := some hour }
  else none

/-- Add a part of a date; there may be three. -/
def State.add (s : State) (part : Part) : Option State :=
  if s.parts.length < 3 then some { s with parts := s.parts ++ [part] } else none

/-- Digits that hold a whole date, and perhaps a time: year, month and day in eight digits, then hours
and minutes, then seconds. -/
def State.addCompact (s : State) (digits : List Char) : Option State := do
  let at_ (from_ size : Nat) : List Char := (digits.drop from_).take size
  let s ← s.add (.number (valueOf (at_ 0 4)) 4)
  let s ← s.add (.number (valueOf (at_ 4 2)) 2)
  let s ← s.add (.number (valueOf (at_ 6 2)) 2)
  if digits.length = 8 then return s
  else s.setTime (valueOf (at_ 8 2)) (valueOf (at_ 10 2)) (valueOf (at_ 12 2))

/-- A time of day behind its hour and colon: minutes, seconds, a fraction. -/
def clock (s : State) (hour : Nat) : List Token → Option (State × List Token)
  | .number m :: .sign ':' :: .number sec :: .sign mark :: .number fraction :: rest =>
    if mark == '.' || mark == ',' then
      (s.setTime hour (valueOf m) (valueOf sec)).map (·, rest)
    else
      (s.setTime hour (valueOf m) (valueOf sec)).map (·, .sign mark :: .number fraction :: rest)
  | .number m :: .sign ':' :: .number sec :: rest =>
    (s.setTime hour (valueOf m) (valueOf sec)).map (·, rest)
  | .number m :: rest => (s.setTime hour (valueOf m) 0).map (·, rest)
  | _ => none

/-- The tokens behind an offset from universal time. -/
def afterOffset? : List Token → Option (List Token)
  | .number _ :: .sign ':' :: .number _ :: rest => some rest
  | .number _ :: rest => some rest
  | _ => none

/-- Whether a word can name a time zone. -/
def isZone (letters : List Char) : Bool :=
  letters == ['z'] || (letters.length ≤ 5 && letters.all Char.isUpper)

/-- Read the tokens of a date; every step uses up a token, so `fuel` is their number. -/
def readFrom : Nat → State → List Token → Option State
  | _, s, [] => some s
  | 0, _, _ => none
  | fuel + 1, s, token :: rest =>
    match token with
    | .number ds =>
      match rest with
      | .sign ':' :: rest' =>
        match clock s (valueOf ds) rest' with
        | some (s, rest'') => readFrom fuel s rest''
        | none => none
      | _ =>
        if [8, 12, 14].contains ds.length then
          match s.addCompact ds with
          | some s => readFrom fuel s rest
          | none => none
        else if s.parts.length = 3 && (ds.length = 6 || ds.length = 4 || ds.length = 2) then
          let at_ (k : Nat) : Nat := valueOf ((ds.drop k).take 2)
          match s.setTime (at_ 0) (at_ 2) (at_ 4) with
          | some s => readFrom fuel s rest
          | none => none
        else
          match s.add (.number (valueOf ds) ds.length) with
          | some s => readFrom fuel s rest
          | none => none
    | .word letters =>
      let word := String.ofList (letters.map Char.toLower)
      if word == "am" || word == "pm" then
        match s.hour with
        | some h => if h ≤ 12 then readFrom fuel s rest else none
        | none => none
      else if s.hour.isSome && !s.zoned && isZone letters then
        readFrom fuel { s with zoned := true } rest
      else if weekdayNames.contains word || fillers.contains word then readFrom fuel s rest
      else
        match monthOf? word with
        | some m =>
          match s.add (.month m) with
          | some s => readFrom fuel s rest
          | none => none
        | none => none
    | .sign c =>
      if s.hour.isSome && (c == '+' || c == '-') then
        match afterOffset? rest with
        | some rest' => readFrom fuel { s with zoned := true } rest'
        | none => none
      else if separators.contains c then readFrom fuel s rest
      else none

/-- Whether a part is written as a year, with three digits or more. -/
def Part.isLong : Part → Bool
  | number _ size => size > 2
  | month _ => false

/-- Whether a part is too large for a day or a month. -/
def Part.isLarge (p : Part) : Bool :=
  match p with
  | number value size => size > 2 || value > 31
  | month _ => false

/-- The number in a part. -/
def Part.value : Part → Nat
  | number value _ => value
  | month value => value

/-- Whether a part is a month name. -/
def Part.isMonth : Part → Bool
  | number _ _ => false
  | month _ => true

/-- The year that a part stands for; of two digits it lies between 1976 and 2075. -/
def Part.year (p : Part) : Nat :=
  if p.isLong then p.value else if p.value < 76 then 2000 + p.value else 1900 + p.value

/-- The date with a year, a month and a day given as parts. -/
def dateOfParts? (year month day : Part) : Option Date :=
  Date.ofParts? year.year month.value day.value

/-- The date that three parts make. -/
def dateOf? : List Part → Option Date
  | [a, b, c] =>
    if a.isMonth then if b.isLarge then dateOfParts? b a c else dateOfParts? c a b
    else if b.isMonth then if a.isLarge then dateOfParts? a b c else dateOfParts? c b a
    else if c.isMonth then if b.isLarge then dateOfParts? b c a else dateOfParts? a c b
    else if a.isLarge then dateOfParts? a b c
    else if a.value > 12 then dateOfParts? c b a
    else dateOfParts? c a b
  | _ => none

/-- The date that a text spells. -/
def read? (s : String) : Option Date := do
  let tokens := tokensFrom [] s.toList
  let state ← readFrom tokens.length {} tokens
  dateOf? state.parts

end Pagewright.FreeForm
