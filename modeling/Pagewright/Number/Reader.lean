import Pagewright.Number.Binary64
import Pagewright.Text.Scan

/-!
# Reading numerals

A double is read from optional blanks, a sign, decimal digits of any script with an optional
fraction and exponent, or one of the words for infinity and NaN. Single underscores may stand
between digits. A whole number is read by `natural?`.
-/

namespace Pagewright.Numeral

open Pagewright.Text

/-- The number that a list of digit values spells. -/
def ofDigits (ds : List Nat) : Nat := ds.foldl (fun n d => 10 * n + d) 0

/-- The digits at the start of a text and the rest of it; an underscore is passed over when a digit
stands on both sides of it. -/
def digitRun (afterDigit : Bool) : List Char → List Nat × List Char
  | [] => ([], [])
  | c :: rest =>
    match decimalValue? c with
    | some d =>
      let (ds, rest') := digitRun true rest
      (d :: ds, rest')
    | none =>
      if c == '_' && afterDigit && rest.head?.any (fun d => (decimalValue? d).isSome) then
        digitRun false rest
      else ([], c :: rest)

/-- The double nearest to `± digits · 10^exponent`. Exponents far outside the range of doubles are
decided by the order of magnitude alone. -/
def scaled (negative : Bool) (digits : List Nat) (exponent : Int) : Float :=
  let significant := digits.dropWhile (· == 0)
  if significant.isEmpty then Binary64.ofRatio negative 0 1
  else
    let order := exponent + significant.length
    if order > 400 then (if negative then -Binary64.infinity else Binary64.infinity)
    else if order < -400 then Binary64.ofRatio negative 0 1
    else
      Binary64.ofRatio negative (ofDigits significant * tenTo exponent.toNat) (tenTo (-exponent).toNat)

/-- A sign in front of a text, if there is one. -/
def signOf : List Char → Bool × List Char
  | '-' :: rest => (true, rest)
  | '+' :: rest => (false, rest)
  | s => (false, s)

/-- The exponent part at the end of a numeral; a text that has none is exponent zero. -/
def exponentOf? : List Char → Option Int
  | [] => some 0
  | c :: rest =>
    if c == 'e' || c == 'E' then
      let (negative, rest) := signOf rest
      match digitRun false rest with
      | ([], _) => none
      | (ds, []) => some (if negative then -(ofDigits ds : Int) else ofDigits ds)
      | (_, _ :: _) => none
    else none

/-- A numeral without sign. -/
def magnitude? (negative : Bool) (s : List Char) : Option Float :=
  let (whole, rest) := digitRun false s
  let (fraction, rest) :=
    match rest with
    | '.' :: rest => digitRun false rest
    | rest => ([], rest)
  if whole.isEmpty && fraction.isEmpty then none
  else (exponentOf? rest).map fun e => scaled negative (whole ++ fraction) (e - fraction.length)

/-- Blanks around a numeral: the six of ASCII and every space above ASCII. -/
def isMargin (c : Char) : Bool :=
  if c.toNat < 128 then c == ' ' || (9 ≤ c.toNat && c.toNat ≤ 13) else isBlank c

/-- A text without the blanks around it. -/
def core (s : List Char) : List Char :=
  ((s.dropWhile isMargin).reverse.dropWhile isMargin).reverse

/-- The double that a text spells. -/
def float? (s : List Char) : Option Float :=
  let s := core s
  let (negative, body) := signOf s
  let word := String.ofList (body.map Char.toLower)
  if word == "inf" || word == "infinity" then
    some (if negative then -Binary64.infinity else Binary64.infinity)
  else if word == "nan" then some Binary64.nan
  else magnitude? negative body

/-- The longest numeral of a whole number that is read. -/
def digitLimit : Nat := 4300

/-- The number that a text of decimal digits spells, in any script. -/
def natural? (s : List Char) : Option Nat :=
  if s.isEmpty then none else (s.mapM decimalValue?).map ofDigits

/-- A whole number with optional blanks and sign, single underscores between its digits allowed. -/
def integer? (s : List Char) : Option Int :=
  let (negative, body) := signOf (core s)
  match digitRun false body with
  | ([], _) => none
  | (_, _ :: _) => none
  | (ds, []) =>
    if ds.length ≤ digitLimit then
      some (if negative then -(ofDigits ds : Int) else ofDigits ds)
    else none

end Pagewright.Numeral
