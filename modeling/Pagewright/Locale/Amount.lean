import Pagewright.Locale.Basic
import Pagewright.Number.Decimal

/-!
# Amounts and grouped numbers

Numbers as a locale writes them: digits in groups, a decimal mark, a currency sign before or after.
The number is the double's plain decimal numeral, rounded half to even to the wanted places. The minus
sign stands before everything else, also before a number that rounds to zero. Decimal arithmetic
keeps 28 digits; an amount that needs more is refused.
-/

namespace Pagewright

namespace Locale

/-- How a locale writes amounts. -/
structure AmountFormat where
  point : Char
  group : Char
  /-- What stands before and after the number, the currency sign left out. -/
  signFirst : Bool
  gap : Bool
  /-- The length of the groups left of the first one, which has three digits. -/
  groupSize : Nat
  deriving Repr

/-- The space that does not break a line. -/
def fixedSpace : Char := Char.ofNat 0xA0

/-- How each locale writes amounts. -/
def amountFormat : Locale → AmountFormat
  | en | enUS | enGB | jaJP => ⟨'.', ',', true, false, 3⟩
  | enIN => ⟨'.', ',', true, false, 2⟩
  | de | deDE | esES => ⟨',', '.', false, true, 3⟩
  | frFR => ⟨',', Char.ofNat 0x202F, false, true, 3⟩
  | ptBR => ⟨',', '.', true, true, 3⟩
  | svSE => ⟨',', fixedSpace, false, true, 3⟩

/-- The signs of the currencies that have one; any other is written as its code. -/
def currencySigns : Locale → List (String × String)
  | en | enUS | de | deDE =>
    [("USD", "$"), ("EUR", "€"), ("GBP", "£"), ("JPY", "¥"), ("INR", "₹")]
  | enGB => [("USD", "US$"), ("EUR", "€"), ("GBP", "£"), ("JPY", "JP¥"), ("INR", "₹")]
  | enIN => [("USD", "$"), ("EUR", "€"), ("GBP", "£"), ("JPY", "JP¥"), ("INR", "₹")]
  | frFR => [("USD", "$US"), ("EUR", "€"), ("GBP", "£GB"), ("JPY", "JPY"), ("INR", "₹")]
  | esES => [("USD", "US$"), ("EUR", "€"), ("GBP", "GBP"), ("JPY", "JPY"), ("INR", "INR")]
  | jaJP => [("USD", "$"), ("EUR", "€"), ("GBP", "£"), ("JPY", "￥"), ("INR", "₹")]
  | ptBR => [("USD", "US$"), ("EUR", "€"), ("GBP", "£"), ("JPY", "JP¥"), ("INR", "₹")]
  | svSE => [("USD", "US$"), ("EUR", "€"), ("GBP", "GBP"), ("JPY", "JPY"), ("INR", "INR")]

/-- The sign of a currency. -/
def currencySign (l : Locale) (code : String) : String := (l.currencySigns.lookup code).getD code

end Locale

namespace Amount

open Pagewright.Locale

/-- The places that a currency is counted in. -/
def placesOf (code : String) : Nat :=
  if code == "JPY" then 0 else if code == "BHD" then 3 else 2

/-- The digits of decimal arithmetic. -/
def precision : Nat := 28

/-- Digits with a separator between groups, counted from the right; `place` is the number of digits
already set and `next` the place of the next separator. -/
def groupFrom (separator : Char) (size : Nat) (place next : Nat) : List Char → List Char
  | [] => []
  | d :: rest =>
    if place = next then
      separator :: d :: groupFrom separator size (place + 1) (next + size) rest
    else d :: groupFrom separator size (place + 1) next rest

/-- Digits in groups, the first of three digits from the right, the others of `size`. -/
def grouped (separator : Char) (size : Nat) (digits : List Char) : List Char :=
  (groupFrom separator size 0 3 digits.reverse).reverse

/-- A magnitude with between `least` and `most` places. -/
def magnitude (format : AmountFormat) (x : Decimal) (least most : Nat) : Outcome (List Char) :=
  let units := x.roundTo most
  if Decimal.width units > precision then undefinedOn .tooManyDigits
  else
    let (whole, fraction) := Decimal.split units most
    let kept := fraction.take least ++ Binary64.dropZeros (fraction.drop least)
    let whole := grouped format.group format.groupSize whole
    .ok (if kept.isEmpty then whole else whole ++ format.point :: kept)

/-- Whether a double is negative, and its magnitude as it is written. -/
def signAndMagnitude (format : AmountFormat) (x : Float) (least most : Nat) :
    Outcome (Bool × List Char) :=
  match Binary64.decode x with
  | .finite v => do return (v.negative, ← magnitude format v.decimal least most)
  | .infinite negative => .ok (negative, ['∞'])
  | .nan => .ok (false, ['N', 'a', 'N'])

/-- A grouped number with between `least` and `most` places. -/
def number (l : Locale) (x : Float) (least most : Nat) : Outcome String := do
  let format := l.amountFormat
  let (negative, text) ← signAndMagnitude format x least most
  return String.ofList (if negative then '-' :: text else text)

/-- A text without the single quotes around its parts; two quotes in a row stand for one. `part`
holds the text since an opening quote, last character first. -/
def unquoteFrom : Option (List Char) → List Char → List Char
  | none, [] => []
  | some part, [] => '\'' :: part.reverse
  | none, c :: rest => if c == '\'' then unquoteFrom (some []) rest else c :: unquoteFrom none rest
  | some part, c :: rest =>
    if c == '\'' then
      (if part.isEmpty then ['\''] else part.reverse) ++ unquoteFrom none rest
    else unquoteFrom (some (c :: part)) rest

/-- An amount of a currency. -/
def currency (l : Locale) (x : Float) (code : String) : Outcome String := do
  let format := l.amountFormat
  let places := placesOf code
  let (negative, text) ← signAndMagnitude format x places places
  let sign := (l.currencySign code).toList
  let gap := if format.gap then [fixedSpace] else []
  let body := if format.signFirst then sign ++ gap ++ text else text ++ gap ++ sign
  return String.ofList (unquoteFrom none (if negative then '-' :: body else body))

end Amount

end Pagewright
