import Pagewright.Number.Binary64

/-!
# Decimal numerals of doubles

`Decimal` is a coefficient times a power of ten. `shortest` finds the fewest digits that read back
as a given double, and of those the nearest; `roundTo` rounds to a number of places, half to even.
The texts written from them are the plain form with its switch to exponents (`Float.text`), a fixed
number of places (`fixed`) and six significant digits (`general`).
-/

namespace Pagewright

/-- A decimal magnitude, `coefficient · 10^exponent`. -/
structure Decimal where
  coefficient : Nat
  exponent : Int
  deriving Repr, DecidableEq

namespace Decimal

/-- The decimal digits of a natural number, most significant first. -/
def digitsOf (n : Nat) : List Char := Nat.toDigits 10 n

/-- The number of decimal digits of a coefficient. -/
def width (n : Nat) : Nat := (digitsOf n).length

/-- The greatest `d` with `10^d ≤ num / den`, for a positive fraction. -/
def magnitude (num den : Nat) : Int :=
  let guess : Int := (((num.log2 : Int) - den.log2) * 30103).fdiv 100000
  let reaches (d : Int) : Bool := den * tenTo d.toNat ≤ num * tenTo (-d).toNat
  if reaches (guess + 1) then guess + 1
  else if reaches guess then guess
  else if reaches (guess - 1) then guess - 1
  else guess - 2

/-- Drop the zeros at the end of a coefficient, at most `fuel` of them. -/
def stripZeros : Nat → Decimal → Decimal
  | 0, x => x
  | fuel + 1, x =>
    if x.coefficient ≠ 0 ∧ x.coefficient % 10 = 0 then
      stripZeros fuel ⟨x.coefficient / 10, x.exponent + 1⟩
    else x

/-- The coefficient has no zeros at its end. -/
def normalize (x : Decimal) : Decimal := stripZeros (width x.coefficient) x

/-- The best point with `n` digits of the decimal grid inside the interval that rounds to the double
`m · 2^q`: `d` is the order of magnitude of the double. -/
def onGrid? (m : Nat) (q : Int) (d : Int) (n : Nat) : Option Decimal :=
  let p := d - n + 1
  -- quarters of a unit in the last place, so that the interval ends are whole
  let low := if m = Binary64.hidden ∧ q > Binary64.minExponent then 4 * m - 1 else 4 * m - 2
  let a := twoTo (q - 2).toNat * tenTo (-p).toNat
  let b := twoTo (2 - q).toNat * tenTo p.toNat
  let k := 4 * m * a / b
  let inside (k : Nat) : Bool :=
    if m % 2 = 0 then low * a ≤ k * b ∧ k * b ≤ (4 * m + 2) * a
    else low * a < k * b ∧ k * b < (4 * m + 2) * a
  let below := 4 * m * a - k * b
  let above := (k + 1) * b - 4 * m * a
  let nearer : Nat :=
    if below < above then k else if above < below then k + 1 else if k % 2 = 0 then k else k + 1
  match inside k, inside (k + 1) with
  | true, true => some ⟨nearer, p⟩
  | true, false => some ⟨k, p⟩
  | false, true => some ⟨k + 1, p⟩
  | false, false => none

/-- The fewest digits that read back as the double `m · 2^q`, for positive `m`. -/
def shortest (m : Nat) (q : Int) : Decimal :=
  let d := magnitude (m * twoTo q.toNat) (twoTo (-q).toNat)
  match (List.range' 1 17).findSome? (onGrid? m q d) with
  | some x => x.normalize
  | none => ⟨0, 0⟩

/-- A decimal rounded to `places` digits after the point, half to even: the coefficient that counts
units of the last place. -/
def roundTo (x : Decimal) (places : Nat) : Nat :=
  let shift := x.exponent + places
  Binary64.roundHalfEven (x.coefficient * tenTo shift.toNat) (tenTo (-shift).toNat)

/-- The digits of `n`, with zeros in front up to `size`. -/
def padded (size n : Nat) : List Char :=
  let ds := digitsOf n
  List.replicate (size - ds.length) '0' ++ ds

/-- Whole and fractional digits of `units · 10^(-places)`. -/
def split (units places : Nat) : List Char × List Char :=
  (digitsOf (units / tenTo places), if places = 0 then [] else padded places (units % tenTo places))

/-- The digits `ds`, read as `0.ds · 10^point`, without an exponent and with at least one digit on
each side of the point. -/
def positional (ds : List Char) (point : Int) : List Char :=
  if point ≤ 0 then '0' :: '.' :: List.replicate (-point).toNat '0' ++ ds
  else if ds.length ≤ point.toNat then
    ds ++ List.replicate (point.toNat - ds.length) '0' ++ ['.', '0']
  else ds.take point.toNat ++ '.' :: ds.drop point.toNat

/-- A power of ten as `e+07`: a sign and at least two digits. -/
def exponentMark (e : Int) : List Char :=
  'e' :: (if e < 0 then '-' else '+') :: padded 2 e.natAbs

/-- The digits `ds` with the point after the first and a power of ten. -/
def scientific (ds : List Char) (e : Int) : List Char :=
  match ds with
  | [d] => d :: exponentMark e
  | d :: rest => d :: '.' :: rest ++ exponentMark e
  | [] => []

/-- The plain text of a decimal: an exponent is written from `10^16` up and below `10^(-4)`. -/
def plain (x : Decimal) : List Char :=
  let ds := digitsOf x.coefficient
  let point := x.exponent + ds.length
  if point - 1 < -4 ∨ 16 ≤ point - 1 then scientific ds (point - 1) else positional ds point

end Decimal

namespace Binary64

/-- The decimal with the fewest digits that reads back as a finite value's magnitude. -/
def Finite.decimal (x : Finite) : Decimal :=
  if x.mantissa = 0 then ⟨0, 0⟩ else Decimal.shortest x.mantissa x.exponent

/-- A minus sign for negative values. -/
def signed (negative : Bool) (text : List Char) : List Char :=
  if negative then '-' :: text else text

/-- The plain text of a double: `0.1`, `1e-07`, `-0.0`, `inf`, `nan`. -/
def text (x : Float) : String :=
  match decode x with
  | .finite v => String.ofList (signed v.negative v.decimal.plain)
  | .infinite negative => if negative then "-inf" else "inf"
  | .nan => "nan"

/-- A double with a fixed number of places, its exact value rounded half to even. -/
def fixed (x : Float) (places : Nat) : String :=
  match decode x with
  | .finite v =>
    let (n, d) := v.ratio
    let (whole, fraction) := Decimal.split (roundHalfEven (n * tenTo places) d) places
    String.ofList (signed v.negative (if places = 0 then whole else whole ++ '.' :: fraction))
  | .infinite negative => if negative then "-inf" else "inf"
  | .nan => "nan"

/-- Digits without the zeros at their end. -/
def dropZeros (ds : List Char) : List Char := (ds.reverse.dropWhile (· == '0')).reverse

/-- A double in at most six significant digits, as short as that goes: `1.5`, `100`, `1e+06`. -/
def general (x : Float) : String :=
  match decode x with
  | .infinite negative => if negative then "-inf" else "inf"
  | .nan => "nan"
  | .finite v =>
    if v.mantissa = 0 then String.ofList (signed v.negative ['0'])
    else
      let (n, d) := v.ratio
      let e := Decimal.magnitude n d
      let shift := 5 - e
      let units := roundHalfEven (n * tenTo shift.toNat) (d * tenTo (-shift).toNat)
      let (units, e) := if units = tenTo 6 then (tenTo 5, e + 1) else (units, e)
      let ds := Decimal.digitsOf units
      let body :=
        if e < -4 ∨ 6 ≤ e then Decimal.scientific (dropZeros ds) e
        else if e < 0 then '0' :: '.' :: List.replicate (-e - 1).toNat '0' ++ dropZeros ds
        else
          let fraction := dropZeros (ds.drop (e.toNat + 1))
          ds.take (e.toNat + 1) ++ (if fraction.isEmpty then [] else '.' :: fraction)
      String.ofList (signed v.negative body)

end Binary64

end Pagewright
