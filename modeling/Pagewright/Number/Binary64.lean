/-!
# Exact values of doubles

A finite double is a sign, a mantissa and a power of two. Reading one off its bits (`decode`) and
rounding a fraction to the nearest double (`ofRatio`, ties to the even mantissa) are the two
directions; comparison with integers, floors and integrality go through the exact value.
-/

namespace Pagewright

/-- A power of two. -/
def twoTo (n : Nat) : Nat := Nat.pow 2 n

/-- A power of ten. -/
def tenTo (n : Nat) : Nat := Nat.pow 10 n

end Pagewright

namespace Pagewright.Binary64

/-- A finite value, `(-1)^negative · mantissa · 2^exponent`. -/
structure Finite where
  negative : Bool
  mantissa : Nat
  exponent : Int
  deriving Repr, DecidableEq

/-- What a bit pattern stands for. -/
inductive Decoded where
  | finite (value : Finite)
  | infinite (negative : Bool)
  | nan
  deriving Repr, DecidableEq

/-- The number of stored mantissa bits as a power of two. -/
def hidden : Nat := twoTo 52

/-- The exponent of the smallest positive double. -/
def minExponent : Int := -1074

/-- The meaning of the 64 bits of a double. -/
def decodeBits (bits : Nat) : Decoded :=
  let negative := bits / twoTo 63 % 2 == 1
  let biased := bits / hidden % 2048
  let fraction := bits % hidden
  if biased = 2047 then
    if fraction = 0 then .infinite negative else .nan
  else if biased = 0 then .finite ⟨negative, fraction, minExponent⟩
  else .finite ⟨negative, fraction + hidden, (biased : Int) - 1075⟩

/-- The exact value of a double. -/
def decode (x : Float) : Decoded := decodeBits x.toBits.toNat

/-- The nearest natural number to `num / den`, a tie going to the even neighbour. -/
def roundHalfEven (num den : Nat) : Nat :=
  let q := num / den
  let r := num % den
  if 2 * r < den then q
  else if den < 2 * r then q + 1
  else if q % 2 = 0 then q else q + 1

/-- Numerator and denominator of `num / den · 2^(-e)`. -/
def scaleTwo (num den : Nat) (e : Int) : Nat × Nat :=
  (num * twoTo (-e).toNat, den * twoTo e.toNat)

/-- The exponent at which `num / den` has a 53-bit mantissa, or the least exponent there is. -/
def scaleOf (num den : Nat) : Int :=
  let low := max ((num.log2 : Int) - den.log2 - 53) minExponent
  let (n, d) := scaleTwo num den low
  if n / d < 2 * hidden then low
  else
    let (n', d') := scaleTwo num den (low + 1)
    if n' / d' < 2 * hidden then low + 1 else low + 2

/-- Bits of the double nearest to the fraction `num / den`, sign aside; too large a fraction gives
infinity. -/
def magnitudeBits (num den : Nat) : Nat :=
  if num = 0 then 0
  else
    let e := scaleOf num den
    let (n, d) := scaleTwo num den e
    min ((e - minExponent).toNat * hidden + roundHalfEven n d) (2047 * hidden)

/-- The double nearest to `± num / den`. -/
def ofRatio (negative : Bool) (num den : Nat) : Float :=
  Float.ofBits (UInt64.ofNat ((if negative then twoTo 63 else 0) + magnitudeBits num den))

/-- Positive infinity. -/
def infinity : Float := Float.ofBits (UInt64.ofNat (2047 * hidden))

/-- The one `NaN` that this library makes. -/
def nan : Float := Float.ofBits (UInt64.ofNat (2047 * hidden + twoTo 51))

/-- The double nearest to an integer; none when it is out of range. -/
def ofInt? (n : Int) : Option Float :=
  let bits := magnitudeBits n.natAbs 1
  if bits = 2047 * hidden then none else some (ofRatio (n < 0) n.natAbs 1)

/-- Numerator and denominator of a finite value's magnitude. -/
def Finite.ratio (x : Finite) : Nat × Nat :=
  (x.mantissa * twoTo x.exponent.toNat, twoTo (-x.exponent).toNat)

/-- The greatest integer not above a finite value. -/
def Finite.floor (x : Finite) : Int :=
  let (n, d) := x.ratio
  if x.negative then -(((n + d - 1) / d : Nat) : Int) else ((n / d : Nat) : Int)

/-- The integer next to a finite value in the direction of zero. -/
def Finite.truncate (x : Finite) : Int :=
  let (n, d) := x.ratio
  if x.negative then -((n / d : Nat) : Int) else ((n / d : Nat) : Int)

/-- Whether a finite value is an integer. -/
def Finite.isInteger (x : Finite) : Bool :=
  let (n, d) := x.ratio
  n % d == 0

/-- Whether a double is NaN. -/
def isNaN (x : Float) : Bool := decode x == .nan

/-- The floor of a double; none for NaN and the infinities. -/
def floor? (x : Float) : Option Int :=
  match decode x with
  | .finite v => some v.floor
  | _ => none

/-- A double with its fraction cut off; none for NaN and the infinities. -/
def truncate? (x : Float) : Option Int :=
  match decode x with
  | .finite v => some v.truncate
  | _ => none

/-- The integer that a double equals, if there is one. -/
def integer? (x : Float) : Option Int :=
  match decode x with
  | .finite v => if v.isInteger then some v.truncate else none
  | _ => none

/-- Order of a double and an integer by exact value; none for NaN. -/
def compareInt (x : Float) (n : Int) : Option Ordering :=
  match decode x with
  | .nan => none
  | .infinite negative => some (if negative then .lt else .gt)
  | .finite v =>
    let (a, d) := v.ratio
    let a : Int := if v.negative then -(a : Int) else a
    some (compare a (n * d))

end Pagewright.Binary64
