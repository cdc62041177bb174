import Pagewright.Number.Reader
import Pagewright.Proofs.Number.Digits
import Pagewright.Proofs.Number.Shortest

/-!
# Digits that a double owns

Digits and a power of ten are read as the double whose interval they fall into (`Numeral.scaled_of_owns`). The
cut-off for powers of ten far outside the range of doubles is not met there: no double owns so large or so small a
number.
-/

namespace Pagewright

namespace Binary64

variable {v : Finite} {y : ℚ}

theorem Finite.Owns.lt (h : v.Owns y) (hv : v.IsCanonical) : y < 10 ^ (400 : ℤ) := by
  calc y < 2 * hidden * 2 ^ v.exponent := h.lt_two_mul hv
    _ = 2 ^ (v.exponent + 53) := two_mul_hidden_mul_zpow _
    _ ≤ 2 ^ (3 * 400 : ℤ) := zpow_le_zpow_right₀ one_le_two (by have := hv.exponent_le; omega)
    _ = (2 ^ (3 : ℤ)) ^ (400 : ℤ) := zpow_mul ..
    _ ≤ 10 ^ (400 : ℤ) := zpow_le_zpow_left₀ (by decide) (by norm_num) (by norm_num)

theorem Finite.Owns.gt (h : v.Owns y) (hv : v.IsCanonical) (hm : 0 < v.mantissa) : (10 : ℚ) ^ (-400 : ℤ) < y := by
  have hm' : (1 : ℚ) ≤ v.mantissa := by exact_mod_cast hm
  have hmin : minExponent = -1074 := rfl
  calc (10 : ℚ) ^ (-400 : ℤ) ≤ (2 ^ (3 : ℤ)) ^ (-400 : ℤ) := by
        rw [zpow_neg, zpow_neg]
        exact inv_anti₀ (by positivity) (zpow_le_zpow_left₀ (by decide) (by norm_num) (by norm_num))
    _ = 2 ^ (3 * -400 : ℤ) := (zpow_mul ..).symm
    _ < 2 ^ (-1 + v.exponent) := zpow_lt_zpow_right₀ one_lt_two (by have := hv.le_exponent; omega)
    _ = 1 / 2 * 2 ^ v.exponent := by rw [zpow_add₀ two_ne_zero]; norm_num
    _ ≤ _ := mul_le_mul_of_nonneg_right (by split <;> linarith) (by positivity)
    _ ≤ y := h.low

end Binary64

namespace Numeral

open Binary64

variable {digits : List ℕ} {exponent : ℤ} {x : Float} {v : Finite}

theorem scaled_of_zero (negative : Bool) (h : digits.dropWhile (· == 0) = []) (exponent : ℤ) :
    scaled negative digits exponent = ofRatio negative 0 1 := by
  rw [scaled, h]
  rfl

/-- The number of the digits tells the size of what they stand for up to a factor of ten. -/
theorem ofDigits_mul_zpow_bounds {d : ℕ} {rest : List ℕ} (hd : d ≠ 0) (hdigits : ∀ e ∈ d :: rest, e < 10)
    (exponent : ℤ) : (10 : ℚ) ^ (rest.length + exponent) ≤ ofDigits (d :: rest) * 10 ^ exponent ∧
      (ofDigits (d :: rest) : ℚ) * 10 ^ exponent < 10 ^ (rest.length + 1 + exponent) := by
  have hlower : (10 : ℚ) ^ (rest.length : ℤ) ≤ (ofDigits (d :: rest) : ℕ) := by
    exact_mod_cast le_ofDigits hd rest
  have hupper : ((ofDigits (d :: rest) : ℕ) : ℚ) < 10 ^ ((rest.length : ℤ) + 1) := by
    exact_mod_cast ofDigits_lt hdigits
  rw [zpow_add₀ (by norm_num), zpow_add₀ (by norm_num)]
  exact ⟨mul_le_mul_of_nonneg_right hlower (by positivity), mul_lt_mul_of_pos_right hupper (by positivity)⟩

/-- Digits and a power of ten are read as the double that owns them. -/
theorem scaled_of_owns (hx : decode x = .finite v) (hm : 0 < v.mantissa) (hdigits : ∀ d ∈ digits, d < 10)
    (h : v.Owns (ofDigits digits * 10 ^ exponent)) : scaled v.negative digits exponent = x := by
  obtain ⟨hv, -⟩ := bits_of_decode hx
  have hnumber := ofDigits_dropWhile digits
  have hlt {a b : ℤ} (hab : (10 : ℚ) ^ a < 10 ^ b) : a < b :=
    (zpow_lt_zpow_iff_right₀ (by norm_num : (1 : ℚ) < 10)).mp hab
  rw [← hnumber] at h
  unfold scaled
  dsimp only
  cases hsignificant : digits.dropWhile (· == 0) with
  | nil =>
    rw [hsignificant] at h
    exact absurd (h.pos hm) (by simp [ofDigits])
  | cons d rest =>
    rw [hsignificant] at h
    have hd : d ≠ 0 := by
      have := List.head?_dropWhile_not (· == 0) digits
      rw [hsignificant] at this
      simpa using this
    have hall : ∀ e ∈ d :: rest, e < 10 := fun e he =>
      hdigits e ((List.dropWhile_sublist _).subset (hsignificant ▸ he))
    obtain ⟨hlower, hupper⟩ := ofDigits_mul_zpow_bounds hd hall exponent
    have hmax : (rest.length : ℤ) + exponent < 400 := hlt (hlower.trans_lt (h.lt hv))
    have hmin : -400 < (rest.length : ℤ) + 1 + exponent := hlt ((h.gt hv hm).trans hupper)
    rw [List.isEmpty_cons, if_neg Bool.false_ne_true, List.length_cons, if_neg (by push_cast; omega),
      if_neg (by push_cast; omega)]
    refine ofRatio_of_owns hx hm (tenTo_pos _) ?_
    rwa [Nat.cast_mul, mul_div_assoc, cast_tenTo_div]

theorem ofRatio_zero (hx : decode x = .finite v) (hm : v.mantissa = 0) : ofRatio v.negative 0 1 = x := by
  obtain ⟨hv, hbits⟩ := bits_of_decode hx
  have hexponent : v.exponent = minExponent :=
    hv.normal.resolve_left fun h => absurd (hm ▸ h) (by decide)
  rw [← ofBits_toNat x, hbits, ofRatio, magnitudeBits, if_pos rfl, Finite.bits, hexponent, hm, sub_self]
  rfl

end Numeral

end Pagewright
