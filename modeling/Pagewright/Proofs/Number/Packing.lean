import Pagewright.Proofs.Number.Exact

/-!
# Rounding and packing

A result of arithmetic is a mantissa with two more bits, one for a half and one for whatever is below it
(`Binary64.Extends`), and an exponent. Shifting such a mantissa keeps what it stands for (`Extends.shiftRight`), and
rounding it gives the nearest whole number (`Extends.isNearestEven`). So a mantissa that has all bits, or whose
exponent is low enough, is rounded and packed to the double nearest to what it stands for
(`isNearest_roundWithAccuracy`), and any mantissa is once it is shifted (`isNearest_round`, `isNearest_normalize`).
-/

namespace Pagewright.Binary64

open Float.Model Float.Model.UnpackedFloat

variable {x y q : ℚ} {e : ℤ} {m n : ℕ} {em : ExtendedMantissa} {acc : Accuracy} {sign : Sign}

/-! ## Mantissas with two more bits -/

/-- A bit as a half. -/
def half (bit : Bool) : ℚ := if bit then 1 / 2 else 0

theorem half_false : half false = 0 := rfl

theorem half_true : half true = 1 / 2 := rfl

theorem half_nonneg (bit : Bool) : 0 ≤ half bit := by
  unfold half
  split <;> norm_num

theorem half_le (bit : Bool) : half bit ≤ 1 / 2 := by
  unfold half
  split <;> norm_num

/-- A mantissa with two more bits stands for a fraction: the whole part, the half, and whether there is a rest. -/
def Extends (em : ExtendedMantissa) (y : ℚ) : Prop :=
  ∃ rest : ℚ, y = em.mantissa + half em.roundBit + rest ∧ 0 ≤ rest ∧ rest < 1 / 2 ∧ (em.stickyBit = true ↔ rest ≠ 0)

namespace Extends

theorem le (h : Extends em y) : (em.mantissa : ℚ) ≤ y := by
  obtain ⟨rest, rfl, hnonneg, -, -⟩ := h
  linarith [half_nonneg em.roundBit]

theorem lt (h : Extends em y) : y < em.mantissa + 1 := by
  obtain ⟨rest, rfl, -, hlt, -⟩ := h
  linarith [half_le em.roundBit]

theorem shiftRightOne (h : Extends em y) : Extends em.shiftRightOne (y / 2) := by
  obtain ⟨rest, rfl, hnonneg, hlt, hsticky⟩ := h
  have hround := half_nonneg em.roundBit
  refine ⟨(half em.roundBit + rest) / 2, ?_, by linarith, by linarith [half_le em.roundBit], ?_⟩
  · have hdivision : (em.mantissa : ℚ) = 2 * (em.mantissa / 2 : ℕ) + (em.mantissa % 2 : ℕ) := by
      exact_mod_cast (Nat.div_add_mod em.mantissa 2).symm
    have hodd : ((em.mantissa % 2 : ℕ) : ℚ) / 2 = half (em.mantissa % 2 != 0) := by
      rcases Nat.mod_two_eq_zero_or_one em.mantissa with hzero | hone
      · rw [hzero]
        norm_num [half]
      · rw [hone]
        norm_num [half]
    show _ = ((em.mantissa / 2 : ℕ) : ℚ) + half (em.mantissa % 2 != 0) + _
    rw [← hodd, hdivision]
    ring
  · show (em.roundBit || em.stickyBit) = true ↔ _
    rw [Bool.or_eq_true, hsticky]
    cases em.roundBit with
    | false => simp [half]
    | true =>
      refine iff_of_true (.inl rfl) ?_
      have : half true = 1 / 2 := rfl
      linarith

theorem shiftRight (h : Extends em y) (k : ℕ) : Extends (em >>> k) (y / 2 ^ k) := by
  induction k with
  | zero =>
    rw [pow_zero, div_one]
    exact h
  | succ k ih =>
    rw [pow_succ, ← div_div]
    exact ih.shiftRightOne

theorem isNearestEven (h : Extends em y) : IsNearestEven y em.roundedMantissa := by
  obtain ⟨rest, rfl, hnonneg, hlt, hsticky⟩ := h
  obtain ⟨m, _ | _, _ | _⟩ := em
  · -- nothing is left
    obtain rfl : rest = 0 := by simpa using hsticky
    rw [half_false, add_zero, add_zero]
    exact isNearestEven_natCast m
  · -- less than a half
    have hrest : 0 < rest := lt_of_le_of_ne hnonneg (hsticky.mp rfl).symm
    rw [half_false, add_zero]
    show IsNearestEven _ m
    exact ⟨by linarith, by linarith, fun _ => ⟨by linarith, by linarith⟩⟩
  · -- a half, which goes to the even neighbour
    obtain rfl : rest = 0 := by simpa using hsticky
    rw [half_true, add_zero]
    show IsNearestEven _ (m + m % 2)
    rcases Nat.mod_two_eq_zero_or_one m with heven | hodd
    · rw [heven]
      exact ⟨by push_cast; linarith, by push_cast; linarith, by omega⟩
    · rw [hodd]
      exact ⟨by push_cast; linarith, by push_cast; linarith, by omega⟩
  · -- more than a half
    have hrest : 0 < rest := lt_of_le_of_ne hnonneg (hsticky.mp rfl).symm
    rw [half_true]
    show IsNearestEven _ (m + 1)
    exact ⟨by push_cast; linarith, by push_cast; linarith, fun _ => ⟨by push_cast; linarith, by push_cast; linarith⟩⟩

end Extends

/-! ## Rounding and packing -/

/-- The exponent at which a mantissa is rounded. -/
def targetOf (m : ℕ) (e : ℤ) : ℤ := max ((m.log2 : ℤ) + e - 52) minExponent

theorem targetExponent_eq (m : ℕ) (e : ℤ) : Format.binary64.targetExponent (totalExponent m e) = targetOf m e := by
  show max ((m.log2 : ℤ) + 1 + e - 53) (-1074) = max ((m.log2 : ℤ) + e - 52) (-1074)
  congr 1
  omega

theorem shiftToTargetExponent_eq (m : ℕ) (e : ℤ) (acc : Accuracy) :
    shiftToTargetExponent Format.binary64 m e acc =
      (ExtendedMantissa.ofMantissaAndAccuracy m acc >>> (targetOf m e - e).toNat, max (targetOf m e) e) := by
  unfold shiftToTargetExponent shiftToExponent
  dsimp only
  rw [targetExponent_eq]
  congr 1
  omega

/-- A mantissa that has all bits, or whose exponent is low enough, is rounded like the fraction that it stands
for. -/
theorem Extends.isRoundedAt (h : Extends (.ofMantissaAndAccuracy m acc) (x / 2 ^ e))
    (hready : e ≤ minExponent ∨ hidden ≤ m) :
    IsRoundedAt x (max (targetOf m e) e)
      (ExtendedMantissa.ofMantissaAndAccuracy m acc >>> (targetOf m e - e).toNat).roundedMantissa := by
  have hpower : (0 : ℚ) < 2 ^ e := by positivity
  have hmantissa : (ExtendedMantissa.ofMantissaAndAccuracy m acc).mantissa = m := by
    rcases acc with _ | _ | _ | _ <;> rfl
  have hlow := h.le
  have hhigh := h.lt
  rw [hmantissa] at hlow hhigh
  rw [le_div_iff₀ hpower] at hlow
  rw [div_lt_iff₀ hpower] at hhigh
  have hlog : m < 2 ^ (m.log2 + 1) := Nat.lt_log2_self
  refine ⟨?_, ?_, ?_, ?_⟩
  · unfold targetOf
    omega
  · calc x < (m + 1) * 2 ^ e := hhigh
      _ ≤ 2 ^ ((m.log2 : ℤ) + 1) * 2 ^ e := mul_le_mul_of_nonneg_right (by exact_mod_cast hlog) hpower.le
      _ = 2 ^ ((m.log2 : ℤ) + 1 + e) := (zpow_add₀ two_ne_zero _ _).symm
      _ ≤ 2 ^ (max (targetOf m e) e + 53) := zpow_le_zpow_right₀ one_le_two (by unfold targetOf; omega)
      _ = 2 * hidden * 2 ^ max (targetOf m e) e := (two_mul_hidden_mul_zpow _).symm
  · refine or_iff_not_imp_left.mpr fun hne => ?_
    have hbits : 52 ≤ m.log2 := by
      rcases hready with hready | hready
      · unfold targetOf at hne
        omega
      · exact (Nat.le_log2 (by have := twoTo_pos 52; unfold hidden at hready; omega)).mpr hready
    have hpos : m ≠ 0 := by
      rintro rfl
      exact absurd hbits (by decide)
    have hexact : (2 : ℚ) ^ (m.log2 : ℤ) ≤ m := by exact_mod_cast Nat.log2_self_le hpos
    have htarget : max (targetOf m e) e + 52 = m.log2 + e := by
      unfold targetOf at hne ⊢
      omega
    calc (hidden : ℚ) * 2 ^ max (targetOf m e) e = 2 ^ (max (targetOf m e) e + 52) := hidden_mul_zpow _
      _ = 2 ^ (m.log2 : ℤ) * 2 ^ e := by rw [htarget, zpow_add₀ two_ne_zero]
      _ ≤ m * 2 ^ e := mul_le_mul_of_nonneg_right hexact hpower.le
      _ ≤ x := hlow
  · have hexponent : (2 : ℚ) ^ max (targetOf m e) e = 2 ^ e * 2 ^ (targetOf m e - e).toNat := by
      rw [← zpow_natCast, ← zpow_add₀ two_ne_zero]
      congr 1
      omega
    rw [hexponent, ← div_div]
    exact (h.shiftRight _).isNearestEven

theorem toNat_packComponents (sign : Sign) (exponent : BitVec 11) (mantissa : BitVec 52) :
    (packComponents Format.binary64 sign exponent mantissa).toNat =
      sign.toBitVec.toNat * 2 ^ 63 + exponent.toNat * 2 ^ 52 + mantissa.toNat := by
  show (sign.toBitVec ++ exponent ++ mantissa).toNat = _
  rw [BitVec.toNat_append, ← Nat.shiftLeft_add_eq_or_of_lt mantissa.isLt, BitVec.toNat_append,
    ← Nat.shiftLeft_add_eq_or_of_lt exponent.isLt, Nat.shiftLeft_eq, Nat.shiftLeft_eq]
  ring

theorem toNat_signBit (negative : Bool) :
    (signBit negative).toBitVec.toNat * 2 ^ 63 = if negative then twoTo 63 else 0 := by
  cases negative <;> rfl

/-- A mantissa and an exponent are packed side by side, or as infinity. -/
theorem toNat_pack_finite (negative : Bool) (hm : 0 < m) (hlt : m < 2 * hidden) (hmin : minExponent ≤ e)
    (hnormal : hidden ≤ m ∨ e = minExponent) :
    (UnpackedFloat.pack Format.binary64 (.finite (signBit negative) m e hm)).toNat =
      (if negative then twoTo 63 else 0) + min (place e m) (2047 * hidden) := by
  have hhidden : hidden = 2 ^ 52 := rfl
  have hminimum : minExponent = -1074 := rfl
  rw [hhidden] at hlt hnormal
  rw [hminimum] at hmin hnormal
  obtain ⟨k, rfl⟩ : ∃ k : ℕ, e = k - 1074 := ⟨(e + 1074).toNat, by omega⟩
  have hbiased : ((k : ℤ) - 1074 + (Format.binary64.exponentBias : ℕ) + (52 : ℕ)).toNat = k + 1 := by
    show ((k : ℤ) - 1074 + 1023 + 52).toNat = k + 1
    omega
  have hplace : place (k - 1074) m = k * 2 ^ 52 + m := by
    unfold place
    rw [hhidden, hminimum]
    congr 2
    omega
  rw [hplace, hhidden, ← toNat_signBit]
  unfold UnpackedFloat.pack
  dsimp only
  rw [hbiased]
  have hlog : m.log2 + 1 = Format.binary64.mantissaBits ↔ 2 ^ 52 ≤ m := by
    have h := Nat.log2_eq_iff (n := m) (k := 52) hm.ne'
    show m.log2 + 1 = 53 ↔ _
    omega
  split_ifs with hlarge hbits
  · -- beyond the range: infinity
    have hones : (-1#11).toNat = 2047 := rfl
    refine (toNat_packComponents _ (-1#11) 0#52).trans ?_
    rw [hones, BitVec.toNat_zero]
    omega
  · -- the first bit of the mantissa is left out
    rw [hlog] at hbits
    rw [toNat_packComponents, BitVec.toNat_ofNat, BitVec.toNat_ofNat]
    omega
  · -- at the lowest exponent the mantissa has fewer bits
    rw [hlog] at hbits
    refine (toNat_packComponents _ 0#11 (BitVec.ofNat 52 m)).trans ?_
    rw [BitVec.toNat_zero, BitVec.toNat_ofNat]
    omega

/-- After rounding, a mantissa that is too long is shifted once more. -/
theorem shiftToTargetExponent_carry (h : IsRoundedAt x e m) :
    (shiftToTargetExponent Format.binary64 m e .exact).1.mantissa = (carry e m).2 ∧
      (shiftToTargetExponent Format.binary64 m e .exact).2 = (carry e m).1 := by
  have hmin := h.min_le
  rw [shiftToTargetExponent_eq]
  unfold carry
  rcases h.le.lt_or_eq with hlt | rfl
  · have hlog : m.log2 < 53 := by
      rcases Nat.eq_zero_or_pos m with rfl | hm
      · decide
      · exact (Nat.log2_lt hm.ne').mpr hlt
    have htarget : targetOf m e ≤ e := by
      unfold targetOf
      omega
    have hshift : (targetOf m e - e).toNat = 0 := by omega
    rw [if_neg hlt.ne, hshift, max_eq_right htarget]
    exact ⟨rfl, rfl⟩
  · have hlog : (2 * hidden).log2 = 53 := by decide
    have htarget : targetOf (2 * hidden) e = e + 1 := by
      unfold targetOf
      omega
    have hshift : (e + 1 - e).toNat = 1 := by omega
    rw [if_pos rfl, htarget, hshift, max_eq_left (by omega)]
    exact ⟨rfl, rfl⟩

/-- What a mantissa stands for is rounded and packed like a fraction. -/
theorem pack_roundWithAccuracy (negative : Bool) {num den : ℕ} (hden : 0 < den)
    (h : Extends (.ofMantissaAndAccuracy m acc) (num / den / 2 ^ e)) (hready : e ≤ minExponent ∨ hidden ≤ m) :
    Float.ofModel (.pack (roundWithAccuracy Format.binary64 (signBit negative) m e acc)) =
      ofRatio negative num den := by
  have hrounded := h.isRoundedAt hready
  obtain ⟨f, k, hcarry, hk, hmin, hnormal, hplace, -⟩ := hrounded.exists_carry
  obtain ⟨hmantissa, hexponent⟩ := shiftToTargetExponent_carry hrounded
  have hpack : (UnpackedFloat.pack Format.binary64
      (roundWithAccuracy Format.binary64 (signBit negative) m e acc)).toNat =
      (if negative then twoTo 63 else 0) + magnitudeBits num den := by
    rw [magnitudeBits_of_isRoundedAt hden hrounded, ← hplace]
    unfold roundWithAccuracy
    rw [shiftToTargetExponent_eq m e acc]
    dsimp only
    generalize shiftToTargetExponent Format.binary64 _ _ .exact = settled at hmantissa hexponent ⊢
    rw [hcarry] at hmantissa hexponent
    obtain ⟨⟨k', roundBit, stickyBit⟩, f'⟩ := settled
    obtain rfl : k' = k := hmantissa
    obtain rfl : f' = f := hexponent
    by_cases hzero : k' = 0
    · have hminimum : f' = minExponent := hnormal.resolve_left (by have := twoTo_pos 52; unfold hidden; omega)
      rw [dif_pos hzero, hzero, hminimum, place_zero, Nat.zero_min, ← toNat_signBit]
      refine (toNat_packComponents _ 0#11 0#52).trans ?_
      rw [BitVec.toNat_zero, BitVec.toNat_zero, Nat.zero_mul]
    · rw [dif_neg hzero]
      exact toNat_pack_finite negative _ hk hmin hnormal
  rw [← ofBits_toNat (Float.ofModel _), ofRatio, ← hpack]
  rfl

theorem isNearest_roundWithAccuracy (negative : Bool) (h : Extends (.ofMantissaAndAccuracy m acc) (x / 2 ^ e))
    (hready : e ≤ minExponent ∨ hidden ≤ m) :
    IsNearest (Float.ofModel (.pack (roundWithAccuracy Format.binary64 (signBit negative) m e acc)))
      (signFactor negative * x) := by
  have hpower : (0 : ℚ) < 2 ^ e := by positivity
  have hnonneg : 0 ≤ x := by
    have hle := (Nat.cast_nonneg (α := ℚ) _).trans h.le
    exact (div_nonneg_iff.mp hle).elim And.left fun h => absurd h.2 hpower.not_ge
  have hx : x = (x.num.natAbs : ℚ) / x.den := by
    rw [Nat.cast_natAbs, abs_of_nonneg (Rat.num_nonneg.mpr hnonneg), Rat.num_div_den]
  rw [hx] at h ⊢
  rw [pack_roundWithAccuracy negative x.den_pos h hready]
  exact isNearest_ofRatio negative _ x.den_pos

theorem extends_exact (h : y = m) : Extends (.ofMantissaAndAccuracy m .exact) y :=
  ⟨0, by rw [h]; simp [ExtendedMantissa.ofMantissaAndAccuracy, half], le_rfl, by norm_num,
    by simp [ExtendedMantissa.ofMantissaAndAccuracy]⟩

/-- A mantissa at any exponent is rounded like the fraction that it is. -/
theorem isNearest_round (negative : Bool) (hm : 0 < m) (e : ℤ) :
    IsNearest (Float.ofModel (.pack (UnpackedFloat.round Format.binary64 (signBit negative) m e)))
      (signFactor negative * (m * 2 ^ e)) := by
  unfold UnpackedFloat.round decreaseExponent
  dsimp only
  rw [targetExponent_eq]
  obtain ⟨k, hk⟩ : ∃ k, (e - targetOf m e).toNat = k := ⟨_, rfl⟩
  rw [hk, Nat.shiftLeft_eq]
  have hpower : (0 : ℚ) < 2 ^ (e - k) := by positivity
  have hexponent : (2 : ℚ) ^ e = 2 ^ k * 2 ^ (e - k) := by
    rw [← zpow_natCast, ← zpow_add₀ two_ne_zero]
    congr 1
    omega
  refine isNearest_roundWithAccuracy negative (extends_exact ?_) ?_
  · rw [hexponent, ← mul_assoc, mul_div_cancel_right₀ _ hpower.ne']
    push_cast
    rfl
  · refine or_iff_not_imp_left.mpr fun hlarge => ?_
    have hbits : 52 ≤ m.log2 + k := by
      unfold targetOf at hk
      omega
    calc hidden = 2 ^ 52 := rfl
      _ ≤ 2 ^ (m.log2 + k) := Nat.pow_le_pow_right (by decide) hbits
      _ = 2 ^ m.log2 * 2 ^ k := Nat.pow_add ..
      _ ≤ m * 2 ^ k := Nat.mul_le_mul_right _ (Nat.log2_self_le hm.ne')

theorem decode_pack_zero (negative : Bool) :
    decode (Float.ofModel (.pack (.zero (signBit negative)))) = .finite ⟨negative, 0, minExponent⟩ := by
  cases negative <;> rfl

theorem isNearest_pack_zero (sign : Sign) : IsNearest (Float.ofModel (.pack (.zero sign))) 0 := by
  obtain ⟨negative, rfl⟩ : ∃ negative, signBit negative = sign := by
    cases sign
    · exact ⟨true, rfl⟩
    · exact ⟨false, rfl⟩
  have hzero : toRat (Float.ofModel (.pack (.zero (signBit negative)))) = 0 := by
    rw [toRat_of_decode (decode_pack_zero negative), Finite.toRat_eq, Finite.magnitude_of_zero rfl, mul_zero]
  exact hzero ▸ isNearest_toRat ⟨_, decode_pack_zero negative⟩

/-- The same for a mantissa with a sign. -/
theorem isNearest_normalize (k e : ℤ) :
    IsNearest (Float.ofModel (.pack (UnpackedFloat.normalize Format.binary64 k e .positive))) (k * 2 ^ e) := by
  unfold UnpackedFloat.normalize
  rcases lt_trichotomy k 0 with hneg | rfl | hpos
  · rw [compare_lt_iff_lt.mpr hneg]
    have hround := isNearest_round true (m := (-k).toNat) (by omega) e
    have hcast : (((-k).toNat : ℕ) : ℚ) = -k := by
      exact_mod_cast Int.toNat_of_nonneg (by omega : 0 ≤ -k)
    rw [hcast] at hround
    have hvalue : signFactor true * (-(k : ℚ) * 2 ^ e) = k * 2 ^ e := by
      show -1 * _ = _
      ring
    rw [← hvalue]
    exact hround
  · rw [Int.cast_zero, zero_mul]
    exact isNearest_pack_zero _
  · rw [compare_gt_iff_gt.mpr hpos]
    have hround := isNearest_round false (m := k.toNat) (by omega) e
    have hcast : ((k.toNat : ℕ) : ℚ) = k := by exact_mod_cast Int.toNat_of_nonneg hpos.le
    rw [hcast] at hround
    have hvalue : signFactor false * ((k : ℚ) * 2 ^ e) = k * 2 ^ e := one_mul _
    rw [← hvalue]
    exact hround

end Pagewright.Binary64
