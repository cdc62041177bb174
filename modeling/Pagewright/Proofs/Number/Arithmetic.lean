import Pagewright.Proofs.Number.Packing

/-!
# Exact values of sums, products and quotients

Each operation on finite doubles gives the double nearest to the exact result (`Binary64.isNearest_add`,
`isNearest_sub`, `isNearest_mul`, `isNearest_div`).
-/

namespace Pagewright.Binary64

open Float.Model Float.Model.UnpackedFloat

variable {e : ℤ} {m n : ℕ} {v w : Finite} {a b : Float}

theorem decode_pack_unpacked (hv : v.IsCanonical) :
    decode (Float.ofModel (.pack v.unpacked)) = .finite v := by
  obtain ⟨negative, m, e⟩ := v
  unfold Finite.unpacked
  dsimp only
  split
  · rename_i hzero
    obtain rfl : m = 0 := hzero
    obtain rfl : e = minExponent := hv.normal.resolve_left (twoTo_pos 52).not_ge
    exact decode_pack_zero negative
  · rename_i hpos
    have hbits := toNat_pack_finite negative (Nat.pos_of_ne_zero hpos) hv.mantissa_lt hv.le_exponent hv.normal
    rw [place, min_eq_left hv.bits_le] at hbits
    rw [← decodeBits_bits hv]
    exact congrArg decodeBits hbits

theorem isNearest_mul (ha : IsFinite a) (hb : IsFinite b) : IsNearest (a * b) (toRat a * toRat b) := by
  obtain ⟨v, ha⟩ := ha
  obtain ⟨w, hb⟩ := hb
  have hv := (bits_of_decode ha).1
  have hw := (bits_of_decode hb).1
  have hsign : signBit v.negative * signBit w.negative = signBit (v.negative != w.negative) := by
    cases v.negative <;> cases w.negative <;> rfl
  have hvalue : toRat a * toRat b = signFactor (v.negative != w.negative) * (v.magnitude * w.magnitude) := by
    rw [toRat_of_decode ha, toRat_of_decode hb, v.toRat_eq, w.toRat_eq]
    cases v.negative <;> cases w.negative <;> simp [signFactor]
  have hmul : a * b = Float.ofModel (.pack (UnpackedFloat.mul Format.binary64 v.unpacked w.unpacked)) := by
    rw [← unpack_of_decode ha, ← unpack_of_decode hb]
    rfl
  rw [hmul, hvalue]
  unfold Finite.unpacked
  by_cases hm : v.mantissa = 0
  · rw [v.magnitude_of_zero hm, zero_mul, mul_zero, dif_pos hm]
    split
    · exact isNearest_pack_zero _
    · exact isNearest_pack_zero _
  rw [dif_neg hm]
  by_cases hn : w.mantissa = 0
  · rw [w.magnitude_of_zero hn, mul_zero, mul_zero, dif_pos hn]
    exact isNearest_pack_zero _
  rw [dif_neg hn]
  show IsNearest (Float.ofModel (.pack (roundWithAccuracy _ (signBit v.negative * signBit w.negative) _ _ _))) _
  rw [hsign]
  refine isNearest_roundWithAccuracy _ (extends_exact ?_) ?_
  · unfold Finite.magnitude
    rw [zpow_add₀ two_ne_zero]
    push_cast
    field_simp
  · rcases hv.normal with hnormal | hmin
    · exact .inr (hnormal.trans (Nat.le_mul_of_pos_right _ (Nat.pos_of_ne_zero hn)))
    rcases hw.normal with hnormal | hmin'
    · exact .inr (hnormal.trans (Nat.le_mul_of_pos_left _ (Nat.pos_of_ne_zero hm)))
    · rw [hmin, hmin']
      exact .inl (by decide)

theorem isNearest_pack_unpacked (hv : v.IsCanonical) :
    IsNearest (Float.ofModel (.pack v.unpacked)) v.toRat := by
  have hdecode := decode_pack_unpacked hv
  exact toRat_of_decode hdecode ▸ isNearest_toRat ⟨v, hdecode⟩

/-- A finite value is a whole number of steps at any lower exponent. -/
theorem Finite.toRat_eq_apply (v : Finite) {e : ℤ} (he : e ≤ v.exponent) :
    v.toRat = ((signBit v.negative).apply (v.mantissa <<< (v.exponent - e).toNat : ℕ) : ℤ) * 2 ^ e := by
  have hexponent : (2 : ℚ) ^ v.exponent = 2 ^ (v.exponent - e).toNat * 2 ^ e := by
    rw [← zpow_natCast, ← zpow_add₀ two_ne_zero]
    congr 1
    omega
  rw [v.toRat_eq, Finite.magnitude, hexponent, Nat.shiftLeft_eq]
  cases v.negative
  · simp [signFactor, signBit, Sign.apply]
    ring
  · simp [signFactor, signBit, Sign.apply]
    ring

/-- Finite values are added at the lower of their exponents. -/
theorem isNearest_add_unpacked (hv : v.IsCanonical) (hw : w.IsCanonical) :
    IsNearest (Float.ofModel (.pack (UnpackedFloat.add Format.binary64 v.unpacked w.unpacked)))
      (v.toRat + w.toRat) := by
  have hzero {u : Finite} (hu : u.mantissa = 0) : u.unpacked = .zero (signBit u.negative) ∧ u.toRat = 0 :=
    ⟨dif_pos hu, by rw [u.toRat_eq, u.magnitude_of_zero hu, mul_zero]⟩
  have hfinite {u : Finite} (hu : u.mantissa ≠ 0) :
      u.unpacked = .finite (signBit u.negative) u.mantissa u.exponent (Nat.pos_of_ne_zero hu) := dif_neg hu
  by_cases hm : v.mantissa = 0
  · obtain ⟨hv0, hvalue⟩ := hzero hm
    rw [hvalue, zero_add]
    by_cases hn : w.mantissa = 0
    · obtain ⟨hw0, hvalue'⟩ := hzero hn
      rw [hv0, hw0, hvalue']
      show IsNearest (Float.ofModel (.pack (if _ then _ else _))) 0
      split
      · exact isNearest_pack_zero _
      · exact isNearest_pack_zero _
    · have hadd : UnpackedFloat.add Format.binary64 v.unpacked w.unpacked = w.unpacked := by
        rw [hv0, hfinite hn]
        rfl
      rw [hadd]
      exact isNearest_pack_unpacked hw
  · by_cases hn : w.mantissa = 0
    · obtain ⟨hw0, hvalue⟩ := hzero hn
      have hadd : UnpackedFloat.add Format.binary64 v.unpacked w.unpacked = v.unpacked := by
        rw [hfinite hm, hw0]
        rfl
      rw [hvalue, add_zero, hadd]
      exact isNearest_pack_unpacked hv
    · rw [hfinite hm, hfinite hn, v.toRat_eq_apply (min_le_left v.exponent w.exponent),
        w.toRat_eq_apply (min_le_right v.exponent w.exponent), ← add_mul, ← Int.cast_add]
      exact isNearest_normalize _ _

/-- A value with the other sign. -/
def Finite.neg (v : Finite) : Finite := { v with negative := !v.negative }

theorem Finite.IsCanonical.neg (hv : v.IsCanonical) : v.neg.IsCanonical :=
  ⟨hv.mantissa_lt, hv.le_exponent, hv.exponent_le, hv.normal⟩

theorem Finite.toRat_neg (v : Finite) : v.neg.toRat = -v.toRat := by
  rw [v.neg.toRat_eq, v.toRat_eq]
  show signFactor (!v.negative) * v.magnitude = _
  cases v.negative <;> simp [signFactor]

theorem Finite.unpacked_neg (v : Finite) : v.neg.unpacked = v.unpacked.neg := by
  have hsign : signBit v.neg.negative = -signBit v.negative := by
    show signBit (!v.negative) = _
    cases v.negative <;> rfl
  by_cases hm : v.mantissa = 0
  · have hv : v.unpacked = .zero (signBit v.negative) := dif_pos hm
    have hneg : v.neg.unpacked = .zero (signBit v.neg.negative) := dif_pos hm
    rw [hv, hneg, hsign]
    rfl
  · have hv : v.unpacked = .finite (signBit v.negative) v.mantissa v.exponent (Nat.pos_of_ne_zero hm) := dif_neg hm
    have hneg : v.neg.unpacked = .finite (signBit v.neg.negative) v.mantissa v.exponent (Nat.pos_of_ne_zero hm) :=
      dif_neg hm
    rw [hv, hneg, hsign]
    rfl

theorem unpacked_sub (u v : UnpackedFloat) :
    UnpackedFloat.sub Format.binary64 u v = UnpackedFloat.add Format.binary64 u v.neg := by
  have happly (sign : Sign) (n : ℕ) : (-sign).apply n = -sign.apply n := by
    cases sign
    · exact (neg_neg (n : ℤ)).symm
    · rfl
  rcases u with s | _ | s | ⟨s, m, e, hm⟩ <;> rcases v with s' | _ | s' | ⟨s', n, f, hn⟩
  case finite.finite =>
    show UnpackedFloat.normalize _ (s.apply _ - s'.apply _) _ _ =
      UnpackedFloat.normalize _ (s.apply _ + (-s').apply _) _ _
    rw [happly, sub_eq_add_neg]
  all_goals rfl

theorem isNearest_add (ha : IsFinite a) (hb : IsFinite b) : IsNearest (a + b) (toRat a + toRat b) := by
  obtain ⟨v, ha⟩ := ha
  obtain ⟨w, hb⟩ := hb
  have hadd := isNearest_add_unpacked (bits_of_decode ha).1 (bits_of_decode hb).1
  rw [← unpack_of_decode ha, ← unpack_of_decode hb] at hadd
  rw [toRat_of_decode ha, toRat_of_decode hb]
  exact hadd

theorem isNearest_sub (ha : IsFinite a) (hb : IsFinite b) : IsNearest (a - b) (toRat a - toRat b) := by
  obtain ⟨v, ha⟩ := ha
  obtain ⟨w, hb⟩ := hb
  have hadd := isNearest_add_unpacked (bits_of_decode ha).1 (bits_of_decode hb).1.neg
  rw [w.unpacked_neg, w.toRat_neg, ← unpack_of_decode ha, ← unpack_of_decode hb, ← unpacked_sub] at hadd
  rw [toRat_of_decode ha, toRat_of_decode hb, sub_eq_add_neg]
  exact hadd

/-- The accuracy of a division says where the quotient is between two whole numbers. -/
theorem extends_accuracyOfFraction (n : ℕ) {d : ℕ} (hd : 0 < d) :
    Extends (.ofMantissaAndAccuracy (n / d) (accuracyOfFraction (n % d) d)) ((n : ℚ) / d) := by
  have hd' : (0 : ℚ) < d := by exact_mod_cast hd
  have hdivision : (n : ℚ) / d = (n / d : ℕ) + ((n % d : ℕ) : ℚ) / d := by
    have : (n : ℚ) = d * (n / d : ℕ) + (n % d : ℕ) := by exact_mod_cast (Nat.div_add_mod n d).symm
    field_simp
    linarith
  have hrest : ((n % d : ℕ) : ℚ) < d := by exact_mod_cast Nat.mod_lt n hd
  rw [hdivision]
  generalize n % d = r at *
  generalize n / d = k
  unfold accuracyOfFraction
  by_cases hr : r = 0
  · rw [if_pos hr, hr, Nat.cast_zero, zero_div, add_zero]
    exact extends_exact rfl
  rw [if_neg hr]
  have hpos : (0 : ℚ) < r := by exact_mod_cast Nat.pos_of_ne_zero hr
  have hne : (r : ℚ) / d ≠ 0 := (div_pos hpos hd').ne'
  rcases lt_trichotomy (2 * r) d with hlt | heq | hgt
  · have hlt' : (2 : ℚ) * r < d := by exact_mod_cast hlt
    rw [compare_lt_iff_lt.mpr hlt]
    refine ⟨r / d, ?_, by positivity, ?_, iff_of_true rfl hne⟩
    · show (k : ℚ) + r / d = k + half false + r / d
      rw [half_false, add_zero]
    · rw [div_lt_div_iff₀ hd' two_pos]
      linarith
  · have heq' : (2 : ℚ) * r = d := by exact_mod_cast heq
    rw [compare_eq_iff_eq.mpr heq]
    refine ⟨0, ?_, le_rfl, by norm_num, iff_of_false Bool.false_ne_true (not_not.mpr rfl)⟩
    show (k : ℚ) + r / d = k + half true + 0
    rw [half_true, add_zero, add_right_inj, div_eq_div_iff hd'.ne' two_ne_zero]
    linarith
  · have hgt' : (d : ℚ) < 2 * r := by exact_mod_cast hgt
    have hhalf : (1 : ℚ) / 2 < r / d := by
      rw [div_lt_div_iff₀ two_pos hd']
      linarith
    have hone : (r : ℚ) / d < 1 := (div_lt_one hd').mpr hrest
    rw [compare_gt_iff_gt.mpr hgt]
    refine ⟨r / d - 1 / 2, ?_, by linarith, by linarith, iff_of_true rfl (by linarith)⟩
    show (k : ℚ) + r / d = k + half true + (r / d - 1 / 2)
    rw [half_true]
    ring

/-- Before a division the mantissa is shifted, so that the quotient has all bits or a low enough exponent. -/
theorem divCore_eq (hm : 0 < m) (hn : 0 < n) (e f : ℤ) :
    ∃ k : ℕ, divCore Format.binary64 m e n f =
        (m * 2 ^ k / n, e - f - k, accuracyOfFraction (m * 2 ^ k % n) n) ∧
      (e - f - k ≤ minExponent ∨ hidden ≤ m * 2 ^ k / n) := by
  obtain ⟨target, htarget⟩ : ∃ target, target = min (e - f) (max ((m.log2 : ℤ) + e - (n.log2 + f) - 53) minExponent) :=
    ⟨_, rfl⟩
  refine ⟨(e - f - target).toNat, ?_, ?_⟩
  · have hexponent : (Format.binary64.targetExponent (totalExponent m e - totalExponent n f)) =
        max ((m.log2 : ℤ) + e - (n.log2 + f) - 53) minExponent := by
      show max ((m.log2 : ℤ) + 1 + e - (n.log2 + 1 + f) - 53) (-1074) = _
      congr 1
      omega
    unfold divCore
    dsimp only
    rw [hexponent, ← htarget, Nat.shiftLeft_eq]
    congr 2
    omega
  · refine or_iff_not_imp_left.mpr fun hlarge => ?_
    have hbits : 52 + (n.log2 + 1) ≤ m.log2 + (e - f - target).toNat := by omega
    rw [Nat.le_div_iff_mul_le hn]
    calc hidden * n ≤ 2 ^ 52 * 2 ^ (n.log2 + 1) := Nat.mul_le_mul_left _ Nat.lt_log2_self.le
      _ = 2 ^ (52 + (n.log2 + 1)) := (Nat.pow_add ..).symm
      _ ≤ 2 ^ (m.log2 + (e - f - target).toNat) := Nat.pow_le_pow_right (by decide) hbits
      _ = 2 ^ m.log2 * 2 ^ (e - f - target).toNat := Nat.pow_add ..
      _ ≤ m * 2 ^ (e - f - target).toNat := Nat.mul_le_mul_right _ (Nat.log2_self_le hm.ne')

theorem isNearest_div (ha : IsFinite a) (hb : IsFinite b) (hne : toRat b ≠ 0) :
    IsNearest (a / b) (toRat a / toRat b) := by
  obtain ⟨v, ha⟩ := ha
  obtain ⟨w, hb⟩ := hb
  have hsign : signBit v.negative / signBit w.negative = signBit (v.negative != w.negative) := by
    cases v.negative <;> cases w.negative <;> rfl
  have hvalue : toRat a / toRat b = signFactor (v.negative != w.negative) * (v.magnitude / w.magnitude) := by
    rw [toRat_of_decode ha, toRat_of_decode hb, v.toRat_eq, w.toRat_eq]
    cases v.negative <;> cases w.negative <;> simp [signFactor, div_neg, neg_div]
  have hdiv : a / b = Float.ofModel (.pack (UnpackedFloat.div Format.binary64 v.unpacked w.unpacked)) := by
    rw [← unpack_of_decode ha, ← unpack_of_decode hb]
    rfl
  have hn : w.mantissa ≠ 0 := by
    intro hn
    rw [toRat_of_decode hb, w.toRat_eq, w.magnitude_of_zero hn, mul_zero] at hne
    exact hne rfl
  rw [hdiv, hvalue]
  unfold Finite.unpacked
  rw [dif_neg hn]
  by_cases hm : v.mantissa = 0
  · rw [v.magnitude_of_zero hm, zero_div, mul_zero, dif_pos hm]
    exact isNearest_pack_zero _
  rw [dif_neg hm]
  obtain ⟨k, hcore, hready⟩ :=
    divCore_eq (Nat.pos_of_ne_zero hm) (Nat.pos_of_ne_zero hn) v.exponent w.exponent
  unfold UnpackedFloat.div
  dsimp only
  rw [hcore, hsign]
  refine isNearest_roundWithAccuracy _ ?_ hready
  have hextends := extends_accuracyOfFraction (v.mantissa * 2 ^ k) (Nat.pos_of_ne_zero hn)
  have hexact : v.magnitude / w.magnitude / 2 ^ (v.exponent - w.exponent - k) =
      ((v.mantissa * 2 ^ k : ℕ) : ℚ) / w.mantissa := by
    unfold Finite.magnitude
    rw [zpow_sub₀ two_ne_zero, zpow_sub₀ two_ne_zero, zpow_natCast]
    have hw : (w.mantissa : ℚ) ≠ 0 := by exact_mod_cast hn
    push_cast
    field_simp
  rwa [hexact]

end Pagewright.Binary64
