import Pagewright.Proofs.Number.Arithmetic

/-!
# Bounds on rounded results

Powers of two are doubles, so a result that is rounded keeps within powers of two that bound it
(`Binary64.IsNearest.abs_le_two_zpow`, `Binary64.IsNearest.two_zpow_le`) and does not become infinite; for the
operations see `Binary64.IsWithin`. Between the values of neighbouring doubles there is none (`Binary64.le_pred_of_lt`).
-/

namespace Pagewright.Binary64

variable {x y : Float} {v : Finite} {q : ℚ} {j k e : ℤ} {m : ℕ}

theorem toRat_of_decode_positive (h : decode x = .finite ⟨false, m, e⟩) : toRat x = m * 2 ^ e := toRat_of_decode h

theorem Finite.IsCanonical.magnitude_lt_limit (hv : v.IsCanonical) : v.magnitude < limit := by
  have hmantissa : (v.mantissa : ℚ) + 1 ≤ 2 * hidden := by exact_mod_cast hv.mantissa_lt
  rw [cast_limit]
  calc v.magnitude ≤ v.mantissa * 2 ^ (971 : ℤ) :=
        mul_le_mul_of_nonneg_left (zpow_le_zpow_right₀ one_le_two hv.exponent_le) (Nat.cast_nonneg _)
    _ < (2 * hidden - 1 / 2) * 2 ^ (971 : ℤ) := mul_lt_mul_of_pos_right (by linarith) (by positivity)

theorem Finite.IsCanonical.exists_toRat_eq (hv : v.IsCanonical) : ∃ y, IsFinite y ∧ Binary64.toRat y = v.toRat := by
  have hrounded := hv.isRoundedAt
  have hlt := hv.magnitude_lt_limit
  rw [← v.cast_ratio] at hrounded hlt
  obtain ⟨w, hw, hnegative, hmagnitude⟩ := exists_decode_ofRatio v.negative v.ratio_pos hrounded hlt
  refine ⟨_, ⟨w, hw⟩, ?_⟩
  rw [toRat_of_decode hw, w.toRat_eq, v.toRat_eq, hnegative, hmagnitude]
  rfl

theorem exists_toRat_eq_two_zpow (negative : Bool) (hk : minExponent ≤ k) (hk' : k < 1024) :
    ∃ y, IsFinite y ∧ toRat y = signFactor negative * 2 ^ k := by
  have hmin : minExponent = -1074 := rfl
  have hhidden : hidden = 2 ^ 52 := rfl
  rcases lt_or_ge k (minExponent + 52) with hlow | hhigh
  · obtain ⟨n, rfl⟩ : ∃ n : ℕ, k = minExponent + n := ⟨(k - minExponent).toNat, by omega⟩
    have hpower : 2 ^ n < 2 * hidden := by
      rw [hhidden, ← pow_succ']
      exact Nat.pow_lt_pow_right (by decide) (by omega)
    have hv : Finite.IsCanonical ⟨negative, 2 ^ n, minExponent⟩ :=
      ⟨hpower, le_rfl, show minExponent ≤ 971 by decide, .inr rfl⟩
    obtain ⟨y, hy, hvalue⟩ := hv.exists_toRat_eq
    refine ⟨y, hy, ?_⟩
    rw [hvalue, Finite.toRat_eq, Finite.magnitude, zpow_add₀ two_ne_zero, zpow_natCast, Nat.cast_pow, Nat.cast_ofNat,
      mul_comm (2 ^ n : ℚ)]
  · have hv : Finite.IsCanonical ⟨negative, hidden, k - 52⟩ :=
      ⟨lt_two_mul_self (twoTo_pos 52), by dsimp only; omega, by dsimp only; omega, .inl le_rfl⟩
    obtain ⟨y, hy, hvalue⟩ := hv.exists_toRat_eq
    refine ⟨y, hy, ?_⟩
    rw [hvalue, Finite.toRat_eq, Finite.magnitude, hidden_mul_zpow, sub_add_cancel]

namespace IsNearest

theorem abs_le_two_zpow (hx : IsNearest x q) (hk : minExponent ≤ k) (hk' : k < 1024) (hq : |q| ≤ 2 ^ k) :
    IsFinite x ∧ |toRat x| ≤ 2 ^ k := by
  obtain ⟨y, hy, hyk⟩ := exists_toRat_eq_two_zpow false hk hk'
  obtain ⟨z, hz, hzk⟩ := exists_toRat_eq_two_zpow true hk hk'
  rw [signFactor, if_neg Bool.false_ne_true, one_mul] at hyk
  rw [signFactor, if_pos rfl, neg_one_mul] at hzk
  obtain ⟨hlow, hhigh⟩ := abs_le.mp hq
  have hlimit := hy.abs_lt
  rw [hyk, abs_of_pos (by positivity)] at hlimit
  have hfinite := hx.isFinite_iff.mpr (hq.trans_lt hlimit)
  refine ⟨hfinite, abs_le.mpr ⟨?_, ?_⟩⟩
  · rw [← hzk]
    exact (isNearest_toRat hz).toRat_le hx hz hfinite (hzk.trans_le hlow)
  · rw [← hyk]
    exact hx.toRat_le (isNearest_toRat hy) hfinite hy (hhigh.trans_eq hyk.symm)

theorem two_zpow_le (hx : IsNearest x q) (hfinite : IsFinite x) (hk : minExponent ≤ k) (hk' : k < 1024)
    (hq : 2 ^ k ≤ q) : 2 ^ k ≤ toRat x := by
  obtain ⟨y, hy, hyk⟩ := exists_toRat_eq_two_zpow false hk hk'
  rw [signFactor, if_neg Bool.false_ne_true, one_mul] at hyk
  rw [← hyk]
  exact (isNearest_toRat hy).toRat_le hx hy hfinite (hyk.trans_le hq)

theorem toRat_nonneg (hx : IsNearest x q) (hfinite : IsFinite x) (hq : 0 ≤ q) : 0 ≤ toRat x := by
  obtain ⟨e, m, -, hvalue⟩ := hx.exists_toRat_eq hfinite
  rw [hvalue, signFactor, if_neg (by simpa using hq), one_mul]
  positivity

theorem toRat_pos (hx : IsNearest x q) (hfinite : IsFinite x) (hq : 2 ^ minExponent / 2 < q) : 0 < toRat x := by
  have hpos : 0 < q := lt_trans (by positivity) hq
  obtain ⟨e, m, hrounded, hvalue⟩ := hx.exists_toRat_eq hfinite
  rw [abs_of_pos hpos] at hrounded
  have hm : 0 < m := by
    by_cases he : e = minExponent
    · have hhigh := hrounded.nearest.high
      rw [he, div_le_iff₀ (by positivity)] at hhigh
      by_contra! hzero
      obtain rfl := Nat.le_zero.mp hzero
      rw [Nat.cast_zero, zero_add] at hhigh
      linarith
    · exact (twoTo_pos 52).trans_le (hrounded.hidden_le he)
  rw [hvalue, signFactor, if_neg (by simpa using hpos.le), one_mul]
  have hm' : (0 : ℚ) < m := by exact_mod_cast hm
  positivity

end IsNearest

theorem IsFinite.two_zpow_minExponent_le (hx : IsFinite x) (hpos : 0 < toRat x) : 2 ^ minExponent ≤ toRat x := by
  obtain ⟨v, hx⟩ := hx
  obtain ⟨hv, -⟩ := bits_of_decode hx
  rw [toRat_of_decode hx] at hpos ⊢
  have hm : v.mantissa ≠ 0 := by
    intro hzero
    rw [v.toRat_eq, v.magnitude_of_zero hzero, mul_zero] at hpos
    exact lt_irrefl _ hpos
  rw [← abs_of_pos hpos, v.abs_toRat]
  calc (2 : ℚ) ^ minExponent ≤ 2 ^ v.exponent := zpow_le_zpow_right₀ one_le_two hv.le_exponent
    _ ≤ v.mantissa * 2 ^ v.exponent := le_mul_of_one_le_left (by positivity) (by exact_mod_cast Nat.pos_of_ne_zero hm)

/-! ## Operations within bounds -/

/-- A finite double of at most a power of two, of either sign. -/
structure IsWithin (k : ℤ) (x : Float) : Prop where
  isFinite : IsFinite x
  abs_le : |toRat x| ≤ 2 ^ k

namespace IsWithin

theorem of_decode (h : decode x = .finite ⟨false, m, e⟩) (hm : (m : ℚ) * 2 ^ e ≤ 2 ^ k) : IsWithin k x := by
  refine ⟨⟨_, h⟩, ?_⟩
  rw [toRat_of_decode_positive h, abs_of_nonneg (by positivity)]
  exact hm

theorem mono (hx : IsWithin j x) (hjk : j ≤ k) : IsWithin k x :=
  ⟨hx.isFinite, hx.abs_le.trans (zpow_le_zpow_right₀ one_le_two hjk)⟩

theorem of_isNearest (hx : IsNearest x q) (hk : minExponent ≤ k) (hk' : k < 1024) (hq : |q| ≤ 2 ^ k) : IsWithin k x :=
  let ⟨hfinite, hle⟩ := hx.abs_le_two_zpow hk hk' hq
  ⟨hfinite, hle⟩

theorem mul (hx : IsWithin j x) (hy : IsWithin k y) (hmin : minExponent ≤ j + k) (hmax : j + k < 1024) :
    IsWithin (j + k) (x * y) := by
  refine of_isNearest (isNearest_mul hx.isFinite hy.isFinite) hmin hmax ?_
  rw [abs_mul, zpow_add₀ two_ne_zero]
  exact mul_le_mul hx.abs_le hy.abs_le (abs_nonneg _) (by positivity)

theorem add (hx : IsWithin k x) (hy : IsWithin k y) (hmin : minExponent ≤ k) (hmax : k + 1 < 1024) :
    IsWithin (k + 1) (x + y) := by
  refine of_isNearest (isNearest_add hx.isFinite hy.isFinite) (by omega) hmax ?_
  rw [zpow_add_one₀ two_ne_zero, mul_two]
  exact (abs_add_le _ _).trans (add_le_add hx.abs_le hy.abs_le)

theorem sub (hx : IsWithin k x) (hy : IsWithin k y) (hmin : minExponent ≤ k) (hmax : k + 1 < 1024) :
    IsWithin (k + 1) (x - y) := by
  refine of_isNearest (isNearest_sub hx.isFinite hy.isFinite) (by omega) hmax ?_
  rw [zpow_add_one₀ two_ne_zero, mul_two]
  exact (abs_sub _ _).trans (add_le_add hx.abs_le hy.abs_le)

theorem div (hx : IsWithin j x) (hy : IsFinite y) (hlow : 2 ^ k ≤ toRat y) (hmin : minExponent ≤ j - k)
    (hmax : j - k < 1024) : IsWithin (j - k) (x / y) := by
  have hpower : (0 : ℚ) < 2 ^ k := by positivity
  have hpos := hpower.trans_le hlow
  refine of_isNearest (isNearest_div hx.isFinite hy hpos.ne') hmin hmax ?_
  rw [abs_div, abs_of_pos hpos, zpow_sub₀ two_ne_zero]
  exact div_le_div₀ (by positivity) hx.abs_le hpower hlow

end IsWithin

/-! ## Neighbouring doubles -/

/-- No double is between two whose mantissas of 53 bits differ by one. -/
theorem le_pred_of_lt (hx : IsFinite x) (hm : hidden < m) (h : toRat x < m * 2 ^ e) : toRat x ≤ (m - 1) * 2 ^ e := by
  have hm' : (hidden : ℚ) + 1 ≤ m := by exact_mod_cast hm
  obtain ⟨v, hx⟩ := hx
  obtain ⟨hv, -⟩ := bits_of_decode hx
  rw [toRat_of_decode hx] at h ⊢
  rcases lt_or_ge v.exponent e with hlt | hge
  · -- the mantissa of `x` has no bit as high as that of `hidden`
    have hbelow : v.magnitude ≤ hidden * 2 ^ e := by
      calc v.magnitude ≤ 2 * hidden * 2 ^ v.exponent :=
            mul_le_mul_of_nonneg_right (by exact_mod_cast hv.mantissa_lt.le) (by positivity)
        _ = 2 ^ (v.exponent + 53) := two_mul_hidden_mul_zpow _
        _ ≤ 2 ^ (e + 52) := zpow_le_zpow_right₀ one_le_two (by omega)
        _ = hidden * 2 ^ e := (hidden_mul_zpow e).symm
    have habove : (hidden : ℚ) * 2 ^ e ≤ (m - 1) * 2 ^ e :=
      mul_le_mul_of_nonneg_right (by linarith) (by positivity)
    exact (le_abs_self _).trans ((v.abs_toRat.trans_le hbelow).trans habove)
  · -- `x` is a multiple of the last place of `m`
    rw [v.toRat_eq_apply hge] at h ⊢
    generalize (signBit v.negative).apply (v.mantissa <<< (v.exponent - e).toNat : ℕ) = j at h ⊢
    have hpower : (0 : ℚ) < 2 ^ e := by positivity
    have hj : j < m := by exact_mod_cast lt_of_mul_lt_mul_right h hpower.le
    have hj : (j : ℚ) ≤ m - 1 := by exact_mod_cast Int.le_sub_one_of_lt hj
    exact mul_le_mul_of_nonneg_right hj hpower.le

end Pagewright.Binary64
