import Pagewright.Number.Decimal
import Pagewright.Proofs.Number.Rounding

/-!
# The shortest decimal of a double

`Decimal.shortest` looks for a point of a decimal grid in the interval of a double, with one digit, with two and so
on. A point that it takes is in the interval (`isInside_iff`). With seventeen digits there is one: the grid is then
finer than the interval is wide, and in the short interval below a power of two finer than the half above
(`owns_of_fine`). That needs the order of magnitude of the double, of which the logarithm to base two is a good
enough guess (`ten_zpow_le`).

So the decimal of a positive double is always in its interval (`owns_shortest`), and reads back as the double.
-/

namespace Pagewright

theorem tenTo_pos (n : ℕ) : 0 < tenTo n := Nat.pow_pos (by decide)

theorem cast_tenTo_div (e : ℤ) : (tenTo e.toNat : ℚ) / tenTo (-e).toNat = 10 ^ e := by
  unfold tenTo
  obtain ⟨n, rfl | rfl⟩ := e.eq_nat_or_neg
  · simp
  · simp

namespace Decimal

open Binary64 (minExponent)

/-- The fraction that a decimal stands for. -/
def value (x : Decimal) : ℚ := x.coefficient * 10 ^ x.exponent

/-! ## Points of a grid -/

/-- Whether `k` steps of the grid `10^p` are in the interval of the double `m · 2^q`. -/
def isInside (m : ℕ) (q p : ℤ) (k : ℕ) : Bool :=
  let low := if m = Binary64.hidden ∧ q > minExponent then 4 * m - 1 else 4 * m - 2
  let a := twoTo (q - 2).toNat * tenTo (-p).toNat
  let b := twoTo (2 - q).toNat * tenTo p.toNat
  if m % 2 = 0 then low * a ≤ k * b ∧ k * b ≤ (4 * m + 2) * a
  else low * a < k * b ∧ k * b < (4 * m + 2) * a

/-- The last point of the grid `10^p` that is not above the double `m · 2^q`. -/
def pointBelow (m : ℕ) (q p : ℤ) : ℕ :=
  4 * m * (twoTo (q - 2).toNat * tenTo (-p).toNat) / (twoTo (2 - q).toNat * tenTo p.toNat)

variable {m n k : ℕ} {q p d : ℤ} {x : Decimal}

theorem onGrid?_eq (m : ℕ) (q d : ℤ) (n : ℕ) : ∃ nearer : ℕ,
    (nearer = pointBelow m q (d - n + 1) ∨ nearer = pointBelow m q (d - n + 1) + 1) ∧
    onGrid? m q d n =
      match isInside m q (d - n + 1) (pointBelow m q (d - n + 1)),
        isInside m q (d - n + 1) (pointBelow m q (d - n + 1) + 1) with
      | true, true => some ⟨nearer, d - n + 1⟩
      | true, false => some ⟨pointBelow m q (d - n + 1), d - n + 1⟩
      | false, true => some ⟨pointBelow m q (d - n + 1) + 1, d - n + 1⟩
      | false, false => none := by
  refine ⟨_, ?_, rfl⟩
  split_ifs
  all_goals first | exact .inl rfl | exact .inr rfl

theorem exists_isInside_of_onGrid? (h : onGrid? m q d n = some x) :
    ∃ k, x = ⟨k, d - n + 1⟩ ∧ isInside m q (d - n + 1) k = true := by
  obtain ⟨nearer, hnearer, heq⟩ := onGrid?_eq m q d n
  rw [heq] at h
  split at h
  · rename_i hbelow habove
    refine ⟨nearer, (Option.some.inj h).symm, ?_⟩
    rcases hnearer with rfl | rfl
    · exact hbelow
    · exact habove
  · rename_i hbelow _
    exact ⟨_, (Option.some.inj h).symm, hbelow⟩
  · rename_i _ habove
    exact ⟨_, (Option.some.inj h).symm, habove⟩
  · cases h

/-- A point is taken if that below the double or that above is inside. -/
theorem exists_onGrid? (h : isInside m q (d - n + 1) (pointBelow m q (d - n + 1)) = true ∨
    isInside m q (d - n + 1) (pointBelow m q (d - n + 1) + 1) = true) : ∃ x, onGrid? m q d n = some x := by
  obtain ⟨nearer, -, heq⟩ := onGrid?_eq m q d n
  rw [heq]
  split
  · exact ⟨_, rfl⟩
  · exact ⟨_, rfl⟩
  · exact ⟨_, rfl⟩
  · rename_i hbelow habove
    rw [hbelow, habove] at h
    simp at h

/-- Points of the grid and quarters of a unit of the double are whole numbers on one scale. -/
theorem exists_scale (q p : ℤ) : ∃ c : ℚ, 0 < c ∧
    (∀ k : ℕ, ((k * (twoTo (2 - q).toNat * tenTo p.toNat) : ℕ) : ℚ) = c * (k * 10 ^ p)) ∧
    ∀ l : ℕ, ((l * (twoTo (q - 2).toNat * tenTo (-p).toNat) : ℕ) : ℚ) = c * (l / 4 * 2 ^ q) := by
  have htwo := Binary64.cast_twoTo_div (q - 2)
  have hten := cast_tenTo_div p
  have hneg : -(q - 2) = 2 - q := by ring
  have h2 : (0 : ℚ) < twoTo (2 - q).toNat := by exact_mod_cast Binary64.twoTo_pos _
  have h10 : (0 : ℚ) < tenTo (-p).toNat := by exact_mod_cast tenTo_pos _
  rw [hneg, zpow_sub₀ two_ne_zero, div_eq_iff h2.ne'] at htwo
  rw [div_eq_iff h10.ne'] at hten
  refine ⟨twoTo (2 - q).toNat * tenTo (-p).toNat, by positivity, fun k => ?_, fun l => ?_⟩
  · push_cast
    rw [hten]
    ring
  · push_cast
    rw [htwo]
    ring

theorem quarters_le_iff (l k : ℕ) (q p : ℤ) :
    l * (twoTo (q - 2).toNat * tenTo (-p).toNat) ≤ k * (twoTo (2 - q).toNat * tenTo p.toNat) ↔
      (l : ℚ) / 4 * 2 ^ q ≤ k * 10 ^ p := by
  obtain ⟨c, hc, hgrid, hdouble⟩ := exists_scale q p
  rw [← Nat.cast_le (α := ℚ), hgrid, hdouble, mul_le_mul_iff_of_pos_left hc]

theorem le_quarters_iff (l k : ℕ) (q p : ℤ) :
    k * (twoTo (2 - q).toNat * tenTo p.toNat) ≤ l * (twoTo (q - 2).toNat * tenTo (-p).toNat) ↔
      (k : ℚ) * 10 ^ p ≤ l / 4 * 2 ^ q := by
  obtain ⟨c, hc, hgrid, hdouble⟩ := exists_scale q p
  rw [← Nat.cast_le (α := ℚ), hgrid, hdouble, mul_le_mul_iff_of_pos_left hc]

/-- Being inside is being owned by the double. -/
theorem isInside_iff {v : Binary64.Finite} (hm : 0 < v.mantissa) :
    isInside v.mantissa v.exponent p k = true ↔ v.Owns (k * 10 ^ p) := by
  have hlow : (((if v.mantissa = Binary64.hidden ∧ v.exponent > minExponent then 4 * v.mantissa - 1
      else 4 * v.mantissa - 2 : ℕ) : ℚ)) / 4 =
      v.mantissa - if v.mantissa = Binary64.hidden ∧ minExponent < v.exponent then 1 / 4 else 1 / 2 := by
    split
    · rw [Nat.cast_sub (by omega)]
      push_cast
      ring
    · rw [Nat.cast_sub (by omega)]
      push_cast
      ring
  have hhigh : ((4 * v.mantissa + 2 : ℕ) : ℚ) / 4 = v.mantissa + 1 / 2 := by
    push_cast
    ring
  unfold isInside
  dsimp only
  split
  · rename_i heven
    rw [decide_eq_true_iff, quarters_le_iff, le_quarters_iff, hlow, hhigh]
    exact ⟨fun ⟨hl, hh⟩ => ⟨hl, hh, fun hodd => by omega⟩, fun h => ⟨h.low, h.high⟩⟩
  · rename_i hodd
    have hpower : ¬(v.mantissa = Binary64.hidden ∧ minExponent < v.exponent) := fun h => hodd (by rw [h.1]; rfl)
    rw [decide_eq_true_iff, ← not_le, ← not_le, quarters_le_iff, le_quarters_iff, hlow, hhigh, not_le, not_le,
      if_neg hpower]
    refine ⟨fun ⟨hl, hh⟩ => ⟨?_, hh.le, fun _ => ⟨hl, hh⟩⟩, fun h => h.odd (by omega)⟩
    rw [if_neg hpower]
    exact hl.le

theorem pointBelow_spec (m : ℕ) (q p : ℤ) :
    (pointBelow m q p : ℚ) * 10 ^ p ≤ m * 2 ^ q ∧ (m : ℚ) * 2 ^ q < (pointBelow m q p + 1) * 10 ^ p := by
  have hb : 0 < twoTo (2 - q).toNat * tenTo p.toNat := Nat.mul_pos (Binary64.twoTo_pos _) (tenTo_pos _)
  have hm : ((4 * m : ℕ) : ℚ) / 4 = m := by
    push_cast
    ring
  have hbelow := (le_quarters_iff (4 * m) (pointBelow m q p) q p).mp (Nat.div_mul_le_self _ _)
  have habove := mt (le_quarters_iff (4 * m) (pointBelow m q p + 1) q p).mpr
    (not_le_of_gt (Nat.lt_mul_of_div_lt (Nat.lt_succ_self _) hb))
  rw [hm] at hbelow habove
  push_cast at habove
  exact ⟨hbelow, not_le.mp habove⟩

/-- One of the points next to a double is in its interval if the grid is fine enough: no step is longer than the
ten-thousand-billionth part of the double. -/
theorem owns_of_fine {v : Binary64.Finite} (hv : v.IsCanonical)
    (hfine : (10 : ℚ) ^ p * 10 ^ 16 ≤ v.mantissa * 2 ^ v.exponent) :
    v.Owns (pointBelow v.mantissa v.exponent p * 10 ^ p) ∨
      v.Owns ((pointBelow v.mantissa v.exponent p + 1 : ℕ) * 10 ^ p) := by
  obtain ⟨hbelow, habove⟩ := pointBelow_spec v.mantissa v.exponent p
  have hstep : ((pointBelow v.mantissa v.exponent p + 1 : ℕ) : ℚ) * 10 ^ p =
      pointBelow v.mantissa v.exponent p * 10 ^ p + 10 ^ p := by
    push_cast
    ring
  have hnext : (v.mantissa : ℚ) * 2 ^ v.exponent < pointBelow v.mantissa v.exponent p * 10 ^ p + 10 ^ p := by
    rw [← hstep]
    exact_mod_cast habove
  have hu : (0 : ℚ) < 2 ^ v.exponent := by positivity
  have hhidden : (Binary64.hidden : ℚ) = 4503599627370496 := by norm_num [Binary64.hidden, twoTo]
  have hmax : (v.mantissa : ℚ) + 1 ≤ 2 * Binary64.hidden := by exact_mod_cast hv.mantissa_lt
  rw [hstep]
  generalize (pointBelow v.mantissa v.exponent p : ℚ) * 10 ^ p = point at *
  generalize (10 : ℚ) ^ p = g at *
  by_cases hpower : v.mantissa = Binary64.hidden ∧ minExponent < v.exponent
  · have hm : (v.mantissa : ℚ) = Binary64.hidden := by exact_mod_cast hpower.1
    refine .inr ⟨?_, ?_, fun hodd => absurd hodd (by rw [hpower.1]; decide)⟩
    · rw [if_pos hpower]
      nlinarith
    · have hfine' : g * 10 ^ 16 ≤ 4503599627370496 * 2 ^ v.exponent := by
        rwa [← hhidden, ← hm]
      linarith
  · have hfine' : g * 10 ^ 16 ≤ 9007199254740991 * 2 ^ v.exponent :=
      hfine.trans (mul_le_mul_of_nonneg_right (by linarith) hu.le)
    by_cases hnear : point + g < (v.mantissa + 1 / 2) * 2 ^ v.exponent
    · have hlow : ((v.mantissa : ℚ) - 1 / 2) * 2 ^ v.exponent < point + g := by linarith
      exact .inr ⟨by rw [if_neg hpower]; exact hlow.le, hnear.le, fun _ => ⟨hlow, hnear⟩⟩
    · have hlow : ((v.mantissa : ℚ) - 1 / 2) * 2 ^ v.exponent < point := by linarith
      have hhigh : point < (v.mantissa + 1 / 2) * 2 ^ v.exponent := by linarith
      exact .inl ⟨by rw [if_neg hpower]; exact hlow.le, hhigh.le, fun _ => ⟨hlow, hhigh⟩⟩

/-! ## The order of magnitude -/

/-- A power of ten is less than the power of two whose logarithm it is guessed from, and not by much more than two
digits. -/
theorem ten_zpow_le {g l : ℤ} (h : 100000 * g ≤ 30103 * l) (hlow : -1100 ≤ l) (hhigh : l ≤ 1100) :
    (10 : ℚ) ^ (g - 2) ≤ 2 ^ (l - 1) := by
  -- Ten is taken to be below `2^(10/3)` where the exponent is positive, and above `2^(93/28)` where it is negative.
  rcases le_or_gt 0 (g - 2) with hpos | hneg
  · refine le_of_pow_le_pow_left₀ (n := 3) (by decide) (by positivity) ?_
    calc ((10 : ℚ) ^ (g - 2)) ^ 3 = (10 ^ 3) ^ (g - 2) := by rw [← zpow_natCast, zpow_comm, zpow_natCast]
      _ ≤ (2 ^ 10) ^ (g - 2) := zpow_le_zpow_left₀ hpos (by norm_num) (by norm_num)
      _ = 2 ^ (10 * (g - 2)) := by rw [← zpow_natCast, ← zpow_mul]; rfl
      _ ≤ 2 ^ ((l - 1) * 3) := zpow_le_zpow_right₀ one_le_two (by omega)
      _ = (2 ^ (l - 1)) ^ 3 := by rw [zpow_mul]; rfl
  · refine le_of_pow_le_pow_left₀ (n := 28) (by decide) (by positivity) ?_
    calc ((10 : ℚ) ^ (g - 2)) ^ 28 = (10 ^ 28) ^ (g - 2) := by rw [← zpow_natCast, zpow_comm, zpow_natCast]
      _ ≤ (2 ^ 93) ^ (g - 2) := by
        have hpowers : ((2 : ℚ) ^ 93) ^ (-(g - 2)) ≤ (10 ^ 28) ^ (-(g - 2)) :=
          zpow_le_zpow_left₀ (by omega) (by norm_num) (by norm_num)
        rw [zpow_neg, zpow_neg] at hpowers
        exact (inv_le_inv₀ (by positivity) (by positivity)).mp hpowers
      _ = 2 ^ (93 * (g - 2)) := by rw [← zpow_natCast, ← zpow_mul]; rfl
      _ ≤ 2 ^ ((l - 1) * 28) := zpow_le_zpow_right₀ one_le_two (by omega)
      _ = (2 ^ (l - 1)) ^ 28 := by rw [zpow_mul]; rfl

theorem magnitude_le {num den : ℕ} (hnum : 0 < num) (hden : 0 < den) (hlow : -1100 ≤ (num.log2 : ℤ) - den.log2)
    (hhigh : (num.log2 : ℤ) - den.log2 ≤ 1100) : (10 : ℚ) ^ magnitude num den ≤ num / den := by
  have hreaches (d : ℤ) : den * tenTo d.toNat ≤ num * tenTo (-d).toNat ↔ (10 : ℚ) ^ d ≤ num / den := by
    have h10 : (0 : ℚ) < tenTo (-d).toNat := by exact_mod_cast tenTo_pos _
    have hden' : (0 : ℚ) < den := by exact_mod_cast hden
    rw [← cast_tenTo_div, div_le_div_iff₀ h10 hden', mul_comm (den : ℕ)]
    exact_mod_cast Iff.rfl
  unfold magnitude
  dsimp only
  simp only [decide_eq_true_eq, hreaches]
  split_ifs with h₁ h₂ h₃
  · exact h₁
  · exact h₂
  · exact h₃
  · refine (ten_zpow_le ?_ hlow hhigh).trans (Binary64.log2_bounds hnum hden).1.le
    have := Int.mul_fdiv_add_fmod (((num.log2 : ℤ) - den.log2) * 30103) 100000
    have := Int.fmod_nonneg_of_pos (((num.log2 : ℤ) - den.log2) * 30103) (b := 100000) (by decide)
    omega

theorem magnitude_le_of_isCanonical {v : Binary64.Finite} (hv : v.IsCanonical) (hm : 0 < v.mantissa) :
    (10 : ℚ) ^ magnitude (v.mantissa * twoTo v.exponent.toNat) (twoTo (-v.exponent).toNat) ≤
      v.mantissa * 2 ^ v.exponent := by
  have hvalue : ((v.mantissa * twoTo v.exponent.toNat : ℕ) : ℚ) / (twoTo (-v.exponent).toNat : ℕ) =
      v.mantissa * 2 ^ v.exponent := by
    rw [Nat.cast_mul, mul_div_assoc, Binary64.cast_twoTo_div]
  have hmin : minExponent = -1074 := rfl
  have hle := hv.le_exponent
  have hge := hv.exponent_le
  have hden : (twoTo (-v.exponent).toNat).log2 = (-v.exponent).toNat := Nat.log2_two_pow
  have hnum : (v.mantissa * twoTo v.exponent.toNat).log2 < 1024 := by
    refine (Nat.log2_lt (Nat.mul_pos hm (Binary64.twoTo_pos _)).ne').mpr ?_
    calc v.mantissa * twoTo v.exponent.toNat < 2 ^ 53 * twoTo v.exponent.toNat :=
          Nat.mul_lt_mul_of_pos_right hv.mantissa_lt (Binary64.twoTo_pos _)
      _ = 2 ^ (53 + v.exponent.toNat) := (pow_add 2 53 v.exponent.toNat).symm
      _ ≤ 2 ^ 1024 := Nat.pow_le_pow_right (by decide) (by omega)
  rw [← hvalue]
  exact magnitude_le (Nat.mul_pos hm (Binary64.twoTo_pos _)) (Binary64.twoTo_pos _) (by omega) (by omega)

/-! ## The shortest decimal -/

theorem value_stripZeros (fuel : ℕ) (x : Decimal) : (stripZeros fuel x).value = x.value := by
  induction fuel generalizing x with
  | zero => rfl
  | succ fuel ih =>
    rw [stripZeros]
    split
    · rename_i h
      have hten : ((x.coefficient / 10 : ℕ) : ℚ) * 10 = x.coefficient := by exact_mod_cast (by omega)
      rw [ih, value, value, zpow_add_one₀ (by norm_num), mul_comm _ (10 : ℚ), ← mul_assoc, hten]
    · rfl

theorem value_normalize (x : Decimal) : x.normalize.value = x.value := value_stripZeros _ x

/-- The decimal of a positive double is in its interval. -/
theorem owns_shortest {v : Binary64.Finite} (hv : v.IsCanonical) (hm : 0 < v.mantissa) :
    v.Owns (shortest v.mantissa v.exponent).value := by
  have hmagnitude := magnitude_le_of_isCanonical hv hm
  unfold shortest
  dsimp only
  generalize magnitude (v.mantissa * twoTo v.exponent.toNat) (twoTo (-v.exponent).toNat) = d at *
  split
  · rename_i x hx
    obtain ⟨n, -, hn⟩ := List.exists_of_findSome?_eq_some hx
    obtain ⟨k, rfl, hk⟩ := exists_isInside_of_onGrid? hn
    rw [value_normalize]
    exact (isInside_iff hm).mp hk
  · rename_i hnone
    have hfine : (10 : ℚ) ^ (d - (17 : ℕ) + 1) * 10 ^ 16 ≤ v.mantissa * 2 ^ v.exponent := by
      refine le_trans (le_of_eq ?_) hmagnitude
      rw [← zpow_natCast, ← zpow_add₀ (by norm_num)]
      congr 1
      push_cast
      ring
    obtain ⟨x, hx⟩ := exists_onGrid? ((owns_of_fine hv hfine).imp (isInside_iff hm).mpr (isInside_iff hm).mpr)
    rw [List.findSome?_eq_none_iff.mp hnone 17 (by decide)] at hx
    cases hx

end Decimal

end Pagewright
