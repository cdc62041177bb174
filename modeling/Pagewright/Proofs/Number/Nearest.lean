import Pagewright.Proofs.Number.Rounding

/-!
# The nearest double

A fraction is rounded to a mantissa of 53 bits (`Binary64.IsRoundedAt`), and a mantissa that was rounded up to a power
of two is the lowest at the next exponent. In binary the mantissa and the exponent side by side are in the order of the
fractions that are rounded to them (`IsRoundedAt.place_mono`), so the bits of doubles are (`magnitudeBits_mono`), up to
the limit from which on they are those of infinity (`magnitudeBits_lt_iff`).
-/

namespace Pagewright.Binary64

variable {num den : ℕ} {x y : ℚ} {e f : ℤ} {m n : ℕ}

/-! ## The nearest whole number -/

/-- A whole number is the nearest to a fraction, the even one of two that are equally near. -/
structure IsNearestEven (x : ℚ) (m : ℕ) : Prop where
  low : (m : ℚ) - 1 / 2 ≤ x
  high : x ≤ m + 1 / 2
  odd : m % 2 = 1 → (m : ℚ) - 1 / 2 < x ∧ x < m + 1 / 2

theorem isNearestEven_roundHalfEven {n d : ℕ} (hd : 0 < d) : IsNearestEven (n / d) (roundHalfEven n d) := by
  have hd' : (0 : ℚ) < d := by exact_mod_cast hd
  have hdivision : d * (n / d) + n % d = n := Nat.div_add_mod n d
  have hrest : n % d < d := Nat.mod_lt n hd
  -- In whole numbers, a half being of `d`.
  have hwhole : 2 * roundHalfEven n d * d ≤ 2 * n + d ∧ 2 * n ≤ 2 * roundHalfEven n d * d + d ∧
      (roundHalfEven n d % 2 = 1 →
        2 * roundHalfEven n d * d < 2 * n + d ∧ 2 * n < 2 * roundHalfEven n d * d + d) := by
    unfold roundHalfEven
    dsimp only
    generalize n / d = q at *
    generalize n % d = r at *
    have hq : 2 * q * d = 2 * (d * q) := by ring
    have hnext : 2 * (q + 1) * d = 2 * (d * q) + 2 * d := by ring
    split_ifs <;> omega
  obtain ⟨hlow, hhigh, hodd⟩ := hwhole
  generalize roundHalfEven n d = m at *
  have hlow' : (2 : ℚ) * m * d ≤ 2 * n + d := by exact_mod_cast hlow
  have hhigh' : (2 : ℚ) * n ≤ 2 * m * d + d := by exact_mod_cast hhigh
  refine ⟨?_, ?_, fun h => ⟨?_, ?_⟩⟩
  · rw [le_div_iff₀ hd']
    linarith
  · rw [div_le_iff₀ hd']
    linarith
  · have hlt : (2 : ℚ) * m * d < 2 * n + d := by exact_mod_cast (hodd h).1
    rw [lt_div_iff₀ hd']
    linarith
  · have hlt : (2 : ℚ) * n < 2 * m * d + d := by exact_mod_cast (hodd h).2
    rw [div_lt_iff₀ hd']
    linarith

theorem IsNearestEven.roundHalfEven_eq {n d : ℕ} (h : IsNearestEven (n / d) m) (hd : 0 < d) :
    roundHalfEven n d = m :=
  Binary64.roundHalfEven_eq hd h.low h.high h.odd

theorem IsNearestEven.mono (hx : IsNearestEven x m) (hy : IsNearestEven y n) (hxy : x ≤ y) : m ≤ n := by
  by_contra! hlt
  have hnext : (n : ℚ) + 1 ≤ m := by exact_mod_cast hlt
  have hlow := hx.low
  have hhigh := hy.high
  -- Both fractions are half way between the two whole numbers, one of which is odd.
  have hm : m = n + 1 := by
    have : (m : ℚ) ≤ n + 1 := by linarith
    have : m ≤ n + 1 := by exact_mod_cast this
    omega
  rcases Nat.mod_two_eq_zero_or_one n with heven | hodd
  · have := (hx.odd (by omega)).1
    linarith
  · have := (hy.odd hodd).2
    linarith

theorem isNearestEven_natCast (m : ℕ) : IsNearestEven m m :=
  ⟨by linarith, by linarith, fun _ => ⟨by linarith, by linarith⟩⟩

/-! ## The nearest mantissa -/

/-- A fraction is rounded to the mantissa `m` at the exponent `e`, which is the one at which its whole part has
53 bits, or the lowest. -/
structure IsRoundedAt (x : ℚ) (e : ℤ) (m : ℕ) : Prop where
  min_le : minExponent ≤ e
  lt : x < 2 * hidden * 2 ^ e
  normal : e = minExponent ∨ (hidden : ℚ) * 2 ^ e ≤ x
  nearest : IsNearestEven (x / 2 ^ e) m

/-- The number whose digits in binary are those of the exponent and the mantissa. -/
def place (e : ℤ) (m : ℕ) : ℕ := (e - minExponent).toNat * hidden + m

/-- A mantissa of 54 bits, which is a power of two, gets the next exponent. -/
def carry (e : ℤ) (m : ℕ) : ℤ × ℕ := if m = 2 * hidden then (e + 1, hidden) else (e, m)

theorem place_zero : place minExponent 0 = 0 := by
  rw [place, sub_self, Int.toNat_zero, Nat.zero_mul]

theorem isRoundedAt_zero : IsRoundedAt 0 minExponent 0 := by
  have hhidden : (0 : ℚ) < hidden := by exact_mod_cast twoTo_pos 52
  refine ⟨le_rfl, by positivity, .inl rfl, ?_⟩
  rw [zero_div]
  exact_mod_cast isNearestEven_natCast 0

theorem exists_isRoundedAt (num : ℕ) (hden : 0 < den) : ∃ e m, IsRoundedAt (num / den) e m := by
  rcases Nat.eq_zero_or_pos num with rfl | hnum
  · rw [Nat.cast_zero, zero_div]
    exact ⟨_, _, isRoundedAt_zero⟩
  obtain ⟨hmin, hlt, hnormal⟩ := scaleOf_spec hnum hden
  have hpos : 0 < (scaleTwo num den (scaleOf num den)).2 := scaleTwo_pos hden _
  have hnearest := isNearestEven_roundHalfEven (n := (scaleTwo num den (scaleOf num den)).1) hpos
  rw [cast_scaleTwo] at hnearest
  exact ⟨scaleOf num den, _, hmin, hlt, hnormal, hnearest⟩

namespace IsRoundedAt

theorem le (h : IsRoundedAt x e m) : m ≤ 2 * hidden := by
  refine h.nearest.mono (isNearestEven_natCast (2 * hidden)) ?_
  rw [div_le_iff₀ (by positivity)]
  exact_mod_cast h.lt.le

theorem hidden_le (h : IsRoundedAt x e m) (he : e ≠ minExponent) : hidden ≤ m := by
  refine (isNearestEven_natCast hidden).mono h.nearest ?_
  rw [le_div_iff₀ (by positivity)]
  exact h.normal.resolve_left he

theorem exponent_le (hx : IsRoundedAt x e m) (hy : IsRoundedAt y f n) (hxy : x ≤ y) : e ≤ f := by
  by_contra! hgt
  have hnormal := hx.normal.resolve_left (by have := hy.min_le; omega)
  have habove : 2 * (hidden : ℚ) * 2 ^ f ≤ hidden * 2 ^ e := by
    rw [two_mul_hidden_mul_zpow, hidden_mul_zpow]
    exact zpow_le_zpow_right₀ one_le_two (by omega)
  linarith [hy.lt]

theorem mantissa_le (hx : IsRoundedAt x e m) (hy : IsRoundedAt y e n) (hxy : x ≤ y) : m ≤ n :=
  hx.nearest.mono hy.nearest (div_le_div_of_nonneg_right hxy (by positivity))

theorem place_mono (hx : IsRoundedAt x e m) (hy : IsRoundedAt y f n) (hxy : x ≤ y) : place e m ≤ place f n := by
  unfold place
  rcases (hx.exponent_le hy hxy).lt_or_eq with hlt | rfl
  · have hmin := hx.min_le
    have hm := hx.le
    have hn := hy.hidden_le (by omega)
    have hstep : (e - minExponent).toNat + 1 ≤ (f - minExponent).toNat := by omega
    have hstep := Nat.mul_le_mul_right hidden hstep
    rw [Nat.add_one_mul] at hstep
    omega
  · exact Nat.add_le_add_left (hx.mantissa_le hy hxy) _

theorem value_mono (hx : IsRoundedAt x e m) (hy : IsRoundedAt y f n) (hxy : x ≤ y) :
    (m : ℚ) * 2 ^ e ≤ n * 2 ^ f := by
  rcases (hx.exponent_le hy hxy).lt_or_eq with hlt | rfl
  · have hn := hy.hidden_le (by have := hx.min_le; omega)
    calc (m : ℚ) * 2 ^ e ≤ 2 * hidden * 2 ^ e := mul_le_mul_of_nonneg_right (by exact_mod_cast hx.le) (by positivity)
      _ = 2 ^ (e + 53) := two_mul_hidden_mul_zpow e
      _ ≤ 2 ^ (f + 52) := zpow_le_zpow_right₀ one_le_two (by omega)
      _ = hidden * 2 ^ f := (hidden_mul_zpow f).symm
      _ ≤ n * 2 ^ f := mul_le_mul_of_nonneg_right (by exact_mod_cast hn) (by positivity)
  · exact mul_le_mul_of_nonneg_right (by exact_mod_cast hx.mantissa_le hy hxy) (by positivity)

/-- A mantissa that was rounded up to a power of two is the lowest at the next exponent. -/
theorem exists_carry (h : IsRoundedAt x e m) :
    ∃ f k, carry e m = (f, k) ∧ k < 2 * hidden ∧ minExponent ≤ f ∧ (hidden ≤ k ∨ f = minExponent) ∧
      place f k = place e m ∧ (k : ℚ) * 2 ^ f = m * 2 ^ e := by
  have hmin := h.min_le
  unfold carry
  rcases h.le.lt_or_eq with hlt | rfl
  · refine ⟨e, m, if_neg hlt.ne, hlt, hmin, ?_, rfl, rfl⟩
    by_cases he : e = minExponent
    · exact .inr he
    · exact .inl (h.hidden_le he)
  · refine ⟨e + 1, hidden, if_pos rfl, lt_two_mul_self (twoTo_pos 52), by omega, .inl le_rfl, ?_, ?_⟩
    · have hstep : (e + 1 - minExponent).toNat = (e - minExponent).toNat + 1 := by omega
      unfold place
      rw [hstep]
      ring
    · rw [zpow_add_one₀ two_ne_zero]
      push_cast
      ring

theorem value_zero (h : IsRoundedAt 0 e m) : (m : ℚ) * 2 ^ e = 0 := by
  refine le_antisymm ?_ (by positivity)
  calc (m : ℚ) * 2 ^ e ≤ (0 : ℕ) * 2 ^ minExponent := h.value_mono isRoundedAt_zero le_rfl
    _ = 0 := by rw [Nat.cast_zero, zero_mul]

end IsRoundedAt

theorem magnitudeBits_of_isRoundedAt (hden : 0 < den) (h : IsRoundedAt (num / den) e m) :
    magnitudeBits num den = min (place e m) (2047 * hidden) := by
  rcases Nat.eq_zero_or_pos num with rfl | hnum
  · rw [Nat.cast_zero, zero_div] at h
    have hzero := h.place_mono isRoundedAt_zero le_rfl
    rw [place_zero, Nat.le_zero] at hzero
    rw [hzero, Nat.zero_min, magnitudeBits, if_pos rfl]
  have hround : roundHalfEven (scaleTwo num den e).1 (scaleTwo num den e).2 = m := by
    refine IsNearestEven.roundHalfEven_eq ?_ (scaleTwo_pos hden e)
    rw [cast_scaleTwo]
    exact h.nearest
  unfold magnitudeBits
  dsimp only
  rw [if_neg hnum.ne', scaleOf_eq hnum hden h.min_le h.lt h.normal, hround]
  rfl

theorem magnitudeBits_le (num den : ℕ) : magnitudeBits num den ≤ 2047 * hidden := by
  unfold magnitudeBits
  dsimp only
  split
  · exact Nat.zero_le _
  · exact min_le_right _ _

/-- Rounding keeps the order of fractions. -/
theorem magnitudeBits_mono {num' den' : ℕ} (hden : 0 < den) (hden' : 0 < den')
    (h : (num : ℚ) / den ≤ num' / den') : magnitudeBits num den ≤ magnitudeBits num' den' := by
  obtain ⟨e, m, hx⟩ := exists_isRoundedAt num hden
  obtain ⟨f, n, hy⟩ := exists_isRoundedAt num' hden'
  rw [magnitudeBits_of_isRoundedAt hden hx, magnitudeBits_of_isRoundedAt hden' hy]
  exact min_le_min_right _ (hx.place_mono hy h)

/-- From here on fractions are rounded to infinity. -/
@[irreducible]
def limit : ℕ := twoTo 1024 - twoTo 970

/-- The limit is half a unit above the greatest double. -/
theorem cast_limit : (limit : ℚ) = (2 * hidden - 1 / 2) * 2 ^ (971 : ℤ) := by
  have hlimit : limit = 18014398509481983 * 2 ^ 970 := by decide +kernel
  have hhidden : (hidden : ℚ) = 4503599627370496 := by exact_mod_cast (rfl : hidden = 4503599627370496)
  have hpower : (2 : ℚ) ^ (971 : ℤ) = 2 * 2 ^ 970 := by
    rw [← pow_succ']
    exact zpow_natCast 2 971
  rw [hlimit, hhidden, hpower, Nat.cast_mul, Nat.cast_pow, Nat.cast_ofNat, Nat.cast_ofNat]
  generalize (2 : ℚ) ^ 970 = p
  ring

theorem limit_pos : 0 < limit := by decide +kernel

theorem limit_le : (limit : ℚ) ≤ 2 ^ (1024 : ℤ) := by
  rw [cast_limit, show (1024 : ℤ) = 971 + 53 from rfl, ← two_mul_hidden_mul_zpow]
  exact mul_le_mul_of_nonneg_right (by linarith) (by positivity)

theorem magnitudeBits_lt_iff (hden : 0 < den) : magnitudeBits num den < 2047 * hidden ↔ (num : ℚ) / den < limit := by
  have hlimit : magnitudeBits limit 1 = 2047 * hidden := by decide +kernel
  constructor
  · intro h
    by_contra! hge
    have hle : magnitudeBits limit 1 ≤ magnitudeBits num den :=
      magnitudeBits_mono Nat.one_pos hden (by rwa [Nat.cast_one, div_one])
    omega
  · intro h
    obtain ⟨e, m, hx⟩ := exists_isRoundedAt num hden
    rw [magnitudeBits_of_isRoundedAt hden hx]
    refine lt_of_le_of_lt (min_le_left _ _) ?_
    have hhidden : 0 < hidden := by decide
    have hmin : minExponent = -1074 := rfl
    have he : e ≤ 971 := by
      by_contra! hgt
      have hnormal := hx.normal.resolve_left (by omega)
      have : (2 : ℚ) ^ (1024 : ℤ) ≤ hidden * 2 ^ e := by
        rw [hidden_mul_zpow]
        exact zpow_le_zpow_right₀ one_le_two (by omega)
      linarith [limit_le]
    unfold place
    rcases he.lt_or_eq with he | rfl
    · have := hx.le
      have : (e - minExponent).toNat ≤ 2044 := by omega
      have := Nat.mul_le_mul_right hidden this
      omega
    · -- At the highest exponent the mantissa does not reach a power of two.
      have hm : m < 2 * hidden := by
        have hlt : (m : ℚ) - 1 / 2 < 2 * hidden - 1 / 2 := by
          refine lt_of_le_of_lt hx.nearest.low ?_
          rw [div_lt_iff₀ (by positivity), ← cast_limit]
          exact h
        have : (m : ℚ) < 2 * hidden := by linarith
        exact_mod_cast this
      rw [show (971 - minExponent).toNat = 2045 from rfl]
      omega

end Pagewright.Binary64
