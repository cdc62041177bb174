import Pagewright.Proofs.Number.Bits

/-!
# Rounding to the nearest double

A finite value owns an interval of fractions (`Binary64.Finite.Owns`): half a unit of its last place to each side,
the ends included if its mantissa is even. Below a power of two the doubles are twice as dense, so there it is a
quarter.

`Binary64.ofRatio` takes every fraction of the interval to the double (`Binary64.ofRatio_of_owns`). The exponent
that is chosen for a fraction is the one at which its whole part has 53 bits, or the lowest (`scaleOf_spec`); in the
quarter below a power of two it is one less than that of the double, and the carry of the rounding makes up for it
(`magnitudeBits_of_below`).
-/

namespace Pagewright.Binary64

variable {num den : ℕ} {e : ℤ}

/-! ## Scaling -/

theorem twoTo_pos (n : ℕ) : 0 < twoTo n := Nat.two_pow_pos n

theorem cast_twoTo_div (e : ℤ) : (twoTo e.toNat : ℚ) / twoTo (-e).toNat = 2 ^ e := by
  unfold twoTo
  obtain ⟨n, rfl | rfl⟩ := e.eq_nat_or_neg
  · simp
  · simp

theorem cast_scaleTwo (num den : ℕ) (e : ℤ) :
    ((scaleTwo num den e).1 : ℚ) / (scaleTwo num den e).2 = num / den / 2 ^ e := by
  rw [← cast_twoTo_div e, scaleTwo]
  push_cast
  field_simp

theorem scaleTwo_pos (hden : 0 < den) (e : ℤ) : 0 < (scaleTwo num den e).2 := Nat.mul_pos hden (twoTo_pos _)

theorem scaleTwo_div_lt_iff (hden : 0 < den) (k : ℕ) :
    (scaleTwo num den e).1 / (scaleTwo num den e).2 < k ↔ (num : ℚ) / den < k * 2 ^ e := by
  have hd : 0 < (scaleTwo num den e).2 := scaleTwo_pos hden e
  rw [Nat.div_lt_iff_lt_mul hd, ← div_lt_iff₀ (by positivity), ← cast_scaleTwo, div_lt_iff₀ (by exact_mod_cast hd)]
  exact_mod_cast Iff.rfl

theorem hidden_mul_zpow (e : ℤ) : (hidden : ℚ) * 2 ^ e = 2 ^ (e + 52) := by
  rw [zpow_add₀ two_ne_zero, mul_comm]
  norm_num [hidden, twoTo]

theorem two_mul_hidden_mul_zpow (e : ℤ) : 2 * (hidden : ℚ) * 2 ^ e = 2 ^ (e + 53) := by
  rw [mul_assoc, hidden_mul_zpow, ← zpow_one_add₀ two_ne_zero]
  congr 1
  omega

/-- The logarithms of a fraction's parts tell its size up to a factor of two. -/
theorem log2_bounds (hnum : 0 < num) (hden : 0 < den) :
    (2 : ℚ) ^ ((num.log2 : ℤ) - den.log2 - 1) < num / den ∧
      (num : ℚ) / den < 2 ^ ((num.log2 : ℤ) - den.log2 + 1) := by
  have hn : 2 ^ num.log2 ≤ num := Nat.log2_self_le hnum.ne'
  have hn' : num < 2 ^ (num.log2 + 1) := Nat.lt_log2_self
  have hd : 2 ^ den.log2 ≤ den := Nat.log2_self_le hden.ne'
  have hd' : den < 2 ^ (den.log2 + 1) := Nat.lt_log2_self
  have hden' : (0 : ℚ) < den := by exact_mod_cast hden
  constructor
  · have hexponent : (num.log2 : ℤ) - den.log2 - 1 = num.log2 - ((den.log2 + 1 : ℕ) : ℤ) := by omega
    rw [hexponent, zpow_sub₀ two_ne_zero, zpow_natCast, zpow_natCast, div_lt_div_iff₀ (by positivity) hden']
    exact_mod_cast Nat.mul_lt_mul_of_le_of_lt hn hd' hnum
  · have hexponent : (num.log2 : ℤ) - den.log2 + 1 = ((num.log2 + 1 : ℕ) : ℤ) - den.log2 := by omega
    rw [hexponent, zpow_sub₀ two_ne_zero, zpow_natCast, zpow_natCast, div_lt_div_iff₀ hden' (by positivity)]
    exact_mod_cast Nat.mul_lt_mul_of_lt_of_le hn' hd hden

/-- At the exponent that is chosen for a fraction its whole part has at most 53 bits, and no less unless the
exponent is the lowest. -/
theorem scaleOf_spec (hnum : 0 < num) (hden : 0 < den) :
    minExponent ≤ scaleOf num den ∧ (num : ℚ) / den < 2 * hidden * 2 ^ scaleOf num den ∧
      (scaleOf num den = minExponent ∨ (hidden : ℚ) * 2 ^ scaleOf num den ≤ num / den) := by
  obtain ⟨hlow, hhigh⟩ := log2_bounds hnum hden
  have hmono {a b : ℤ} (h : a ≤ b) : (2 : ℚ) ^ a ≤ 2 ^ b := zpow_le_zpow_right₀ one_le_two h
  simp only [two_mul_hidden_mul_zpow, hidden_mul_zpow]
  unfold scaleOf
  set low := max ((num.log2 : ℤ) - den.log2 - 53) minExponent with hlowdef
  have hfits (k : ℤ) : (scaleTwo num den k).1 / (scaleTwo num den k).2 < 2 * hidden ↔
      (num : ℚ) / den < 2 ^ (k + 53) := by
    rw [scaleTwo_div_lt_iff hden, ← two_mul_hidden_mul_zpow]
    push_cast
    rfl
  have hmax : (num : ℚ) / den < 2 ^ (low + 54) := hhigh.trans_le (hmono (by omega))
  have hmin : low = minExponent ∨ (2 : ℚ) ^ (low + 52) ≤ num / den := by
    rcases max_choice ((num.log2 : ℤ) - den.log2 - 53) minExponent with h | h
    · exact .inr ((hmono (by omega)).trans hlow.le)
    · exact .inl h
  dsimp only
  by_cases h : (scaleTwo num den low).1 / (scaleTwo num den low).2 < 2 * hidden
  · rw [if_pos h]
    exact ⟨le_max_right _ _, (hfits low).mp h, hmin⟩
  · have hnext : (scaleTwo num den (low + 1)).1 / (scaleTwo num den (low + 1)).2 < 2 * hidden :=
      (hfits (low + 1)).mpr (hmax.trans_le (hmono (by omega)))
    rw [if_neg h, if_pos hnext]
    refine ⟨by omega, (hfits (low + 1)).mp hnext, .inr ?_⟩
    rw [hfits, not_lt] at h
    exact (hmono (by omega)).trans h

/-- There is just one such exponent. -/
theorem scaleOf_eq {k : ℤ} (hnum : 0 < num) (hden : 0 < den) (hmin : minExponent ≤ k)
    (hhigh : (num : ℚ) / den < 2 * hidden * 2 ^ k) (hlow : k = minExponent ∨ (hidden : ℚ) * 2 ^ k ≤ num / den) :
    scaleOf num den = k := by
  obtain ⟨hmin', hhigh', hlow'⟩ := scaleOf_spec hnum hden
  have hlt {a b : ℤ} (ha : (hidden : ℚ) * 2 ^ a ≤ num / den) (hb : (num : ℚ) / den < 2 * hidden * 2 ^ b) :
      a < b + 1 := by
    have hab := ha.trans_lt hb
    rw [hidden_mul_zpow, two_mul_hidden_mul_zpow, zpow_lt_zpow_iff_right₀ one_lt_two] at hab
    omega
  have hle : k ≤ scaleOf num den := by
    rcases hlow with rfl | hlow
    · exact hmin'
    · exact Int.lt_add_one_iff.mp (hlt hlow hhigh')
  have hge : scaleOf num den ≤ k := by
    rcases hlow' with hlow' | hlow'
    · exact hlow' ▸ hmin
    · exact Int.lt_add_one_iff.mp (hlt hlow' hhigh)
  exact le_antisymm hge hle

/-! ## The nearest whole number -/

/-- A fraction within a half of a whole number is rounded to it; at a distance of a half if that is even. -/
theorem roundHalfEven_eq {n d m : ℕ} (hd : 0 < d) (hlow : (m : ℚ) - 1 / 2 ≤ n / d) (hhigh : (n : ℚ) / d ≤ m + 1 / 2)
    (hodd : m % 2 = 1 → (m : ℚ) - 1 / 2 < n / d ∧ (n : ℚ) / d < m + 1 / 2) : roundHalfEven n d = m := by
  have hd' : (0 : ℚ) < d := by exact_mod_cast hd
  have hdivision : d * (n / d) + n % d = n := Nat.div_add_mod n d
  have hrest : n % d < d := Nat.mod_lt n hd
  have hlow' : 2 * m * d ≤ 2 * n + d := by
    rw [le_div_iff₀ hd'] at hlow
    have : (2 * m * d : ℚ) ≤ 2 * n + d := by linarith
    exact_mod_cast this
  have hhigh' : 2 * n ≤ 2 * m * d + d := by
    rw [div_le_iff₀ hd'] at hhigh
    have : (2 * n : ℚ) ≤ 2 * m * d + d := by linarith
    exact_mod_cast this
  have hodd' : m % 2 = 1 → 2 * m * d < 2 * n + d ∧ 2 * n < 2 * m * d + d := by
    intro h
    obtain ⟨hlow, hhigh⟩ := hodd h
    rw [lt_div_iff₀ hd'] at hlow
    rw [div_lt_iff₀ hd'] at hhigh
    have hl : (2 * m * d : ℚ) < 2 * n + d := by linarith
    have hh : (2 * n : ℚ) < 2 * m * d + d := by linarith
    exact ⟨by exact_mod_cast hl, by exact_mod_cast hh⟩
  unfold roundHalfEven
  dsimp only
  generalize n / d = q at *
  generalize n % d = r at *
  have hle : q ≤ m := by
    by_contra! h
    nlinarith
  have hge : m ≤ q + 1 := by
    by_contra! h
    nlinarith
  obtain rfl | rfl : m = q ∨ m = q + 1 := by omega
  · have hcomm : 2 * m * d = 2 * (d * m) := by ring
    split_ifs <;> omega
  · have hcomm : 2 * (q + 1) * d = 2 * (d * q) + 2 * d := by ring
    split_ifs <;> omega

/-- The same for a fraction that is scaled first. -/
theorem round_scaleTwo_eq {m : ℕ} (hden : 0 < den) (hlow : ((m : ℚ) - 1 / 2) * 2 ^ e ≤ num / den)
    (hhigh : (num : ℚ) / den ≤ (m + 1 / 2) * 2 ^ e)
    (hodd : m % 2 = 1 → ((m : ℚ) - 1 / 2) * 2 ^ e < num / den ∧ (num : ℚ) / den < (m + 1 / 2) * 2 ^ e) :
    roundHalfEven (scaleTwo num den e).1 (scaleTwo num den e).2 = m := by
  have hu : (0 : ℚ) < 2 ^ e := by positivity
  refine roundHalfEven_eq (scaleTwo_pos hden _) ?_ ?_ fun h => ?_
  · rwa [cast_scaleTwo, le_div_iff₀ hu]
  · rwa [cast_scaleTwo, div_le_iff₀ hu]
  · rw [cast_scaleTwo, lt_div_iff₀ hu, div_lt_iff₀ hu]
    exact hodd h

/-! ## The interval of a double -/

/-- The fractions that are nearer to a finite value than to any other, sign aside, and those half way between it and
its neighbours if its mantissa is even. -/
structure Finite.Owns (v : Finite) (x : ℚ) : Prop where
  low : ((v.mantissa : ℚ) - if v.mantissa = hidden ∧ minExponent < v.exponent then 1 / 4 else 1 / 2) *
    2 ^ v.exponent ≤ x
  high : x ≤ (v.mantissa + 1 / 2) * 2 ^ v.exponent
  odd : v.mantissa % 2 = 1 → ((v.mantissa : ℚ) - 1 / 2) * 2 ^ v.exponent < x ∧
    x < (v.mantissa + 1 / 2) * 2 ^ v.exponent

/-- A fraction that a value owns is rounded to its mantissa at its own exponent. -/
theorem Finite.Owns.round_eq {v : Finite} (h : v.Owns (num / den)) (hden : 0 < den) :
    roundHalfEven (scaleTwo num den v.exponent).1 (scaleTwo num den v.exponent).2 = v.mantissa := by
  refine round_scaleTwo_eq hden ((mul_le_mul_of_nonneg_right ?_ (by positivity)).trans h.low) h.high h.odd
  split <;> linarith

theorem Finite.Owns.pos {v : Finite} {x : ℚ} (h : v.Owns x) (hm : 0 < v.mantissa) : 0 < x := by
  have hm' : (1 : ℚ) ≤ v.mantissa := by exact_mod_cast hm
  refine lt_of_lt_of_le (mul_pos ?_ (by positivity)) h.low
  split <;> linarith

/-- Only below a power of two a value owns fractions that are less than it has bits for. -/
theorem Finite.Owns.cases {v : Finite} {x : ℚ} (hv : v.IsCanonical) (h : v.Owns x) :
    v.exponent = minExponent ∨ (hidden : ℚ) * 2 ^ v.exponent ≤ x ∨
      (v.mantissa = hidden ∧ minExponent < v.exponent ∧ ((hidden : ℚ) - 1 / 4) * 2 ^ v.exponent ≤ x ∧
        x < (hidden : ℚ) * 2 ^ v.exponent) := by
  have hu : (0 : ℚ) < 2 ^ v.exponent := by positivity
  rcases eq_or_lt_of_le hv.le_exponent with hmin | hmin
  · exact .inl hmin.symm
  rcases le_or_gt ((hidden : ℚ) * 2 ^ v.exponent) x with hx | hx
  · exact .inr (.inl hx)
  have hnormal : hidden ≤ v.mantissa := hv.normal.resolve_right (ne_of_gt hmin)
  have hlow := h.low
  rcases eq_or_lt_of_le hnormal with hm | hm
  · rw [if_pos ⟨hm.symm, hmin⟩, ← hm] at hlow
    exact .inr (.inr ⟨hm.symm, hmin, hlow, hx⟩)
  · rw [if_neg fun hboth => hm.ne' hboth.1] at hlow
    have hm' : (hidden : ℚ) + 1 ≤ v.mantissa := by exact_mod_cast hm
    nlinarith

theorem Finite.Owns.lt_two_mul {v : Finite} {x : ℚ} (hv : v.IsCanonical) (h : v.Owns x) :
    x < 2 * hidden * 2 ^ v.exponent := by
  have hm : (v.mantissa : ℚ) + 1 ≤ 2 * hidden := by exact_mod_cast hv.mantissa_lt
  exact h.high.trans_lt (mul_lt_mul_of_pos_right (by linarith) (by positivity))

theorem Finite.IsCanonical.bits_le {v : Finite} (hv : v.IsCanonical) :
    (v.exponent - minExponent).toNat * hidden + v.mantissa ≤ 2047 * hidden := by
  have hbiased : (v.exponent - minExponent).toNat ≤ 2045 := by
    have hmin : minExponent = -1074 := rfl
    have := hv.exponent_le
    omega
  have := Nat.mul_le_mul_right hidden hbiased
  have := hv.mantissa_lt
  omega

/-- Just below a power of two the exponent is one less, and the mantissa is rounded up to the next power. -/
theorem magnitudeBits_of_below {e : ℤ} (hmin : minExponent < e) (hnum : 0 < num) (hden : 0 < den)
    (hlow : ((hidden : ℚ) - 1 / 4) * 2 ^ e ≤ num / den) (hhigh : (num : ℚ) / den < hidden * 2 ^ e) :
    magnitudeBits num den = min ((e - minExponent).toNat * hidden + hidden) (2047 * hidden) := by
  have hhalf : (2 : ℚ) ^ e = 2 * 2 ^ (e - 1) := by rw [← zpow_one_add₀ two_ne_zero, add_sub_cancel]
  have hu : (0 : ℚ) < 2 ^ (e - 1) := by positivity
  rw [hhalf] at hlow hhigh
  have hscale : scaleOf num den = e - 1 := by
    refine scaleOf_eq hnum hden (by omega) (by linarith) (.inr ?_)
    have hhidden : (hidden : ℚ) = 2 ^ 52 := by norm_num [hidden, twoTo]
    nlinarith
  have hround : roundHalfEven (scaleTwo num den (e - 1)).1 (scaleTwo num den (e - 1)).2 = 2 * hidden := by
    refine round_scaleTwo_eq hden ?_ ?_ fun hodd => absurd hodd (by decide)
    · push_cast
      linarith
    · push_cast
      linarith
  obtain ⟨k, hk⟩ : ∃ k : ℕ, e - minExponent = k + 1 := ⟨(e - 1 - minExponent).toNat, by omega⟩
  have hbelow : (e - 1 - minExponent).toNat = k := by omega
  have hexponent : (e - minExponent).toNat = k + 1 := by omega
  have hcarry : (k + 1) * hidden + hidden = k * hidden + 2 * hidden := by ring
  unfold magnitudeBits
  dsimp only
  rw [if_neg hnum.ne', hscale, hround, hbelow, hexponent, hcarry]

/-- What a fraction is rounded to is the value that owns it. -/
theorem magnitudeBits_of_owns {v : Finite} (hv : v.IsCanonical) (hm : 0 < v.mantissa) (hden : 0 < den)
    (h : v.Owns (num / den)) :
    magnitudeBits num den = (v.exponent - minExponent).toNat * hidden + v.mantissa := by
  have hnum : 0 < num := Nat.pos_of_ne_zero fun hzero => by
    have hpos := h.pos hm
    rw [hzero] at hpos
    simp at hpos
  have hown (hlow : v.exponent = minExponent ∨ (hidden : ℚ) * 2 ^ v.exponent ≤ num / den) :
      magnitudeBits num den = (v.exponent - minExponent).toNat * hidden + v.mantissa := by
    unfold magnitudeBits
    dsimp only
    rw [if_neg hnum.ne', scaleOf_eq hnum hden hv.le_exponent (h.lt_two_mul hv) hlow, h.round_eq hden,
      Nat.min_eq_left hv.bits_le]
  rcases h.cases hv with hmin | hx | ⟨hpower, hmin, hx, hx'⟩
  · exact hown (.inl hmin)
  · exact hown (.inr hx)
  · have hcap := hv.bits_le
    rw [hpower] at hcap ⊢
    rw [magnitudeBits_of_below hmin hnum hden hx hx', Nat.min_eq_left hcap]

theorem ofRatio_of_owns {x : Float} {v : Finite} (hx : decode x = .finite v) (hm : 0 < v.mantissa) (hden : 0 < den)
    (h : v.Owns (num / den)) : ofRatio v.negative num den = x := by
  obtain ⟨hv, hbits⟩ := bits_of_decode hx
  rw [ofRatio, magnitudeBits_of_owns hv hm hden h, ← ofBits_toNat x, hbits]
  rfl

end Pagewright.Binary64
