import Pagewright.Proofs.Json.Numerals
import Pagewright.Proofs.Number.Exact

/-!
# Whole numbers and doubles

A whole number below the limit is rounded to a double, which is a whole number again (`isDouble_nearest`), and no
double is nearer (`IsDouble.natAbs_nearest_sub_le`). The whole numbers that are doubles themselves are kept
(`isDouble_iff`), among them all of up to 53 bits (`isDouble_of_natAbs_le`).
-/

namespace Pagewright.Binary64

variable {x : Float} {v : Finite} {n k : ℤ} {b d : ℕ}

/-! ## Whole values -/

theorem Finite.toRat_eq_div (v : Finite) :
    v.toRat = ((if v.negative then -(v.ratio.1 : ℤ) else v.ratio.1 : ℤ) : ℚ) / (v.ratio.2 : ℕ) := by
  rw [Finite.toRat, ← v.cast_ratio]
  split
  · push_cast
    ring
  · rfl

theorem signed_div_eq_iff (negative : Bool) {a d : ℕ} (hd : 0 < d) :
    a % d = 0 ∧ (if negative then -((a / d : ℕ) : ℤ) else (a / d : ℕ)) = n ↔
      (if negative then -(a : ℤ) else a) = n * d := by
  have hd' : (d : ℤ) ≠ 0 := by exact_mod_cast hd.ne'
  constructor
  · rintro ⟨hdvd, rfl⟩
    obtain ⟨q, rfl⟩ := Nat.dvd_of_mod_eq_zero hdvd
    rw [Nat.mul_div_cancel_left q hd]
    split
    · push_cast
      ring
    · push_cast
      ring
  · intro h
    have hdvd : (d : ℤ) ∣ a := by
      split at h
      · exact (Int.dvd_neg).mp (Dvd.intro_left n h.symm)
      · exact Dvd.intro_left n h.symm
    obtain ⟨q, rfl⟩ := Int.natCast_dvd_natCast.mp hdvd
    refine ⟨Nat.mul_mod_right d q, ?_⟩
    rw [Nat.mul_div_cancel_left q hd]
    refine mul_right_cancel₀ hd' ?_
    rw [← h]
    split
    · push_cast
      ring
    · push_cast
      ring

theorem integer?_eq_some_iff (hx : IsFinite x) : integer? x = some n ↔ toRat x = n := by
  obtain ⟨v, hx⟩ := hx
  have hden : (0 : ℚ) < v.ratio.2 := by exact_mod_cast v.ratio_pos
  have hinteger : integer? x = if v.ratio.1 % v.ratio.2 = 0 then
      some (if v.negative then -((v.ratio.1 / v.ratio.2 : ℕ) : ℤ) else (v.ratio.1 / v.ratio.2 : ℕ)) else none := by
    rw [integer?, hx]
    simp only [Finite.isInteger, Finite.truncate, beq_iff_eq]
  rw [toRat_of_decode hx, v.toRat_eq_div, div_eq_iff hden.ne', hinteger, Option.ite_none_right_eq_some,
    Option.some_inj, signed_div_eq_iff v.negative v.ratio_pos]
  norm_cast

theorem floor?_eq (hx : IsFinite x) : floor? x = some ⌊toRat x⌋ := by
  obtain ⟨v, hx⟩ := hx
  have hd : (0 : ℤ) < v.ratio.2 := by exact_mod_cast v.ratio_pos
  rw [toRat_of_decode hx, v.toRat_eq_div, floor?, hx, Rat.floor_intCast_div_natCast]
  unfold Finite.floor
  dsimp only
  generalize v.ratio.1 = a
  generalize v.ratio.2 = d at *
  split
  · -- Downwards is away from zero here.
    refine congrArg some (Eq.symm ?_)
    rw [Int.ediv_eq_iff_of_pos hd]
    have hdivision := Nat.div_add_mod (a + d - 1) d
    have hrest := Nat.mod_lt (a + d - 1) (by omega : 0 < d)
    generalize (a + d - 1) / d = q at *
    have hcast : ((d * q : ℕ) : ℤ) = q * d := by
      push_cast
      ring
    rw [neg_mul, ← hcast]
    omega
  · rfl

theorem natAbs_lt_of_truncate? (h : truncate? x = some n) : n.natAbs < limit := by
  have hx : IsFinite x := by
    unfold truncate? at h
    split at h
    · exact ⟨_, ‹_›⟩
    · cases h
  have hlimit := hx.abs_lt
  obtain ⟨v, hx⟩ := hx
  have hden : (0 : ℚ) < v.ratio.2 := by exact_mod_cast v.ratio_pos
  have hdiv : ((v.ratio.1 / v.ratio.2 : ℕ) : ℚ) ≤ v.ratio.1 / v.ratio.2 := Nat.cast_div_le
  rw [toRat_of_decode hx, v.abs_toRat, ← v.cast_ratio] at hlimit
  have hlt : v.ratio.1 / v.ratio.2 < limit := by exact_mod_cast hdiv.trans_lt hlimit
  rw [truncate?, hx] at h
  obtain rfl := Option.some.inj h
  unfold Finite.truncate
  dsimp only
  generalize v.ratio.1 / v.ratio.2 = a at hlt
  split <;> omega

/-! ## The nearest double -/

/-- A natural number without the bits behind the first 53, rounded half to even. -/
def nearestNat (a : ℕ) : ℕ := roundHalfEven a (2 ^ (a.log2 - 52)) * 2 ^ (a.log2 - 52)

/-- The whole number that the nearest double to a whole number is. -/
def nearest (n : ℤ) : ℤ := n.sign * nearestNat n.natAbs

/-- A whole number that a double is. -/
def IsDouble (n : ℤ) : Prop := ∃ x, IsFinite x ∧ toRat x = n

theorem roundHalfEven_one (a : ℕ) : roundHalfEven a 1 = a := by
  refine IsNearestEven.roundHalfEven_eq ?_ Nat.one_pos
  rw [Nat.cast_one, div_one]
  exact isNearestEven_natCast a

theorem nearestNat_zero : nearestNat 0 = 0 := by decide

/-- A natural number is rounded at its 53rd bit. -/
theorem exists_isRoundedAt_natCast {a : ℕ} (ha : 0 < a) :
    ∃ m : ℕ, IsRoundedAt a (a.log2 - 52) m ∧ (m : ℚ) * 2 ^ ((a.log2 : ℤ) - 52) = nearestNat a := by
  have hlow : ((2 ^ a.log2 : ℕ) : ℚ) ≤ a := by exact_mod_cast Nat.log2_self_le ha.ne'
  have hhigh : (a : ℚ) < (2 ^ (a.log2 + 1) : ℕ) := by exact_mod_cast Nat.lt_log2_self
  have hpower (k : ℕ) : ((2 ^ k : ℕ) : ℚ) = 2 ^ (k : ℤ) := by push_cast; exact (zpow_natCast 2 k).symm
  have hrounded (m : ℕ) (h : IsNearestEven (a / 2 ^ ((a.log2 : ℤ) - 52)) m) : IsRoundedAt a (a.log2 - 52) m := by
    refine ⟨?_, ?_, .inr ?_, h⟩
    · show (-1074 : ℤ) ≤ _
      omega
    · rw [two_mul_hidden_mul_zpow, sub_add, show (52 : ℤ) - 53 = -1 from rfl, sub_neg_eq_add]
      exact hhigh.trans_eq (hpower _)
    · rw [hidden_mul_zpow, sub_add_cancel]
      exact (hpower _).symm.trans_le hlow
  unfold nearestNat
  rcases Nat.lt_or_ge a.log2 52 with hlt | hge
  · have hnone : a.log2 - 52 = 0 := by omega
    have hexponent : (a.log2 : ℤ) - 52 = -((52 - a.log2 : ℕ) : ℤ) := by omega
    have hvalue : ((a * 2 ^ (52 - a.log2) : ℕ) : ℚ) * 2 ^ ((a.log2 : ℤ) - 52) = a := by
      rw [hexponent, zpow_neg, zpow_natCast]
      push_cast
      field_simp
    refine ⟨a * 2 ^ (52 - a.log2), hrounded _ ?_, ?_⟩
    · rw [← eq_div_iff (by positivity)] at hvalue
      rw [← hvalue]
      exact isNearestEven_natCast _
    · rw [hvalue, hnone, pow_zero, mul_one, roundHalfEven_one]
  · have hexponent : (a.log2 : ℤ) - 52 = ((a.log2 - 52 : ℕ) : ℤ) := by omega
    rw [hexponent, zpow_natCast]
    refine ⟨roundHalfEven a (2 ^ (a.log2 - 52)), ?_, by push_cast; rfl⟩
    have hnearest := isNearestEven_roundHalfEven (n := a) (Nat.two_pow_pos (a.log2 - 52))
    rw [hpower, ← hexponent] at hnearest
    rw [← hexponent]
    exact hrounded _ hnearest

theorem IsRoundedAt.value_natCast {a m : ℕ} {e : ℤ} (h : IsRoundedAt a e m) : (m : ℚ) * 2 ^ e = nearestNat a := by
  rcases Nat.eq_zero_or_pos a with rfl | ha
  · rw [Nat.cast_zero] at h
    rw [h.value_zero, nearestNat_zero, Nat.cast_zero]
  · obtain ⟨m', h', hvalue⟩ := exists_isRoundedAt_natCast ha
    rw [← hvalue]
    exact le_antisymm (h.value_mono h' le_rfl) (h'.value_mono h le_rfl)

theorem nearestNat_mono {a b : ℕ} (h : a ≤ b) : nearestNat a ≤ nearestNat b := by
  rcases Nat.eq_zero_or_pos a with rfl | ha
  · rw [nearestNat_zero]
    exact Nat.zero_le _
  obtain ⟨m, hm, hma⟩ := exists_isRoundedAt_natCast ha
  obtain ⟨k, hk, hkb⟩ := exists_isRoundedAt_natCast (ha.trans_le h)
  have hle := hm.value_mono hk (by exact_mod_cast h)
  rw [hma, hkb] at hle
  exact_mod_cast hle

theorem nearestNat_of_le {a : ℕ} (h : a ≤ 2 ^ 53) : nearestNat a = a := by
  rcases h.eq_or_lt with rfl | hlt
  · decide
  have hlog : a.log2 - 52 = 0 := by
    rcases Nat.eq_zero_or_pos a with rfl | ha
    · decide
    · have := (Nat.log2_lt ha.ne').mpr hlt
      omega
  rw [nearestNat, hlog, pow_zero, roundHalfEven_one, mul_one]

/-- No multiple is nearer to a number than the one that it is rounded to. -/
theorem natAbs_roundHalfEven_mul_sub_le (hd : 0 < d) (a j : ℕ) :
    ((roundHalfEven a d * d : ℕ) - a : ℤ).natAbs ≤ ((j * d : ℕ) - a : ℤ).natAbs := by
  have hdivision : a / d * d + a % d = a := Nat.div_add_mod' a d
  have hrest : a % d < d := Nat.mod_lt a hd
  have hround : roundHalfEven a d = a / d ∧ 2 * (a % d) ≤ d ∨ roundHalfEven a d = a / d + 1 ∧ d ≤ 2 * (a % d) := by
    unfold roundHalfEven
    dsimp only
    split_ifs <;> omega
  have hnext : (a / d + 1) * d = a / d * d + d := Nat.succ_mul _ _
  rcases Nat.lt_or_ge (a / d) j with hlt | hge
  · have hj : (a / d + 1) * d ≤ j * d := Nat.mul_le_mul_right d hlt
    rcases hround with ⟨h, hhalf⟩ | ⟨h, hhalf⟩ <;> rw [h] <;> omega
  · have hj : j * d ≤ a / d * d := Nat.mul_le_mul_right d hge
    rcases hround with ⟨h, hhalf⟩ | ⟨h, hhalf⟩ <;> rw [h] <;> omega

/-- A number that rounding keeps is no nearer to another than what the other is rounded to. -/
theorem natAbs_nearestNat_sub_le (hb : nearestNat b = b) (a : ℕ) :
    (nearestNat a - a : ℤ).natAbs ≤ (b - a : ℤ).natAbs := by
  rcases Nat.eq_zero_or_pos a with rfl | ha
  · rw [nearestNat_zero]
    exact Nat.zero_le _
  have hself := Nat.log2_self_le ha.ne'
  rcases Nat.lt_or_ge a.log2 52 with hsmall | hlarge
  · rw [nearestNat, Nat.sub_eq_zero_of_le hsmall.le, pow_zero, roundHalfEven_one, mul_one, sub_self]
    exact Nat.zero_le _
  have hstep := natAbs_roundHalfEven_mul_sub_le (Nat.two_pow_pos (a.log2 - 52)) a
  rcases Nat.lt_or_ge b (2 ^ a.log2) with hlt | hge
  · -- the power of two between the two numbers is a multiple that is nearer
    have hpower : 2 ^ 52 * 2 ^ (a.log2 - 52) = 2 ^ a.log2 := by rw [← pow_add, Nat.add_sub_cancel' hlarge]
    have hnear := hstep (2 ^ 52)
    rw [hpower] at hnear
    refine hnear.trans ?_
    generalize 2 ^ a.log2 = p at *
    omega
  · have hlog : a.log2 ≤ b.log2 := (Nat.le_log2 (Nat.two_pow_pos _ |>.trans_le hge).ne').mpr hge
    have hmultiple : 2 ^ (a.log2 - 52) ∣ b := by
      rw [← hb]
      exact (Nat.pow_dvd_pow 2 (by omega)).mul_left _
    obtain ⟨j, rfl⟩ := hmultiple
    have hnear := hstep j
    rwa [mul_comm j] at hnear

theorem nearest_of_nonneg (h : 0 ≤ n) : nearest n = nearestNat n.natAbs := by
  rcases h.eq_or_lt with rfl | hpos
  · rfl
  · rw [nearest, Int.sign_eq_one_of_pos hpos, one_mul]

theorem nearest_of_nonpos (h : n ≤ 0) : nearest n = -nearestNat n.natAbs := by
  rcases h.eq_or_lt with rfl | hneg
  · rfl
  · rw [nearest, Int.sign_eq_neg_one_of_neg hneg, neg_one_mul]

theorem nearest_mono {m n : ℤ} (h : m ≤ n) : nearest m ≤ nearest n := by
  rcases le_total 0 m with hm | hm
  · rw [nearest_of_nonneg hm, nearest_of_nonneg (hm.trans h)]
    exact_mod_cast nearestNat_mono (by omega : m.natAbs ≤ n.natAbs)
  · rcases le_total 0 n with hn | hn
    · rw [nearest_of_nonpos hm, nearest_of_nonneg hn]
      omega
    · rw [nearest_of_nonpos hm, nearest_of_nonpos hn]
      have := nearestNat_mono (by omega : n.natAbs ≤ m.natAbs)
      omega

theorem abs_intCast (n : ℤ) : |(n : ℚ)| = n.natAbs := by
  rw [Nat.cast_natAbs, Int.cast_abs]

theorem IsNearest.toRat_intCast (h : IsNearest x n) (hx : IsFinite x) : toRat x = nearest n := by
  obtain ⟨e, m, hrounded, hvalue⟩ := h.exists_toRat_eq hx
  rw [abs_intCast] at hrounded
  rw [hvalue, hrounded.value_natCast]
  rcases lt_or_ge n 0 with hneg | hnonneg
  · rw [nearest_of_nonpos hneg.le, decide_eq_true (Int.cast_lt_zero.mpr hneg)]
    push_cast
    exact neg_one_mul _
  · rw [nearest_of_nonneg hnonneg, decide_eq_false (Int.cast_nonneg hnonneg).not_gt]
    push_cast
    exact one_mul _

theorem IsNearest.isFinite_intCast_iff (h : IsNearest x n) : IsFinite x ↔ n.natAbs < limit := by
  rw [h.isFinite_iff, abs_intCast, Nat.cast_lt]

theorem IsNearest.eq_infinity_intCast (h : IsNearest x n) (hn : limit ≤ n.natAbs) :
    x = if n < 0 then -infinity else infinity := by
  rw [h.eq_infinity (by rw [abs_intCast]; exact_mod_cast hn)]
  simp only [Int.cast_lt_zero]

theorem IsNearest.integer?_eq (h : IsNearest x n) :
    integer? x = if n.natAbs < limit then some (nearest n) else none := by
  split_ifs with hn
  · have hx := h.isFinite_intCast_iff.mpr hn
    exact (integer?_eq_some_iff hx).mpr (h.toRat_intCast hx)
  · rw [h.eq_infinity_intCast (not_lt.mp hn)]
    split <;> rfl

/-- The nearest double as a value, which is a whole number unless it is infinite. -/
theorem IsNearest.wholeOrFloat_eq (h : IsNearest x n) :
    (match integer? x with
      | some k => .int k
      | none => .float x) =
      if n.natAbs < limit then Value.int (nearest n) else .float (if n < 0 then -infinity else infinity) := by
  rw [h.integer?_eq]
  split_ifs with hn hsign
  · rfl
  · rw [h.eq_infinity_intCast (not_lt.mp hn), if_pos hsign]
  · rw [h.eq_infinity_intCast (not_lt.mp hn), if_neg hsign]

theorem signFactor_mul_natAbs (n : ℤ) : signFactor (n < 0) * (n.natAbs : ℕ) = n := by
  rw [← abs_intCast]
  rcases lt_or_ge n 0 with hneg | hnonneg
  · rw [decide_eq_true hneg, abs_of_neg (Int.cast_lt_zero.mpr hneg)]
    show -1 * -(n : ℚ) = n
    ring
  · rw [decide_eq_false hnonneg.not_gt, abs_of_nonneg (Int.cast_nonneg hnonneg)]
    exact one_mul _

theorem isNearest_ofRatio_intCast (n : ℤ) : IsNearest (ofRatio (n < 0) n.natAbs 1) n := by
  have hnearest := isNearest_ofRatio (n < 0) n.natAbs Nat.one_pos
  rw [Nat.cast_one, div_one, signFactor_mul_natAbs] at hnearest
  exact hnearest

/-- There is a double for every whole number below the limit, and none for any other. -/
theorem ofInt?_eq (n : ℤ) : ofInt? n = if n.natAbs < limit then some (ofRatio (n < 0) n.natAbs 1) else none := by
  have hbits : magnitudeBits n.natAbs 1 < 2047 * hidden ↔ (n.natAbs : ℚ) / (1 : ℕ) < limit :=
    magnitudeBits_lt_iff Nat.one_pos
  have hmax : magnitudeBits n.natAbs 1 ≤ 2047 * hidden := magnitudeBits_le _ _
  rw [Nat.cast_one, div_one, Nat.cast_lt] at hbits
  unfold ofInt?
  dsimp only
  split_ifs <;> first | rfl | omega

theorem IsDouble.nearest_eq (h : IsDouble n) : nearest n = n := by
  obtain ⟨x, hx, hvalue⟩ := h
  have hnearest := isNearest_toRat hx
  rw [hvalue] at hnearest
  have hn := hnearest.toRat_intCast hx
  rw [hvalue] at hn
  exact_mod_cast hn.symm

theorem IsDouble.natAbs_lt (h : IsDouble n) : n.natAbs < limit := by
  obtain ⟨x, hx, hvalue⟩ := h
  have hlt := hx.abs_lt
  rw [hvalue, abs_intCast] at hlt
  exact_mod_cast hlt

theorem isDouble_nearest (h : n.natAbs < limit) : IsDouble (nearest n) := by
  have hnearest := isNearest_ofRatio_intCast n
  have hfinite := hnearest.isFinite_intCast_iff.mpr h
  exact ⟨_, hfinite, hnearest.toRat_intCast hfinite⟩

/-- No double is nearer to a whole number than the one that it is rounded to. -/
theorem IsDouble.natAbs_nearest_sub_le (hk : IsDouble k) (n : ℤ) : (nearest n - n).natAbs ≤ (k - n).natAbs := by
  have hzero := natAbs_nearestNat_sub_le nearestNat_zero n.natAbs
  have hnear := natAbs_nearestNat_sub_le (b := k.natAbs) (by
    have heq := hk.nearest_eq
    rcases le_total 0 k with hsign | hsign
    · rw [nearest_of_nonneg hsign] at heq
      omega
    · rw [nearest_of_nonpos hsign] at heq
      omega) n.natAbs
  rcases le_total 0 n with hn | hn
  · rw [nearest_of_nonneg hn]
    omega
  · rw [nearest_of_nonpos hn]
    omega

/-- The whole numbers that are doubles are those below the limit that rounding keeps. -/
theorem isDouble_iff : IsDouble n ↔ n.natAbs < limit ∧ nearest n = n := by
  refine ⟨fun h => ⟨h.natAbs_lt, h.nearest_eq⟩, fun ⟨hlt, heq⟩ => ?_⟩
  have hdouble := isDouble_nearest hlt
  rwa [heq] at hdouble

theorem isDouble_of_natAbs_le (h : n.natAbs ≤ 2 ^ 53) : IsDouble n := by
  have hlimit : 2 ^ 53 < limit := by decide +kernel
  refine isDouble_iff.mpr ⟨h.trans_lt hlimit, ?_⟩
  rw [nearest, nearestNat_of_le h, Int.sign_mul_natAbs]

end Pagewright.Binary64
