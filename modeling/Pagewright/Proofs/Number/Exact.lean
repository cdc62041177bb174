import Pagewright.Proofs.Number.Nearest

/-!
# Exact values of doubles

A finite double is a fraction (`Binary64.toRat`). The double nearest to a fraction (`Binary64.IsNearest`) is finite
just when the fraction is below the limit (`IsNearest.isFinite_iff`) and infinite from there on
(`IsNearest.eq_infinity`), and rounding keeps the order of fractions (`IsNearest.toRat_le`). To calculate with a finite
double it is taken apart into sign, mantissa and exponent (`unpack_of_decode`).
-/

namespace Pagewright.Binary64

open Float.Model Float.Model.UnpackedFloat

variable {negative : Bool} {num den : ℕ} {x y : Float} {q r : ℚ} {e : ℤ} {m : ℕ} {v w : Finite}

/-! ## Fractions -/

/-- The fraction that a finite value is, sign aside. -/
def Finite.magnitude (v : Finite) : ℚ := v.mantissa * 2 ^ v.exponent

/-- The fraction that a finite value is. -/
def Finite.toRat (v : Finite) : ℚ := if v.negative then -v.magnitude else v.magnitude

/-- A double that is a number and not infinite. -/
def IsFinite (x : Float) : Prop := ∃ v, decode x = .finite v

/-- The fraction that a finite double is; zero for the others. -/
def toRat (x : Float) : ℚ :=
  match decode x with
  | .finite v => v.toRat
  | _ => 0

theorem toRat_of_decode (h : decode x = .finite v) : toRat x = v.toRat := by
  unfold toRat
  rw [h]

theorem Finite.magnitude_nonneg (v : Finite) : 0 ≤ v.magnitude := by
  unfold Finite.magnitude
  positivity

theorem Finite.magnitude_pos (h : v.mantissa ≠ 0) : 0 < v.magnitude := by
  have hm : (0 : ℚ) < v.mantissa := by exact_mod_cast Nat.pos_of_ne_zero h
  unfold Finite.magnitude
  positivity

theorem Finite.magnitude_of_zero (h : v.mantissa = 0) : v.magnitude = 0 := by
  rw [Finite.magnitude, h, Nat.cast_zero, zero_mul]

theorem Finite.abs_toRat (v : Finite) : |v.toRat| = v.magnitude := by
  unfold Finite.toRat
  split
  · rw [abs_neg, abs_of_nonneg v.magnitude_nonneg]
  · rw [abs_of_nonneg v.magnitude_nonneg]

theorem Finite.IsCanonical.isRoundedAt (hv : v.IsCanonical) : IsRoundedAt v.magnitude v.exponent v.mantissa := by
  have hpower : (0 : ℚ) < 2 ^ v.exponent := by positivity
  refine ⟨hv.le_exponent, ?_, ?_, ?_⟩
  · exact mul_lt_mul_of_pos_right (by exact_mod_cast hv.mantissa_lt) hpower
  · refine hv.normal.symm.imp id fun h => ?_
    exact mul_le_mul_of_nonneg_right (by exact_mod_cast h) hpower.le
  · rw [Finite.magnitude, mul_div_cancel_right₀ _ hpower.ne']
    exact isNearestEven_natCast _

theorem Finite.IsCanonical.magnitude_lt (hv : v.IsCanonical) (hw : w.IsCanonical)
    (h : place v.exponent v.mantissa < place w.exponent w.mantissa) : v.magnitude < w.magnitude := by
  by_contra! hle
  exact absurd (hw.isRoundedAt.place_mono hv.isRoundedAt hle) (by omega)

/-! ## Bits -/

theorem toBits_ofBits {bits : UInt64} (h : bits.toNat / hidden % 2048 = 2047 → bits.toNat % hidden = 0) :
    (Float.ofBits bits).toBits = bits := by
  have hvalid : Float.Model.Format.binary64.Valid bits.toBitVec := by
    refine ⟨fun hexponent hmantissa => absurd ?_ hmantissa⟩
    have hexponent : (bits.toBitVec.extractLsb 62 52).toNat = 2047 := congrArg BitVec.toNat hexponent
    rw [BitVec.extractLsb_toNat, Nat.shiftRight_eq_div_pow] at hexponent
    refine BitVec.eq_of_toNat_eq ?_
    show (bits.toBitVec.extractLsb 51 0).toNat = 0
    rw [BitVec.extractLsb_toNat, Nat.shiftRight_zero]
    exact h hexponent
  exact congrArg Float.toBits (Float.ofBits_toBits (Float.ofModel ⟨bits, hvalid⟩))

theorem toNat_toBits_ofBits {bits : ℕ} (hbits : bits < 2 ^ 64) (h : bits / hidden % 2048 = 2047 → bits % hidden = 0) :
    (Float.ofBits (UInt64.ofNat bits)).toBits.toNat = bits := by
  have hnat : (UInt64.ofNat bits).toNat = bits := UInt64.toNat_ofNat_of_lt hbits
  rw [toBits_ofBits (by rwa [hnat]), hnat]

/-- Sign, exponent and fraction are read off bits that have them side by side. -/
theorem decodeBits_parts (negative : Bool) {k f : ℕ} (hk : k < 2048) (hf : f < hidden) :
    decodeBits ((if negative then twoTo 63 else 0) + (k * hidden + f)) =
      if k = 2047 then if f = 0 then .infinite negative else .nan
      else if k = 0 then .finite ⟨negative, f, minExponent⟩
      else .finite ⟨negative, f + hidden, (k : ℤ) - 1075⟩ := by
  have hhidden : hidden = 2 ^ 52 := rfl
  have hsign : twoTo 63 = 2 ^ 63 := rfl
  rw [hhidden] at hf
  unfold decodeBits
  simp only [hsign, hhidden]
  generalize hbits : (if negative = true then 2 ^ 63 else 0) + (k * 2 ^ 52 + f) = bits
  have hnegative : (bits / 2 ^ 63 % 2 == 1) = negative := by
    subst hbits
    cases negative <;> simp <;> omega
  have hexponent : bits / 2 ^ 52 % 2048 = k := by
    subst hbits
    split <;> omega
  have hfraction : bits % 2 ^ 52 = f := by
    subst hbits
    split <;> omega
  rw [hnegative, hexponent, hfraction]

theorem decodeBits_bits (hv : v.IsCanonical) : decodeBits v.bits = .finite v := by
  obtain ⟨negative, m, e⟩ := v
  obtain ⟨hlt, hmin, hmax, hnormal⟩ := hv
  dsimp only at hlt hmin hmax hnormal
  obtain ⟨k, rfl⟩ : ∃ k : ℕ, e = minExponent + k := ⟨(e - minExponent).toNat, by omega⟩
  have hminimum : minExponent = -1074 := rfl
  have hplace : (minExponent + k - minExponent).toNat = k := by omega
  unfold Finite.bits
  dsimp only
  rw [hplace]
  by_cases hsmall : m < hidden
  · obtain rfl : k = 0 := by omega
    rw [decodeBits_parts negative (by decide) hsmall]
    rfl
  · obtain ⟨f, rfl⟩ : ∃ f, m = f + hidden := ⟨m - hidden, by omega⟩
    have hcarry : k * hidden + (f + hidden) = (k + 1) * hidden + f := by ring
    rw [hcarry, decodeBits_parts negative (by omega) (by omega), if_neg (by omega), if_neg (by omega)]
    congr 2
    push_cast
    omega

/-- The bits of a double that a fraction is rounded to. -/
theorem decode_ofRatio (negative : Bool) (num den : ℕ) :
    decode (ofRatio negative num den) =
      decodeBits ((if negative then twoTo 63 else 0) + magnitudeBits num den) := by
  have hhidden : hidden = 2 ^ 52 := rfl
  have hsign : twoTo 63 = 2 ^ 63 := rfl
  have hmax := magnitudeBits_le num den
  unfold decode ofRatio
  rw [hhidden] at hmax
  rw [toNat_toBits_ofBits]
  · rw [hsign]
    split <;> omega
  · rw [hsign, hhidden]
    split <;> omega

/-- A fraction below the limit is rounded to a finite double, with the mantissa at its exponent. -/
theorem exists_decode_ofRatio (negative : Bool) (hden : 0 < den) (h : IsRoundedAt (num / den) e m)
    (hlt : (num : ℚ) / den < limit) :
    ∃ v, decode (ofRatio negative num den) = .finite v ∧ v.negative = negative ∧ v.magnitude = m * 2 ^ e := by
  obtain ⟨f, k, -, hk, hmin, hnormal, hplace, hvalue⟩ := h.exists_carry
  have hbits := (magnitudeBits_lt_iff hden).mpr hlt
  rw [magnitudeBits_of_isRoundedAt hden h, min_lt_iff, or_iff_left (lt_irrefl _), ← hplace] at hbits
  have hmax : f ≤ 971 := by
    by_contra! hgt
    have hminimum : minExponent = -1074 := rfl
    have hsteps : 2046 ≤ (f - minExponent).toNat := by omega
    have hsteps := Nat.mul_le_mul_right hidden hsteps
    unfold place at hbits
    omega
  have hv : Finite.IsCanonical ⟨negative, k, f⟩ := ⟨hk, hmin, hmax, hnormal⟩
  refine ⟨⟨negative, k, f⟩, ?_, rfl, hvalue⟩
  rw [decode_ofRatio, magnitudeBits_of_isRoundedAt hden h, ← hplace, min_eq_left hbits.le]
  exact decodeBits_bits hv

theorem decode_ofRatio_of_limit_le (negative : Bool) (hden : 0 < den) (h : (limit : ℚ) ≤ num / den) :
    decode (ofRatio negative num den) = .infinite negative := by
  have hge := mt (magnitudeBits_lt_iff hden).mp h.not_gt
  have hbits : magnitudeBits num den = 2047 * hidden := le_antisymm (magnitudeBits_le num den) (not_lt.mp hge)
  rw [decode_ofRatio, hbits]
  exact decodeBits_parts negative (k := 2047) (f := 0) (by decide) (by decide)

/-! ## The double nearest to a fraction -/

/-- A sign as a factor. -/
def signFactor (negative : Bool) : ℚ := if negative then -1 else 1

theorem abs_signFactor_mul (negative : Bool) (hq : 0 ≤ q) : |signFactor negative * q| = q := by
  cases negative <;> simp [signFactor, abs_of_nonneg hq]

theorem signFactor_mul_lt_zero (negative : Bool) (hq : 0 < q) : decide (signFactor negative * q < 0) = negative := by
  cases negative
  · simp [signFactor, hq.le]
  · simp [signFactor, hq]

theorem Finite.toRat_eq (v : Finite) : v.toRat = signFactor v.negative * v.magnitude := by
  unfold Finite.toRat signFactor
  split <;> ring

/-- The double nearest to a fraction, of either sign if it is zero. -/
def IsNearest (x : Float) (q : ℚ) : Prop :=
  ∃ negative num den, 0 < den ∧ x = ofRatio negative num den ∧ q = signFactor negative * ((num : ℚ) / den)

theorem isNearest_ofRatio (negative : Bool) (num : ℕ) (hden : 0 < den) :
    IsNearest (ofRatio negative num den) (signFactor negative * (num / den)) :=
  ⟨negative, num, den, hden, rfl, rfl⟩

theorem Finite.ratio_pos (v : Finite) : 0 < v.ratio.2 := twoTo_pos _

theorem Finite.cast_ratio (v : Finite) : (v.ratio.1 : ℚ) / v.ratio.2 = v.magnitude := by
  unfold Finite.ratio Finite.magnitude
  dsimp only
  rw [Nat.cast_mul, mul_div_assoc, cast_twoTo_div]

theorem isNearest_toRat (h : IsFinite x) : IsNearest x (toRat x) := by
  obtain ⟨v, hx⟩ := h
  obtain ⟨hv, hbits⟩ := bits_of_decode hx
  have hrounded := hv.isRoundedAt
  rw [← v.cast_ratio] at hrounded
  refine ⟨v.negative, v.ratio.1, v.ratio.2, v.ratio_pos, ?_, ?_⟩
  · rw [← ofBits_toNat x, hbits, ofRatio, magnitudeBits_of_isRoundedAt v.ratio_pos hrounded, place,
      min_eq_left hv.bits_le]
    rfl
  · rw [v.cast_ratio, toRat_of_decode hx, v.toRat_eq]

namespace IsNearest

theorem isFinite_iff (h : IsNearest x q) : IsFinite x ↔ |q| < limit := by
  obtain ⟨negative, num, den, hden, rfl, rfl⟩ := h
  rw [abs_signFactor_mul negative (by positivity)]
  constructor
  · rintro ⟨v, hv⟩
    by_contra! hle
    rw [decode_ofRatio_of_limit_le negative hden hle] at hv
    cases hv
  · intro hlt
    obtain ⟨e, m, hrounded⟩ := exists_isRoundedAt num hden
    obtain ⟨v, hv, -, -⟩ := exists_decode_ofRatio negative hden hrounded hlt
    exact ⟨v, hv⟩

theorem eq_infinity (h : IsNearest x q) (hq : (limit : ℚ) ≤ |q|) : x = if q < 0 then -infinity else infinity := by
  obtain ⟨negative, num, den, hden, rfl, rfl⟩ := h
  rw [abs_signFactor_mul negative (by positivity)] at hq
  have hsign := signFactor_mul_lt_zero negative ((Nat.cast_pos.mpr limit_pos).trans_le hq)
  rw [eq_of_decode_infinite (decode_ofRatio_of_limit_le negative hden hq)]
  cases negative
  · rw [if_neg (of_decide_eq_false hsign), if_neg Bool.false_ne_true]
  · rw [if_pos (of_decide_eq_true hsign), if_pos rfl]

/-- What a fraction is rounded to has its sign, and the mantissa at its exponent. -/
theorem exists_toRat_eq (h : IsNearest x q) (hx : IsFinite x) :
    ∃ e m, IsRoundedAt |q| e m ∧ toRat x = signFactor (q < 0) * (m * 2 ^ e) := by
  have hlt := h.isFinite_iff.mp hx
  obtain ⟨negative, num, den, hden, rfl, rfl⟩ := h
  have hnonneg : (0 : ℚ) ≤ num / den := by positivity
  rw [abs_signFactor_mul negative hnonneg] at hlt ⊢
  obtain ⟨e, m, hrounded⟩ := exists_isRoundedAt num hden
  obtain ⟨v, hv, hnegative, hmagnitude⟩ := exists_decode_ofRatio negative hden hrounded hlt
  refine ⟨e, m, hrounded, ?_⟩
  rw [toRat_of_decode hv, v.toRat_eq, hnegative, hmagnitude]
  rcases hnonneg.eq_or_lt with hzero | hpos
  · rw [← hzero] at hrounded
    rw [hrounded.value_zero, mul_zero, mul_zero]
  · rw [signFactor_mul_lt_zero negative hpos]

theorem toRat_le (hx : IsNearest x q) (hy : IsNearest y r) (hx' : IsFinite x) (hy' : IsFinite y) (h : q ≤ r) :
    toRat x ≤ toRat y := by
  obtain ⟨e, m, hq, hxq⟩ := hx.exists_toRat_eq hx'
  obtain ⟨f, n, hr, hyr⟩ := hy.exists_toRat_eq hy'
  have hm : (0 : ℚ) ≤ m * 2 ^ e := by positivity
  have hn : (0 : ℚ) ≤ n * 2 ^ f := by positivity
  rw [hxq, hyr]
  unfold signFactor
  simp only [decide_eq_true_eq]
  rcases lt_or_ge q 0 with hq0 | hq0
  · rw [if_pos hq0]
    split
    · rename_i hr0
      rw [abs_of_neg hq0] at hq
      rw [abs_of_neg hr0] at hr
      linarith [hr.value_mono hq (by linarith)]
    · linarith
  · rw [if_neg hq0.not_gt, if_neg (hq0.trans h).not_gt]
    rw [abs_of_nonneg hq0] at hq
    rw [abs_of_nonneg (hq0.trans h)] at hr
    linarith [hq.value_mono hr h]

end IsNearest

theorem IsFinite.abs_lt (h : IsFinite x) : |toRat x| < limit := (isNearest_toRat h).isFinite_iff.mp h

/-! ## Sign, mantissa and exponent -/

/-- A sign that is known to be negative or not. -/
def signBit (negative : Bool) : Sign := if negative then .negative else .positive

/-- A finite value as a sign, a mantissa and an exponent; zero is apart. -/
def Finite.unpacked (v : Finite) : UnpackedFloat :=
  if hm : v.mantissa = 0 then .zero (signBit v.negative)
  else .finite (signBit v.negative) v.mantissa v.exponent (Nat.pos_of_ne_zero hm)

theorem unpack_of_decode (h : decode x = .finite v) : x.toModel.unpack = v.unpacked := by
  obtain ⟨⟨bits, hvalid⟩⟩ := x
  have hhidden : hidden = 2 ^ 52 := rfl
  have hsignbit : twoTo 63 = 2 ^ 63 := rfl
  have hlt : bits.toNat < 2 ^ 64 := bits.toNat_lt
  have hexponent : (@unpackExponent Format.binary64 bits.toBitVec).toNat = bits.toNat / 2 ^ 52 % 2048 := by
    show (bits.toBitVec.extractLsb 62 52).toNat = _
    rw [BitVec.extractLsb_toNat, Nat.shiftRight_eq_div_pow]
    rfl
  have hmantissa : (@unpackMantissa Format.binary64 bits.toBitVec).toNat = bits.toNat % 2 ^ 52 := by
    show (bits.toBitVec.extractLsb 51 0).toNat = _
    rw [BitVec.extractLsb_toNat, Nat.shiftRight_zero]
    rfl
  have hsign : Sign.ofBitVec (@unpackSign Format.binary64 bits.toBitVec) =
      signBit (bits.toNat / 2 ^ 63 % 2 == 1) := by
    have hbit : (@unpackSign Format.binary64 bits.toBitVec).toNat = bits.toNat / 2 ^ 63 % 2 := by
      show (bits.toBitVec.extractLsb 63 63).toNat = _
      rw [BitVec.extractLsb_toNat, Nat.shiftRight_eq_div_pow]
      rfl
    unfold Sign.ofBitVec signBit
    rcases Nat.mod_two_eq_zero_or_one (bits.toNat / 2 ^ 63) with hzero | hone
    · rw [if_pos (BitVec.eq_of_toNat_eq (by rw [hbit, hzero]; rfl)), hzero]
      rfl
    · rw [if_neg fun heq => absurd (hbit.symm.trans (congrArg BitVec.toNat heq)) (by rw [hone]; decide), hone]
      rfl
  unfold decode decodeBits at h
  dsimp only [Float.toBits] at h
  simp only [hhidden, hsignbit] at h
  show UnpackedFloat.unpack Format.binary64 bits.toBitVec = _
  unfold UnpackedFloat.unpack
  dsimp only
  rw [hsign]
  split at h
  · split at h <;> cases h
  · rename_i hnot
    rw [if_neg fun heq => hnot (by rw [← hexponent, heq]; rfl)]
    split at h
    · rename_i hzero
      obtain rfl := Decoded.finite.inj h
      rw [if_pos (BitVec.eq_of_toNat_eq (by rw [hexponent, hzero]; rfl))]
      unfold Finite.unpacked
      dsimp only
      by_cases hm : bits.toNat % 2 ^ 52 = 0
      · rw [dif_pos hm, dif_pos (BitVec.eq_of_toNat_eq (by rw [hmantissa, hm]; rfl))]
      · rw [dif_neg hm, dif_neg fun heq => hm (by rw [← hmantissa, heq]; rfl)]
        congr 1
        rw [hexponent, hzero]
        rfl
    · rename_i hnormal
      obtain rfl := Decoded.finite.inj h
      rw [if_neg fun heq => hnormal (by rw [← hexponent, heq]; rfl)]
      unfold Finite.unpacked
      dsimp only
      rw [dif_neg (by omega)]
      congr 1
      · rw [BitVec.toNat_append, ← Nat.shiftLeft_add_eq_or_of_lt (BitVec.isLt _), hmantissa, Nat.add_comm]
        rfl
      · rw [hexponent]
        rfl

end Pagewright.Binary64
