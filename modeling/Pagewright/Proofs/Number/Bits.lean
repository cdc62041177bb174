import Mathlib
import Pagewright.Number.Binary64

/-!
# Doubles and their bits

A double is its bits (`Binary64.ofBits_toNat`), so it is known from what its bits stand for. One that is no number
or infinite is one of three (`Binary64.eq_of_decode_nan`, `Binary64.eq_of_decode_infinite`), and the bits of
a finite one are its sign, exponent and mantissa side by side (`Binary64.Finite.bits`), the exponent being as low
as a mantissa of 53 bits allows (`Binary64.Finite.IsCanonical`).
-/

namespace Pagewright.Binary64

open Float.Model Float.Model.UnpackedFloat

/-! ## What bits stand for -/

theorem ofBits_toNat (x : Float) : Float.ofBits (UInt64.ofNat x.toBits.toNat) = x := by
  rw [UInt64.ofNat_toNat, Float.ofBits_toBits]

/-- The mantissa has 53 bits or the exponent is the lowest there is. -/
structure Finite.IsCanonical (v : Finite) : Prop where
  mantissa_lt : v.mantissa < 2 * hidden
  le_exponent : minExponent ≤ v.exponent
  exponent_le : v.exponent ≤ 971
  normal : hidden ≤ v.mantissa ∨ v.exponent = minExponent

/-- Sign, exponent and mantissa side by side. -/
def Finite.bits (v : Finite) : ℕ :=
  (if v.negative then twoTo 63 else 0) + ((v.exponent - minExponent).toNat * hidden + v.mantissa)

theorem signBit_eq {bits : ℕ} (hbits : bits < 2 ^ 64) :
    (if (bits / twoTo 63 % 2 == 1) = true then twoTo 63 else 0) = 2 ^ 63 * (bits / 2 ^ 52 / 2048) := by
  have hsign : twoTo 63 = 2 ^ 63 := rfl
  simp only [beq_iff_eq, hsign]
  split <;> omega

theorem decodeBits_eq_finite {bits : ℕ} {v : Finite} (hbits : bits < 2 ^ 64)
    (h : decodeBits bits = .finite v) : v.IsCanonical ∧ bits = v.bits := by
  have hhidden : hidden = 2 ^ 52 := rfl
  have hmin : minExponent = -1074 := rfl
  unfold decodeBits at h
  dsimp only at h
  split at h
  · split at h <;> cases h
  · split at h
    · obtain rfl := Decoded.finite.inj h
      refine ⟨⟨?_, le_rfl, (by decide : minExponent ≤ 971), .inr rfl⟩, ?_⟩ <;>
        simp only [Finite.bits, signBit_eq hbits, hhidden, hmin] at * <;> omega
    · obtain rfl := Decoded.finite.inj h
      refine ⟨⟨?_, ?_, ?_, .inl (Nat.le_add_left _ _)⟩, ?_⟩ <;>
        simp only [Finite.bits, signBit_eq hbits, hhidden, hmin] at * <;> omega

theorem decodeBits_eq_infinite {bits : ℕ} {negative : Bool} (hbits : bits < 2 ^ 64)
    (h : decodeBits bits = .infinite negative) :
    bits = (if negative then twoTo 63 else 0) + 2047 * hidden := by
  have hhidden : hidden = 2 ^ 52 := rfl
  unfold decodeBits at h
  dsimp only at h
  split at h
  · split at h
    · obtain rfl := Decoded.infinite.inj h
      simp only [signBit_eq hbits, hhidden] at *
      omega
    · cases h
  · split at h <;> cases h

variable {x : Float}

theorem bits_of_decode {v : Finite} (h : decode x = .finite v) : v.IsCanonical ∧ x.toBits.toNat = v.bits :=
  decodeBits_eq_finite x.toBits.toNat_lt h

theorem eq_of_decode_infinite {negative : Bool} (h : decode x = .infinite negative) :
    x = if negative then -infinity else infinity := by
  rw [← ofBits_toNat x, decodeBits_eq_infinite x.toBits.toNat_lt h]
  cases negative <;> rfl

theorem eq_of_decode_nan (h : decode x = .nan) : x = nan := by
  obtain ⟨⟨bits, hvalid⟩⟩ := x
  have hhidden : hidden = 2 ^ 52 := rfl
  unfold decode decodeBits at h
  dsimp only [Float.toBits] at h
  split at h
  · rename_i hmax
    split at h
    · cases h
    · rename_i hfraction
      have hexponent : @unpackExponent Format.binary64 bits.toBitVec = -1#11 := by
        refine BitVec.eq_of_toNat_eq ?_
        show (bits.toBitVec.extractLsb 62 52).toNat = 2047
        rw [BitVec.extractLsb_toNat, Nat.shiftRight_eq_div_pow]
        exact hmax
      have hmantissa : @unpackMantissa Format.binary64 bits.toBitVec ≠ 0#52 := by
        intro hzero
        have hzero : (bits.toBitVec.extractLsb 51 0).toNat = 0 := congrArg BitVec.toNat hzero
        rw [BitVec.extractLsb_toNat, Nat.shiftRight_zero] at hzero
        exact hfraction hzero
      have hbits := hvalid.eq_packedNaN hexponent hmantissa
      obtain rfl : bits = UInt64.ofBitVec (packedNaN Format.binary64) := UInt64.toBitVec_inj.mp hbits
      rfl
  · split at h <;> cases h

end Pagewright.Binary64
