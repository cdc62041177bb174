import Pagewright.Proofs.Number.Order
import Pagewright.Proofs.Number.Whole

/-!
# Comparing doubles by their values

Finite doubles are ordered like the fractions that they are (`Binary64.lt_iff_toRat`, `Binary64.le_iff_toRat`,
`Binary64.beq_iff_toRat`), and the infinities are around them. So doubles that are nearest to whole numbers have the
order of what these are rounded to (`Binary64.IsNearest.lt_iff_nearest`).
-/

namespace Pagewright.Binary64

variable {x y : Float} {v w : Finite} {m n : ℤ} {q r : ℚ}

/-! ## Places and values -/

theorem Finite.IsCanonical.magnitude_lt_of_lex (hv : v.IsCanonical) (hw : w.IsCanonical)
    (h : v.exponent < w.exponent ∨ v.exponent = w.exponent ∧ v.mantissa < w.mantissa) : v.magnitude < w.magnitude := by
  refine hv.magnitude_lt hw ?_
  unfold place
  rcases h with hlt | ⟨heq, hlt⟩
  · have hmin := hv.le_exponent
    have hv' := hv.mantissa_lt
    have hw' : hidden ≤ w.mantissa := hw.normal.resolve_right (by omega)
    have hstep : (v.exponent - minExponent).toNat + 1 ≤ (w.exponent - minExponent).toNat := by omega
    have hstep := Nat.mul_le_mul_right hidden hstep
    rw [Nat.add_one_mul] at hstep
    omega
  · rw [heq]
    exact Nat.add_lt_add_left hlt _

/-- The place of a finite value in the order of doubles. -/
def Finite.rank (v : Finite) : ℤ ×ₗ ℤ ×ₗ ℤ :=
  if v.mantissa = 0 then toLex (0, toLex (0, 0))
  else if v.negative then toLex (-1, toLex (-v.exponent, -v.mantissa))
  else toLex (1, toLex (v.exponent, v.mantissa))

theorem rankOf?_of_decode (h : decode x = .finite v) : rankOf? x = some v.rank := by
  unfold rankOf? Finite.rank
  rw [unpack_of_decode h]
  unfold Finite.unpacked signBit
  split_ifs <;> rfl

theorem Finite.toRat_lt_of_rank_lt (hv : v.IsCanonical) (hw : w.IsCanonical) (h : v.rank < w.rank) :
    v.toRat < w.toRat := by
  unfold Finite.rank at h
  unfold Finite.toRat
  split_ifs at h with hv0 hw0 hwn hvn hw0 hwn hw0 hwn <;>
    simp only [Prod.Lex.toLex_lt_toLex] at h <;> norm_num at h
  · -- zero and a positive value
    rw [v.magnitude_of_zero hv0, neg_zero, ite_self, if_neg hwn]
    exact w.magnitude_pos hw0
  · -- a negative value and zero
    rw [w.magnitude_of_zero hw0, neg_zero, ite_self, if_pos hvn]
    exact neg_lt_zero.mpr (v.magnitude_pos hv0)
  · -- two negative values
    rw [if_pos hvn, if_pos hwn]
    exact neg_lt_neg (hw.magnitude_lt_of_lex hv (h.imp id fun h => ⟨h.1.symm, h.2⟩))
  · -- a negative value and a positive one
    rw [if_pos hvn, if_neg hwn]
    linarith [v.magnitude_pos hv0, w.magnitude_nonneg]
  · -- two positive values
    rw [if_neg hvn, if_neg hwn]
    exact hv.magnitude_lt_of_lex hw h

theorem Finite.toRat_eq_of_rank_eq (h : v.rank = w.rank) : v.toRat = w.toRat := by
  unfold Finite.rank at h
  unfold Finite.toRat
  split_ifs at h with hv0 hw0 hwn hvn hw0 hwn hw0 hwn <;>
    simp only [EmbeddingLike.apply_eq_iff_eq, Prod.mk.injEq] at h <;> norm_num at h
  · rw [v.magnitude_of_zero hv0, w.magnitude_of_zero hw0]
    split <;> split <;> rfl
  · rw [if_pos hvn, if_pos hwn, Finite.magnitude, Finite.magnitude, h.1, h.2]
  · rw [if_neg hvn, if_neg hwn, Finite.magnitude, Finite.magnitude, h.1, h.2]

theorem Finite.rank_lt_iff (hv : v.IsCanonical) (hw : w.IsCanonical) : v.rank < w.rank ↔ v.toRat < w.toRat := by
  refine ⟨Finite.toRat_lt_of_rank_lt hv hw, fun h => ?_⟩
  rcases lt_trichotomy v.rank w.rank with hlt | heq | hgt
  · exact hlt
  · exact absurd (Finite.toRat_eq_of_rank_eq heq) h.ne
  · exact absurd (Finite.toRat_lt_of_rank_lt hw hv hgt) h.not_gt

/-! ## Finite doubles -/

theorem lt_iff_toRat (hx : IsFinite x) (hy : IsFinite y) : x < y ↔ toRat x < toRat y := by
  obtain ⟨v, hx⟩ := hx
  obtain ⟨w, hy⟩ := hy
  rw [lt_iff, rankOf?_of_decode hx, rankOf?_of_decode hy, toRat_of_decode hx, toRat_of_decode hy,
    ← Finite.rank_lt_iff (bits_of_decode hx).1 (bits_of_decode hy).1]
  constructor
  · rintro ⟨a, b, ha, hb, hab⟩
    rwa [← Option.some.inj ha, ← Option.some.inj hb] at hab
  · exact fun h => ⟨v.rank, w.rank, rfl, rfl, h⟩

theorem beq_iff_toRat (hx : IsFinite x) (hy : IsFinite y) : x == y ↔ toRat x = toRat y := by
  obtain ⟨v, hx⟩ := hx
  obtain ⟨w, hy⟩ := hy
  obtain ⟨o, ho, hcompares⟩ := exists_compare (rankOf?_of_decode hx) (rankOf?_of_decode hy)
  have hbeq : x == y ↔ x.toModel.unpack.compare y.toModel.unpack = some .eq := by
    show (x.toModel.unpack.compare y.toModel.unpack == some .eq) = true ↔ _
    exact beq_iff_eq
  have hlt := Finite.rank_lt_iff (bits_of_decode hx).1 (bits_of_decode hy).1
  have hgt := Finite.rank_lt_iff (bits_of_decode hy).1 (bits_of_decode hx).1
  rw [hbeq, ho, toRat_of_decode hx, toRat_of_decode hy, Option.some_inj, hcompares.eq_eq]
  constructor
  · exact Finite.toRat_eq_of_rank_eq
  · intro h
    exact le_antisymm (not_lt.mp fun hn => (hgt.mp hn).ne' h) (not_lt.mp fun hn => (hlt.mp hn).ne h)

/-! ## Infinities -/

theorem Finite.rank_between (v : Finite) : toLex (-2, toLex (0, 0)) < v.rank ∧ v.rank < toLex (2, toLex (0, 0)) := by
  unfold Finite.rank
  split_ifs <;> exact ⟨Prod.Lex.toLex_lt_toLex.mpr (.inl (by simp)), Prod.Lex.toLex_lt_toLex.mpr (.inl (by simp))⟩

theorem rankOf?_infinity : rankOf? infinity = some (toLex (2, toLex (0, 0))) := by
  decide

theorem rankOf?_neg_infinity : rankOf? (-infinity) = some (toLex (-2, toLex (0, 0))) := by
  decide

theorem IsFinite.lt_infinity (hx : IsFinite x) : x < infinity := by
  obtain ⟨v, hx⟩ := hx
  exact lt_iff.mpr ⟨_, _, rankOf?_of_decode hx, rankOf?_infinity, v.rank_between.2⟩

theorem IsFinite.neg_infinity_lt (hx : IsFinite x) : -infinity < x := by
  obtain ⟨v, hx⟩ := hx
  exact lt_iff.mpr ⟨_, _, rankOf?_neg_infinity, rankOf?_of_decode hx, v.rank_between.1⟩

theorem lt_asymm (h : x < y) : ¬y < x := fun h' => not_lt_self x (lt_of_lt h h')

theorem IsNearest.exists_rank (h : IsNearest x q) : ∃ a, rankOf? x = some a := by
  rcases lt_or_ge |q| limit with hlt | hge
  · obtain ⟨v, hv⟩ := h.isFinite_iff.mpr hlt
    exact ⟨_, rankOf?_of_decode hv⟩
  · rw [h.eq_infinity hge]
    split
    · exact ⟨_, rankOf?_neg_infinity⟩
    · exact ⟨_, rankOf?_infinity⟩

theorem IsNearest.not_lt_iff (hx : IsNearest x q) (hy : IsNearest y r) : ¬x < y ↔ y ≤ x := by
  obtain ⟨a, ha⟩ := hx.exists_rank
  obtain ⟨b, hb⟩ := hy.exists_rank
  rw [lt_iff, le_iff, ha, hb]
  simp

/-! ## Whole numbers -/

theorem limit_le_nearestNat {a : ℕ} (h : limit ≤ a) : limit ≤ nearestNat a := by
  have hlimit : limit ≤ nearestNat limit := by decide +kernel
  exact hlimit.trans (nearestNat_mono h)

/-- A finite double and an infinite one have the order of whole numbers that they are nearest to. -/
theorem IsNearest.lt_iff_of_limit_le (hx : IsNearest x m) (hy : IsNearest y n) (hm : m.natAbs < limit)
    (hn : limit ≤ n.natAbs) : (x < y ↔ nearest m < nearest n) ∧ (y < x ↔ nearest n < nearest m) := by
  have hfinite := hx.isFinite_intCast_iff.mpr hm
  have hnear := (isDouble_nearest hm).natAbs_lt
  have hfar := limit_le_nearestNat hn
  rw [hy.eq_infinity_intCast hn]
  split_ifs with hsign
  · rw [nearest_of_nonpos hsign.le]
    have hlt := hfinite.neg_infinity_lt
    exact ⟨iff_of_false (lt_asymm hlt) (by omega), iff_of_true hlt (by omega)⟩
  · rw [nearest_of_nonneg (not_lt.mp hsign)]
    have hlt := hfinite.lt_infinity
    exact ⟨iff_of_true hlt (by omega), iff_of_false (lt_asymm hlt) (by omega)⟩

/-- Doubles nearest to whole numbers, one of them finite, have the order of what these are rounded to. -/
theorem IsNearest.lt_iff_nearest (hx : IsNearest x m) (hy : IsNearest y n) (h : m.natAbs < limit ∨ n.natAbs < limit) :
    x < y ↔ nearest m < nearest n := by
  rcases lt_or_ge m.natAbs limit with hm | hm
  · rcases lt_or_ge n.natAbs limit with hn | hn
    · have hx' := hx.isFinite_intCast_iff.mpr hm
      have hy' := hy.isFinite_intCast_iff.mpr hn
      rw [lt_iff_toRat hx' hy', hx.toRat_intCast hx', hy.toRat_intCast hy', Int.cast_lt]
    · exact (hx.lt_iff_of_limit_le hy hm hn).1
  · exact (hy.lt_iff_of_limit_le hx (h.resolve_left hm.not_gt) hm).2

theorem IsNearest.le_iff_nearest (hx : IsNearest x m) (hy : IsNearest y n) (h : m.natAbs < limit ∨ n.natAbs < limit) :
    x ≤ y ↔ nearest m ≤ nearest n := by
  rw [← hy.not_lt_iff hx, hy.lt_iff_nearest hx h.symm, not_lt]

end Pagewright.Binary64
