import Mathlib.Algebra.Order.Ring.Int
import Mathlib.Data.Prod.Lex
import Mathlib.Order.Compare

/-!
# The order of doubles

Doubles that are numbers have places in a linear order (`Binary64.rank?`): by sign first, then by exponent,
then by mantissa. One is below another just when its place is (`Binary64.lt_iff`, `Binary64.le_iff`), so what
holds of a linear order holds of numbers. The double that is no number is below nothing and above nothing.
-/

namespace Pagewright.Binary64

open Float.Model

/-! ## Comparing pairs -/

section Pairs

variable {α β : Type} [Preorder α] [Preorder β] {a b : α} {c d : β} {o p : Ordering}

theorem compares_then (ho : o.Compares a b) (hp : p.Compares c d) :
    (o.then p).Compares (toLex (a, c)) (toLex (b, d)) := by
  cases o with
  | lt => exact Prod.Lex.toLex_lt_toLex.mpr (.inl ho)
  | gt => exact Prod.Lex.toLex_lt_toLex.mpr (.inl ho)
  | eq =>
    obtain rfl : a = b := ho
    cases p with
    | lt => exact Prod.Lex.toLex_lt_toLex.mpr (.inr ⟨rfl, hp⟩)
    | gt => exact Prod.Lex.toLex_lt_toLex.mpr (.inr ⟨rfl, hp⟩)
    | eq =>
      obtain rfl : c = d := hp
      exact rfl

theorem compares_neg {m n : ℤ} (h : o.Compares m n) : o.swap.Compares (-m) (-n) := by
  cases o with
  | lt => exact neg_lt_neg h
  | gt => exact neg_lt_neg h
  | eq => exact congrArg Neg.neg h

theorem compares_cast {m n : ℕ} (h : o.Compares m n) : o.Compares (m : ℤ) (n : ℤ) := by
  cases o with
  | lt => exact Int.ofNat_lt.mpr h
  | gt => exact Int.ofNat_lt.mpr h
  | eq => exact congrArg Nat.cast h

end Pairs

/-! ## Places -/

/-- The place of an unpacked double in the order of those that are numbers. Both zeros have the same. -/
def rank? : UnpackedFloat → Option (ℤ ×ₗ ℤ ×ₗ ℤ)
  | .notANumber => none
  | .infinity .negative => some (toLex (-2, toLex (0, 0)))
  | .finite .negative m e _ => some (toLex (-1, toLex (-e, -m)))
  | .zero _ => some (toLex (0, toLex (0, 0)))
  | .finite .positive m e _ => some (toLex (1, toLex (e, m)))
  | .infinity .positive => some (toLex (2, toLex (0, 0)))

variable {u v : UnpackedFloat} {o : Ordering} {a b : ℤ ×ₗ ℤ ×ₗ ℤ}

theorem exists_compare (ha : rank? u = some a) (hb : rank? v = some b) :
    ∃ o, u.compare v = some o ∧ o.Compares a b := by
  rcases u with (_ | _) | _ | _ | ⟨_ | _, m, e, hm⟩ <;>
    rcases v with (_ | _) | _ | _ | ⟨_ | _, n, f, hn⟩ <;>
    cases ha <;> cases hb <;> refine ⟨_, rfl, ?_⟩
  case finite.negative.finite.negative.refl.refl =>
    rw [Ordering.swap_then]
    exact compares_then (o := .eq) rfl (compares_then (compares_neg ((compare_iff e f).mp rfl))
      (compares_neg (compares_cast ((compare_iff m n).mp rfl))))
  case finite.positive.finite.positive.refl.refl =>
    exact compares_then (o := .eq) rfl (compares_then ((compare_iff e f).mp rfl)
      (compares_cast ((compare_iff m n).mp rfl)))
  -- Elsewhere the signs and kinds decide.
  all_goals first
    | exact rfl
    | exact Prod.Lex.toLex_lt_toLex.mpr (.inl (by simp))

theorem exists_rank (h : u.compare v = some o) : ∃ a b, rank? u = some a ∧ rank? v = some b := by
  have hrank (w : UnpackedFloat) (hw : w ≠ .notANumber) : ∃ a, rank? w = some a := by
    rcases w with (_ | _) | _ | _ | ⟨_ | _, m, e, hm⟩
    case notANumber => exact absurd rfl hw
    all_goals exact ⟨_, rfl⟩
  have hu : u ≠ .notANumber := by
    rintro rfl
    cases h
  have hv : v ≠ .notANumber := by
    rintro rfl
    cases u <;> cases h
  obtain ⟨a, ha⟩ := hrank u hu
  obtain ⟨b, hb⟩ := hrank v hv
  exact ⟨a, b, ha, hb⟩

/-- The place of a double. -/
def rankOf? (x : Float) : Option (ℤ ×ₗ ℤ ×ₗ ℤ) := rank? x.toModel.unpack

variable {x y z : Float}

theorem lt_iff : x < y ↔ ∃ a b, rankOf? x = some a ∧ rankOf? y = some b ∧ a < b := by
  have hlt : x < y ↔ x.toModel.unpack.compare y.toModel.unpack = some .lt := by
    show decide ((x.toModel.unpack.compare y.toModel.unpack == some .lt) = true) = true ↔ _
    simp
  rw [hlt]
  constructor
  · intro h
    obtain ⟨a, b, ha, hb⟩ := exists_rank h
    obtain ⟨o, ho, hab⟩ := exists_compare ha hb
    obtain rfl : .lt = o := Option.some.inj (h.symm.trans ho)
    exact ⟨a, b, ha, hb, hab⟩
  · rintro ⟨a, b, ha, hb, hab⟩
    obtain ⟨o, ho, hcompares⟩ := exists_compare ha hb
    rw [ho, hcompares.eq_lt.mpr hab]

theorem le_iff : x ≤ y ↔ ∃ a b, rankOf? x = some a ∧ rankOf? y = some b ∧ a ≤ b := by
  have hle : x ≤ y ↔ ∃ o, x.toModel.unpack.compare y.toModel.unpack = some o ∧ o ≠ .gt := by
    show decide ((x.toModel.unpack.compare y.toModel.unpack).any (·.isLE) = true) = true ↔ _
    simp [Option.any_eq_true, Ordering.isLE_iff_ne_gt]
  rw [hle]
  constructor
  · rintro ⟨o, ho, hne⟩
    obtain ⟨a, b, ha, hb⟩ := exists_rank ho
    obtain ⟨o', ho', hab⟩ := exists_compare ha hb
    obtain rfl : o = o' := Option.some.inj (ho.symm.trans ho')
    exact ⟨a, b, ha, hb, hab.ne_gt.mp hne⟩
  · rintro ⟨a, b, ha, hb, hab⟩
    obtain ⟨o, ho, hcompares⟩ := exists_compare ha hb
    exact ⟨o, ho, hcompares.ne_gt.mpr hab⟩

theorem not_lt_self (x : Float) : ¬ x < x := by
  intro h
  obtain ⟨a, b, ha, hb, hab⟩ := lt_iff.mp h
  obtain rfl : a = b := Option.some.inj (ha.symm.trans hb)
  exact lt_irrefl a hab

theorem lt_of_lt (hxy : x < y) (hyz : y < z) : x < z := by
  obtain ⟨a, b, ha, hb, hab⟩ := lt_iff.mp hxy
  obtain ⟨b', c, hb', hc, hbc⟩ := lt_iff.mp hyz
  obtain rfl : b = b' := Option.some.inj (hb.symm.trans hb')
  exact lt_iff.mpr ⟨a, c, ha, hc, hab.trans hbc⟩

theorem le_trans (hxy : x ≤ y) (hyz : y ≤ z) : x ≤ z := by
  obtain ⟨a, b, ha, hb, hab⟩ := le_iff.mp hxy
  obtain ⟨b', c, hb', hc, hbc⟩ := le_iff.mp hyz
  obtain rfl : b = b' := Option.some.inj (hb.symm.trans hb')
  exact le_iff.mpr ⟨a, c, ha, hc, hab.trans hbc⟩

/-- Two numbers are above each other or not; here each is a number since it is above some double. -/
theorem le_of_not_lt {x' y' : Float} (hx : x' < x) (hy : y' < y) (h : ¬ y < x) : x ≤ y := by
  obtain ⟨-, a, -, ha, -⟩ := lt_iff.mp hx
  obtain ⟨-, b, -, hb, -⟩ := lt_iff.mp hy
  refine le_iff.mpr ⟨a, b, ha, hb, le_of_not_gt fun hlt => h ?_⟩
  exact lt_iff.mpr ⟨b, a, hb, ha, hlt⟩

end Pagewright.Binary64
