import Pagewright.Proofs.Number.Whole
import Pagewright.Proofs.Text.Trim

/-!
# Numerals of whole numbers

The numeral of a whole number is read as its nearest double (`Numeral.float?_toString`), which is infinite from the
limit on.
-/

namespace Pagewright

namespace Binary64

theorem isNearest_infinity (negative : Bool) {a : ℕ} (h : limit ≤ a) :
    IsNearest (if negative then -infinity else infinity) (signFactor negative * a) := by
  have hlimit : (limit : ℚ) ≤ (a : ℚ) / (1 : ℕ) := by
    rw [Nat.cast_one, div_one]
    exact_mod_cast h
  have hnearest := isNearest_ofRatio negative a Nat.one_pos
  rw [eq_of_decode_infinite (decode_ofRatio_of_limit_le negative Nat.one_pos hlimit), Nat.cast_one, div_one] at hnearest
  exact hnearest

theorem IsNearest.isNaN_eq_false {x : Float} {q : ℚ} (h : IsNearest x q) : isNaN x = false := by
  rcases lt_or_ge |q| limit with hlt | hge
  · obtain ⟨v, hv⟩ := h.isFinite_iff.mpr hlt
    rw [isNaN, hv]
    rfl
  · rw [h.eq_infinity hge]
    split <;> decide

end Binary64

namespace Numeral

theorem twoTo_le_twoTo {m n : ℕ} (h : m ≤ n) : twoTo m ≤ twoTo n := Nat.pow_le_pow_right (by decide) h

theorem tenTo_le_tenTo {m n : ℕ} (h : m ≤ n) : tenTo m ≤ tenTo n := Nat.pow_le_pow_right (by decide) h

theorem twoTo_three_mul_le (n : ℕ) : twoTo (3 * n) ≤ tenTo n := by
  unfold twoTo tenTo
  show 2 ^ (3 * n) ≤ 10 ^ n
  rw [Nat.pow_mul]
  exact Nat.pow_le_pow_left (by decide) n

/-- Numbers of more than 400 digits are beyond the range of doubles. -/
theorem limit_le_tenTo : Binary64.limit ≤ tenTo 400 := by
  have hpower : Binary64.limit ≤ twoTo 1024 := by
    unfold Binary64.limit
    exact Nat.sub_le _ _
  exact (hpower.trans (twoTo_le_twoTo (by decide))).trans (twoTo_three_mul_le 400)

open Binary64 Text Json Decimal

variable {c : Char} {cs : List Char} {digits : List ℕ}

theorem decimalValue?_of_isDigit (h : c.isDigit = true) : decimalValue? c = some (c.toNat - 48) := by
  have hlt : c.toNat < 128 := by
    rw [Char.isDigit, Bool.and_eq_true, decide_eq_true_iff, decide_eq_true_iff] at h
    have hle : c.toNat ≤ 57 := h.2
    omega
  rw [decimalValue?, if_pos hlt, if_pos h]

theorem digitRun_digits (h : ∀ c ∈ cs, c.isDigit = true) (afterDigit : Bool) :
    digitRun afterDigit cs = (digitValues cs, []) := by
  induction cs generalizing afterDigit with
  | nil => rfl
  | cons c rest ih =>
    obtain ⟨hc, hrest⟩ := List.forall_mem_cons.mp h
    rw [digitRun, decimalValue?_of_isDigit hc, ih hrest]
    rfl

theorem magnitude?_digits (hne : cs ≠ []) (h : ∀ c ∈ cs, c.isDigit = true) (negative : Bool) :
    magnitude? negative cs = some (scaled negative (digitValues cs) 0) := by
  have hdigits : (digitValues cs).isEmpty = false := by
    rw [List.isEmpty_eq_false_iff, digitValues]
    simpa using hne
  rw [magnitude?, digitRun_digits h]
  simp only [List.append_nil, hdigits, Bool.false_and, if_neg Bool.false_ne_true]
  rfl

theorem isNearest_scaled (negative : Bool) (digits : List ℕ) :
    IsNearest (scaled negative digits 0) (signFactor negative * ofDigits digits) := by
  have hnumber := ofDigits_dropWhile digits
  unfold scaled
  dsimp only
  cases hsignificant : digits.dropWhile (· == 0) with
  | nil =>
    rw [hsignificant] at hnumber
    have hzero := isNearest_ofRatio negative 0 Nat.one_pos
    rw [← hnumber]
    rw [Nat.cast_zero, zero_div] at hzero
    exact hzero
  | cons d rest =>
    have hd : d ≠ 0 := by
      have := List.head?_dropWhile_not (· == 0) digits
      rw [hsignificant] at this
      simpa using this
    rw [hsignificant] at hnumber
    rw [← hnumber, List.isEmpty_cons, if_neg Bool.false_ne_true, zero_add]
    by_cases hlong : ((d :: rest).length : ℤ) > 400
    · -- so many digits are beyond the range of doubles
      have hlength : 400 ≤ rest.length := by
        rw [List.length_cons] at hlong
        omega
      rw [if_pos hlong]
      exact isNearest_infinity negative
        ((limit_le_tenTo.trans (tenTo_le_tenTo hlength)).trans (le_ofDigits hd rest))
    · rw [if_neg hlong, if_neg (by rw [List.length_cons]; omega)]
      have hnearest := isNearest_ofRatio negative (ofDigits (d :: rest)) Nat.one_pos
      rw [Nat.cast_one, div_one] at hnearest
      show IsNearest (ofRatio negative (ofDigits (d :: rest) * 1) 1) _
      rwa [mul_one]

theorem not_isBlank_of_isDigit (h : c.isDigit = true) : isBlank c = false := by
  rw [Char.isDigit, Bool.and_eq_true, decide_eq_true_iff, decide_eq_true_iff] at h
  have hge : 48 ≤ c.toNat := h.1
  have hle : c.toNat ≤ 57 := h.2
  rw [isBlank, if_pos (by omega)]
  simp only [Bool.or_eq_false_iff, Bool.and_eq_false_iff, decide_eq_false_iff_not]
  omega

theorem not_isMargin_of_not_isBlank (h : isBlank c = false) : isMargin c = false := by
  unfold isMargin
  split
  · rename_i hc
    rw [isBlank, if_pos hc] at h
    simp only [Bool.or_eq_false_iff, Bool.and_eq_false_iff, decide_eq_false_iff_not] at h
    have hspace : c ≠ ' ' := by
      rintro rfl
      exact h.2.elim (absurd (by decide)) (absurd (by decide))
    simp only [beq_eq_false_iff_ne.mpr hspace, Bool.false_or, Bool.and_eq_false_iff, decide_eq_false_iff_not]
    exact h.1
  · exact h

theorem core_eq_self {s : List Char} (h : ∀ c ∈ s, isMargin c = false) : core s = s := by
  have hdrop {t : List Char} (ht : ∀ c ∈ t, isMargin c = false) : t.dropWhile isMargin = t := by
    cases t with
    | nil => rfl
    | cons c rest => rw [List.dropWhile_cons_of_neg (by simp [ht c List.mem_cons_self])]
  rw [core, hdrop h, hdrop fun c hc => h c (List.mem_reverse.mp hc), List.reverse_reverse]

theorem toString_ne_nil (n : ℤ) : (toString n).toList ≠ [] := by
  rw [toList_toString_int]
  unfold signed
  split
  · exact List.cons_ne_nil _ _
  · exact digitsOf_ne_nil _

theorem eq_minus_or_isDigit {n : ℤ} (h : c ∈ (toString n).toList) : c = '-' ∨ c.isDigit = true := by
  rw [toList_toString_int] at h
  unfold signed at h
  split at h
  · exact (List.mem_cons.mp h).imp id isDigit_of_mem_digitsOf
  · exact .inr (isDigit_of_mem_digitsOf h)

theorem not_isBlank_of_mem_toString {n : ℤ} (h : c ∈ (toString n).toList) : isBlank c = false := by
  rcases eq_minus_or_isDigit h with rfl | hdigit
  · rfl
  · exact not_isBlank_of_isDigit hdigit

theorem tight_toString (n : ℤ) : Tight (toString n).toList :=
  tight_of_forall (toString_ne_nil n) fun _ => not_isBlank_of_mem_toString

theorem signOf_signed (negative : Bool) (hne : cs ≠ []) (h : ∀ c ∈ cs, c.isDigit = true) :
    signOf (signed negative cs) = (negative, cs) := by
  obtain ⟨d, rest, rfl⟩ := List.exists_cons_of_ne_nil hne
  have hd := h d List.mem_cons_self
  cases negative with
  | true => rfl
  | false =>
    show signOf (d :: rest) = _
    unfold signOf
    split
    · rename_i heq
      obtain ⟨rfl, -⟩ := List.cons.inj heq
      exact absurd hd (by decide)
    · rename_i heq
      obtain ⟨rfl, -⟩ := List.cons.inj heq
      exact absurd hd (by decide)
    · rfl

theorem map_toLower_digits (h : ∀ c ∈ cs, c.isDigit = true) : cs.map Char.toLower = cs := by
  refine (List.map_congr_left fun c hc => ?_).trans (List.map_id cs)
  have hdigit := h c hc
  rw [Char.isDigit, Bool.and_eq_true, decide_eq_true_iff, decide_eq_true_iff] at hdigit
  refine Char.toLower_eq_of_not_isUpper ?_
  rw [Char.isUpper, decide_eq_true_iff]
  rintro ⟨hupper, -⟩
  have hge : 65 ≤ c.toNat := hupper
  have hle : c.toNat ≤ 57 := hdigit.2
  omega

theorem float?_toString (n : ℤ) : ∃ x, float? (toString n).toList = some x ∧ IsNearest x n := by
  have hdigits : ∀ c ∈ digitsOf n.natAbs, c.isDigit = true := fun c => isDigit_of_mem_digitsOf
  have hnearest := isNearest_scaled (n < 0) (digitValues (digitsOf n.natAbs))
  rw [ofDigits_digitsOf, signFactor_mul_natAbs] at hnearest
  refine ⟨_, ?_, hnearest⟩
  have hsign := signOf_signed (n < 0) (digitsOf_ne_nil n.natAbs) hdigits
  have hword (word : String) (hhead : word.toList.head?.any Char.isDigit = false) :
      (String.ofList ((digitsOf n.natAbs).map Char.toLower) == word) = false := by
    refine beq_eq_false_iff_ne.mpr fun heq => ?_
    rw [← heq, String.toList_ofList, map_toLower_digits hdigits] at hhead
    obtain ⟨d, rest, hd⟩ := List.exists_cons_of_ne_nil (digitsOf_ne_nil n.natAbs)
    rw [hd] at hhead hdigits
    exact absurd (hdigits d List.mem_cons_self) (by simpa using hhead)
  unfold float?
  rw [core_eq_self fun c hc => not_isMargin_of_not_isBlank (not_isBlank_of_mem_toString hc), toList_toString_int]
  dsimp only
  rw [hsign]
  dsimp only
  rw [hword "inf" (by decide), hword "infinity" (by decide), hword "nan" (by decide)]
  exact magnitude?_digits (digitsOf_ne_nil _) hdigits _

end Numeral

end Pagewright
