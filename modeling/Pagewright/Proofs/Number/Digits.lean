import Mathlib.Algebra.Order.Ring.Nat
import Mathlib.Data.List.DropRight
import Mathlib.Tactic.Ring
import Pagewright.Json.Reader
import Pagewright.Number.Decimal

/-!
# Digits of whole numbers

The digits that are written for a whole number spell it (`Json.ofDigits_digitsOf`), and the first of them is not
zero unless the number is (`Decimal.head?_digitsOf`). Zeros in front of digits say nothing, zeros behind them are
powers of ten (`Numeral.ofDigits_append`).
-/

namespace Pagewright

namespace Numeral

variable {ds es : List ℕ}

theorem foldl_eq (ds : List ℕ) (n : ℕ) :
    ds.foldl (fun n d => 10 * n + d) n = n * 10 ^ ds.length + ofDigits ds := by
  induction ds generalizing n with
  | nil => simp [ofDigits]
  | cons d rest ih =>
    rw [ofDigits, List.foldl_cons, List.foldl_cons, ih, ih, List.length_cons, pow_succ]
    ring

theorem ofDigits_append (ds es : List ℕ) : ofDigits (ds ++ es) = ofDigits ds * 10 ^ es.length + ofDigits es := by
  rw [ofDigits, List.foldl_append, foldl_eq]
  rfl

theorem ofDigits_cons (d : ℕ) (ds : List ℕ) : ofDigits (d :: ds) = d * 10 ^ ds.length + ofDigits ds := by
  rw [← List.singleton_append, ofDigits_append]
  simp [ofDigits]

@[simp] theorem ofDigits_replicate_zero (n : ℕ) : ofDigits (List.replicate n 0) = 0 := by
  induction n with
  | zero => rfl
  | succ n ih => rw [List.replicate_succ, ofDigits_cons, ih, zero_mul]

theorem ofDigits_dropWhile (ds : List ℕ) : ofDigits (ds.dropWhile (· == 0)) = ofDigits ds := by
  induction ds with
  | nil => rfl
  | cons d rest ih =>
    by_cases h : d = 0
    · subst h
      rw [List.dropWhile_cons_of_pos rfl, ih, ofDigits_cons, zero_mul, zero_add]
    · rw [List.dropWhile_cons_of_neg (by simpa using h)]

theorem ofDigits_lt (h : ∀ d ∈ ds, d < 10) : ofDigits ds < 10 ^ ds.length := by
  induction ds with
  | nil => exact Nat.one_pos
  | cons d rest ih =>
    obtain ⟨hd, hrest⟩ := List.forall_mem_cons.mp h
    rw [ofDigits_cons, List.length_cons, pow_succ]
    have hlt := ih hrest
    have hle := Nat.mul_le_mul_right (10 ^ rest.length) (Nat.le_of_lt_succ hd)
    omega

theorem le_ofDigits {d : ℕ} (hd : d ≠ 0) (ds : List ℕ) : 10 ^ ds.length ≤ ofDigits (d :: ds) := by
  rw [ofDigits_cons]
  have := Nat.mul_le_mul_right (10 ^ ds.length) (Nat.one_le_iff_ne_zero.mpr hd)
  omega

end Numeral

namespace Decimal

theorem digitsOf_of_lt {n : ℕ} (h : n < 10) : digitsOf n = [n.digitChar] := Nat.toDigits_of_lt_base h

theorem digitsOf_of_le {n : ℕ} (h : 10 ≤ n) : digitsOf n = digitsOf (n / 10) ++ [(n % 10).digitChar] :=
  Nat.toDigits_of_base_le (by decide) h

theorem digitsOf_ne_nil (n : ℕ) : digitsOf n ≠ [] := Nat.toDigits_ne_nil

theorem isDigit_of_mem_digitsOf {n : ℕ} {c : Char} (h : c ∈ digitsOf n) : c.isDigit = true :=
  Nat.isDigit_of_mem_toDigits (by decide) (by decide) h

theorem head?_digitsOf {n : ℕ} (h : 0 < n) : (digitsOf n).head? ≠ some '0' := by
  induction n using Nat.strongRecOn with
  | ind n ih =>
    rcases Nat.lt_or_ge n 10 with hn | hn
    · rw [digitsOf_of_lt hn, List.head?_cons, Ne, Option.some.injEq, Nat.digitChar_eq_zero]
      exact h.ne'
    · rw [digitsOf_of_le hn, List.head?_append_of_ne_nil _ (digitsOf_ne_nil _)]
      exact ih (n / 10) (by omega) (by omega)

end Decimal

namespace Json

theorem digitValues_append (a b : List Char) : digitValues (a ++ b) = digitValues a ++ digitValues b :=
  List.map_append

theorem lt_of_mem_digitValues {cs : List Char} (h : ∀ c ∈ cs, c.isDigit = true) : ∀ d ∈ digitValues cs, d < 10 := by
  intro d hd
  obtain ⟨c, hc, rfl⟩ := List.mem_map.mp hd
  have hdigit := h c hc
  rw [Char.isDigit, Bool.and_eq_true, decide_eq_true_iff, decide_eq_true_iff] at hdigit
  have hle : c.toNat ≤ 57 := hdigit.2
  omega

theorem ofDigits_digitsOf (n : ℕ) : Numeral.ofDigits (digitValues (Decimal.digitsOf n)) = n := by
  induction n using Nat.strongRecOn with
  | ind n ih =>
    rcases Nat.lt_or_ge n 10 with hn | hn
    · rw [Decimal.digitsOf_of_lt hn]
      simp [digitValues, Numeral.ofDigits, Nat.toNat_digitChar_sub_48_of_lt_ten hn]
    · rw [Decimal.digitsOf_of_le hn, digitValues_append, Numeral.ofDigits_append, ih (n / 10) (by omega)]
      have hlast : n % 10 < 10 := Nat.mod_lt n (by decide)
      simp [digitValues, Numeral.ofDigits, Nat.toNat_digitChar_sub_48_of_lt_ten hlast]
      omega

end Json

end Pagewright
