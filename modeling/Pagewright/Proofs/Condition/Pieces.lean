import Pagewright.Condition.Reader
import Pagewright.Proofs.Text.Split
import Pagewright.Proofs.Text.Trim

/-!
# The pieces of a condition text

A condition text is cut at its operators, and the pieces are trimmed. So blanks around an operator make no
difference (`splitAt_gap_append`, `splitAt_append_gap`), and a text built with operators between its parts
is cut into the pieces of the parts (`splitAt_append`, `splitAt_join`, `splitAt_spaced`). A piece is cut no
further (`splitAt_of_mem`).
-/

namespace Pagewright.Condition

open Pagewright.Text

variable {c : Char} {s a b g p : List Char} {ps : List (List Char)}

theorem not_mem_of_isGap (hc : isBlank c = false) (hg : IsGap g) : c ∉ g := by
  intro h
  simp [hg c h] at hc

theorem map_trim_modifyLast (hg : IsGap g) (ps : List (List Char)) :
    (ps.modifyLast (· ++ g)).map trim = ps.map trim := by
  rcases List.eq_nil_or_concat ps with rfl | ⟨qs, q, rfl⟩
  · rfl
  · rw [List.concat_eq_append, List.modifyLast_concat]
    simp [trim_append_gap hg]

theorem map_trim_modifyHead (hg : IsGap g) (ps : List (List Char)) :
    (ps.modifyHead (g ++ ·)).map trim = ps.map trim := by
  cases ps with
  | nil => rfl
  | cons q qs => simp [trim_gap_append hg]

theorem splitAt_append_gap (hc : isBlank c = false) (hg : IsGap g) (s : List Char) :
    splitAt [c, c] (s ++ g) = splitAt [c, c] s := by
  unfold splitAt
  rw [splitOn_append_of_not_mem (not_mem_of_isGap hc hg), map_trim_modifyLast hg]

theorem splitAt_gap_append (hc : isBlank c = false) (hg : IsGap g) (s : List Char) :
    splitAt [c, c] (g ++ s) = splitAt [c, c] s := by
  unfold splitAt
  rw [splitOn_append_left_of_not_mem (not_mem_of_isGap hc hg), map_trim_modifyHead hg]

theorem splitAt_trim (hc : isBlank c = false) (s : List Char) :
    splitAt [c, c] (trim s) = splitAt [c, c] s := by
  obtain ⟨g, h, hg, hh, hs⟩ := exists_gaps s
  conv_rhs => rw [hs, splitAt_append_gap hc hh, splitAt_gap_append hc hg]

/-- With an operator between them, two texts have the pieces of both. -/
theorem splitAt_append (h : a.getLast? ≠ some c) (b : List Char) :
    splitAt [c, c] (a ++ c :: c :: b) = splitAt [c, c] a ++ splitAt [c, c] b := by
  unfold splitAt
  rw [splitOn_append h, List.map_append, List.filter_append]

/-- With a blank on both sides of it, an operator stands between any two texts. -/
theorem splitAt_spaced (hc : isBlank c = false) (a b : List Char) :
    splitAt [c, c] (a ++ ' ' :: c :: c :: ' ' :: b) = splitAt [c, c] a ++ splitAt [c, c] b := by
  have hlast : (a ++ [' ']).getLast? ≠ some c := by
    rw [List.getLast?_append_of_ne_nil _ (by simp)]
    intro hspace
    obtain rfl : ' ' = c := by simpa using hspace
    exact absurd hc (by decide)
  have happend := splitAt_append hlast (' ' :: b)
  rw [splitAt_append_gap hc isGap_space] at happend
  rw [← splitAt_gap_append hc isGap_space b, List.singleton_append, ← happend]
  simp

theorem splitAt_join (h : ∀ p ∈ ps, p.getLast? ≠ some c) :
    splitAt [c, c] (join [c, c] ps) = ps.flatMap (splitAt [c, c]) := by
  fun_induction join [c, c] ps with
  | case1 => rfl
  | case2 s => simp
  | case3 s rest hne ih =>
    rw [List.append_assoc, List.cons_append, List.cons_append, List.nil_append,
      splitAt_append (h s (by simp)), ih fun p hp => h p (List.mem_cons_of_mem _ hp),
      List.flatMap_cons]

theorem splitAt_join_spaced (hc : isBlank c = false) (ps : List (List Char)) :
    splitAt [c, c] (join [' ', c, c, ' '] ps) = ps.flatMap (splitAt [c, c]) := by
  fun_induction join [' ', c, c, ' '] ps with
  | case1 => rfl
  | case2 s => simp
  | case3 s rest hne ih =>
    have hspaced := splitAt_spaced hc s (join [' ', c, c, ' '] rest)
    rw [ih] at hspaced
    simpa using hspaced

theorem splitAt_eq_singleton (hoperator : ¬ [c, c] <:+: s) (hne : trim s ≠ []) :
    splitAt [c, c] s = [trim s] := by
  have hnonempty : (trim s).isEmpty = false := by simpa using hne
  unfold splitAt
  simp [splitOn_eq_singleton hoperator, hnonempty]

theorem tight_of_mem_splitAt (h : p ∈ splitAt [c, c] s) : Tight p := by
  obtain ⟨hp, hne⟩ := List.mem_filter.mp h
  obtain ⟨q, -, rfl⟩ := List.mem_map.mp hp
  exact tight_trim (by simpa using hne)

theorem not_operator_infix_of_mem_splitAt (h : p ∈ splitAt [c, c] s) : ¬ [c, c] <:+: p := by
  obtain ⟨q, hq, rfl⟩ := List.mem_map.mp (List.mem_filter.mp h).1
  intro hinside
  exact not_operator_infix_of_mem_splitOn hq (hinside.trans (infix_of_trim q))

/-- A piece is cut no further. -/
theorem splitAt_of_mem (h : p ∈ splitAt [c, c] s) : splitAt [c, c] p = [p] := by
  have htight := tight_of_mem_splitAt h
  rw [splitAt_eq_singleton (not_operator_infix_of_mem_splitAt h) (by simpa [htight.trim_eq] using
    htight.ne_nil), htight.trim_eq]

theorem flatMap_splitAt_of_forall (h : ∀ p ∈ ps, splitAt [c, c] p = [p]) :
    ps.flatMap (splitAt [c, c]) = ps := by
  induction ps with
  | nil => rfl
  | cons p ps ih =>
    rw [List.flatMap_cons, h p (by simp), ih fun q hq => h q (List.mem_cons_of_mem _ hq)]
    rfl

end Pagewright.Condition
