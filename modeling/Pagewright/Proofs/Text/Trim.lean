import Mathlib.Data.List.DropRight
import Pagewright.Text.Scan

/-!
# Trimming

Blanks at the ends of a text are lost when it is trimmed (`trim_gap_append`, `trim_append_gap`), and what
is left is tight: it starts and ends with other characters (`tight_trim`). A tight text is left as it is
(`Tight.trim_eq`).
-/

namespace Pagewright.Text

variable {s a b g : List Char}

/-- A text of blanks alone. -/
def IsGap (s : List Char) : Prop := ∀ c ∈ s, isBlank c = true

/-- A text with characters that neither starts nor ends with a blank. -/
structure Tight (s : List Char) : Prop where
  ne_nil : s ≠ []
  head : ∀ c ∈ s.head?, isBlank c = false
  last : ∀ c ∈ s.getLast?, isBlank c = false

/-! ## Gaps -/

theorem isGap_nil : IsGap [] := by simp [IsGap]

theorem isGap_space : IsGap [' '] := by
  intro c hc
  obtain rfl := List.mem_singleton.mp hc
  decide

theorem trimStart_gap_append (hg : IsGap g) (s : List Char) : trimStart (g ++ s) = trimStart s :=
  List.dropWhile_append_of_pos hg

theorem trimEnd_append_gap (hg : IsGap g) (s : List Char) : trimEnd (s ++ g) = trimEnd s := by
  unfold trimEnd
  rw [List.reverse_append, List.dropWhile_append_of_pos fun c hc => hg c (List.mem_reverse.mp hc)]

theorem trimStart_of_isGap (hg : IsGap g) : trimStart g = [] := by
  simpa [trimStart, IsGap] using hg

theorem trim_gap_append (hg : IsGap g) (s : List Char) : trim (g ++ s) = trim s := by
  rw [trim, trimStart_gap_append hg, trim]

theorem trim_append_gap (hg : IsGap g) (s : List Char) : trim (s ++ g) = trim s := by
  unfold trim
  by_cases h : trimStart s = []
  · have hgap : IsGap s := by simpa [trimStart, IsGap] using h
    rw [trimStart_gap_append hgap, trimStart_of_isGap hg, h]
  · have hne : (List.dropWhile isBlank s).isEmpty = false := by simpa [trimStart] using h
    have happend : trimStart (s ++ g) = trimStart s ++ g := by
      simp only [trimStart, List.dropWhile_append, hne, Bool.false_eq_true, if_false]
    rw [happend, trimEnd_append_gap hg]

/-! ## Tight texts -/

theorem trimStart_eq_self (h : ∀ c ∈ s.head?, isBlank c = false) : trimStart s = s := by
  cases s with
  | nil => rfl
  | cons c rest => simp [trimStart, h c rfl]

theorem trimEnd_eq_self (h : ∀ c ∈ s.getLast?, isBlank c = false) : trimEnd s = s := by
  have hreverse : trimStart s.reverse = s.reverse := trimStart_eq_self (by simpa using h)
  unfold trimEnd
  unfold trimStart at hreverse
  rw [hreverse, List.reverse_reverse]

theorem tight_of_forall (hne : s ≠ []) (h : ∀ c ∈ s, isBlank c = false) : Tight s where
  ne_nil := hne
  head c hc := h c (List.mem_of_head? hc)
  last c hc := h c (List.mem_of_getLast? hc)

theorem Tight.trim_eq (h : Tight s) : trim s = s := by
  rw [trim, trimStart_eq_self h.head, trimEnd_eq_self h.last]

theorem prefix_of_trimEnd (s : List Char) : trimEnd s <+: s := by
  unfold trimEnd
  rw [← List.reverse_suffix, List.reverse_reverse]
  exact List.dropWhile_suffix isBlank

theorem infix_of_trim (s : List Char) : trim s <:+: s :=
  (prefix_of_trimEnd (trimStart s)).isInfix.trans (List.dropWhile_suffix isBlank).isInfix

theorem not_isBlank_of_head?_trimStart {c : Char} (h : c ∈ (trimStart s).head?) : isBlank c = false := by
  have hnot := List.head?_dropWhile_not isBlank s
  unfold trimStart at h
  rw [Option.mem_def.mp h] at hnot
  exact hnot

theorem not_isBlank_of_getLast?_trimEnd {c : Char} (h : c ∈ (trimEnd s).getLast?) :
    isBlank c = false := by
  unfold trimEnd at h
  rw [List.getLast?_reverse] at h
  exact not_isBlank_of_head?_trimStart (s := s.reverse) h

theorem tight_trim (h : trim s ≠ []) : Tight (trim s) where
  ne_nil := h
  head := by
    intro c hc
    obtain ⟨rest, hrest⟩ := prefix_of_trimEnd (trimStart s)
    have hhead : c ∈ (trimStart s).head? := by
      rw [← hrest]
      exact List.mem_head?_append_of_mem_head? hc
    exact not_isBlank_of_head?_trimStart hhead
  last := fun _ hc => not_isBlank_of_getLast?_trimEnd hc

@[simp] theorem trim_trim (s : List Char) : trim (trim s) = trim s := by
  by_cases h : trim s = []
  · rw [h]
    rfl
  · exact (tight_trim h).trim_eq

theorem Tight.append (ha : Tight a) (hb : Tight b) (m : List Char) : Tight (a ++ m ++ b) where
  ne_nil := by simp [ha.ne_nil]
  head := by
    obtain ⟨c, rest, rfl⟩ := List.exists_cons_of_ne_nil ha.ne_nil
    simpa using ha.head
  last := by
    rw [List.getLast?_append_of_ne_nil _ hb.ne_nil]
    exact hb.last

theorem Tight.trim_append (hs : Tight s) (a : List Char) : trim (a ++ s) = trimStart a ++ s := by
  have hstart : trimStart (a ++ s) = trimStart a ++ s := by
    unfold trimStart
    rw [List.dropWhile_append]
    split
    · rename_i hnil
      rw [List.isEmpty_iff.mp hnil, List.nil_append]
      exact trimStart_eq_self hs.head
    · rfl
  rw [trim, hstart]
  refine trimEnd_eq_self ?_
  rw [List.getLast?_append_of_ne_nil _ hs.ne_nil]
  exact hs.last

theorem trim_eq_nil_iff : trim s = [] ↔ IsGap s := by
  constructor
  · intro h
    by_contra hgap
    have hne : trimStart s ≠ [] := by simpa [trimStart, IsGap] using hgap
    obtain ⟨c, rest, hs⟩ := List.exists_cons_of_ne_nil hne
    have hc : isBlank c = false := not_isBlank_of_head?_trimStart (s := s) (by simp [hs])
    -- The first character that is not blank stops trimming from the end.
    have hend : ∀ x ∈ (c :: rest).reverse, isBlank x = true := by
      simpa [trim, trimEnd, hs] using h
    exact absurd (hend c (by simp)) (by simp [hc])
  · intro h
    rw [trim, trimStart_of_isGap h]
    rfl

theorem exists_gap_trimEnd (s : List Char) : ∃ h, IsGap h ∧ s = trimEnd s ++ h :=
  ⟨(s.reverse.takeWhile isBlank).reverse, fun _ hc => List.mem_takeWhile_imp (List.mem_reverse.mp hc), by
    rw [trimEnd, ← List.reverse_append, List.takeWhile_append_dropWhile, List.reverse_reverse]⟩

theorem exists_gaps (s : List Char) : ∃ g h, IsGap g ∧ IsGap h ∧ s = g ++ trim s ++ h := by
  obtain ⟨h, hh, hend⟩ := exists_gap_trimEnd (trimStart s)
  refine ⟨s.takeWhile isBlank, h, fun c hc => List.mem_takeWhile_imp hc, hh, ?_⟩
  rw [List.append_assoc, trim, ← hend]
  exact (List.takeWhile_append_dropWhile).symm

theorem not_mem_of_trim {x : Char} (hx : isBlank x = false) (h : x ∉ trim s) : x ∉ s := by
  obtain ⟨g, k, hg, hk, hs⟩ := exists_gaps s
  rw [hs]
  simp only [List.mem_append, not_or]
  exact ⟨⟨fun hmem => absurd (hg x hmem) (by simp [hx]), h⟩, fun hmem => absurd (hk x hmem) (by simp [hx])⟩

theorem isBlankText_iff (s : String) : isBlankText s = true ↔ trim s.toList = [] := by
  rw [trim_eq_nil_iff]
  simp [isBlankText, IsGap]

end Pagewright.Text
