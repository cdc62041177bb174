import Pagewright.Layout.FlowPages
import Pagewright.Proofs.Layout.Wrapping
import Pagewright.Proofs.Outcome

/-!
# The lines of flowing text

Wrapped lines hold no line break (`Wrap.newline_not_mem_linesIn`), so the lines of a column are read back
from its text (`FlowPages.textLines_intercalate`). Columns and pages cut the lines into runs, in order and
without a gap: put together again, the columns of all pages have the lines of the text
(`FlowPages.lines_pagesOf`), and none has more than it has room for
(`FlowPages.length_textLines_le`). Lines without characters do not count, since a column without lines
reads as one of them.
-/

namespace Pagewright

/-! ## Wrapping -/

namespace Wrap

open Pagewright.Text

theorem isBlank_newline : isBlank '\n' = true := by decide

theorem newline_not_mem_paragraphLines {limit : ℕ} {s l : List Char} (hl : l ∈ paragraphLines limit s) :
    '\n' ∉ l := by
  intro hc
  rw [paragraphLines_eq] at hl
  obtain ⟨r, hr, rfl⟩ := List.mem_map.mp hl
  obtain ⟨-, hwords⟩ := isWord_of_mem_rowsOf (fun _ => isWord_of_mem_words) hr
  have hflatten : '\n' ∈ r.flatten := by
    rw [← filter_spaced hwords]
    exact List.mem_filter.mpr ⟨hc, by decide⟩
  obtain ⟨w, hw, hc⟩ := List.mem_flatten.mp hflatten
  have hletter := (hwords w hw).not_isBlank '\n' hc
  simp [isBlank_newline] at hletter

theorem newline_not_mem_linesIn {width : Float} {text : String} {ls : List String}
    (h : linesIn width text = .ok ls) : ∀ l ∈ ls, '\n' ∉ l.toList := by
  intro l hl
  unfold linesIn at h
  split at h
  · simp only [Except.ok.injEq] at h
    simp [← h] at hl
  · simp only [Outcome.bind_eq_ok, Outcome.pure_eq_ok, Except.ok.injEq] at h
    obtain ⟨limit, -, rfl⟩ := h
    obtain ⟨chars, hchars, rfl⟩ := List.mem_map.mp hl
    rw [String.toList_ofList]
    unfold lines at hchars
    split at hchars
    · simp at hchars
    · rcases eq_or_ne chars [] with rfl | hne
      · simp
      · -- Only lines between blocks are empty.
        have hshown := List.mem_filter (p := fun l => !l.isEmpty).mpr ⟨hchars, by simpa using hne⟩
        rw [filter_withGaps (by simp)] at hshown
        obtain ⟨block, hblock, hchars⟩ := List.mem_flatten.mp (List.mem_filter.mp hshown).1
        obtain ⟨paragraph, -, rfl⟩ := List.mem_map.mp hblock
        exact newline_not_mem_paragraphLines hchars

theorem limitOf_pos {width : Float} {limit : ℕ} (h : limitOf width = .ok limit) : 0 < limit := by
  unfold limitOf at h
  split at h
  · simp only [Except.ok.injEq] at h
    omega
  · simp [undefinedOn] at h

end Wrap

/-! ## Columns and pages -/

namespace FlowPages

/-- The lines that a text is set in. -/
def textLines (s : String) : List String := (s.toList.splitOn '\n').map String.ofList

/-- The lines with characters. -/
def visibleLines (ls : List String) : List String := ls.filter (· ≠ "")

@[simp] theorem visibleLines_append (ls ms : List String) :
    visibleLines (ls ++ ms) = visibleLines ls ++ visibleLines ms := by
  simp [visibleLines]

theorem textLines_intercalate {ls : List String} (hne : ls ≠ []) (h : ∀ l ∈ ls, '\n' ∉ l.toList) :
    textLines ("\n".intercalate ls) = ls := by
  have hbreak : ∀ l ∈ ls.map String.toList, '\n' ∉ l := by simpa using h
  unfold textLines
  rw [String.toList_intercalate]
  have hsep : "\n".toList = ['\n'] := rfl
  rw [hsep, List.splitOn_intercalate '\n' hbreak (by simpa using hne)]
  simp [Function.comp_def]

theorem visibleLines_textLines_intercalate {ls : List String} (h : ∀ l ∈ ls, '\n' ∉ l.toList) :
    visibleLines (textLines ("\n".intercalate ls)) = visibleLines ls := by
  by_cases hne : ls = []
  · subst hne
    decide
  · rw [textLines_intercalate hne h]

theorem visibleLines_columnsOf (columns linesPerColumn : ℕ) {ls : List String}
    (h : ∀ l ∈ ls, '\n' ∉ l.toList) :
    visibleLines ((columnsOf columns linesPerColumn ls).flatMap textLines) =
      visibleLines (ls.take (columns * linesPerColumn)) := by
  induction columns with
  | zero => simp [columnsOf]
  | succ n ih =>
    have hslice : ∀ l ∈ (ls.drop (n * linesPerColumn)).take linesPerColumn, '\n' ∉ l.toList :=
      fun l hl => h l (List.mem_of_mem_drop (List.mem_of_mem_take hl))
    unfold columnsOf at ih ⊢
    rw [List.range_succ, List.map_append, List.flatMap_append, visibleLines_append, ih,
      Nat.succ_mul, List.take_add, visibleLines_append]
    simp [visibleLines_textLines_intercalate hslice]

/-- The columns of all pages have the lines of the text, in their order. -/
theorem lines_pagesOf {columns linesPerColumn : ℕ} (hcolumns : 0 < columns) (hroom : 0 < linesPerColumn)
    {ls : List String} (h : ∀ l ∈ ls, '\n' ∉ l.toList) :
    visibleLines ((pagesOf columns linesPerColumn ls).flatten.flatMap textLines) = visibleLines ls := by
  unfold pagesOf
  split
  · rename_i hempty
    obtain rfl : ls = [] := List.isEmpty_iff.mp hempty
    decide
  · have hpieces : ∀ piece ∈ chunks (linesPerColumn * columns) ls,
        visibleLines ((columnsOf columns linesPerColumn piece).flatMap textLines) =
          visibleLines piece := by
      intro piece hpiece
      rw [visibleLines_columnsOf columns linesPerColumn fun l hl =>
        h l (mem_of_mem_chunks hpiece hl), List.take_of_length_le]
      rw [Nat.mul_comm]
      exact length_le_of_mem_chunks (Nat.mul_pos hroom hcolumns) hpiece
    conv_rhs => rw [← flatten_chunks (linesPerColumn * columns) ls]
    generalize chunks (linesPerColumn * columns) ls = pieces at hpieces ⊢
    induction pieces with
    | nil => rfl
    | cons piece rest ih =>
      simp only [List.map_cons, List.flatten_cons, List.flatMap_append, visibleLines_append,
        hpieces piece (by simp), ih fun p hp => hpieces p (List.mem_cons_of_mem _ hp)]

theorem length_textLines_le {columns linesPerColumn : ℕ} (hroom : 0 < linesPerColumn)
    {ls : List String} (h : ∀ l ∈ ls, '\n' ∉ l.toList) :
    ∀ page ∈ pagesOf columns linesPerColumn ls, ∀ column ∈ page,
      (textLines column).length ≤ linesPerColumn := by
  have hempty : (textLines "").length ≤ linesPerColumn := by
    have : (textLines "").length = 1 := by decide
    omega
  intro page hpage column hcolumn
  unfold pagesOf at hpage
  split at hpage
  · simp only [List.mem_singleton] at hpage
    subst hpage
    simp only [List.mem_singleton] at hcolumn
    subst hcolumn
    exact hempty
  · obtain ⟨piece, hpiece, rfl⟩ := List.mem_map.mp hpage
    simp only [columnsOf, List.mem_map] at hcolumn
    obtain ⟨c, -, rfl⟩ := hcolumn
    by_cases hne : (piece.drop (c * linesPerColumn)).take linesPerColumn = []
    · rw [hne]
      exact hempty
    · rw [textLines_intercalate hne fun l hl =>
        h l (mem_of_mem_chunks hpiece (List.mem_of_mem_drop (List.mem_of_mem_take hl)))]
      simp only [List.length_take]
      omega

end FlowPages

end Pagewright
