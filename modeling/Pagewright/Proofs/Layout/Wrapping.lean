import Mathlib.Data.List.Forall2
import Pagewright.Proofs.Layout.Paragraphs
import Pagewright.Proofs.Layout.Rows

/-!
# What wrapping does to a text

Wrapping makes one block of lines of each paragraph and puts an empty line between blocks. It loses no text
(`Wrap.linesIn_keeps`): without spaces, a block is its paragraph without blanks, and a word that is short
enough for a line is on one line.

It does not always keep to the width. A word that is too long for a line is cut only where no line is under
way. Behind a word that is short enough it is set whole, and the lines that are too long are exactly these
words (`Wrap.linesIn_overfull`).
-/

namespace Pagewright.Wrap

open Pagewright.Text

variable {width : Float} {n : ℤ} {limit : ℕ} {s : List Char} {text : String}

/-! ## Blocks -/

theorem withGaps_eq (blocks : List (List (List Char))) : withGaps blocks = [[]].intercalate blocks := by
  fun_induction withGaps blocks with
  | case1 => rfl
  | case2 block => exact List.intercalate_singleton.symm
  | case3 block rest hne ih =>
    obtain ⟨next, rest, rfl⟩ := List.exists_cons_of_ne_nil hne
    rw [ih, List.intercalate_cons_cons]
    simp

/-- The empty lines between blocks do not count where empty lines do not. -/
theorem filter_withGaps {p : List Char → Bool} (hp : p [] = false) (blocks : List (List (List Char))) :
    (withGaps blocks).filter p = blocks.flatten.filter p := by
  fun_induction withGaps blocks with
  | case1 => rfl
  | case2 block => simp
  | case3 block rest hne ih => simp [hp, ih]

theorem limitOf_eq (hwidth : Binary64.floor? width = some n) (hlimit : (limit : ℤ) = max 1 n) :
    limitOf width = .ok limit := by
  have hmax : max 1 n.toNat = limit := by omega
  unfold limitOf
  rw [hwidth]
  show Except.ok (max 1 n.toNat) = .ok limit
  rw [hmax]

theorem linesIn_eq (hwidth : Binary64.floor? width = some n) (hlimit : (limit : ℤ) = max 1 n) (text : String) :
    linesIn width text = .ok ((lines limit text.toList).map String.ofList) := by
  unfold linesIn
  split
  · rename_i hempty
    obtain rfl : text = "" := by simpa using hempty
    rfl
  · rw [limitOf_eq hwidth hlimit]
    rfl

theorem lines_of_ne_nil (hs : s ≠ []) : lines limit s = withGaps ((paragraphs s).map (paragraphLines limit)) := by
  rw [lines, if_neg (by simpa using hs)]

/-! ## Lines that are too long -/

/-- The words of a paragraph that are too long for a line and come behind one that is not. -/
def lateWords (limit : ℕ) (s : List Char) : List (List Char) :=
  ((words s).dropWhile (limit < ·.length)).filter (limit < ·.length)

/-- No word comes late if none that is too long comes behind one that is not. -/
theorem lateWords_eq_nil_iff :
    lateWords limit s = [] ↔ (words s).Pairwise fun v w => v.length ≤ limit → w.length ≤ limit := by
  unfold lateWords
  generalize words s = ws
  induction ws with
  | nil => simp
  | cons w ws ih =>
    rw [List.pairwise_cons]
    by_cases hw : limit < w.length
    · rw [List.dropWhile_cons_of_pos (by simpa using hw), ih]
      refine ⟨fun h => ⟨fun v _ hle => absurd hle (Nat.not_le.mpr hw), h⟩, fun h => h.2⟩
    · rw [List.dropWhile_cons_of_neg (by simpa using hw), List.filter_cons_of_neg (by simpa using hw),
        List.filter_eq_nil_iff]
      simp only [decide_eq_true_eq, Nat.not_lt] at hw ⊢
      constructor
      · intro h
        refine ⟨fun v hv _ => h v hv, ih.mp (List.filter_eq_nil_iff.mpr fun v hv => ?_)⟩
        simpa using h v ((List.dropWhile_sublist _).mem hv)
      · intro h v hv
        exact h.1 v hv hw

theorem filter_lines (hlimit : 0 < limit) (s : List Char) :
    (lines limit s).filter (limit < ·.length) = (paragraphs s).flatMap (lateWords limit) := by
  by_cases hs : s = []
  · subst hs
    rfl
  · rw [lines_of_ne_nil hs, filter_withGaps (by simp), List.filter_flatten, List.map_map, ← List.flatMap_def]
    refine List.flatMap_congr fun p _ => ?_
    rw [Function.comp_apply, paragraphLines_eq, filter_rowsOf hlimit]
    rfl

/-- The lines of a text that are too long for the width are the words that are too long and come behind one
that is not, in the same paragraph. So the lines keep to the width just when no paragraph has such a word. -/
theorem linesIn_overfull (hwidth : Binary64.floor? width = some n) (hlimit : (limit : ℤ) = max 1 n)
    (text : String) :
    ∃ ls, linesIn width text = .ok ls ∧
      (ls.map String.toList).filter (limit < ·.length) =
        (paragraphs text.toList).flatMap (lateWords limit) ∧
      ((∀ l ∈ ls, l.length ≤ limit) ↔ ∀ p ∈ paragraphs text.toList,
        (words p).Pairwise fun v w => v.length ≤ limit → w.length ≤ limit) := by
  have hlong := filter_lines (s := text.toList) (by omega : 0 < limit)
  refine ⟨_, linesIn_eq hwidth hlimit text, ?_, ?_⟩
  · rw [← hlong, List.map_map]
    simp [Function.comp_def]
  · have hfits : (∀ l ∈ (lines limit text.toList).map String.ofList, l.length ≤ limit) ↔
        (lines limit text.toList).filter (limit < ·.length) = [] := by
      simp [List.filter_eq_nil_iff]
    rw [hfits, hlong, List.flatMap_eq_nil_iff]
    exact forall₂_congr fun p _ => lateWords_eq_nil_iff

/-- Behind a short word, a long one is set whole on lines of four. -/
theorem linesIn_overfull_wordBehind :
    ∃ ls, linesIn 4 "aaa bbbbbbbbbb" = .ok ls ∧
      (ls.map String.toList).filter (4 < ·.length) = ["bbbbbbbbbb".toList] ∧ ¬ ∀ l ∈ ls, l.length ≤ 4 := by
  have hwidth : Binary64.floor? 4 = some 4 := by decide
  have hlimit : ((4 : ℕ) : ℤ) = max 1 4 := rfl
  obtain ⟨ls, hls, hlong, hfit⟩ := linesIn_overfull hwidth hlimit "aaa bbbbbbbbbb"
  exact ⟨ls, hls, hlong, fun h => absurd (hfit.mp h) (by decide)⟩

/-- Lines do not always keep to the width. -/
theorem not_linesIn_fits_wordBehind :
    ¬ ∀ (width : Float) (n : ℤ) (text : String) (ls : List String), Binary64.floor? width = some n →
      linesIn width text = .ok ls → ∀ l ∈ ls, (l.length : ℤ) ≤ max 1 n := by
  intro h
  have hwidth : Binary64.floor? 4 = some 4 := by decide
  have hlimit : ((4 : ℕ) : ℤ) = max 1 4 := rfl
  have hfits := h 4 4 _ _ hwidth (linesIn_eq hwidth hlimit "aaa bbbbbbbbbb")
  exact absurd hfits (by decide)

/-! ## What is kept -/

/-- What a block of lines keeps of its paragraph. Its lines are words with single spaces between them;
without spaces they are the paragraph without blanks; and a word that fits on a line is on one of them. -/
structure IsBlock (limit : ℕ) (paragraph : List Char) (block : List (List Char)) : Prop where
  tidy : ∀ l ∈ block, l ≠ [] ∧ Clear ' ' l
  text : block.flatten.filter (· ≠ ' ') = paragraph.filter (!isBlank ·)
  whole : ∀ w ∈ words paragraph, w.length ≤ limit → ∃ l ∈ block, w ∈ words l

theorem isBlock_paragraphLines (limit : ℕ) (s : List Char) : IsBlock limit s (paragraphLines limit s) := by
  have hrows {r : List (List Char)} (hr : r ∈ rowsOf limit (words s)) : r ≠ [] ∧ ∀ w ∈ r, IsWord w :=
    isWord_of_mem_rowsOf (fun _ => isWord_of_mem_words) hr
  rw [paragraphLines_eq]
  constructor
  case tidy =>
    intro l hl
    obtain ⟨r, hr, rfl⟩ := List.mem_map.mp hl
    obtain ⟨hne, hwords⟩ := hrows hr
    exact ⟨spaced_ne_nil hne hwords, clear_spaced hwords⟩
  case text =>
    have hspaces : ((rowsOf limit (words s)).map spaced).map (List.filter (· ≠ ' ')) =
        (rowsOf limit (words s)).map List.flatten := by
      rw [List.map_map]
      exact List.map_congr_left fun r hr => filter_spaced (hrows hr).2
    rw [List.filter_flatten, hspaces, ← List.flatten_flatten, flatten_flatten_rowsOf, flatten_words]
  case whole =>
    intro w hw hshort
    obtain ⟨r, hr, hwr⟩ := exists_mem_rowsOf hw hshort
    refine ⟨spaced r, List.mem_map.mpr ⟨r, hr, rfl⟩, ?_⟩
    rwa [words_spaced (hrows hr).2]

/-- A text is wrapped to one block for each of its paragraphs, with an empty line between blocks. -/
theorem linesIn_keeps (hwidth : Binary64.floor? width = some n) (hlimit : (limit : ℤ) = max 1 n)
    (htext : text ≠ "") :
    ∃ ls pieces blocks, linesIn width text = .ok ls ∧ CutAtBreaks text.toList pieces ∧
      ls.map String.toList = [[]].intercalate blocks ∧ List.Forall₂ (IsBlock limit) pieces blocks := by
  refine ⟨_, _, (paragraphs text.toList).map (paragraphLines limit), linesIn_eq hwidth hlimit text,
    cutAtBreaks_paragraphs text.toList, ?_, ?_⟩
  · rw [← withGaps_eq, ← lines_of_ne_nil (by simpa using htext), List.map_map]
    simp [Function.comp_def]
  · refine List.forall₂_map_right_iff.mpr (List.forall₂_same.mpr fun p _ => ?_)
    exact isBlock_paragraphLines limit p

/-- Two paragraphs on lines of four, the first with a word that is too long. -/
theorem linesIn_keeps_twoParagraphs :
    ∃ ls pieces blocks, linesIn 4 "a fountain pen\n\nink" = .ok ls ∧
      CutAtBreaks "a fountain pen\n\nink".toList pieces ∧
      ls.map String.toList = [[]].intercalate blocks ∧ List.Forall₂ (IsBlock 4) pieces blocks :=
  linesIn_keeps (n := 4) (by decide) rfl (by decide)

end Pagewright.Wrap
