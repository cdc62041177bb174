import Mathlib.Data.List.Chain
import Pagewright.Proofs.Layout.Wrapping

/-!
# Wrapping takes the fewest lines

Words are set greedily, and no other way to set them takes fewer lines. A row that is full holds all that a
line can hold, so whatever lines the words are broken into, the rows stay ahead of them
(`Wrap.length_le_of_covers`): if the rest of the rows has no more words than the rest of the lines, this is
so behind the next row and the next line as well.
-/

namespace Pagewright.Wrap

open Pagewright.Text

variable {width : Float} {n : ℤ} {limit : ℕ} {s : List Char} {text : String}
variable {row line : List (List Char)} {rows others : List (List (List Char))}

/-- A row that is full cannot be part of a line that goes on with the next word. -/
theorem IsFull.not_infix {next : List (List Char)} {w : List Char} {ws : List (List Char)}
    (hfull : IsFull limit row next) (hrow : row ≠ []) (hw : next.head? = some w) (hfits : (spaced line).length ≤ limit) :
    ¬ row ++ w :: ws <:+: line := by
  intro hpart
  obtain ⟨w', hw', hlong⟩ := hfull
  obtain rfl : w = w' := Option.some.inj (hw.symm.trans hw')
  have hline := length_spaced_le_of_infix hpart
  have hsplit := length_spaced_append hrow (List.cons_ne_nil w ws)
  have hword : (spaced [w]).length ≤ (spaced (w :: ws)).length :=
    length_spaced_le_of_infix (List.prefix_append [w] ws).isInfix
  rw [spaced_singleton] at hword
  omega

/-- Full rows are at most as many as any lines that have their words among others in front. -/
theorem length_le_of_covers (hrows : ∀ r ∈ rows, r ≠ []) (hfull : rows.IsChain (IsFull limit))
    (hfits : ∀ l ∈ others, (spaced l).length ≤ limit) (hcovers : rows.flatten <:+ others.flatten) :
    rows.length ≤ others.length := by
  induction others generalizing rows with
  | nil =>
    have hnone : rows.flatten = [] := List.suffix_nil.mp hcovers
    rcases rows with _ | ⟨row, rows⟩
    · exact Nat.le_refl _
    · rw [List.flatten_cons, List.append_eq_nil_iff] at hnone
      exact absurd hnone.1 (hrows row List.mem_cons_self)
  | cons line others ih =>
    rw [List.forall_mem_cons] at hfits
    rcases rows with _ | ⟨row, rows⟩
    · exact Nat.zero_le _
    rw [List.forall_mem_cons] at hrows
    rw [List.flatten_cons, List.flatten_cons] at hcovers
    -- The rest of the rows is covered by the rest of the lines.
    have hrest : rows.flatten <:+ others.flatten := by
      rcases List.suffix_or_suffix_of_suffix ((List.suffix_append row _).trans hcovers)
        (List.suffix_append line others.flatten) with hrest | ⟨ahead, hahead⟩
      · exact hrest
      · rcases ahead with _ | ⟨w, ws⟩
        · rw [← hahead]
          exact List.suffix_refl _
        · -- Else the line would hold the row and the first word behind it.
          rcases rows with _ | ⟨next, rows⟩
          · cases hahead
          have hw : next.head? = some w := by
            obtain ⟨v, vs, rfl⟩ := List.exists_cons_of_ne_nil (hrows.2 next List.mem_cons_self)
            exact congrArg some (List.cons.inj hahead).1.symm
          rw [← hahead, ← List.append_assoc] at hcovers
          have hpart : row ++ w :: ws <:+: line := (List.suffix_append_self_iff.mp hcovers).isInfix
          have hnext : IsFull limit row next := (List.isChain_cons_cons.mp hfull).1
          exact absurd hpart (hnext.not_infix hrows.1 hw hfits.1)
    exact Nat.succ_le_succ (ih hrows.2 hfull.tail hfits.2 hrest)

/-- Full rows are at most as many as any lines that have their words and keep to the width. -/
theorem length_le_of_words (hrows : ∀ r ∈ rows, r ≠ []) (hfull : rows.IsChain (IsFull limit)) {ls : List (List Char)}
    (hwords : ls.flatMap words = rows.flatten) (hfits : ∀ l ∈ ls, l.length ≤ limit) : rows.length ≤ ls.length := by
  have hroom : ∀ line ∈ ls.map words, (spaced line).length ≤ limit := by
    intro line hline
    obtain ⟨l, hl, rfl⟩ := List.mem_map.mp hline
    exact (length_spaced_words_le l).trans (hfits l hl)
  have hcovers : rows.flatten <:+ (ls.map words).flatten := by
    rw [← hwords, List.flatMap_def]
  have hle := length_le_of_covers hrows hfull hroom hcovers
  rwa [List.length_map] at hle

/-! ## Lines from rows -/

theorem flatMap_words_spaced (hrows : ∀ r ∈ rows, ∀ w ∈ r, IsWord w) :
    (rows.map spaced).flatMap words = rows.flatten := by
  rw [List.flatMap_map, List.flatten_eq_flatMap]
  exact List.flatMap_congr fun r hr => words_spaced (hrows r hr)

/-- Of the lines of full rows, the first word of the next one does not fit behind any. -/
theorem isChain_spaced (hrows : ∀ r ∈ rows, ∀ w ∈ r, IsWord w) (hfull : rows.IsChain (IsFull limit)) :
    (rows.map spaced).IsChain fun l next =>
      ∃ w, (words next).head? = some w ∧ limit < l.length + 1 + w.length := by
  rw [List.isChain_map]
  refine hfull.imp_of_mem_imp fun r next _ hnext => ?_
  rintro ⟨w, hw, hlong⟩
  refine ⟨w, ?_, hlong⟩
  rw [words_spaced (hrows next hnext)]
  exact hw

theorem lines_of_no_break (h : ∀ b, IsBreak b → ¬ b <:+: s) :
    lines limit s = (rowsOf limit (words s)).map spaced := by
  by_cases hs : s = []
  · subst hs
    rfl
  · rw [lines_of_ne_nil hs, paragraphs_of_no_break h]
    exact paragraphLines_eq limit s

/-- The lines of a paragraph whose words all fit on a line keep to the width and have the words in their
order. Each line holds as many words as fit, and no other lines that keep to the width and have these words
are fewer. -/
theorem linesIn_fewest (hwidth : Binary64.floor? width = some n) (hlimit : (limit : ℤ) = max 1 n)
    (hbreak : ∀ b, IsBreak b → ¬ b <:+: text.toList) (hfits : ∀ w ∈ words text.toList, w.length ≤ limit) :
    ∃ ls, linesIn width text = .ok ls ∧
      ls.flatMap (fun l => words l.toList) = words text.toList ∧
      (∀ l ∈ ls, l.length ≤ limit) ∧
      ls.IsChain (fun l next => ∃ w, (words next.toList).head? = some w ∧ limit < l.length + 1 + w.length) ∧
      ∀ others : List String, others.flatMap (fun l => words l.toList) = words text.toList →
        (∀ l ∈ others, l.length ≤ limit) → ls.length ≤ others.length := by
  obtain ⟨hflatten, hfull, hlength⟩ := rowsOf_of_fits hfits
  have hrows : ∀ r ∈ rowsOf limit (words text.toList), r ≠ [] ∧ ∀ w ∈ r, IsWord w :=
    fun r hr => isWord_of_mem_rowsOf (fun _ => isWord_of_mem_words) hr
  have hlines := linesIn_eq hwidth hlimit text
  rw [lines_of_no_break hbreak] at hlines
  refine ⟨_, hlines, ?words, ?fits, ?full, ?fewest⟩
  case words =>
    have hread := (flatMap_words_spaced fun r hr => (hrows r hr).2).trans hflatten
    rw [List.flatMap_map]
    simpa using hread
  case fits =>
    intro l hl
    obtain ⟨chars, hchars, rfl⟩ := List.mem_map.mp hl
    obtain ⟨r, hr, rfl⟩ := List.mem_map.mp hchars
    rw [String.length_ofList]
    exact hlength r hr
  case full =>
    rw [List.isChain_map]
    simpa using isChain_spaced (fun r hr => (hrows r hr).2) hfull
  case fewest =>
    intro others hothers hothersFit
    rw [List.length_map, List.length_map, ← List.length_map String.toList]
    refine length_le_of_words (fun r hr => (hrows r hr).1) hfull ?_ ?_
    · rw [hflatten, List.flatMap_map]
      exact hothers
    · simpa [String.length_toList] using hothersFit

/-- Four words of three letters take two lines of seven, and cannot do with one. -/
theorem linesIn_fewest_fourWords :
    ∃ ls, linesIn 7 "ink pen pad tin" = .ok ls ∧ ls.length = 2 ∧
      ∀ others : List String, others.flatMap (fun l => words l.toList) = words "ink pen pad tin".toList →
        (∀ l ∈ others, l.length ≤ 7) → 2 ≤ others.length := by
  have hwidth : Binary64.floor? 7 = some 7 := by decide
  have hbreak (b : List Char) (hb : IsBreak b) : ¬ b <:+: "ink pen pad tin".toList := by
    intro hpart
    exact absurd (hpart.subset hb.newline_mem) (by decide)
  obtain ⟨ls, hls, -, -, -, hfewest⟩ := linesIn_fewest hwidth rfl hbreak (by decide)
  have hcount : ls.length = 2 := by
    rw [← Except.ok.inj ((linesIn_eq hwidth rfl _).symm.trans hls)]
    decide
  rw [hcount] at hfewest
  exact ⟨ls, hls, hcount, hfewest⟩

end Pagewright.Wrap
