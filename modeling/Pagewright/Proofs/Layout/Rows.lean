import Pagewright.Proofs.Layout.Words

/-!
# Setting words in rows

The lines of a paragraph are rows of words with single spaces between them (`Wrap.setWords_eq`). In front,
words that are too long for a line are cut, and each piece has a row of its own. From the first word on that
is short enough, words stay whole (`Wrap.rowsOf`) and fill rows one after the other (`Wrap.fillRows`): a row
ends where the next word does not fit behind it (`Wrap.isChain_fillRows`).
-/

namespace Pagewright.Wrap

open Pagewright.Text

/-- The rows that words fill, `row` being the current one. A word begins a new row when it does not fit
behind the current one. -/
def fillRows (limit : ℕ) (row : List (List Char)) : List (List Char) → List (List (List Char))
  | [] => [row]
  | w :: ws =>
    if (spaced row).length + w.length + 1 ≤ limit then fillRows limit (row ++ [w]) ws
    else row :: fillRows limit [w] ws

/-- The rows of a paragraph's words. Words that are too long for a line are cut as long as no other word
came before. -/
def rowsOf (limit : ℕ) : List (List Char) → List (List (List Char))
  | [] => []
  | w :: ws =>
    if limit < w.length then (chunks limit w).map ([·]) ++ rowsOf limit ws else fillRows limit [w] ws

/-- A row is full: the first word of the next one does not fit behind it. -/
def IsFull (limit : ℕ) (row next : List (List Char)) : Prop :=
  ∃ w, next.head? = some w ∧ limit < (spaced row).length + 1 + w.length

variable {limit : ℕ} {row r : List (List Char)} {ws : List (List Char)} {w : List Char}

/-! ## Filling rows -/

theorem fillRows_nil (limit : ℕ) (row : List (List Char)) : fillRows limit row [] = [row] := rfl

theorem fillRows_cons (limit : ℕ) (row : List (List Char)) (w : List Char) (ws : List (List Char)) :
    fillRows limit row (w :: ws) =
      if (spaced row).length + w.length + 1 ≤ limit then fillRows limit (row ++ [w]) ws
      else row :: fillRows limit [w] ws := rfl

theorem flatten_fillRows (limit : ℕ) (row ws : List (List Char)) :
    (fillRows limit row ws).flatten = row ++ ws := by
  induction ws generalizing row with
  | nil => simp [fillRows_nil]
  | cons w ws ih =>
    rw [fillRows_cons]
    split
    · simp [ih]
    · simp [ih]

theorem ne_nil_of_mem_fillRows (hrow : row ≠ []) (h : r ∈ fillRows limit row ws) : r ≠ [] := by
  induction ws generalizing row with
  | nil =>
    rw [List.mem_singleton.mp h]
    exact hrow
  | cons w ws ih =>
    rw [fillRows_cons] at h
    split at h
    · exact ih (by simp) h
    · rcases List.mem_cons.mp h with rfl | h
      · exact hrow
      · exact ih (by simp) h

theorem exists_head_fillRows (limit : ℕ) (row ws : List (List Char)) :
    ∃ first others, fillRows limit row ws = first :: others ∧ row <+: first := by
  induction ws generalizing row with
  | nil => exact ⟨row, [], rfl, List.prefix_refl row⟩
  | cons w ws ih =>
    rw [fillRows_cons]
    split
    · obtain ⟨first, others, hrows, hbegins⟩ := ih (row ++ [w])
      exact ⟨first, others, hrows, (List.prefix_append row [w]).trans hbegins⟩
    · exact ⟨row, _, rfl, List.prefix_refl row⟩

/-- Each row is full when the next one begins. -/
theorem isChain_fillRows (limit : ℕ) (row ws : List (List Char)) :
    (fillRows limit row ws).IsChain (IsFull limit) := by
  induction ws generalizing row with
  | nil => exact .singleton row
  | cons w ws ih =>
    rw [fillRows_cons]
    split
    case isTrue hfits => exact ih (row ++ [w])
    case isFalse hfull =>
      obtain ⟨first, others, hrows, hbegins⟩ := exists_head_fillRows limit [w] ws
      have hothers := ih [w]
      rw [hrows] at hothers ⊢
      refine List.isChain_cons_cons.mpr ⟨⟨w, ?_, by omega⟩, hothers⟩
      obtain ⟨rest, rfl⟩ := hbegins
      rfl

theorem length_le_of_mem_fillRows (hrow : row ≠ []) (hfits : (spaced row).length ≤ limit)
    (hws : ∀ w ∈ ws, w.length ≤ limit) (h : r ∈ fillRows limit row ws) : (spaced r).length ≤ limit := by
  induction ws generalizing row with
  | nil =>
    rw [List.mem_singleton.mp h]
    exact hfits
  | cons w ws ih =>
    rw [List.forall_mem_cons] at hws
    rw [fillRows_cons] at h
    split at h
    case isTrue hmore =>
      refine ih (by simp) ?_ hws.2 h
      rw [length_spaced_append hrow (by simp), spaced_singleton]
      omega
    case isFalse hfull =>
      rcases List.mem_cons.mp h with rfl | h
      · exact hfits
      · exact ih (by simp) (by simpa using hws.1) hws.2 h

/-- A line that is too long is a word by itself. -/
theorem filter_fillRows (hrow : row ≠ []) :
    ((fillRows limit row ws).map spaced).filter (limit < ·.length) =
      (spaced row :: ws).filter (limit < ·.length) := by
  induction ws generalizing row with
  | nil => rfl
  | cons w ws ih =>
    rw [fillRows_cons]
    split
    case isTrue hfits =>
      have hlength : (spaced (row ++ [w])).length = (spaced row).length + 1 + w.length :=
        length_spaced_append hrow (by simp)
      rw [ih (by simp), List.filter_cons_of_neg, List.filter_cons_of_neg, List.filter_cons_of_neg] <;>
        simp <;> omega
    case isFalse hfull =>
      rw [List.map_cons, List.filter_cons, List.filter_cons, ih (by simp), spaced_singleton]

theorem setWords_spaced (hrow : row ≠ []) (h : ∀ w ∈ row ++ ws, IsWord w) :
    setWords limit (spaced row) ws = (fillRows limit row ws).map spaced := by
  have hline (row ws : List (List Char)) (hrow : row ≠ []) (h : ∀ w ∈ row ++ ws, IsWord w) :
      ¬ (spaced row).isEmpty = true := by
    simpa using spaced_ne_nil hrow fun w hw => h w (List.mem_append_left ws hw)
  induction ws generalizing row with
  | nil =>
    rw [setWords, if_neg (hline row [] hrow h)]
    rfl
  | cons w ws ih =>
    rw [setWords, if_neg (hline row _ hrow h), fillRows_cons]
    split
    · rw [← ih (by simp) (by simpa using h), spaced_append hrow (by simp), spaced_singleton]
    · rw [List.map_cons, ← ih (by simp) fun v hv => h v (List.mem_append_right row hv), spaced_singleton]

/-! ## The rows of a paragraph -/

theorem rowsOf_cons (limit : ℕ) (w : List Char) (ws : List (List Char)) :
    rowsOf limit (w :: ws) =
      if limit < w.length then (chunks limit w).map ([·]) ++ rowsOf limit ws else fillRows limit [w] ws := rfl

theorem IsWord.of_mem_chunks {piece : List Char} (h : IsWord w) (hpiece : piece ∈ chunks limit w) :
    IsWord piece where
  ne_nil := by
    fun_induction chunks limit w with
    | case1 => cases hpiece
    | case2 c rest ih =>
      rcases List.mem_cons.mp hpiece with rfl | hpiece
      · simp
      · by_cases hrest : rest.drop (limit - 1) = []
        · rw [hrest, chunks_nil] at hpiece
          cases hpiece
        · exact ih ⟨hrest, fun a ha => h.not_isBlank a (List.mem_cons_of_mem c (List.mem_of_mem_drop ha))⟩ hpiece
  not_isBlank c hc := h.not_isBlank c (mem_of_mem_chunks hpiece hc)

theorem setWords_eq (h : ∀ w ∈ ws, IsWord w) : setWords limit [] ws = (rowsOf limit ws).map spaced := by
  induction ws with
  | nil => rfl
  | cons w ws ih =>
    have hwords := List.forall_mem_cons.mp h
    rw [setWords, List.isEmpty_nil, if_pos rfl, rowsOf_cons]
    split
    · rw [ih hwords.2, List.map_append, List.map_map]
      congr 1
      exact (List.map_id _).symm
    · exact setWords_spaced (List.cons_ne_nil w []) h

theorem paragraphLines_eq (limit : ℕ) (s : List Char) :
    paragraphLines limit s = (rowsOf limit (words s)).map spaced :=
  setWords_eq fun _ => isWord_of_mem_words

theorem isWord_of_mem_rowsOf (h : ∀ w ∈ ws, IsWord w) (hr : r ∈ rowsOf limit ws) :
    r ≠ [] ∧ ∀ w ∈ r, IsWord w := by
  induction ws with
  | nil => cases hr
  | cons w ws ih =>
    have hwords := List.forall_mem_cons.mp h
    rw [rowsOf_cons] at hr
    split at hr
    · rcases List.mem_append.mp hr with hr | hr
      · obtain ⟨piece, hpiece, rfl⟩ := List.mem_map.mp hr
        exact ⟨by simp, by simpa using hwords.1.of_mem_chunks hpiece⟩
      · exact ih hwords.2 hr
    · refine ⟨ne_nil_of_mem_fillRows (by simp) hr, fun v hv => h v ?_⟩
      have hall : v ∈ (fillRows limit [w] ws).flatten := List.mem_flatten.mpr ⟨r, hr, hv⟩
      rwa [flatten_fillRows] at hall

theorem flatten_flatten_rowsOf (limit : ℕ) (ws : List (List Char)) :
    (rowsOf limit ws).flatten.flatten = ws.flatten := by
  induction ws with
  | nil => rfl
  | cons w ws ih =>
    rw [rowsOf_cons]
    split
    · have hpieces : ((chunks limit w).map ([·])).flatten = chunks limit w := by
        rw [← List.flatMap_def, List.flatMap_singleton']
      rw [List.flatten_append, List.flatten_append, ih, hpieces, flatten_chunks, List.flatten_cons]
    · rw [flatten_fillRows]
      rfl

theorem exists_mem_rowsOf (hw : w ∈ ws) (hshort : w.length ≤ limit) : ∃ r ∈ rowsOf limit ws, w ∈ r := by
  induction ws with
  | nil => cases hw
  | cons v ws ih =>
    rw [rowsOf_cons]
    split
    · rename_i hlong
      rcases List.mem_cons.mp hw with rfl | hw
      · omega
      · obtain ⟨r, hr, hwr⟩ := ih hw
        exact ⟨r, List.mem_append_right _ hr, hwr⟩
    · refine List.mem_flatten.mp ?_
      rw [flatten_fillRows]
      exact hw

/-- The lines that are too long are the words that are too long and come behind one that is not. -/
theorem filter_rowsOf (hlimit : 0 < limit) (ws : List (List Char)) :
    ((rowsOf limit ws).map spaced).filter (limit < ·.length) =
      (ws.dropWhile (limit < ·.length)).filter (limit < ·.length) := by
  induction ws with
  | nil => rfl
  | cons w ws ih =>
    rw [rowsOf_cons]
    split
    · rename_i hlong
      have hpieces : (((chunks limit w).map ([·])).map spaced).filter (limit < ·.length) = [] := by
        refine List.filter_eq_nil_iff.mpr fun l hl => ?_
        rw [List.map_map] at hl
        obtain ⟨piece, hpiece, rfl⟩ := List.mem_map.mp hl
        have hle := length_le_of_mem_chunks hlimit hpiece
        intro hlong
        exact absurd (of_decide_eq_true hlong) (Nat.not_lt.mpr hle)
      rw [List.map_append, List.filter_append, hpieces, ih, List.dropWhile_cons_of_pos (by simpa using hlong)]
      rfl
    · rename_i hshort
      rw [filter_fillRows (by simp), List.dropWhile_cons_of_neg (by simpa using hshort)]
      rfl

/-- If all words fit on a line, they are set whole. -/
theorem rowsOf_of_fits (h : ∀ w ∈ ws, w.length ≤ limit) :
    (rowsOf limit ws).flatten = ws ∧ (rowsOf limit ws).IsChain (IsFull limit) ∧
      ∀ r ∈ rowsOf limit ws, (spaced r).length ≤ limit := by
  cases ws with
  | nil => exact ⟨rfl, .nil, by simp [rowsOf]⟩
  | cons w ws =>
    rw [List.forall_mem_cons] at h
    rw [rowsOf_cons, if_neg (by omega)]
    exact ⟨flatten_fillRows limit [w] ws, isChain_fillRows limit [w] ws,
      fun r hr => length_le_of_mem_fillRows (by simp) (by simpa using h.1) h.2 hr⟩

end Pagewright.Wrap
