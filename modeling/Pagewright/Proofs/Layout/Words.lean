import Pagewright.Layout.Wrap
import Pagewright.Proofs.Text.Split
import Pagewright.Proofs.Text.Trim

/-!
# Words

The words of a text are its runs of characters that are not blank. A blank cuts a text into two parts, each
with words of its own (`Wrap.words_append_blank`). Nothing but blanks is lost (`Wrap.flatten_words`).

Words are set with single spaces between them (`Wrap.spaced`). They are read back from that
(`Wrap.words_spaced`), and no text with the same words is shorter (`Wrap.length_spaced_words_le`).
-/

namespace Pagewright.Wrap

open Pagewright.Text

variable {s w : List Char} {c : Char} {ws us : List (List Char)}

/-- A word: some characters, none of them blank. -/
structure IsWord (w : List Char) : Prop where
  ne_nil : w ≠ []
  not_isBlank : ∀ c ∈ w, isBlank c = false

theorem isBlank_space : isBlank ' ' = true := by decide

theorem IsWord.space_not_mem (h : IsWord w) : ' ' ∉ w := by
  intro hc
  have := h.not_isBlank ' ' hc
  simp [isBlank_space] at this

/-! ## Reading words -/

theorem wordsFrom_blank (hc : isBlank c = true) (word s : List Char) :
    wordsFrom word (c :: s) = if word.isEmpty then words s else word.reverse :: words s := by
  rw [wordsFrom, if_pos hc]
  rfl

theorem wordsFrom_letter (hc : isBlank c = false) (word s : List Char) :
    wordsFrom word (c :: s) = wordsFrom (c :: word) s := by
  rw [wordsFrom, if_neg (by simp [hc])]

theorem wordsFrom_append_blank (hc : isBlank c = true) (word s t : List Char) :
    wordsFrom word (s ++ c :: t) = wordsFrom word s ++ words t := by
  induction s generalizing word with
  | nil =>
    rw [List.nil_append, wordsFrom_blank hc, wordsFrom]
    split <;> rfl
  | cons a s ih =>
    rw [List.cons_append]
    cases ha : isBlank a with
    | true =>
      rw [wordsFrom_blank ha, wordsFrom_blank ha, words, ih []]
      split <;> rfl
    | false => rw [wordsFrom_letter ha, wordsFrom_letter ha, ih]

/-- A blank belongs to no word. What stands before it and behind it has words of its own. -/
theorem words_append_blank (hc : isBlank c = true) (s t : List Char) :
    words (s ++ c :: t) = words s ++ words t :=
  wordsFrom_append_blank hc [] s t

theorem wordsFrom_of_not_isBlank (h : ∀ c ∈ s, isBlank c = false) (word : List Char) :
    wordsFrom word s = wordsFrom (s.reverse ++ word) [] := by
  induction s generalizing word with
  | nil => rfl
  | cons c s ih =>
    rw [List.forall_mem_cons] at h
    rw [wordsFrom_letter h.1, ih h.2, List.reverse_cons, List.append_assoc]
    rfl

theorem IsWord.words_eq (h : IsWord w) : words w = [w] := by
  rw [words, wordsFrom_of_not_isBlank h.not_isBlank, wordsFrom, List.append_nil, List.reverse_reverse]
  simp [h.ne_nil]

theorem isWord_of_mem_wordsFrom {word : List Char} (hword : ∀ c ∈ word, isBlank c = false)
    (h : w ∈ wordsFrom word s) : IsWord w := by
  have hread (hne : ¬ word.isEmpty = true) : IsWord word.reverse :=
    ⟨by simpa using hne, fun c hc => hword c (List.mem_reverse.mp hc)⟩
  induction s generalizing word with
  | nil =>
    rw [wordsFrom] at h
    split at h
    · cases h
    · rename_i hne
      rw [List.mem_singleton.mp h]
      exact hread hne
  | cons c s ih =>
    cases hc : isBlank c with
    | true =>
      have hrest (h : w ∈ words s) : IsWord w := ih (List.forall_mem_nil _) h (by simp)
      rw [wordsFrom_blank hc] at h
      split at h
      · exact hrest h
      · rename_i hne
        rcases List.mem_cons.mp h with rfl | h
        · exact hread hne
        · exact hrest h
    | false =>
      have hword' : ∀ a ∈ c :: word, isBlank a = false := List.forall_mem_cons.mpr ⟨hc, hword⟩
      rw [wordsFrom_letter hc] at h
      exact ih hword' h fun _ => ⟨by simp, fun a ha => hword' a (List.mem_reverse.mp ha)⟩

theorem isWord_of_mem_words (h : w ∈ words s) : IsWord w :=
  isWord_of_mem_wordsFrom (by simp) h

theorem flatten_wordsFrom (word s : List Char) :
    (wordsFrom word s).flatten = word.reverse ++ s.filter (!isBlank ·) := by
  induction s generalizing word with
  | nil =>
    rw [wordsFrom]
    split <;> simp_all
  | cons c s ih =>
    cases hc : isBlank c with
    | true =>
      rw [wordsFrom_blank hc, words, List.filter_cons_of_neg (by simp [hc])]
      split <;> simp_all
    | false =>
      rw [wordsFrom_letter hc, ih, List.filter_cons_of_pos (by simp [hc])]
      simp

theorem flatten_words (s : List Char) : (words s).flatten = s.filter (!isBlank ·) :=
  flatten_wordsFrom [] s

/-! ## Setting words -/

/-- Words with single spaces between them. -/
def spaced (ws : List (List Char)) : List Char := join [' '] ws

@[simp] theorem spaced_nil : spaced [] = [] := rfl

@[simp] theorem spaced_singleton (w : List Char) : spaced [w] = w := rfl

theorem spaced_cons (h : ws ≠ []) (w : List Char) : spaced (w :: ws) = w ++ ' ' :: spaced ws := by
  rw [spaced, join_cons h, List.append_assoc]
  rfl

theorem spaced_append (hws : ws ≠ []) (hus : us ≠ []) :
    spaced (ws ++ us) = spaced ws ++ ' ' :: spaced us := by
  induction ws with
  | nil => exact absurd rfl hws
  | cons w ws ih =>
    rcases eq_or_ne ws [] with rfl | hne
    · exact spaced_cons hus w
    · rw [List.cons_append, spaced_cons (by simp [hne]), spaced_cons hne, ih hne, List.append_assoc,
        List.cons_append]

theorem spaced_ne_nil (hne : ws ≠ []) (h : ∀ w ∈ ws, IsWord w) : spaced ws ≠ [] := by
  obtain ⟨w, us, rfl⟩ := List.exists_cons_of_ne_nil hne
  have hw := (h w List.mem_cons_self).ne_nil
  rcases eq_or_ne us [] with rfl | hus
  · exact hw
  · rw [spaced_cons hus]
    simp

theorem words_spaced (h : ∀ w ∈ ws, IsWord w) : words (spaced ws) = ws := by
  induction ws with
  | nil => rfl
  | cons w ws ih =>
    rw [List.forall_mem_cons] at h
    rcases eq_or_ne ws [] with rfl | hne
    · exact h.1.words_eq
    · rw [spaced_cons hne, words_append_blank isBlank_space, h.1.words_eq, ih h.2]
      rfl

theorem filter_spaced (h : ∀ w ∈ ws, IsWord w) : (spaced ws).filter (· ≠ ' ') = ws.flatten := by
  induction ws with
  | nil => rfl
  | cons w ws ih =>
    rw [List.forall_mem_cons] at h
    have hw : w.filter (· ≠ ' ') = w := by
      refine List.filter_eq_self.mpr fun c hc => ?_
      have hne : c ≠ ' ' := fun heq => h.1.space_not_mem (heq ▸ hc)
      simpa using hne
    rcases eq_or_ne ws [] with rfl | hne
    · simpa using hw
    · rw [spaced_cons hne, List.filter_append, hw, List.filter_cons_of_neg (by simp), ih h.2]
      rfl

theorem clear_spaced (h : ∀ w ∈ ws, IsWord w) : Clear ' ' (spaced ws) := by
  induction ws with
  | nil => exact clear_of_not_mem List.not_mem_nil
  | cons w ws ih =>
    rw [List.forall_mem_cons] at h
    have hw : Clear ' ' w := clear_of_not_mem h.1.space_not_mem
    rcases eq_or_ne ws [] with rfl | hne
    · exact hw
    · obtain ⟨hinside, hhead, hlast⟩ := ih h.2
      have hrest := spaced_ne_nil hne h.2
      rw [spaced_cons hne]
      refine ⟨?_, ?_, ?_⟩
      · have hbehind : ¬ [' ', ' '] <:+: [' '] ++ spaced ws := by
          rw [operator_infix_append_iff]
          rintro (hbad | hbad | ⟨-, hbad⟩)
          · exact absurd hbad.length_le (by simp)
          · exact hinside hbad
          · exact hhead hbad
        rw [operator_infix_append_iff]
        rintro (hbad | hbad | ⟨hbad, -⟩)
        · exact hw.noOperator hbad
        · exact hbehind hbad
        · exact hw.last hbad
      · rw [List.head?_append_of_ne_nil _ h.1.ne_nil]
        exact hw.head
      · rw [List.getLast?_append_of_ne_nil _ (by simp), ← List.singleton_append,
          List.getLast?_append_of_ne_nil _ hrest]
        exact hlast

/-! ## Lengths -/

theorem length_spaced_append (hws : ws ≠ []) (hus : us ≠ []) :
    (spaced (ws ++ us)).length = (spaced ws).length + 1 + (spaced us).length := by
  rw [spaced_append hws hus, List.length_append, List.length_cons]
  omega

theorem length_spaced_le_of_infix (h : us <:+: ws) : (spaced us).length ≤ (spaced ws).length := by
  have happend (xs ys : List (List Char)) : (spaced xs).length ≤ (spaced (xs ++ ys)).length ∧
      (spaced ys).length ≤ (spaced (xs ++ ys)).length := by
    rcases eq_or_ne xs [] with rfl | hxs
    · simp
    · rcases eq_or_ne ys [] with rfl | hys
      · simp
      · rw [length_spaced_append hxs hys]
        omega
  obtain ⟨xs, ys, rfl⟩ := h
  exact (happend xs us).2.trans (happend (xs ++ us) ys).1

theorem length_spaced_wordsFrom_le (word s : List Char) :
    (spaced (wordsFrom word s)).length ≤ word.length + s.length := by
  induction s generalizing word with
  | nil =>
    rw [wordsFrom]
    split <;> simp
  | cons c s ih =>
    rw [List.length_cons]
    cases hc : isBlank c with
    | true =>
      have hrest : (spaced (words s)).length ≤ s.length := by simpa [words] using ih []
      rw [wordsFrom_blank hc]
      split
      · omega
      · rcases eq_or_ne (words s) [] with hnone | hne
        · rw [hnone, spaced_singleton, List.length_reverse]
          omega
        · rw [spaced_cons hne, List.length_append, List.length_reverse, List.length_cons]
          omega
    | false =>
      have hrest := ih (c :: word)
      rw [List.length_cons] at hrest
      rw [wordsFrom_letter hc]
      omega

theorem length_spaced_words_le (s : List Char) : (spaced (words s)).length ≤ s.length := by
  simpa [words] using length_spaced_wordsFrom_le [] s

end Pagewright.Wrap
