import Pagewright.Proofs.Text.Split

/-!
# Replacing fragments

A replacement goes through a text from the left, over the fragment at once and else by one character
(`replace_append`, `replace_cons`). If the fragment is replaced by one character that it does not have, the new text
holds none of it (`not_infix_replace`); more generally, a text without that character which is found in the new text
was there before (`infix_of_infix_replace`).

So replacements can be made one after the other without undoing each other, as long as what they put in is
in none of the fragments (`Apart`): at the end no fragment is left (`not_infix_replaceAll`), in whatever order they
were replaced.
-/

namespace Pagewright.Text

variable {old new p s : List Char} {d x : Char}

/-! ## The equations of replacing -/

theorem replaceFrom_eq (old new : List Char) (skip : ℕ) (s : List Char) :
    replaceFrom old new skip s = replace old new (s.drop skip) := by
  induction s generalizing skip with
  | nil => cases skip <;> rfl
  | cons x s ih =>
    cases skip with
    | zero => rfl
    | succ skip => rw [replaceFrom, ih, List.drop_succ_cons]

theorem replace_append (hne : old ≠ []) (new s : List Char) :
    replace old new (old ++ s) = new ++ replace old new s := by
  obtain ⟨x, rest, rfl⟩ := List.exists_cons_of_ne_nil hne
  have hstart : (x :: rest).isPrefixOf (x :: (rest ++ s)) = true :=
    List.isPrefixOf_iff_prefix.mpr (List.prefix_append (x :: rest) s)
  rw [List.cons_append, replace, replaceFrom, if_pos hstart, replaceFrom_eq]
  simp

theorem replace_cons (h : ¬ old <+: x :: s) (new : List Char) :
    replace old new (x :: s) = x :: replace old new s := by
  have hstart : old.isPrefixOf (x :: s) = false := by
    rw [← Bool.not_eq_true, List.isPrefixOf_iff_prefix]
    exact h
  rw [replace, replaceFrom, hstart, if_neg Bool.false_ne_true]
  rfl

/-- A character that is not in the fragment divides a text into parts that are replaced on their own. -/
theorem replace_append_cons (hne : old ≠ []) (hx : x ∉ old) (new s t : List Char) :
    replace old new (s ++ x :: t) = replace old new s ++ x :: replace old new t := by
  induction s using fragmentRec hne with
  | nil =>
    rw [List.nil_append, replace_cons (not_prefix_of_not_mem hne hx t)]
    rfl
  | fragment s ih => rw [List.append_assoc, replace_append hne, replace_append hne, ih, List.append_assoc]
  | cons y s hstart ih =>
    have hstart' : ¬ old <+: y :: (s ++ x :: t) := by
      intro hahead
      rcases List.prefix_or_prefix_of_prefix hahead (List.prefix_append (y :: s) (x :: t)) with hwithin | ⟨u, rfl⟩
      · exact hstart hwithin
      · -- The fragment would go on behind the first part, with the character that it does not have.
        rw [← List.cons_append, List.prefix_append_right_inj] at hahead
        cases u with
        | nil => exact hstart (by simp)
        | cons z u =>
          obtain ⟨rfl, -⟩ := List.cons_prefix_cons.mp hahead
          exact hx (List.mem_append_right _ List.mem_cons_self)
    rw [List.cons_append, replace_cons hstart', ih, replace_cons hstart, List.cons_append]

theorem replace_eq_self (h : ¬ old <:+: s) (new : List Char) : replace old new s = s := by
  induction s with
  | nil => rfl
  | cons x s ih =>
    rw [List.infix_cons_iff, not_or] at h
    rw [replace_cons h.1, ih h.2]

/-- Characters of no kind are lost or come up if the fragment and what replaces it have the same of them. -/
theorem filter_replace {keep : Char → Bool} (hne : old ≠ []) (h : new.filter keep = old.filter keep)
    (s : List Char) : (replace old new s).filter keep = s.filter keep := by
  induction s using fragmentRec hne with
  | nil => rfl
  | fragment s ih => rw [replace_append hne, List.filter_append, List.filter_append, h, ih]
  | cons x s hstart ih => rw [replace_cons hstart, List.filter_cons, List.filter_cons, ih]

/-! ## What is left of a fragment -/

section

variable (hne : old ≠ [])
include hne

/-- What a text begins with after a replacement, it began with before, if the new character is not in it. -/
theorem prefix_of_prefix_replace (hd : d ∉ p) (h : p <+: replace old [d] s) : p <+: s := by
  induction s using fragmentRec hne generalizing p with
  | nil => exact h
  | fragment s ih =>
    rw [replace_append hne, List.singleton_append] at h
    rcases eq_or_ne p [] with rfl | hp
    · exact List.nil_prefix
    · exact absurd h (not_prefix_of_not_mem hp hd _)
  | cons x s hstart ih =>
    rw [replace_cons hstart] at h
    cases p with
    | nil => exact List.nil_prefix
    | cons y p =>
      obtain ⟨rfl, hrest⟩ := List.cons_prefix_cons.mp h
      exact List.cons_prefix_cons.mpr ⟨rfl, ih (List.not_mem_of_not_mem_cons hd) hrest⟩

/-- What is found in a text after a replacement was there before, if the new character is not in it. -/
theorem infix_of_infix_replace (hd : d ∉ p) (h : p <:+: replace old [d] s) : p <:+: s := by
  induction s using fragmentRec hne with
  | nil => exact h
  | fragment s ih =>
    rw [replace_append hne, List.singleton_append, List.infix_cons_iff] at h
    rcases h with hahead | hinside
    · rcases eq_or_ne p [] with rfl | hp
      · exact List.nil_infix
      · exact absurd hahead (not_prefix_of_not_mem hp hd _)
    · exact (ih hinside).trans (List.suffix_append old s).isInfix
  | cons x s hstart ih =>
    rw [replace_cons hstart, List.infix_cons_iff] at h
    rcases h with hahead | hinside
    · rw [← replace_cons hstart] at hahead
      exact (prefix_of_prefix_replace hne hd hahead).isInfix
    · exact (ih hinside).trans (List.suffix_cons x s).isInfix

/-- Nothing is left of a fragment where it is replaced by a character that is not in it. -/
theorem not_infix_replace (hd : d ∉ old) (s : List Char) : ¬ old <:+: replace old [d] s := by
  induction s using fragmentRec hne with
  | nil => exact fun hinside => hne (List.infix_nil.mp hinside)
  | fragment s ih =>
    rw [replace_append hne, List.singleton_append, List.infix_cons_iff]
    rintro (hahead | hinside)
    · exact not_prefix_of_not_mem hne hd _ hahead
    · exact ih hinside
  | cons x s hstart ih =>
    rw [replace_cons hstart, List.infix_cons_iff]
    rintro (hahead | hinside)
    · -- Replaced text begins with the fragment only if the text did, where it would have been replaced.
      rw [← replace_cons hstart] at hahead
      exact hstart (prefix_of_prefix_replace hne hd hahead)
    · exact ih hinside

end

/-! ## Replacements one after the other -/

/-- A text with fragments replaced one after the other. -/
def replaceAll (table : List (List Char × List Char)) (s : List Char) : List Char :=
  table.foldl (fun s (old, new) => replace old new s) s

variable {table : List (List Char × List Char)} {e : List Char × List Char}

/-- Fragments that are replaced by single characters, each of which is in none of the fragments. -/
def Apart (table : List (List Char × List Char)) : Prop :=
  ∀ e ∈ table, e.1 ≠ [] ∧ ∃ d, e.2 = [d] ∧ ∀ e' ∈ table, d ∉ e'.1

theorem replaceAll_append (front back : List (List Char × List Char)) (s : List Char) :
    replaceAll (front ++ back) s = replaceAll back (replaceAll front s) := List.foldl_append

theorem replaceAll_cons (e : List Char × List Char) (rest : List (List Char × List Char)) (s : List Char) :
    replaceAll (e :: rest) s = replaceAll rest (replace e.1 e.2 s) := rfl

theorem replaceAll_append_cons (h : ∀ e ∈ table, e.1 ≠ [] ∧ x ∉ e.1) (s t : List Char) :
    replaceAll table (s ++ x :: t) = replaceAll table s ++ x :: replaceAll table t := by
  induction table generalizing s t with
  | nil => rfl
  | cons e rest ih =>
    obtain ⟨⟨hne, hx⟩, hrest⟩ := List.forall_mem_cons.mp h
    rw [replaceAll_cons, replace_append_cons hne hx, ih hrest, replaceAll_cons, replaceAll_cons]

theorem replaceAll_eq_self (h : ∀ e ∈ table, ¬ e.1 <:+: s) : replaceAll table s = s := by
  induction table with
  | nil => rfl
  | cons e rest ih =>
    obtain ⟨he, hrest⟩ := List.forall_mem_cons.mp h
    rw [replaceAll_cons, replace_eq_self he, ih hrest]

theorem infix_of_infix_replaceAll (htable : ∀ e ∈ table, e.1 ≠ [] ∧ ∃ d, e.2 = [d] ∧ d ∉ p)
    (h : p <:+: replaceAll table s) : p <:+: s := by
  induction table generalizing s with
  | nil => exact h
  | cons e rest ih =>
    obtain ⟨⟨hne, d, hnew, hd⟩, hrest⟩ := List.forall_mem_cons.mp htable
    rw [replaceAll_cons, hnew] at h
    exact infix_of_infix_replace hne hd (ih hrest h)

/-- No fragment is left in the end: what is replaced later brings back nothing that was replaced before. -/
theorem not_infix_replaceAll (htable : Apart table) (he : e ∈ table) (s : List Char) :
    ¬ e.1 <:+: replaceAll table s := by
  obtain ⟨hne, d, hnew, hd⟩ := htable e he
  obtain ⟨front, back, rfl⟩ := List.append_of_mem he
  rw [replaceAll_append, replaceAll_cons, hnew]
  intro h
  refine not_infix_replace hne (hd e he) _ (infix_of_infix_replaceAll (fun e' he' => ?_) h)
  obtain ⟨hne', d', hnew', hd'⟩ := htable e' (List.mem_append_right _ (List.mem_cons_of_mem e he'))
  exact ⟨hne', d', hnew', hd' e he⟩

theorem filter_replaceAll {keep : Char → Bool}
    (htable : ∀ e ∈ table, e.1 ≠ [] ∧ e.2.filter keep = e.1.filter keep) (s : List Char) :
    (replaceAll table s).filter keep = s.filter keep := by
  induction table generalizing s with
  | nil => rfl
  | cons e rest ih =>
    obtain ⟨⟨hne, hkept⟩, hrest⟩ := List.forall_mem_cons.mp htable
    rw [replaceAll_cons, ih hrest, filter_replace hne hkept]

end Pagewright.Text
