import Mathlib.Data.List.Infix
import Mathlib.Data.List.ModifyLast
import Pagewright.Text.Scan

/-!
# Cutting a text at a character or a doubled character

At a single character a text is cut as any list is (`splitOn_char`), so the pieces are parts of it without that
character.

An operator is a character twice in a row. A text is cut at its operators from the left, so that in a run
of three the third belongs to the piece behind (`splitOn_operator`, `splitOn_cons`). The pieces hold no
operator (`not_operator_infix_of_mem_splitOn`). Two texts with an operator between them are cut into the
pieces of both, unless the first ends with half an operator (`splitOn_append`).
-/

namespace Pagewright.Text

variable {c x : Char} {s a b g p piece old : List Char}

/-! ## The equations of cutting -/

theorem splitFrom_ne_nil (sep piece : List Char) (skip : ℕ) (s : List Char) :
    splitFrom sep piece skip s ≠ [] := by
  fun_induction splitFrom sep piece skip s <;> simp_all

theorem splitOn_ne_nil (sep s : List Char) : splitOn sep s ≠ [] := splitFrom_ne_nil sep [] 0 s

theorem splitFrom_eq_modifyHead (sep piece : List Char) (skip : ℕ) (s : List Char) :
    splitFrom sep piece skip s = (splitFrom sep [] skip s).modifyHead (piece.reverse ++ ·) := by
  induction s generalizing piece skip with
  | nil => simp [splitFrom]
  | cons x s ih =>
    cases skip with
    | succ skip => simpa [splitFrom] using ih piece skip
    | zero =>
      simp only [splitFrom]
      split
      · simp
      · rw [ih (x :: piece), ih [x], List.modifyHead_modifyHead]
        congr 1
        funext rest
        simp

/-! ## Pieces put together -/

theorem join_cons {sep : List Char} {ps : List (List Char)} (h : ps ≠ []) (p : List Char) :
    join sep (p :: ps) = p ++ sep ++ join sep ps := by
  rw [join]
  exact h

theorem join_eq_intercalate (sep : List Char) (ps : List (List Char)) : join sep ps = sep.intercalate ps := by
  induction ps with
  | nil => rfl
  | cons q qs ih =>
    rcases eq_or_ne qs [] with rfl | hne
    · simp [join]
    · rw [join_cons hne, List.intercalate_cons_of_ne_nil hne, ih]

/-- A part of a joined text ends where the text does or a separator begins, and begins likewise. -/
theorem exists_of_mem_join {ps : List (List Char)} (h : p ∈ ps) (sep : List Char) :
    ∃ a b, join sep ps = a ++ p ++ b ∧ (a = [] ∨ sep <:+ a) ∧ (b = [] ∨ sep <+: b) := by
  induction ps with
  | nil => cases h
  | cons q qs ih =>
    rcases eq_or_ne qs [] with rfl | hne
    · obtain rfl := List.mem_singleton.mp h
      exact ⟨[], [], by simp [join], .inl rfl, .inl rfl⟩
    · rw [join_cons hne]
      rcases List.mem_cons.mp h with rfl | h
      · exact ⟨[], sep ++ join sep qs, by simp, .inl rfl, .inr (List.prefix_append _ _)⟩
      · obtain ⟨a, b, hjoin, ha, hb⟩ := ih h
        refine ⟨q ++ sep ++ a, b, by simp [hjoin], .inr ?_, hb⟩
        rcases ha with rfl | ha
        · simp
        · exact ha.trans (List.suffix_append _ _)

/-! ## Cutting at a character -/

/-- A text is cut at a single character as any list is. -/
theorem splitOn_char (c : Char) (s : List Char) : splitOn [c] s = s.splitOn c := by
  induction s with
  | nil => rfl
  | cons x s ih =>
    have hstart : ([c] : List Char).isPrefixOf (x :: s) = (x == c) := by
      rw [List.isPrefixOf, List.isPrefixOf, Bool.and_true]
      exact BEq.comm
    rw [List.splitOn_cons_eq_if_modifyHead, splitOn, splitFrom, hstart, ← ih, splitFrom_eq_modifyHead [c] [x]]
    rfl

theorem not_mem_of_mem_splitOn (h : p ∈ s.splitOn c) : c ∉ p := by
  induction s generalizing p with
  | nil =>
    obtain rfl := List.mem_singleton.mp h
    exact List.not_mem_nil
  | cons x s ih =>
    rw [List.splitOn_cons_eq_if_modifyHead] at h
    split at h
    · rcases List.mem_cons.mp h with rfl | h
      · exact List.not_mem_nil
      · exact ih h
    case isFalse hx =>
      obtain ⟨q, qs, hpieces⟩ := List.exists_cons_of_ne_nil (List.splitOn_ne_nil c s)
      rw [hpieces, List.modifyHead_cons] at h
      rcases List.mem_cons.mp h with rfl | h
      · rw [List.mem_cons, not_or]
        exact ⟨fun hc => hx (beq_iff_eq.mpr hc.symm), ih (by simp [hpieces])⟩
      · exact ih (by simp [hpieces, h])

theorem infix_of_mem_splitOn (h : p ∈ s.splitOn c) : p <:+: s := by
  obtain ⟨a, b, hjoin, -, -⟩ := exists_of_mem_join h [c]
  rw [join_eq_intercalate, List.intercalate_splitOn] at hjoin
  exact ⟨a, b, hjoin.symm⟩

/-! ## Going through a text -/

/-- Texts are gone through from the left, over a fragment at once, else by one character. -/
theorem fragmentRec (hne : old ≠ []) {motive : List Char → Prop} (nil : motive [])
    (fragment : ∀ s, motive s → motive (old ++ s))
    (cons : ∀ x s, ¬ old <+: x :: s → motive s → motive (x :: s)) (s : List Char) : motive s := by
  induction hn : s.length using Nat.strong_induction_on generalizing s with
  | _ n ih =>
    cases s with
    | nil => exact nil
    | cons x s =>
      by_cases h : old <+: x :: s
      · obtain ⟨rest, hrest⟩ := h
        have hlength : rest.length < n := by
          have hpos : 0 < old.length := List.length_pos_iff.mpr hne
          rw [← hn, ← hrest, List.length_append]
          omega
        rw [← hrest]
        exact fragment rest (ih rest.length hlength rest rfl)
      · exact cons x s h (ih s.length (by simp at hn; omega) s rfl)

/-- A text does not begin with a fragment if its first character is not in the fragment. -/
theorem not_prefix_of_not_mem (hne : old ≠ []) (hx : x ∉ old) (s : List Char) : ¬ old <+: x :: s := by
  intro hahead
  obtain ⟨y, rest, rfl⟩ := List.exists_cons_of_ne_nil hne
  exact List.ne_of_not_mem_cons hx (List.cons_prefix_cons.mp hahead).1.symm

/-! ## Cutting at an operator -/

@[simp] theorem splitOn_nil (sep : List Char) : splitOn sep [] = [[]] := rfl

@[simp] theorem splitOn_operator (c : Char) (s : List Char) :
    splitOn [c, c] (c :: c :: s) = [] :: splitOn [c, c] s := by
  simp [splitOn, splitFrom]

theorem splitOn_cons (h : ¬ [c, c] <+: x :: s) :
    splitOn [c, c] (x :: s) = (splitOn [c, c] s).modifyHead (x :: ·) := by
  have hstart : ([c, c] : List Char).isPrefixOf (x :: s) = false := by
    simpa [← List.isPrefixOf_iff_prefix] using h
  rw [splitOn, splitFrom, hstart, if_neg (by simp), splitFrom_eq_modifyHead]
  rfl

/-- Texts are gone through like a cut goes: over an operator at once, else by one character. -/
theorem operatorRec (c : Char) {motive : List Char → Prop} (nil : motive [])
    (operator : ∀ s, motive s → motive (c :: c :: s))
    (cons : ∀ x s, ¬ [c, c] <+: x :: s → motive s → motive (x :: s)) (s : List Char) : motive s :=
  fragmentRec (List.cons_ne_nil c [c]) nil operator cons s

theorem join_splitOn (c : Char) (s : List Char) : join [c, c] (splitOn [c, c] s) = s := by
  induction s using operatorRec c with
  | nil => rfl
  | operator s ih => rw [splitOn_operator, join_cons (splitOn_ne_nil _ _), ih]; rfl
  | cons x s hstart ih =>
    obtain ⟨q, qs, hpieces⟩ := List.exists_cons_of_ne_nil (splitOn_ne_nil [c, c] s)
    rw [splitOn_cons hstart, hpieces, List.modifyHead_cons]
    rw [hpieces] at ih
    cases qs with
    | nil => exact congrArg (x :: ·) ih
    | cons r qs =>
      rw [join_cons (List.cons_ne_nil _ _)] at ih ⊢
      rw [← ih]
      rfl

/-! ## Where operators stand -/

/-- An operator in two texts put together is in one of them, or has half of it in each. -/
theorem operator_infix_append_iff : [c, c] <:+: a ++ b ↔
    [c, c] <:+: a ∨ [c, c] <:+: b ∨ (a.getLast? = some c ∧ b.head? = some c) := by
  rw [List.infix_append_iff]
  constructor
  · rintro (h | h | ⟨u, v, huv, hu, hv⟩)
    · exact .inl h
    · exact .inr (.inl h)
    · match u, huv with
      | [], huv =>
        rw [List.nil_append] at huv
        exact .inr (.inl (huv ▸ hv.isInfix))
      | [x], huv =>
        obtain ⟨rfl, rfl⟩ := List.cons.inj huv
        obtain ⟨a', rfl⟩ := hu
        obtain ⟨b', rfl⟩ := hv
        exact .inr (.inr ⟨by simp, by simp⟩)
      | x :: y :: u, huv =>
        simp only [List.cons_append, List.cons.injEq] at huv
        obtain ⟨rfl, rfl, huv⟩ := huv
        obtain ⟨rfl, -⟩ := List.append_eq_nil_iff.mp huv.symm
        exact .inl hu.isInfix
  · rintro (h | h | ⟨ha, hb⟩)
    · exact .inl h
    · exact .inr (.inl h)
    · obtain ⟨a', rfl⟩ := List.getLast?_eq_some_iff.mp ha
      obtain ⟨b', rfl⟩ := List.head?_eq_some_iff.mp hb
      exact .inr (.inr ⟨[c], [c], rfl, List.suffix_append _ _, List.prefix_append _ _⟩)

/-- A text that holds no operator and no half of one at its ends, so that none arises where it is put
together with others of this kind. -/
structure Clear (c : Char) (s : List Char) : Prop where
  noOperator : ¬ [c, c] <:+: s
  head : s.head? ≠ some c
  last : s.getLast? ≠ some c

theorem clear_of_not_mem (h : c ∉ s) : Clear c s where
  noOperator hinside := h (hinside.subset (by simp))
  head hhead := h (List.mem_of_head? hhead)
  last hlast := h (List.mem_of_getLast? hlast)

theorem Clear.append (ha : Clear c a) (hb : Clear c b) : Clear c (a ++ b) where
  noOperator := by
    rw [operator_infix_append_iff]
    rintro (h | h | ⟨h, -⟩)
    · exact ha.noOperator h
    · exact hb.noOperator h
    · exact ha.last h
  head := by
    cases a with
    | nil => exact hb.head
    | cons x a => exact ha.head
  last := by
    rw [List.getLast?_append]
    cases hlast : b.getLast? with
    | none => exact ha.last
    | some x => exact fun h => hb.last (hlast.trans h)

theorem Clear.join {sep : List Char} {ps : List (List Char)} (hsep : Clear c sep)
    (h : ∀ p ∈ ps, Clear c p) : Clear c (join sep ps) := by
  fun_induction Text.join sep ps with
  | case1 => exact clear_of_not_mem List.not_mem_nil
  | case2 s => exact h s (by simp)
  | case3 s rest hne ih =>
    exact ((h s (by simp)).append hsep).append (ih fun p hp => h p (List.mem_cons_of_mem _ hp))

/-! ## Pieces -/

theorem not_operator_prefix_of_ne (h : x ≠ c) (s : List Char) : ¬ [c, c] <+: x :: s :=
  not_prefix_of_not_mem (List.cons_ne_nil c [c]) (by simpa using h) s

theorem prefix_of_splitOn_eq_cons {ps : List (List Char)} (h : splitOn [c, c] s = p :: ps) : p <+: s := by
  induction s using operatorRec c generalizing p ps with
  | nil =>
    obtain ⟨rfl, -⟩ := List.cons.inj h
    exact List.prefix_refl _
  | operator s ih =>
    rw [splitOn_operator] at h
    obtain ⟨rfl, -⟩ := List.cons.inj h
    exact List.nil_prefix
  | cons x s hstart ih =>
    obtain ⟨q, qs, hpieces⟩ := List.exists_cons_of_ne_nil (splitOn_ne_nil [c, c] s)
    rw [splitOn_cons hstart, hpieces, List.modifyHead_cons] at h
    obtain ⟨rfl, -⟩ := List.cons.inj h
    exact List.cons_prefix_cons.mpr ⟨rfl, ih hpieces⟩

/-- No piece holds an operator. -/
theorem not_operator_infix_of_mem_splitOn (h : p ∈ splitOn [c, c] s) : ¬ [c, c] <:+: p := by
  induction s using operatorRec c generalizing p with
  | nil =>
    obtain rfl := List.mem_singleton.mp h
    simp
  | operator s ih =>
    rw [splitOn_operator] at h
    rcases List.mem_cons.mp h with rfl | h
    · simp
    · exact ih h
  | cons x s hstart ih =>
    rw [splitOn_cons hstart] at h
    obtain ⟨q, qs, hpieces⟩ := List.exists_cons_of_ne_nil (splitOn_ne_nil [c, c] s)
    rw [hpieces, List.modifyHead_cons] at h
    rcases List.mem_cons.mp h with rfl | h
    · rw [List.infix_cons_iff]
      rintro (hahead | hinside)
      · exact hstart (hahead.trans (List.cons_prefix_cons.mpr ⟨rfl, prefix_of_splitOn_eq_cons hpieces⟩))
      · exact ih (by simp [hpieces]) hinside
    · exact ih (by simp [hpieces, h])

theorem splitOn_eq_singleton (h : ¬ [c, c] <:+: s) : splitOn [c, c] s = [s] := by
  induction s with
  | nil => rfl
  | cons x s ih =>
    rw [List.infix_cons_iff, not_or] at h
    rw [splitOn_cons h.1, ih h.2, List.modifyHead_cons]

/-- With an operator between them, two texts are cut into the pieces of both. -/
theorem splitOn_append (h : a.getLast? ≠ some c) (b : List Char) :
    splitOn [c, c] (a ++ c :: c :: b) = splitOn [c, c] a ++ splitOn [c, c] b := by
  induction a using operatorRec c with
  | nil => simp
  | operator a ih =>
    have hrest : a.getLast? ≠ some c := by
      cases a with
      | nil => simp
      | cons y a => simpa using h
    simp [ih hrest]
  | cons x a hstart ih =>
    have hrest : a.getLast? ≠ some c := by
      cases a with
      | nil => simp
      | cons y a => simpa using h
    have hstart' : ¬ [c, c] <+: x :: (a ++ c :: c :: b) := by
      cases a with
      | nil =>
        have hne : x ≠ c := by simpa using h
        exact not_operator_prefix_of_ne hne _
      | cons y a => simpa [List.cons_prefix_cons] using hstart
    obtain ⟨q, qs, hpieces⟩ := List.exists_cons_of_ne_nil (splitOn_ne_nil [c, c] a)
    rw [List.cons_append, splitOn_cons hstart', ih hrest, splitOn_cons hstart, hpieces]
    rfl

theorem modifyLast_cons {α : Type*} {f : α → α} {y : α} {l : List α} (h : l ≠ []) :
    (y :: l).modifyLast f = y :: l.modifyLast f :=
  List.modifyLast_append_of_right_ne_nil f [y] l h

/-- What is put behind a text without the operator's character goes to its last piece. -/
theorem splitOn_append_of_not_mem (hg : c ∉ g) (s : List Char) :
    splitOn [c, c] (s ++ g) = (splitOn [c, c] s).modifyLast (· ++ g) := by
  induction s using operatorRec c with
  | nil =>
    have hinside : ¬ [c, c] <:+: g := fun h => hg (h.subset (by simp))
    rw [List.nil_append, splitOn_eq_singleton hinside, splitOn_nil]
    rfl
  | operator s ih =>
    rw [List.cons_append, List.cons_append, splitOn_operator, splitOn_operator, ih,
      modifyLast_cons (splitOn_ne_nil _ _)]
  | cons x s hstart ih =>
    have hstart' : ¬ [c, c] <+: x :: (s ++ g) := by
      cases s with
      | nil =>
        intro hahead
        have hhead : [c] <+: g := (List.cons_prefix_cons.mp hahead).2
        exact hg (hhead.subset (by simp))
      | cons y s => simpa [List.cons_prefix_cons] using hstart
    obtain ⟨q, qs, hpieces⟩ := List.exists_cons_of_ne_nil (splitOn_ne_nil [c, c] s)
    rw [List.cons_append, splitOn_cons hstart', ih, splitOn_cons hstart, hpieces]
    cases qs with
    | nil => rfl
    | cons r qs =>
      have hne : r :: qs ≠ [] := List.cons_ne_nil _ _
      rw [modifyLast_cons hne, List.modifyHead_cons, List.modifyHead_cons, modifyLast_cons hne]

/-- What is put before a text without the operator's character goes to its first piece. -/
theorem splitOn_append_left_of_not_mem (hg : c ∉ g) (s : List Char) :
    splitOn [c, c] (g ++ s) = (splitOn [c, c] s).modifyHead (g ++ ·) := by
  induction g with
  | nil =>
    have hid : (([] : List Char) ++ ·) = id := by
      funext rest
      rfl
    rw [hid, List.modifyHead_id]
    rfl
  | cons x g ih =>
    rw [List.mem_cons, not_or] at hg
    rw [List.cons_append, splitOn_cons (not_operator_prefix_of_ne (Ne.symm hg.1) _), ih hg.2,
      List.modifyHead_modifyHead]
    rfl

end Pagewright.Text
