import Mathlib.Data.List.DropRight
import Pagewright.Layout.Wrap
import Pagewright.Proofs.Text.Trim

/-!
# Paragraphs

A paragraph ends at a break: a line break, blanks, and another line break. A text is cut at its breaks from
the left, each of them taken as long as it can be (`Wrap.CutAtBreaks`). There is one way to do so, and it
gives the paragraphs (`Wrap.cutAtBreaks_iff`).

The invariant of the reading is that no break begins in what was read of the current paragraph.
-/

namespace Pagewright.Wrap

open Pagewright.Text

/-- A break between paragraphs: two line breaks with nothing but blanks between them. -/
def IsBreak (b : List Char) : Prop := ∃ gap, IsGap gap ∧ b = '\n' :: (gap ++ ['\n'])

/-- The pieces of a text between its breaks. What has no break is one piece. Else the first piece ends where
the first break begins, the break is as long as it can be, and the text behind it is cut likewise. -/
inductive CutAtBreaks : List Char → List (List Char) → Prop where
  | whole {s : List Char} (none : ∀ b, IsBreak b → ¬ b <:+: s) : CutAtBreaks s [s]
  | cut {piece b rest : List Char} {pieces : List (List Char)} (isBreak : IsBreak b)
      (first : ∀ x b' y, IsBreak b' → piece ++ b ++ rest = x ++ b' ++ y → piece.length ≤ x.length)
      (longest : ∀ b', IsBreak b' → b' <+: b ++ rest → b'.length ≤ b.length)
      (behind : CutAtBreaks rest pieces) : CutAtBreaks (piece ++ b ++ rest) (piece :: pieces)

variable {s rest b gap read : List Char}

theorem IsBreak.two_le_length (h : IsBreak b) : 2 ≤ b.length := by
  obtain ⟨gap, -, rfl⟩ := h
  simp

theorem IsBreak.newline_mem (h : IsBreak b) : '\n' ∈ b := by
  obtain ⟨gap, -, rfl⟩ := h
  exact List.mem_cons_self

/-! ## The length of a break -/

theorem breakLength_eq (rest : List Char) :
    breakLength rest = ((rest.takeWhile isBlank).rdropWhile (· != '\n')).length := by
  simp [breakLength, List.rdropWhile]

/-- Behind a line break, as many characters as are counted complete a break. -/
theorem isBreak_take (h : 0 < breakLength rest) : IsBreak ('\n' :: rest.take (breakLength rest)) := by
  rw [breakLength_eq] at h ⊢
  have hne := List.length_pos_iff.mp h
  have hbegins := List.rdropWhile_prefix (· != '\n') (rest.takeWhile isBlank)
  have hlast := List.rdropWhile_last_not (· != '\n') _ hne
  generalize (rest.takeWhile isBlank).rdropWhile (· != '\n') = found at hne hbegins hlast ⊢
  rw [← List.prefix_iff_eq_take.mp (hbegins.trans (List.takeWhile_prefix isBlank))]
  refine ⟨found.dropLast, fun c hc => ?_, ?_⟩
  · exact List.mem_takeWhile_imp (hbegins.subset (List.dropLast_subset found hc))
  · have hnewline : found.getLast hne = '\n' := by simpa using hlast
    rw [← hnewline, List.dropLast_append_getLast hne]

theorem length_le_breakLength (hgap : IsGap gap) (h : gap ++ ['\n'] <+: rest) :
    gap.length + 1 ≤ breakLength rest := by
  have hblank : ∀ c ∈ gap ++ ['\n'], isBlank c = true := by
    intro c hc
    rcases List.mem_append.mp hc with hc | hc
    · exact hgap c hc
    · rw [List.mem_singleton.mp hc]
      decide
  obtain ⟨more, rfl⟩ := h
  rw [breakLength_eq, List.takeWhile_append_of_pos hblank]
  generalize more.takeWhile isBlank = more
  induction more using List.reverseRecOn with
  | nil => simp
  | append_singleton more c ih =>
    rw [← List.append_assoc, List.rdropWhile_concat]
    split
    · exact ih
    · simp

/-- A break begins with a line break and is no longer than is counted behind that. -/
theorem IsBreak.of_prefix_cons {c : Char} (h : IsBreak b) (hbegins : b <+: c :: rest) :
    c = '\n' ∧ b.length ≤ breakLength rest + 1 := by
  obtain ⟨gap, hgap, rfl⟩ := h
  obtain ⟨rfl, hgapBegins⟩ := List.cons_prefix_cons.mp hbegins
  have hlength := length_le_breakLength hgap hgapBegins
  refine ⟨rfl, ?_⟩
  simp
  omega

/-! ## Cutting -/

/-- What is read of the current paragraph and what is left are cut at the breaks of the rest, as long as no
break begins in what was read. -/
theorem cutAtBreaks_paragraphsFrom (read : List Char) (skip : ℕ) (s : List Char)
    (h : ∀ x b y, IsBreak b → read.reverse ++ s.drop skip = x ++ b ++ y → read.length ≤ x.length) :
    CutAtBreaks (read.reverse ++ s.drop skip) (paragraphsFrom read skip s) := by
  fun_induction paragraphsFrom read skip s with
  | case1 read skip =>
    rw [List.drop_nil, List.append_nil] at h ⊢
    refine .whole fun b hb hpart => ?_
    obtain ⟨x, y, hxy⟩ := hpart
    have hlength := congrArg List.length hxy
    have hread := h x b y hb hxy.symm
    have htwo := hb.two_le_length
    simp at hlength
    omega
  | case2 read skip c rest ih => exact ih h
  | case3 read c rest hbreak ih =>
    simp only [Bool.and_eq_true, beq_iff_eq, decide_eq_true_eq] at hbreak
    obtain ⟨rfl, hpos⟩ := hbreak
    have htext : read.reverse ++ '\n' :: rest = read.reverse ++ ('\n' :: rest.take (breakLength rest)) ++
        rest.drop (breakLength rest) := by
      simp
    rw [List.drop_zero, htext] at h ⊢
    refine .cut (isBreak_take hpos) (by simpa using h) (fun b' hb' hbegins => ?_) (ih (by simp))
    have hle := (hb'.of_prefix_cons (by simpa using hbegins)).2
    have hlength : breakLength rest ≤ rest.length := by
      rw [breakLength_eq]
      exact ((List.rdropWhile_prefix _ _).trans (List.takeWhile_prefix isBlank)).length_le
    simp
    omega
  | case4 read c rest hbreak ih =>
    rw [List.drop_zero] at h
    have htext : (c :: read).reverse ++ rest.drop 0 = read.reverse ++ c :: rest := by simp
    rw [htext] at ih
    refine ih fun x b y hb hxy => ?_
    have hread := h x b y hb hxy
    by_contra hshort
    -- A break that begins right here was to be found.
    have hlength : read.reverse.length = x.length := by
      simp at hshort ⊢
      omega
    rw [List.append_assoc] at hxy
    obtain ⟨-, hbreakHere⟩ := List.append_inj hxy hlength
    obtain ⟨rfl, hle⟩ := hb.of_prefix_cons ⟨y, hbreakHere.symm⟩
    have htwo := hb.two_le_length
    refine hbreak ?_
    simp
    omega

theorem cutAtBreaks_paragraphs (s : List Char) : CutAtBreaks s (paragraphs s) :=
  cutAtBreaks_paragraphsFrom [] 0 s fun _ _ _ _ _ => Nat.zero_le _

theorem CutAtBreaks.unique {pieces pieces' : List (List Char)} (h : CutAtBreaks s pieces)
    (h' : CutAtBreaks s pieces') : pieces = pieces' := by
  induction h generalizing pieces' with
  | whole hnone =>
    cases h' with
    | whole => rfl
    | cut isBreak => exact absurd ⟨_, _, rfl⟩ (hnone _ isBreak)
  | @cut piece b rest pieces isBreak first longest behind ih =>
    generalize htext : piece ++ b ++ rest = text at h'
    cases h' with
    | whole hnone => exact absurd ⟨_, _, htext⟩ (hnone _ isBreak)
    | @cut piece' b' rest' pieces' isBreak' first' longest' behind' =>
      have hpiece : piece.length = piece'.length :=
        Nat.le_antisymm (first _ _ _ isBreak' htext) (first' _ _ _ isBreak htext.symm)
      rw [List.append_assoc, List.append_assoc] at htext
      obtain ⟨rfl, hrest⟩ := List.append_inj htext hpiece
      have hb : b.length = b'.length :=
        Nat.le_antisymm (longest' _ isBreak ⟨rest, hrest⟩) (longest _ isBreak' ⟨rest', hrest.symm⟩)
      obtain ⟨-, rfl⟩ := List.append_inj hrest hb
      rw [ih behind']

/-- The paragraphs of a text are its pieces between breaks. -/
theorem cutAtBreaks_iff {pieces : List (List Char)} : CutAtBreaks s pieces ↔ pieces = paragraphs s := by
  constructor
  · intro h
    exact h.unique (cutAtBreaks_paragraphs s)
  · rintro rfl
    exact cutAtBreaks_paragraphs s

theorem paragraphs_of_no_break (h : ∀ b, IsBreak b → ¬ b <:+: s) : paragraphs s = [s] :=
  (cutAtBreaks_iff.mp (.whole h)).symm

end Pagewright.Wrap
