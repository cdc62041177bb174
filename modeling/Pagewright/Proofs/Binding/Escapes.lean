import Pagewright.Binding.Placeholder
import Pagewright.Proofs.Outcome
import Pagewright.Proofs.Text.Replace

/-!
# Written-out breaks and tabs

A line break or tab is written out with letters, each of which has one or two backslashes in front
(`Binding.IsEscape`). Decoding replaces these escapes one kind after the other. Breaks and tabs are in none of them, so
no escape is left, and a text is decoded to itself just when it has none (`Binding.decodeEscapes_normal`). An escape
that stands apart becomes what it stands for (`Binding.decodeEscapes_between`).

Template texts are decoded after they are filled, so there is no escape in what they show, even where the data have
one (`Binding.not_infix_substitute`).
-/

namespace Pagewright.Binding

open Pagewright.Text

variable {e : List Char} {c d : Char}

/-- Letters with a number of backslashes in front of each. -/
def spelled (slashes : ℕ) (letters : List Char) : List Char :=
  letters.flatMap fun c => List.replicate slashes '\\' ++ [c]

/-- A written-out break or tab, with single or with double backslashes. -/
def IsEscape (e : List Char) : Prop :=
  ∃ slashes ∈ [1, 2], ∃ letters ∈ [['r', 'n'], ['n'], ['t']], e = spelled slashes letters

/-- Characters that escapes are made of or stand for. -/
def isEscapeChar (c : Char) : Bool := ['\\', 'r', 'n', 't', '\n', '\t'].contains c

/-! ## The table of escapes -/

theorem map_fst_escapes :
    escapes.map Prod.fst = [2, 1].flatMap fun slashes => [['r', 'n'], ['n'], ['t']].map (spelled slashes) := by
  decide

theorem isEscape_iff : IsEscape e ↔ ∃ rule ∈ escapes, rule.1 = e := by
  have hslashes (slashes : ℕ) : slashes ∈ [2, 1] ↔ slashes ∈ [1, 2] := by simp [or_comm]
  rw [← List.mem_map, map_fst_escapes, List.mem_flatMap, IsEscape]
  simp only [hslashes, List.mem_map, eq_comm]

theorem apart_escapes : Apart escapes := by
  have hmark (d : Char) (hd : d = '\n' ∨ d = '\t') : ∀ rule ∈ escapes, d ∉ rule.1 := by
    rcases hd with rfl | rfl <;> decide
  have hsingle : ∀ rule ∈ escapes, rule.1 ≠ [] ∧ (rule.2 = ['\n'] ∨ rule.2 = ['\t']) := by decide
  intro rule hrule
  obtain ⟨hne, hnew | hnew⟩ := hsingle rule hrule
  · exact ⟨hne, '\n', hnew, hmark '\n' (.inl rfl)⟩
  · exact ⟨hne, '\t', hnew, hmark '\t' (.inr rfl)⟩

/-! ## Decoding -/

theorem decodeEscapes_eq (s : List Char) : decodeEscapes s = replaceAll escapes s := rfl

theorem not_infix_decodeEscapes (he : IsEscape e) (s : List Char) : ¬ e <:+: decodeEscapes s := by
  obtain ⟨rule, hrule, rfl⟩ := isEscape_iff.mp he
  rw [decodeEscapes_eq]
  exact not_infix_replaceAll apart_escapes hrule s

theorem decodeEscapes_eq_self_iff (s : List Char) : decodeEscapes s = s ↔ ∀ e, IsEscape e → ¬ e <:+: s := by
  constructor
  · intro h e he
    rw [← h]
    exact not_infix_decodeEscapes he s
  · intro h
    rw [decodeEscapes_eq]
    exact replaceAll_eq_self fun rule hrule => h rule.1 (isEscape_iff.mpr ⟨rule, hrule, rfl⟩)

/-- Nothing but the characters of escapes is lost, and nothing but breaks and tabs comes up. -/
theorem filter_decodeEscapes (s : List Char) :
    (decodeEscapes s).filter (!isEscapeChar ·) = s.filter (!isEscapeChar ·) := by
  have hkept : ∀ rule ∈ escapes,
      rule.1 ≠ [] ∧ rule.2.filter (!isEscapeChar ·) = rule.1.filter (!isEscapeChar ·) := by decide
  rw [decodeEscapes_eq]
  exact filter_replaceAll hkept s

theorem decodeEscapes_append_cons (hc : isEscapeChar c = false) (s t : List Char) :
    decodeEscapes (s ++ c :: t) = decodeEscapes s ++ c :: decodeEscapes t := by
  have hrules : ∀ rule ∈ escapes, rule.1 ≠ [] ∧ rule.1.all isEscapeChar = true := by decide
  have hapart : ∀ rule ∈ escapes, rule.1 ≠ [] ∧ c ∉ rule.1 := by
    intro rule hrule
    obtain ⟨hne, hall⟩ := hrules rule hrule
    refine ⟨hne, fun hmem => ?_⟩
    rw [List.all_eq_true.mp hall c hmem] at hc
    cases hc
  rw [decodeEscapes_eq, decodeEscapes_eq, decodeEscapes_eq]
  exact replaceAll_append_cons hapart s t

/-- An escape between characters that no escape is made of becomes what it stands for, and what is before and behind
it is decoded on its own. -/
theorem decodeEscapes_between {rule : List Char × List Char} (hrule : rule ∈ escapes) (hc : isEscapeChar c = false)
    (hd : isEscapeChar d = false) (s t : List Char) :
    decodeEscapes (s ++ c :: (rule.1 ++ d :: t)) = decodeEscapes s ++ c :: (rule.2 ++ d :: decodeEscapes t) := by
  have halone : ∀ rule ∈ escapes, decodeEscapes rule.1 = rule.2 := by decide
  rw [decodeEscapes_append_cons hc, decodeEscapes_append_cons hd, halone rule hrule]

/-- No escape is in a filled text, whatever the data are that it is filled from. -/
theorem not_infix_substitute {text filled : String} {data : Value} {page : PageContext}
    (h : substitute text data page = .ok filled) (he : IsEscape e) : ¬ e <:+: filled.toList := by
  obtain ⟨parts, -, hfilled⟩ := Outcome.bind_eq_ok.mp h
  obtain rfl := Except.ok.inj hfilled
  rw [String.toList_ofList]
  exact not_infix_decodeEscapes he _

/-- A decoded text has no escape in it, so it is decoded to itself, and so is every text without one and no other.
Apart from the characters that escapes are made of or stand for, decoding leaves a text as it is. -/
theorem decodeEscapes_normal (s : List Char) :
    (∀ e, IsEscape e → ¬ e <:+: decodeEscapes s) ∧
    decodeEscapes (decodeEscapes s) = decodeEscapes s ∧
    (decodeEscapes s = s ↔ ∀ e, IsEscape e → ¬ e <:+: s) ∧
    (decodeEscapes s).filter (!isEscapeChar ·) = s.filter (!isEscapeChar ·) := by
  have hnone : ∀ e, IsEscape e → ¬ e <:+: decodeEscapes s := fun e he => not_infix_decodeEscapes he s
  exact ⟨hnone, (decodeEscapes_eq_self_iff _).mpr hnone, decodeEscapes_eq_self_iff s, filter_decodeEscapes s⟩

/-- Of three backslashes before a letter the last two are decoded with it. The one that is left makes no escape with
the break. -/
theorem decodeEscapes_normal_threeSlashes :
    IsEscape (spelled 2 ['n']) ∧ decodeEscapes (spelled 3 ['n']) = ['\\', '\n'] ∧
      ¬ spelled 2 ['n'] <:+: decodeEscapes (spelled 3 ['n']) := by
  have hescape : IsEscape (spelled 2 ['n']) := ⟨2, by decide, ['n'], by decide, rfl⟩
  exact ⟨hescape, by decide, (decodeEscapes_normal (spelled 3 ['n'])).1 _ hescape⟩

end Pagewright.Binding
