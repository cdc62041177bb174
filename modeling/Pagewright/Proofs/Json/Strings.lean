import Mathlib.Data.Nat.Notation
import Pagewright.Json.Reader
import Pagewright.Json.Writer

/-!
# Strings are read as they were written

Each character of a string is written as itself or as one escape, or two for a surrogate pair, and is read back in
one step (`readString_escapedChar`). So a string that is written is read as it was, up to its closing quote
(`readString_escaped`).
-/

namespace Pagewright.Json

variable {rest read : List Char} {start fuel : ℕ} {charset : Charset} {standIn : Option Char}

/-! ## Escapes -/

theorem hex_succ {size : ℕ} (hsize : 0 < size) (n : ℕ) :
    Text.hex (size + 1) n = Text.hex size (n / 16) ++ [Nat.digitChar (n % 16)] := by
  unfold Text.hex
  by_cases hn : n < 16
  · rw [Nat.toDigits_of_lt_base hn, Nat.div_eq_of_lt hn, Nat.mod_eq_of_lt hn, Nat.toDigits_zero]
    obtain ⟨size, rfl⟩ := Nat.exists_eq_succ_of_ne_zero (Nat.ne_of_gt hsize)
    simp [List.replicate_succ']
  · rw [Nat.toDigits_of_base_le (by decide) (Nat.not_lt.mp hn)]
    simp

theorem hexValue?_digitChar : ∀ d < 16, hexValue? (Nat.digitChar d) = some d := by decide

theorem hex_four {n : ℕ} (hn : n < 0x10000) : Text.hex 4 n =
    [Nat.digitChar (n / 16 / 16 / 16), Nat.digitChar (n / 16 / 16 % 16), Nat.digitChar (n / 16 % 16),
      Nat.digitChar (n % 16)] := by
  have hfirst : Text.hex 1 (n / 16 / 16 / 16) = [Nat.digitChar (n / 16 / 16 / 16)] := by
    rw [Text.hex, Nat.toDigits_of_lt_base (by omega)]
    rfl
  rw [hex_succ (by decide), hex_succ (by decide), hex_succ (by decide), hfirst]
  rfl

theorem hexUnit?_hex {n : ℕ} (hn : n < 0x10000) (rest : List Char) :
    hexUnit? (Text.hex 4 n ++ rest) = some (n, rest) := by
  rw [hex_four hn]
  simp only [List.cons_append, List.nil_append, hexUnit?]
  rw [hexValue?_digitChar _ (by omega), hexValue?_digitChar _ (by omega), hexValue?_digitChar _ (by omega),
    hexValue?_digitChar _ (by omega)]
  simp only [Option.bind_eq_bind, Option.bind_some, Option.pure_def, Option.some.injEq, Prod.mk.injEq, and_true]
  omega

/-- No character is one half of a surrogate pair. -/
theorem toNat_cases (c : Char) : c.toNat < 0xD800 ∨ (0xE000 ≤ c.toNat ∧ c.toNat < 0x110000) := by
  have := c.valid
  simp only [UInt32.isValidChar, Nat.isValidChar] at this
  have hc : c.toNat = c.val.toNat := rfl
  omega

theorem unicodeEscape?_unit {n : ℕ} (hn : n < 0xD800 ∨ (0xE000 ≤ n ∧ n < 0x10000)) (rest : List Char) :
    unicodeEscape? (Text.hex 4 n ++ rest) = some (some (Char.ofNat n), rest) := by
  have hhigh : (0xD800 ≤ n && n < 0xDC00) = false := by
    simp only [Bool.and_eq_false_iff, decide_eq_false_iff_not]
    omega
  have hlow : (0xDC00 ≤ n && n < 0xE000) = false := by
    simp only [Bool.and_eq_false_iff, decide_eq_false_iff_not]
    omega
  rw [unicodeEscape?, hexUnit?_hex (by omega)]
  simp only [Option.bind_eq_bind, Option.bind_some, hhigh, hlow, Bool.false_eq_true, if_false, Option.pure_def]

theorem unicodeEscape?_pair {m : ℕ} (hm : m < 0x100000) (rest : List Char) :
    unicodeEscape? (Text.hex 4 (0xD800 + m / 0x400) ++ (unitEscape (0xDC00 + m % 0x400) ++ rest)) =
      some (some (Char.ofNat (0x10000 + m)), rest) := by
  have hhigh : (0xD800 ≤ 0xD800 + m / 0x400 && 0xD800 + m / 0x400 < 0xDC00) = true := by
    simp only [Bool.and_eq_true, decide_eq_true_eq]
    omega
  have hlow : (0xDC00 ≤ 0xDC00 + m % 0x400 && 0xDC00 + m % 0x400 < 0xE000) = true := by
    simp only [Bool.and_eq_true, decide_eq_true_eq]
    omega
  have hjoin : 0x10000 + (0xD800 + m / 0x400 - 0xD800) * 0x400 + (0xDC00 + m % 0x400 - 0xDC00) = 0x10000 + m := by
    omega
  rw [unicodeEscape?, hexUnit?_hex (by omega)]
  simp only [Option.bind_eq_bind, Option.bind_some, hhigh, if_true, unitEscape, List.cons_append]
  rw [hexUnit?_hex (by omega)]
  simp only [hlow, if_true, hjoin, Option.pure_def]

/-! ## Characters -/

/-- The ways in which a character is written. -/
inductive EscapedAs (c : Char) : List Char → Prop where
  | short {e : Char} (he : e ∈ ['"', '\\', 'n', 'r', 't', 'b', 'f']) (h : simpleEscape? e = some c) :
    EscapedAs c ['\\', e]
  | control (h : c.toNat < 32) : EscapedAs c (unitEscape c.toNat)
  | self (hquote : ¬(c == '"') = true) (hslash : ¬(c == '\\') = true) (hcontrol : ¬c.toNat < 32) : EscapedAs c [c]
  | wide : EscapedAs c (wideEscape c.toNat)

theorem escapedAs_escapedChar (charset : Charset) (c : Char) : EscapedAs c (escapedChar charset c) := by
  have hshort {d e : Char} (hc : (c == d) = true) (he : e ∈ ['"', '\\', 'n', 'r', 't', 'b', 'f'])
      (h : simpleEscape? e = some d) : EscapedAs c ['\\', e] := .short he (eq_of_beq hc ▸ h)
  unfold escapedChar
  refine iteInduction (fun hc => hshort hc (by decide) rfl) fun hquote => ?_
  refine iteInduction (fun hc => hshort hc (by decide) rfl) fun hslash => ?_
  iterate 5 refine iteInduction (fun hc => hshort hc (by decide) rfl) fun _ => ?_
  refine iteInduction .control fun hcontrol => ?_
  refine iteInduction (fun _ => .self hquote hslash hcontrol) fun _ => ?_
  cases charset with
  | ascii => exact .wide
  | unicode => exact .self hquote hslash hcontrol

theorem readString_backslash {e x : Char} (he : e ≠ 'u') (hx : simpleEscape? e = some x) :
    readString standIn start (fuel + 1) read ('\\' :: e :: rest) = readString standIn start fuel (x :: read) rest := by
  simp [readString, hx]

theorem readString_unicode {x : Char} {s : List Char} (h : unicodeEscape? s = some (some x, rest)) :
    readString standIn start (fuel + 1) read ('\\' :: 'u' :: s) = readString standIn start fuel (x :: read) rest := by
  simp [readString, h]

theorem readString_self {c : Char} (hquote : ¬(c == '"') = true) (hslash : ¬(c == '\\') = true)
    (hcontrol : ¬c.toNat < 32) :
    readString standIn start (fuel + 1) read ([c] ++ rest) = readString standIn start fuel (c :: read) rest := by
  simp only [List.singleton_append, readString, if_neg hquote, if_neg hslash, if_neg hcontrol]

theorem unitEscape_append (n : ℕ) (s : List Char) : unitEscape n ++ s = '\\' :: 'u' :: (Text.hex 4 n ++ s) := rfl

theorem readString_wideEscape (c : Char) :
    readString standIn start (fuel + 1) read (wideEscape c.toNat ++ rest) =
      readString standIn start fuel (c :: read) rest := by
  have hc := toNat_cases c
  unfold wideEscape
  split
  · rename_i hunit
    have hread := unicodeEscape?_unit (n := c.toNat) (by omega) rest
    rw [Char.ofNat_toNat] at hread
    rw [unitEscape_append]
    exact readString_unicode hread
  · rename_i hpair
    have hread := unicodeEscape?_pair (m := c.toNat - 0x10000) (by omega) rest
    rw [Nat.add_sub_of_le (Nat.not_lt.mp hpair), Char.ofNat_toNat] at hread
    rw [List.append_assoc, unitEscape_append]
    exact readString_unicode hread

/-- A character is read back in one step. -/
theorem readString_escapedChar (c : Char) :
    readString standIn start (fuel + 1) read (escapedChar charset c ++ rest) =
      readString standIn start fuel (c :: read) rest := by
  have hescaped := escapedAs_escapedChar charset c
  generalize escapedChar charset c = s at hescaped ⊢
  cases hescaped with
  | short he h =>
    refine readString_backslash ?_ h
    rintro rfl
    revert he
    decide
  | control h =>
    have hread := unicodeEscape?_unit (n := c.toNat) (by omega) rest
    rw [Char.ofNat_toNat] at hread
    rw [unitEscape_append]
    exact readString_unicode hread
  | self hquote hslash hcontrol => exact readString_self hquote hslash hcontrol
  | wide => exact readString_wideEscape c

/-! ## Strings -/

/-- The characters of a string are read back up to the closing quote. -/
theorem readString_escaped {cs : List Char} (hfuel : cs.length < fuel) :
    readString standIn start fuel read (cs.flatMap (escapedChar charset) ++ '"' :: rest) =
      .ok (String.ofList (read.reverse ++ cs), rest) := by
  induction cs generalizing fuel read with
  | nil =>
    obtain ⟨fuel, rfl⟩ := Nat.exists_eq_succ_of_ne_zero (Nat.ne_of_gt hfuel)
    simp [readString]
  | cons c cs ih =>
    obtain ⟨fuel, rfl⟩ := Nat.exists_eq_succ_of_ne_zero (Nat.ne_zero_of_lt hfuel)
    rw [List.flatMap_cons, List.append_assoc, readString_escapedChar, ih (Nat.lt_of_succ_lt_succ hfuel),
      List.reverse_cons, List.append_assoc, List.singleton_append]

theorem wideEscape_ne_nil (n : ℕ) : wideEscape n ≠ [] := by
  unfold wideEscape
  split <;> exact List.cons_ne_nil _ _

theorem escapedChar_ne_nil (charset : Charset) (c : Char) : escapedChar charset c ≠ [] := by
  have hescaped := escapedAs_escapedChar charset c
  generalize escapedChar charset c = s at hescaped ⊢
  cases hescaped with
  | short => exact List.cons_ne_nil _ _
  | control => exact List.cons_ne_nil _ _
  | self => exact List.cons_ne_nil _ _
  | wide => exact wideEscape_ne_nil _

theorem length_le_escaped (cs : List Char) : cs.length ≤ (cs.flatMap (escapedChar charset)).length := by
  induction cs with
  | nil => exact Nat.zero_le _
  | cons c cs ih =>
    have hc := List.length_pos_iff.mpr (escapedChar_ne_nil charset c)
    rw [List.flatMap_cons, List.length_append, List.length_cons]
    omega

theorem readString_stringChars (standIn : Option Char) (charset : Charset) (start : ℕ) (s : String) (rest : List Char) :
    ∃ body, stringChars charset s ++ rest = '"' :: body ∧
      readString standIn start body.length.succ [] body = .ok (s, rest) := by
  refine ⟨s.toList.flatMap (escapedChar charset) ++ '"' :: rest, by simp [stringChars], ?_⟩
  have hfuel : s.toList.length < (s.toList.flatMap (escapedChar charset) ++ '"' :: rest).length.succ := by
    rw [List.length_append]
    exact Nat.lt_succ_of_le (Nat.le_add_right_of_le (length_le_escaped _))
  rw [readString_escaped hfuel, List.reverse_nil, List.nil_append, String.ofList_toList]

/-! ## Control characters -/

theorem le_toNat_of_mem_unitEscape {n : ℕ} (hn : n < 0x10000) {c : Char} (h : c ∈ unitEscape n) :
    32 ≤ c.toNat := by
  have hdigit : ∀ d < 16, 32 ≤ (Nat.digitChar d).toNat := by decide
  rw [unitEscape, hex_four hn] at h
  simp only [List.mem_cons, List.not_mem_nil, or_false] at h
  rcases h with rfl | rfl | rfl | rfl | rfl | rfl
  · decide
  · decide
  all_goals exact hdigit _ (by omega)

theorem le_toNat_of_mem_wideEscape {c d : Char} (h : d ∈ wideEscape c.toNat) : 32 ≤ d.toNat := by
  have hc := toNat_cases c
  unfold wideEscape at h
  split at h
  · exact le_toNat_of_mem_unitEscape (by omega) h
  · rcases List.mem_append.mp h with h | h
    · exact le_toNat_of_mem_unitEscape (by omega) h
    · exact le_toNat_of_mem_unitEscape (by omega) h

theorem le_toNat_of_mem_escapedChar {c d : Char} (h : d ∈ escapedChar charset c) : 32 ≤ d.toNat := by
  have hletters : ∀ e ∈ ['"', '\\', 'n', 'r', 't', 'b', 'f'], 32 ≤ e.toNat := by simp
  have hescaped := escapedAs_escapedChar charset c
  generalize escapedChar charset c = s at hescaped h
  cases hescaped with
  | short he hc =>
    rcases List.mem_cons.mp h with rfl | h
    · decide
    · exact List.mem_singleton.mp h ▸ hletters _ he
  | control hc => exact le_toNat_of_mem_unitEscape (by omega) h
  | self _ _ hcontrol => exact List.mem_singleton.mp h ▸ Nat.not_lt.mp hcontrol
  | wide => exact le_toNat_of_mem_wideEscape h

theorem le_toNat_of_mem_stringChars {s : String} {c : Char} (h : c ∈ stringChars charset s) : 32 ≤ c.toNat := by
  simp only [stringChars, List.cons_append, List.mem_cons, List.mem_append, List.not_mem_nil, or_false,
    List.mem_flatMap] at h
  rcases h with rfl | ⟨d, -, h⟩ | rfl
  · decide
  · exact le_toNat_of_mem_escapedChar h
  · decide

end Pagewright.Json
