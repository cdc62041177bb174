import Pagewright.Binding.Placeholder
import Pagewright.Proofs.Text.Trim

/-!
# What scanning a text finds

A template text is scanned for placeholders and a condition for its tokens, each from the left and without
regard to what the text means. What a scan finds is compared with what the text is read as.

* A field that holds one path is read with or without braces around the path. The scan finds the path just
  when the field is written as one placeholder (`pathOf_mem_pathsOf_iff`).
* A word of a condition stands alone when no character of a token is next to it. The scan finds it just when
  it is a token (`mem_tokens_iff_of_standsAlone`).
-/

namespace Pagewright

open Pagewright.Text

namespace Piece

variable {s body rest g : List Char} {path : String} {size : ℕ}

/-- A placeholder at the start of a text. -/
theorem placeholder?_eq_some (h : placeholder? s = some (path, size)) :
    ∃ body rest, s = '\x7b' :: '\x7b' :: (body ++ '\x7d' :: '\x7d' :: rest) ∧ '\x7d' ∉ body ∧
      path = String.ofList (trim body) := by
  unfold placeholder? at h
  split at h
  · rename_i behind
    dsimp only at h
    split at h
    · cases h
    · split at h
      · rename_i rest hrest
        obtain ⟨rfl, -⟩ := Prod.mk.inj (Option.some.inj h)
        refine ⟨behind.takeWhile (· != '\x7d'), rest, ?_, fun hmem => ?_, rfl⟩
        · rw [← hrest, List.prefix_iff_eq_append.mp (List.takeWhile_prefix _)]
        · exact absurd (List.mem_takeWhile_imp hmem) (by simp)
      · cases h
  · cases h

theorem placeholder?_of_not_mem (hne : body ≠ []) (hbody : '\x7d' ∉ body) (rest : List Char) :
    placeholder? ('\x7b' :: '\x7b' :: (body ++ '\x7d' :: '\x7d' :: rest)) =
      some (String.ofList (trim body), body.length + 4) := by
  have hall : ∀ c ∈ body, (c != '\x7d') = true := by
    intro c hc
    simp only [bne_iff_ne]
    rintro rfl
    exact hbody hc
  have htake : (body ++ '\x7d' :: '\x7d' :: rest).takeWhile (· != '\x7d') = body := by
    rw [List.takeWhile_append_of_pos hall]
    simp
  simp [placeholder?, htake, hne]

theorem placeholder?_of_ne {c : Char} (h : c ≠ '\x7b') (s : List Char) : placeholder? (c :: s) = none := by
  unfold placeholder?
  split
  · rename_i heq
    exact absurd (List.cons.inj heq).1 h
  · rfl

theorem brace_of_binding_mem (skip : ℕ) (h : binding path ∈ ofCharsFrom skip s) :
    '\x7d' ∉ path.toList ∧ '\x7d' ∈ s := by
  fun_induction ofCharsFrom skip s with
  | case1 => cases h
  | case2 skip c rest ih => exact ⟨(ih h).1, List.mem_cons_of_mem _ (ih h).2⟩
  | case3 c rest found size hfound ih =>
    rcases List.mem_cons.mp h with hhere | hlater
    · obtain rfl := Piece.binding.inj hhere
      obtain ⟨body, rest, hs, hbody, rfl⟩ := placeholder?_eq_some hfound
      rw [hs, String.toList_ofList]
      exact ⟨fun hmem => hbody ((infix_of_trim body).subset hmem), by simp⟩
    · exact ⟨(ih hlater).1, List.mem_cons_of_mem _ (ih hlater).2⟩
  | case4 c rest hnone ih =>
    rcases List.mem_cons.mp h with hhere | hlater
    · cases hhere
    · exact ⟨(ih hlater).1, List.mem_cons_of_mem _ (ih hlater).2⟩

theorem mem_ofCharsFrom_append {p : Piece} (hg : '\x7b' ∉ g) (h : p ∈ ofCharsFrom 0 s) :
    p ∈ ofCharsFrom 0 (g ++ s) := by
  induction g with
  | nil => exact h
  | cons c g ih =>
    rw [List.mem_cons, not_or] at hg
    rw [List.cons_append, ofCharsFrom, placeholder?_of_ne (Ne.symm hg.1)]
    exact List.mem_cons_of_mem _ (ih hg.2)

end Piece

namespace Binding

variable {s g body core : List Char} {c : Char}

/-! ## Placeholders -/

/-- Whether a field is written as one placeholder, blanks around it apart. -/
def isPlaceholder : Value → Bool
  | .text s => (wholePlaceholder? s.toList).any fun core => !core.contains '\x7d'
  | _ => false

theorem brace_of_mem_pathsOf {path text : String} (h : path ∈ pathsOf text) :
    '\x7d' ∉ path.toList ∧ '\x7d' ∈ text.toList := by
  obtain ⟨piece, hpiece, hpath⟩ := List.mem_filterMap.mp h
  cases piece with
  | char c => cases hpath
  | binding found =>
    obtain rfl := Option.some.inj hpath
    exact Piece.brace_of_binding_mem 0 hpiece

theorem pathOf_text (s : String) :
    pathOf (.text s) = String.ofList ((wholePlaceholder? s.toList).getD (trim s.toList)) := by
  unfold pathOf
  dsimp only
  split
  · rename_i hempty
    obtain rfl : s = "" := by simpa using hempty
    rfl
  · rfl

/-- A text with its braces and the blanks around them taken off. -/
theorem wholePlaceholder?_eq_some (h : wholePlaceholder? s = some core) :
    ∃ g inner rest, IsGap g ∧ inner ≠ [] ∧ core = trim inner ∧
      s = g ++ '\x7b' :: '\x7b' :: (inner ++ '\x7d' :: '\x7d' :: rest) := by
  unfold wholePlaceholder? at h
  split at h
  · rename_i body hstart
    split at h
    · rename_i inner hend
      dsimp only at h
      split at h
      · rename_i hinner
        obtain ⟨rest, -, hbody⟩ := exists_gap_trimEnd body
        have htrimmed : trimEnd body = inner.reverse ++ ['\x7d', '\x7d'] := by
          rw [← List.reverse_reverse (trimEnd body), hend]
          simp
        refine ⟨s.takeWhile isBlank, inner.reverse, rest, fun c hc => List.mem_takeWhile_imp hc, ?_,
          (Option.some.inj h).symm, ?_⟩
        · rintro hnil
          simp [hnil] at hinner
        · calc s = s.takeWhile isBlank ++ trimStart s := (List.takeWhile_append_dropWhile).symm
            _ = _ := by rw [hstart, hbody, htrimmed]; simp
      · cases h
    · cases h
  · cases h

/-- A field that holds one path has it in a placeholder just when it is written as one. -/
theorem pathOf_mem_pathsOf_iff (s : String) : pathOf (.text s) ∈ pathsOf s ↔ isPlaceholder (.text s) = true := by
  rw [pathOf_text, isPlaceholder]
  cases hwhole : wholePlaceholder? s.toList with
  | none =>
    -- The path would be the whole text, which has the closing braces of a placeholder in it.
    simp only [Option.getD_none, Option.any_none, Bool.false_eq_true, iff_false]
    intro hmem
    obtain ⟨hnot, hbrace⟩ := brace_of_mem_pathsOf hmem
    rw [String.toList_ofList] at hnot
    exact not_mem_of_trim (by decide) hnot hbrace
  | some core =>
    simp only [Option.getD_some, Option.any_some, Bool.not_eq_true']
    constructor
    · intro hmem
      have hnot := (brace_of_mem_pathsOf hmem).1
      rw [String.toList_ofList] at hnot
      simpa using hnot
    · intro hcore
      obtain ⟨g, inner, rest, hg, hne, rfl, hs⟩ := wholePlaceholder?_eq_some hwhole
      have hinner : '\x7d' ∉ inner := not_mem_of_trim (by decide) (by simpa using hcore)
      have hgap : '\x7b' ∉ g := fun hmem => absurd (hg _ hmem) (by decide)
      refine List.mem_filterMap.mpr ⟨.binding (String.ofList (trim inner)), ?_, rfl⟩
      rw [Piece.ofText, hs]
      refine Piece.mem_ofCharsFrom_append hgap ?_
      rw [Piece.ofCharsFrom, Piece.placeholder?_of_not_mem hne hinner]
      exact List.mem_cons_self

/-! ## Tokens -/

/-- Whether a text is a token of a condition. -/
def isToken : List Char → Bool
  | [] => false
  | c :: rest => isTokenStart c && rest.all isTokenChar

/-- A part of a text that no character of a token is next to. -/
def StandsAlone (p s : List Char) : Prop :=
  ∃ a b, s = a ++ p ++ b ∧ (∀ c ∈ a.getLast?, isTokenChar c = false) ∧ ∀ c ∈ b.head?, isTokenChar c = false

theorem isTokenChar_of_isTokenStart (h : isTokenStart c = true) : isTokenChar c = true := by
  rw [isTokenStart, Bool.or_eq_true] at h
  change (c.isAlpha || c.isDigit || c == '_' || c == '.') = true
  rcases h with h | h <;> simp [h]

theorem isToken_append {token : List Char} (h : isToken token = true) (hc : isTokenChar c = true) :
    isToken (token ++ [c]) = true := by
  cases token with
  | nil => cases h
  | cons x token => simpa [isToken, hc] using h

theorem isTokenChar_of_mem {token : List Char} (h : isToken token = true) (hc : c ∈ token) :
    isTokenChar c = true := by
  cases token with
  | nil => cases h
  | cons x token =>
    rw [isToken, Bool.and_eq_true] at h
    rcases List.mem_cons.mp hc with rfl | hc
    · exact isTokenChar_of_isTokenStart h.1
    · exact List.all_eq_true.mp h.2 c hc

theorem isToken_of_mem_tokensFrom {token : List Char} {t : String} (h : t ∈ tokensFrom token s)
    (htoken : token ≠ [] → isToken token.reverse = true) : isToken t.toList = true := by
  fun_induction tokensFrom token s with
  | case1 => cases h
  | case2 token hne =>
    obtain rfl := List.mem_singleton.mp h
    simpa using htoken hne
  | case3 c rest hstart ih => exact ih h fun _ => by simpa [isToken] using hstart
  | case4 c rest hstart ih => exact ih h fun hne => absurd rfl hne
  | case5 token c rest hne hchar ih =>
    exact ih h fun _ => by simpa using isToken_append (htoken hne) hchar
  | case6 token c rest hne hchar ih =>
    rcases List.mem_cons.mp h with rfl | h
    · simpa using htoken hne
    · exact ih h fun hne => absurd rfl hne

/-- A character of no token ends the current one; the scan goes on behind it as at the start. -/
theorem mem_tokensFrom_of_break {x : Char} (hx : isTokenChar x = false) {t : String} (h : t ∈ tokensFrom [] s)
    (a token : List Char) : t ∈ tokensFrom token (a ++ x :: s) := by
  induction a generalizing token with
  | nil =>
    cases token with
    | nil =>
      have hstart : isTokenStart x = false := by
        by_contra hstart
        simp [isTokenChar_of_isTokenStart (by simpa using hstart)] at hx
      simpa [tokensFrom, hstart] using h
    | cons y token =>
      rw [List.nil_append, tokensFrom, if_neg (by simp [hx])]
      · exact List.mem_cons_of_mem _ h
      · simp
  | cons c a ih =>
    rw [List.cons_append]
    cases token with
    | nil =>
      rw [tokensFrom]
      split
      · exact ih _
      · exact ih _
    | cons y token =>
      rw [tokensFrom]
      · split
        · exact ih _
        · exact List.mem_cons_of_mem _ (ih _)
      · simp

theorem mem_tokensFrom_of_end {token p b : List Char} (hne : token ≠ []) (hp : p.all isTokenChar = true)
    (hb : ∀ c ∈ b.head?, isTokenChar c = false) :
    String.ofList (token.reverse ++ p) ∈ tokensFrom token (p ++ b) := by
  induction p generalizing token with
  | nil =>
    rw [List.append_nil, List.nil_append]
    cases b with
    | nil =>
      rw [tokensFrom]
      · exact List.mem_singleton_self _
      · exact hne
    | cons c b =>
      rw [tokensFrom, if_neg (by simp [hb c rfl])]
      · exact List.mem_cons_self
      · exact hne
  | cons c p ih =>
    rw [List.all_cons, Bool.and_eq_true] at hp
    have hrest : String.ofList ((c :: token).reverse ++ p) ∈ tokensFrom (c :: token) (p ++ b) :=
      ih (by simp) hp.2
    rw [List.cons_append, tokensFrom, if_pos hp.1]
    · simpa using hrest
    · exact hne

/-- What stands alone in a condition is found just when it is a token. -/
theorem mem_tokens_iff_of_standsAlone {p : List Char} {s : String} (h : StandsAlone p s.toList) :
    String.ofList p ∈ tokens s ↔ isToken p = true := by
  constructor
  · intro hmem
    have htoken := isToken_of_mem_tokensFrom hmem fun hne => absurd rfl hne
    rwa [String.toList_ofList] at htoken
  · intro htoken
    obtain ⟨a, b, hs, ha, hb⟩ := h
    have hhere : String.ofList p ∈ tokensFrom [] (p ++ b) := by
      cases p with
      | nil => cases htoken
      | cons c p =>
        rw [isToken, Bool.and_eq_true] at htoken
        rw [List.cons_append, tokensFrom, if_pos htoken.1]
        show String.ofList ([c].reverse ++ p) ∈ tokensFrom [c] (p ++ b)
        exact mem_tokensFrom_of_end (by simp) htoken.2 hb
    rw [tokens, hs, List.append_assoc]
    rcases List.eq_nil_or_concat a with rfl | ⟨a, x, rfl⟩
    · exact hhere
    · rw [List.concat_eq_append, List.append_assoc, List.singleton_append]
      exact mem_tokensFrom_of_break (ha x (by simp)) hhere a []

/-! ## What stands alone -/

theorem isTokenChar_of_isBlank (h : isBlank c = true) : isTokenChar c = false := by
  by_contra htoken
  rw [Bool.not_eq_false] at htoken
  change ((((decide (c.val ≥ 'A'.val ∧ c.val ≤ 'Z'.val) || (decide (c.val ≥ 'a'.val) && decide (c.val ≤ 'z'.val))) ||
    (decide (c.val ≥ '0'.val) && decide (c.val ≤ '9'.val))) || c == '_') || c == '.') = true at htoken
  simp only [Bool.or_eq_true, Bool.and_eq_true, decide_eq_true_eq, beq_iff_eq, ge_iff_le, UInt32.le_iff_toNat_le] at htoken
  change (((((65 ≤ c.toNat ∧ c.toNat ≤ 90) ∨ (97 ≤ c.toNat ∧ c.toNat ≤ 122)) ∨
    (48 ≤ c.toNat ∧ c.toNat ≤ 57)) ∨ c = '_') ∨ c = '.') at htoken
  rcases htoken with (hrange | rfl) | rfl
  · simp only [isBlank] at h
    split at h
    · simp only [Bool.or_eq_true, Bool.and_eq_true, decide_eq_true_eq] at h
      omega
    · omega
  · exact absurd h (by decide)
  · exact absurd h (by decide)

theorem standsAlone_refl (s : List Char) : StandsAlone s s := ⟨[], [], by simp, by simp, by simp⟩

theorem StandsAlone.trans {p q : List Char} (hpq : StandsAlone p q) (hqs : StandsAlone q s) :
    StandsAlone p s := by
  obtain ⟨a, b, rfl, ha, hb⟩ := hpq
  obtain ⟨a', b', rfl, ha', hb'⟩ := hqs
  refine ⟨a' ++ a, b ++ b', by simp, fun c hc => ?_, fun c hc => ?_⟩
  · rcases List.eq_nil_or_concat a with rfl | ⟨a, x, rfl⟩
    · exact ha' c (by simpa using hc)
    · exact ha c (by simpa using hc)
  · cases b with
    | nil => exact hb' c hc
    | cons x b => exact hb c hc

theorem standsAlone_append {a b : List Char} (ha : ∀ c ∈ a, isTokenChar c = false)
    (hb : ∀ c ∈ b, isTokenChar c = false) (p : List Char) : StandsAlone p (a ++ p ++ b) :=
  ⟨a, b, rfl, fun c hc => ha c (List.mem_of_getLast? hc), fun c hc => hb c (List.mem_of_head? hc)⟩

theorem StandsAlone.cons {p : List Char} (hc : isTokenChar c = false) (h : StandsAlone p s) :
    StandsAlone p (c :: s) := by
  refine h.trans ?_
  have hone := standsAlone_append (a := [c]) (b := []) (by simpa using hc) (by simp) s
  simpa using hone

theorem isTokenChar_of_mem_gap (hg : IsGap g) : ∀ c ∈ g, isTokenChar c = false :=
  fun c hc => isTokenChar_of_isBlank (hg c hc)

theorem standsAlone_trim (s : List Char) : StandsAlone (trim s) s := by
  obtain ⟨g, h, hg, hh, hs⟩ := exists_gaps s
  have halone := standsAlone_append (isTokenChar_of_mem_gap hg) (isTokenChar_of_mem_gap hh) (trim s)
  rwa [← hs] at halone

theorem standsAlone_trimEnd (s : List Char) : StandsAlone (trimEnd s) s := by
  obtain ⟨h, hh, hs⟩ := exists_gap_trimEnd s
  have halone := standsAlone_append (a := []) (by simp) (isTokenChar_of_mem_gap hh) (trimEnd s)
  rwa [List.nil_append, ← hs] at halone

end Binding

end Pagewright
