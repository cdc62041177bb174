import Mathlib.Data.List.TakeWhile
import Pagewright.Proofs.Record.Place
import Pagewright.Proofs.Text.Split

/-!
# Segments of a path

Brackets around a word are a way to write a segment. They are rewritten in one pass from the left, over a bracketed
word at once (`Path.unbracket_bracketed`) and else by one character (`Path.unbracket_cons`). What stands before a dot
or an opening bracket has no part in what is rewritten from there on (`Path.unbracket_append`), and no new bracketed
word comes up (`Path.not_bracketed_infix_unbracket`).

So the segments of a path are texts with characters, without a dot and without a bracketed word
(`Path.isSegment_of_mem_pieces`), and such texts are the segments of the path that has them with dots between
(`Path.pieces_intercalate`). In this normal form a path leads to the same place of every record
(`Path.segments_normal_form`).
-/

namespace Pagewright

namespace Path

open Pagewright.Text

variable {c x : Char} {s t w p q : List Char} {ps : List (List Char)}

/-! ## Bracketed words -/

/-- A word that can stand in brackets. -/
structure IsName (w : List Char) : Prop where
  ne_nil : w ≠ []
  isWord_of_mem : ∀ c ∈ w, isWord c = true

instance (w : List Char) : Decidable (IsName w) :=
  decidable_of_iff (w ≠ [] ∧ w.all isWord = true)
    ⟨fun h => ⟨h.1, List.all_eq_true.mp h.2⟩, fun h => ⟨h.1, List.all_eq_true.mpr h.isWord_of_mem⟩⟩

/-- A word in brackets. -/
def bracketed (w : List Char) : List Char := '[' :: (w ++ [']'])

theorem bracketed_append (w t : List Char) : bracketed w ++ t = '[' :: (w ++ ']' :: t) := by simp [bracketed]

theorem isWord_opening : isWord '[' = false := by decide

theorem isWord_closing : isWord ']' = false := by decide

theorem isWord_dot : isWord '.' = false := by decide

theorem IsName.not_mem (hw : IsName w) (hc : isWord c = false) : c ∉ w := by
  intro hmem
  rw [hw.isWord_of_mem c hmem] at hc
  cases hc

theorem closesWord_iff : closesWord s = true ↔ ∃ w t, IsName w ∧ s = w ++ ']' :: t := by
  cases s with
  | nil => simp [closesWord]
  | cons c rest =>
    rw [closesWord, Bool.and_eq_true, beq_iff_eq]
    constructor
    · rintro ⟨hc, hhead⟩
      obtain ⟨t, ht⟩ := List.head?_eq_some_iff.mp hhead
      refine ⟨(c :: rest).takeWhile isWord, t, ⟨by simp [hc], fun x hx => List.mem_takeWhile_imp hx⟩, ?_⟩
      rw [← ht, List.takeWhile_append_dropWhile]
    · rintro ⟨w, t, hw, heq⟩
      refine ⟨?_, ?_⟩
      · obtain ⟨x, w, rfl⟩ := List.exists_cons_of_ne_nil hw.ne_nil
        obtain ⟨rfl, -⟩ := List.cons.inj heq
        exact hw.isWord_of_mem c List.mem_cons_self
      · rw [heq, List.dropWhile_append_of_pos hw.isWord_of_mem, List.dropWhile_cons_of_neg (by simp [isWord_closing])]
        rfl

/-- Whether a word is closed does not depend on what comes behind a character that is neither in a word nor closes
one. -/
theorem closesWord_append (hc : isWord c = false) (hclosing : c ≠ ']') (s t : List Char) :
    closesWord (s ++ c :: t) = closesWord s := by
  rw [Bool.eq_iff_iff, closesWord_iff, closesWord_iff]
  constructor
  · rintro ⟨w, u, hw, heq⟩
    rcases List.append_eq_append_iff.mp heq with ⟨v, rfl, hv⟩ | ⟨v, rfl, hv⟩
    · cases v with
      | nil => exact absurd (List.cons.inj hv).1 hclosing
      | cons x v =>
        obtain ⟨rfl, -⟩ := List.cons.inj hv
        exact absurd (List.mem_append_right s List.mem_cons_self) (hw.not_mem hc)
    · cases v with
      | nil => exact absurd (List.cons.inj hv).1.symm hclosing
      | cons x v =>
        obtain ⟨rfl, -⟩ := List.cons.inj hv
        exact ⟨w, v, hw, rfl⟩
  · rintro ⟨w, u, hw, rfl⟩
    exact ⟨w, u ++ c :: t, hw, by simp⟩

/-! ## One pass over the brackets -/

theorem unbracket_inside (h : ']' ∉ w) (t : List Char) :
    unbracket true (w ++ ']' :: t) = w ++ unbracket false t := by
  induction w with
  | nil => rfl
  | cons c w ih =>
    rw [List.mem_cons, not_or] at h
    rw [List.cons_append, unbracket, if_pos rfl, if_neg (by simpa using Ne.symm h.1), ih h.2, List.cons_append]

theorem unbracket_bracketed (hw : IsName w) (t : List Char) :
    unbracket false (bracketed w ++ t) = '.' :: (w ++ unbracket false t) := by
  have hcloses : closesWord (w ++ ']' :: t) = true := closesWord_iff.mpr ⟨w, t, hw, rfl⟩
  rw [bracketed_append, unbracket, if_neg Bool.false_ne_true, if_pos (by simp [hcloses]),
    unbracket_inside (hw.not_mem isWord_closing)]

theorem unbracket_cons (h : c = '[' → closesWord s = false) :
    unbracket false (c :: s) = c :: unbracket false s := by
  have hplain : (c == '[' && closesWord s) = false := by
    by_cases hc : c = '['
    · rw [h hc, Bool.and_false]
    · rw [beq_eq_false_iff_ne.mpr hc, Bool.false_and]
  rw [unbracket, if_neg Bool.false_ne_true, hplain, if_neg Bool.false_ne_true]

/-- Texts are gone through as brackets are rewritten: over a bracketed word at once, else by one character. -/
theorem bracketRec {motive : List Char → Prop} (nil : motive [])
    (word : ∀ w t, IsName w → motive t → motive (bracketed w ++ t))
    (cons : ∀ c s, (c = '[' → closesWord s = false) → motive s → motive (c :: s)) (s : List Char) : motive s := by
  induction hn : s.length using Nat.strong_induction_on generalizing s with
  | _ n ih =>
    cases s with
    | nil => exact nil
    | cons c s =>
      by_cases h : c = '[' → closesWord s = false
      · exact cons c s h (ih s.length (by simp at hn; omega) s rfl)
      · obtain ⟨rfl, hcloses⟩ : c = '[' ∧ closesWord s = true := by simpa using h
        obtain ⟨w, t, hw, rfl⟩ := closesWord_iff.mp hcloses
        rw [← bracketed_append]
        exact word w t hw (ih t.length (by simp at hn; omega) t rfl)

/-- What is rewritten from a dot or an opening bracket on does not depend on what stands before it, nor the other way
round. -/
theorem unbracket_append (hc : isWord c = false) (hclosing : c ≠ ']') (s t : List Char) :
    unbracket false (s ++ c :: t) = unbracket false s ++ unbracket false (c :: t) := by
  induction s using bracketRec with
  | nil => rfl
  | word w s hw ih =>
    rw [List.append_assoc, unbracket_bracketed hw, unbracket_bracketed hw, ih]
    simp
  | cons x s hx ih =>
    have hx' : x = '[' → closesWord (s ++ c :: t) = false := by
      rw [closesWord_append hc hclosing]
      exact hx
    rw [List.cons_append, unbracket_cons hx', unbracket_cons hx, ih, List.cons_append]

theorem unbracket_dot (t : List Char) : unbracket false ('.' :: t) = '.' :: unbracket false t :=
  unbracket_cons fun h => absurd h (by decide)

theorem unbracket_append_of_not_mem (h : '[' ∉ w) (t : List Char) :
    unbracket false (w ++ t) = w ++ unbracket false t := by
  induction w with
  | nil => rfl
  | cons c w ih =>
    rw [List.mem_cons, not_or] at h
    rw [List.cons_append, unbracket_cons fun hc => absurd hc.symm h.1, ih h.2, List.cons_append]

/-- Brackets around a word are as good as a dot before it. -/
theorem unbracket_append_bracketed (hw : IsName w) (s t : List Char) :
    unbracket false (s ++ (bracketed w ++ t)) = unbracket false (s ++ '.' :: (w ++ t)) := by
  calc unbracket false (s ++ (bracketed w ++ t))
      = unbracket false s ++ unbracket false (bracketed w ++ t) := by
        rw [bracketed_append]
        exact unbracket_append isWord_opening (by decide) s _
    _ = unbracket false s ++ '.' :: (w ++ unbracket false t) := by rw [unbracket_bracketed hw]
    _ = unbracket false s ++ unbracket false ('.' :: (w ++ t)) := by
        rw [unbracket_dot, unbracket_append_of_not_mem (hw.not_mem isWord_opening)]
    _ = unbracket false (s ++ '.' :: (w ++ t)) := (unbracket_append isWord_dot (by decide) s _).symm

/-! ## What is left of brackets -/

theorem unbracket_eq_self (h : ∀ w, IsName w → ¬ bracketed w <:+: s) : unbracket false s = s := by
  induction s using bracketRec with
  | nil => rfl
  | word w t hw ih => exact absurd (List.prefix_append _ _).isInfix (h w hw)
  | cons c s hc ih =>
    rw [unbracket_cons hc, ih fun w hw hinside => h w hw (hinside.trans (List.suffix_cons c s).isInfix)]

/-- What a rewritten text begins with, up to a dot, it began with before. -/
theorem prefix_of_prefix_unbracket (hdot : '.' ∉ p) (h : p <+: unbracket false s) : p <+: s := by
  induction s using bracketRec generalizing p with
  | nil => exact h
  | word w t hw ih =>
    rw [unbracket_bracketed hw] at h
    rcases eq_or_ne p [] with rfl | hp
    · exact List.nil_prefix
    · exact absurd h (not_prefix_of_not_mem hp hdot _)
  | cons c s hc ih =>
    rw [unbracket_cons hc] at h
    cases p with
    | nil => exact List.nil_prefix
    | cons x p =>
      obtain ⟨rfl, hrest⟩ := List.cons_prefix_cons.mp h
      exact List.cons_prefix_cons.mpr ⟨rfl, ih (List.not_mem_of_not_mem_cons hdot) hrest⟩

/-- What begins with a character that the first of two texts does not have is found in the second. -/
theorem cons_infix_of_append (hx : x ∉ s) (h : x :: p <:+: s ++ t) : x :: p <:+: t := by
  induction s with
  | nil => exact h
  | cons y s ih =>
    rw [List.mem_cons, not_or] at hx
    rw [List.cons_append, List.infix_cons_iff] at h
    rcases h with hahead | hinside
    · exact absurd (List.cons_prefix_cons.mp hahead).1 hx.1
    · exact ih hx.2 hinside

theorem not_bracketed_infix_unbracket (hw : IsName w) (s : List Char) :
    ¬ bracketed w <:+: unbracket false s := by
  induction s using bracketRec with
  | nil => simp [unbracket, bracketed]
  | word v t hv ih =>
    rw [unbracket_bracketed hv, ← List.cons_append]
    intro hinside
    have hopening : '[' ∉ '.' :: v := by simpa using hv.not_mem isWord_opening
    exact ih (cons_infix_of_append hopening hinside)
  | cons c s hc ih =>
    rw [unbracket_cons hc, List.infix_cons_iff]
    rintro (hahead | hinside)
    · -- The bracket that was kept would have a closed word behind it.
      obtain ⟨rfl, hword⟩ := List.cons_prefix_cons.mp hahead
      have hdot : '.' ∉ w ++ [']'] := by simpa using hw.not_mem isWord_dot
      obtain ⟨t, rfl⟩ := prefix_of_prefix_unbracket hdot hword
      have hcloses : closesWord (w ++ [']'] ++ t) = true := closesWord_iff.mpr ⟨w, t, hw, by simp⟩
      rw [hc rfl] at hcloses
      cases hcloses
    · exact ih hinside

/-! ## Segments -/

/-- A text that can be a segment. -/
structure IsSegment (q : List Char) : Prop where
  ne_nil : q ≠ []
  dot_not_mem : '.' ∉ q
  plain : ∀ w, IsName w → ¬ bracketed w <:+: q

theorem isSegment_of_not_mem (hne : q ≠ []) (hdot : '.' ∉ q) (hopening : '[' ∉ q) : IsSegment q where
  ne_nil := hne
  dot_not_mem := hdot
  plain _ _ hinside := hopening (hinside.subset List.mem_cons_self)

theorem pieces_eq (s : List Char) :
    pieces s = ((unbracket false s).splitOn '.').filter fun piece => !piece.isEmpty := by
  rw [pieces, splitOn_char]

theorem isSegment_of_mem_pieces (h : q ∈ pieces s) : IsSegment q := by
  rw [pieces_eq, List.mem_filter] at h
  obtain ⟨hpiece, hne⟩ := h
  refine ⟨by simpa using hne, not_mem_of_mem_splitOn hpiece, fun w hw hinside => ?_⟩
  exact not_bracketed_infix_unbracket hw s (hinside.trans (infix_of_mem_splitOn hpiece))

theorem unbracket_intercalate (h : ∀ q ∈ ps, unbracket false q = q) :
    unbracket false (['.'].intercalate ps) = ['.'].intercalate ps := by
  induction ps with
  | nil => rfl
  | cons q ps ih =>
    obtain ⟨hq, hps⟩ := List.forall_mem_cons.mp h
    rcases eq_or_ne ps [] with rfl | hne
    · simpa using hq
    · rw [List.intercalate_cons_of_ne_nil hne, List.append_assoc, List.singleton_append,
        unbracket_append isWord_dot (by decide), unbracket_dot, hq, ih hps]

/-- Texts that can be segments are those of the path that has them with dots between. -/
theorem pieces_intercalate (h : ∀ q ∈ ps, IsSegment q) : pieces (['.'].intercalate ps) = ps := by
  have hsame : unbracket false (['.'].intercalate ps) = ['.'].intercalate ps :=
    unbracket_intercalate fun q hq => unbracket_eq_self (h q hq).plain
  rw [pieces_eq, hsame]
  rcases eq_or_ne ps [] with rfl | hne
  · rfl
  · rw [List.splitOn_intercalate '.' (fun q hq => (h q hq).dot_not_mem) hne, List.filter_eq_self]
    exact fun q hq => by simpa using (h q hq).ne_nil

/-! ## The normal form of a path -/

/-- A path written with dots between its segments. -/
def normal (path : String) : String := ".".intercalate (segments path)

/-- Two paths that lead to the same place of every record, for reading and for writing. -/
structure SamePlace (p q : String) : Prop where
  place : ∀ v : Value, v.placeOf? p = v.placeOf? q
  find : ∀ v : Value, v.find p = v.find q
  assign : ∀ v new : Value, v.assign p new = v.assign q new
  findSlot : ∀ (h : Heap) (s : Slot), h.find s p = h.find s q
  assignSlot : ∀ (h : Heap) (id : ℕ) (new : Slot), h.assign id p new = h.assign id q new

theorem samePlace_of_segments {p q : String} (h : segments p = segments q) : SamePlace p q where
  place v := by rw [Value.placeOf?, h, Value.placeOf?]
  find v := by rw [Value.find, h, Value.find]
  assign v new := by rw [Value.assign, h, Value.assign]
  findSlot heap s := by rw [Heap.find, h, Heap.find]
  assignSlot heap id new := by rw [Heap.assign, h, Heap.assign]

theorem isSegment_of_mem_segments {path q : String} (h : q ∈ segments path) : IsSegment q.toList := by
  obtain ⟨piece, hpiece, rfl⟩ := List.mem_map.mp h
  rw [String.toList_ofList]
  exact isSegment_of_mem_pieces hpiece

theorem segments_intercalate {ps : List String} (h : ∀ q ∈ ps, IsSegment q.toList) :
    segments (".".intercalate ps) = ps := by
  have hchars : ∀ q ∈ ps.map String.toList, IsSegment q := List.forall_mem_map.mpr h
  have hdot : ".".toList = ['.'] := rfl
  rw [segments, String.toList_intercalate, hdot, pieces_intercalate hchars, List.map_map]
  simp [Function.comp_def]

/-- A word in brackets is the same segment as with a dot before it, whatever stands around it. The segments of a path
are texts that can be segments, none of them empty, and each list of such texts is the segments of the path that has
them with dots between. So the path that has the segments of another has these segments again, and leads to the same
place of every record. -/
theorem segments_normal_form :
    (∀ s w t : String, IsName w.toList → segments (s ++ "[" ++ w ++ "]" ++ t) = segments (s ++ "." ++ w ++ t)) ∧
    (∀ path, "" ∉ segments path ∧ ∀ q ∈ segments path, IsSegment q.toList) ∧
    (∀ ps : List String, (∀ q ∈ ps, IsSegment q.toList) → segments (".".intercalate ps) = ps) ∧
    ∀ path, segments (normal path) = segments path ∧ SamePlace (normal path) path := by
  refine ⟨fun s w t hw => ?_, fun path => ?_, fun ps => segments_intercalate, fun path => ?_⟩
  · have hbrackets : (s ++ "[" ++ w ++ "]" ++ t).toList = s.toList ++ (bracketed w.toList ++ t.toList) := by
      simp [bracketed]
    have hdot : (s ++ "." ++ w ++ t).toList = s.toList ++ '.' :: (w.toList ++ t.toList) := by simp
    rw [segments, segments, pieces, pieces, hbrackets, hdot, unbracket_append_bracketed hw]
  · exact ⟨fun hmem => (isSegment_of_mem_segments hmem).ne_nil rfl, fun q => isSegment_of_mem_segments⟩
  · have hsame : segments (normal path) = segments path :=
      segments_intercalate fun q => isSegment_of_mem_segments
    exact ⟨hsame, samePlace_of_segments hsame⟩

/-- A position in brackets, with unclosed brackets before and behind it, and a path without brackets. -/
theorem segments_normal_form_nested :
    (IsName "0".toList ∧
      segments ("items[[" ++ "[" ++ "0" ++ "]" ++ "].sku[") = segments ("items[[" ++ "." ++ "0" ++ "].sku[") ∧
      segments ("items[[" ++ "." ++ "0" ++ "].sku[") = ["items[[", "0]", "sku["]) ∧
    (∀ q ∈ ["items", "0"], IsSegment q.toList) ∧ segments (".".intercalate ["items", "0"]) = ["items", "0"] := by
  have hname : IsName "0".toList := by decide +kernel
  have hsegments : ∀ q ∈ ["items", "0"], IsSegment q.toList := by
    intro q hq
    have hplain : q.toList ≠ [] ∧ '.' ∉ q.toList ∧ '[' ∉ q.toList := by
      rcases List.mem_cons.mp hq with rfl | hq
      · decide +kernel
      · obtain rfl := List.mem_singleton.mp hq
        decide +kernel
    exact isSegment_of_not_mem hplain.1 hplain.2.1 hplain.2.2
  exact ⟨⟨hname, segments_normal_form.1 "items[[" "0" "].sku[" hname, by decide +kernel⟩, hsegments,
    segments_normal_form.2.2.1 ["items", "0"] hsegments⟩

end Path

end Pagewright
