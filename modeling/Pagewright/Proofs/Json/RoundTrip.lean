import Pagewright.Proofs.Json.Layout
import Pagewright.Proofs.Json.Strings

/-!
# Documents are read as they were written

A value that a text can hold is read back as it was, whether it was written with one item a line (`read_indented`)
or on one line (`read_compact`).

The induction is on the value, in a layout of blanks. Its text starts with a character that tells its kind
(`Opens`) and is followed by one that ends a number, so each reader stops where the writer stopped; the text is longer
than the value is deep, so the reader does not run out of fuel.
-/

namespace Pagewright.Json

open Numeral Binary64

variable {rest after gap : List Char} {v : Value} {level fuel : ℕ} {L : Layout} {charset : Charset}
  {standIn : Option Char}

/-! ## How a value starts -/

/-- The characters that a value starts with. -/
def Opens (c : Char) : Prop := c ∈ ['"', '[', '\x7b', '-', 'n', 't', 'f', 'N', 'I'] ∨ c.isDigit = true

/-- No character of a kind starts a value if it is none of the few and no digit. -/
theorem Opens.ne {c d : Char} (h : Opens c) (hfew : d ∉ ['"', '[', '\x7b', '-', 'n', 't', 'f', 'N', 'I'])
    (hdigit : d.isDigit = false) : c ≠ d := by
  rintro rfl
  rcases h with h | h
  · exact hfew h
  · rw [hdigit] at h
    cases h

theorem Opens.isSpace_eq_false {c : Char} (h : Opens c) : isSpace c = false := by
  simp [isSpace, h.ne (d := ' ') (by decide) rfl, h.ne (d := '\t') (by decide) rfl,
    h.ne (d := '\n') (by decide) rfl, h.ne (d := '\r') (by decide) rfl]

/-- A text that starts as a number does. -/
def StartsNumber (s : List Char) : Prop := ∃ negative d more, d.isDigit = true ∧ s = signed negative (d :: more)

theorem StartsNumber.append {s : List Char} (h : StartsNumber s) (rest : List Char) :
    StartsNumber (s ++ rest) := by
  obtain ⟨negative, d, more, hd, rfl⟩ := h
  exact ⟨negative, d, more ++ rest, hd, signed_append ..⟩

theorem startsNumber_int (n : ℤ) : StartsNumber (toString n).toList := by
  rw [toList_toString_int]
  obtain ⟨d, more, hds⟩ := List.exists_cons_of_ne_nil (Decimal.digitsOf_ne_nil n.natAbs)
  have hd : d ∈ Decimal.digitsOf n.natAbs := by
    rw [hds]
    exact List.mem_cons_self
  exact ⟨decide (n < 0), d, more, Decimal.isDigit_of_mem_digitsOf hd, by rw [hds]⟩

theorem findWord_of_startsNumber {s : List Char} (hs : StartsNumber s) :
    (words.findSome? fun (word, v) => (afterWord? word s).map fun rest => (v, rest)) = none := by
  obtain ⟨negative, d, more, hd, rfl⟩ := hs
  have hne (c : Char) (hc : c.isDigit = false) : (c == d) = false := by
    rw [beq_eq_false_iff_ne]
    rintro rfl
    rw [hc] at hd
    cases hd
  have hwords : ∀ pair ∈ words, afterWord? pair.1 (signed negative (d :: more)) = none := by
    cases negative <;>
      simp [words, afterWord?, signed, List.isPrefixOf?, hne 'n' rfl, hne 't' rfl, hne 'f' rfl, hne 'N' rfl,
        hne 'I' rfl, hne '-' rfl]
  exact List.findSome?_eq_none_iff.mpr fun pair hpair =>
    congrArg (Option.map fun rest => (pair.2, rest)) (hwords pair hpair)

theorem readLeaf_of_number {s : List Char} (hs : StartsNumber s) (h : readNumber s = .ok (some (v, rest))) :
    readLeaf s = .ok (v, rest) := by
  rw [readLeaf, findWord_of_startsNumber hs]
  dsimp only
  rw [h]
  rfl

theorem startsNumber_text {x : Float} {u : Finite} (hx : decode x = .finite u) :
    StartsNumber (Binary64.text x).toList := by
  obtain ⟨y, hdouble, htext, -⟩ := exists_spelling_of_decode hx
  obtain ⟨d, more, hds⟩ := List.exists_cons_of_ne_nil hdouble.isWhole.nonempty
  rw [htext, Spelling.chars, hds]
  exact ⟨u.negative, d, _, hdouble.isWhole.digits d (by simp [hds]), rfl⟩

/-! ## Values without items -/

theorem readLeaf_float (x : Float) (hrest : EndsNumber rest) :
    readLeaf (floatChars x ++ rest) = .ok (.float x, rest) := by
  unfold floatChars
  split
  · rename_i hx
    rw [eq_of_decode_nan hx]
    rfl
  · rename_i negative hx
    rw [eq_of_decode_infinite hx]
    cases negative <;> rfl
  · rename_i hx
    exact readLeaf_of_number ((startsNumber_text hx).append rest) (readNumber_text hx hrest)

theorem readLeaf_int {n : ℤ} (hn : Decimal.width n.natAbs ≤ digitLimit) (hrest : EndsNumber rest) :
    readLeaf ((toString n).toList ++ rest) = .ok (.int n, rest) :=
  readLeaf_of_number ((startsNumber_int n).append rest) (readNumber_int hn hrest)

/-! ## Blanks between tokens -/

theorem skip_cons {c : Char} (hc : isSpace c = false) (rest : List Char) : skip (c :: rest) = c :: rest :=
  List.dropWhile_cons_of_neg (by simp [hc])

theorem skip_gap (hgap : ∀ c ∈ gap, isSpace c = true) (rest : List Char) : skip (gap ++ rest) = skip rest :=
  List.dropWhile_append_of_pos hgap

theorem endsNumber_of_spaces {tail : List Char} (htail : ∀ c ∈ tail, isSpace c = true) : EndsNumber tail := by
  intro c hc
  have hspace := htail c (List.mem_of_mem_head? hc)
  simp only [isSpace, Bool.or_eq_true, beq_iff_eq] at hspace
  rcases hspace with ((rfl | rfl) | rfl) | rfl <;> decide

theorem endsNumber_cons {c : Char} (hc : c.isDigit = false ∧ c ≠ '.' ∧ c ≠ 'e' ∧ c ≠ 'E') (rest : List Char) :
    EndsNumber (c :: rest) := fun d hd => by
  obtain rfl := Option.some.inj hd
  exact hc

theorem EndsNumber.gap_append (hrest : EndsNumber rest) (hgap : ∀ c ∈ gap, isSpace c = true) :
    EndsNumber (gap ++ rest) := by
  cases gap with
  | nil => exact hrest
  | cons d gap => exact fun c hc => endsNumber_of_spaces hgap c hc

theorem exists_opens_of_startsNumber {s : List Char} (h : StartsNumber s) : ∃ c tail, s = c :: tail ∧ Opens c := by
  obtain ⟨negative, d, more, hd, rfl⟩ := h
  cases negative with
  | true => exact ⟨'-', d :: more, rfl, .inl (by decide)⟩
  | false => exact ⟨d, more, rfl, .inr hd⟩

theorem exists_opens (h : v.IsData) (L : Layout) (charset : Charset) (level : ℕ) :
    ∃ c tail, laidChars L charset level v = c :: tail ∧ Opens c := by
  cases h with
  | null => exact ⟨'n', _, rfl, .inl (by decide)⟩
  | bool b =>
    cases b
    · exact ⟨'f', _, rfl, .inl (by decide)⟩
    · exact ⟨'t', _, rfl, .inl (by decide)⟩
  | int n hn => exact exists_opens_of_startsNumber (startsNumber_int n)
  | float x =>
    show ∃ c tail, floatChars x = c :: tail ∧ Opens c
    unfold floatChars
    split
    · exact ⟨'N', _, rfl, .inl (by decide)⟩
    · split
      · exact ⟨'-', _, rfl, .inl (by decide)⟩
      · exact ⟨'I', _, rfl, .inl (by decide)⟩
    · rename_i hx
      exact exists_opens_of_startsNumber (startsNumber_text hx)
  | text s => exact ⟨'"', _, rfl, .inl (by decide)⟩
  | list items => cases items <;> exact ⟨'[', _, rfl, .inl (by decide)⟩
  | object entries => cases entries <;> exact ⟨'\x7b', _, rfl, .inl (by decide)⟩

theorem length_pos_laid (h : v.IsData) (L : Layout) (charset : Charset) (level : ℕ) :
    0 < (laidChars L charset level v).length := by
  obtain ⟨c, tail, hchars, -⟩ := exists_opens h L charset level
  rw [hchars]
  exact Nat.succ_pos _

/-! ## Values -/

theorem ok_bind {α β : Type} (a : α) (f : α → Except Stop β) : (Except.ok a >>= f) = f a := rfl

/-- A value is read back wherever it stands. -/
def ReadsBack (L : Layout) (charset : Charset) (v : Value) : Prop :=
  ∀ (standIn : Option Char) (level fuel : ℕ) (rest : List Char), EndsNumber rest → (laidChars L charset level v).length < fuel →
    readValue standIn fuel (laidChars L charset level v ++ rest) = .ok (v, rest)

theorem exists_opens_items (hv : v.IsData) (L : Layout) (charset : Charset) (level : ℕ) (items : List Value)
    (rest : List Char) :
    ∃ c tail, laidItems L charset level (v :: items) ++ rest = c :: tail ∧ Opens c := by
  obtain ⟨c, tail, hchars, hc⟩ := exists_opens hv L charset (level + 1)
  cases items with
  | nil => exact ⟨c, _, by rw [laidItems, hchars, List.cons_append], hc⟩
  | cons w items => exact ⟨c, _, by rw [laidItems_cons, hchars, List.cons_append, List.cons_append], hc⟩

theorem exists_quote_entries (L : Layout) (charset : Charset) (level : ℕ) (e : String × Value) (entries : Entries)
    (rest : List Char) :
    ∃ tail, laidEntries L charset level (e :: entries) ++ rest = '"' :: tail := by
  obtain ⟨key, v⟩ := e
  cases entries with
  | nil => exact ⟨_, rfl⟩
  | cons e' entries => exact ⟨_, rfl⟩

theorem readItems_item (hback : ReadsBack L charset v) (hrest : EndsNumber rest)
    (hfuel : (laidChars L charset level v).length < fuel) :
    readItems standIn (fuel + 1) (laidChars L charset level v ++ rest) =
      match skip rest with
      | ']' :: rest' => .ok ([v], rest')
      | ',' :: rest' => do
        let (vs, rest'') ← readItems standIn fuel (skip rest')
        return (v :: vs, rest'')
      | rest' => .error ⟨.comma, rest'.length⟩ := by
  rw [readItems, hback _ _ _ _ hrest hfuel]
  rfl

theorem readItems_laid (hL : L.All fun c => isSpace c = true) {items : List Value} (hne : items ≠ [])
    (hdata : ∀ v ∈ items, v.IsData) (hback : ∀ v ∈ items, ReadsBack L charset v) (hrest : EndsNumber rest)
    (hskip : skip rest = ']' :: after) (hfuel : (laidItems L charset level items).length + 1 < fuel) :
    readItems standIn fuel (laidItems L charset level items ++ rest) = .ok (items, after) := by
  induction items generalizing fuel with
  | nil => exact absurd rfl hne
  | cons v items ih =>
    obtain ⟨hv, hitems⟩ := List.forall_mem_cons.mp hdata
    obtain ⟨hvback, hitemsback⟩ := List.forall_mem_cons.mp hback
    obtain ⟨fuel, rfl⟩ := Nat.exists_eq_succ_of_ne_zero (Nat.ne_zero_of_lt hfuel)
    cases items with
    | nil =>
      rw [laidItems] at hfuel ⊢
      rw [readItems_item hvback hrest (by omega), hskip]
      rfl
    | cons w items =>
      obtain ⟨c, tail, hopen, hc⟩ := exists_opens_items (hitems w List.mem_cons_self) L charset level items rest
      have hnext : skip (L.next level ++ (laidItems L charset level (w :: items) ++ rest)) =
          laidItems L charset level (w :: items) ++ rest := by
        rw [skip_gap (hL.next level), hopen, skip_cons hc.isSpace_eq_false]
      have hlength := length_pos_laid hv L charset (level + 1)
      rw [laidItems_cons] at hfuel ⊢
      simp only [List.length_append, List.length_cons] at hfuel
      rw [List.append_assoc, List.cons_append, List.append_assoc,
        readItems_item hvback (endsNumber_cons (by decide) _) (by omega), skip_cons rfl]
      have hshort : (laidItems L charset level (w :: items)).length + 1 < fuel := by omega
      simp only [hnext, ih (List.cons_ne_nil _ _) hitems hitemsback hshort]
      rfl

theorem readEntries_entry {before : Entries} (key : String) (hv : v.IsData) (hback : ReadsBack L charset v)
    (hrest : EndsNumber rest) (hfuel : (laidChars L charset level v).length < fuel) :
    readEntries standIn (fuel + 1) before
        (stringChars charset key ++ ':' :: ' ' :: (laidChars L charset level v ++ rest)) =
      match skip rest with
      | '\x7d' :: rest' => .ok (before.set key v, rest')
      | ',' :: rest' => readEntries standIn fuel (before.set key v) (skip rest')
      | rest' => .error ⟨.comma, rest'.length⟩ := by
  obtain ⟨c, tail, hchars, hc⟩ := exists_opens hv L charset level
  have hvalue : skip (' ' :: (laidChars L charset level v ++ rest)) = laidChars L charset level v ++ rest := by
    rw [hchars]
    exact skip_cons hc.isSpace_eq_false _
  obtain ⟨body, hbody, hread⟩ := readString_stringChars standIn charset
    (stringChars charset key ++ ':' :: ' ' :: (laidChars L charset level v ++ rest)).length key
    (':' :: ' ' :: (laidChars L charset level v ++ rest))
  rw [hbody] at hread ⊢
  rw [readEntries]
  simp only [hread, ok_bind, skip_cons (c := ':') rfl, hvalue, hback _ _ _ _ hrest hfuel]
  rfl

theorem readEntries_laid (hL : L.All fun c => isSpace c = true) {before entries : Entries} (hne : entries ≠ [])
    (hkeys : ((before ++ entries).map (·.1)).Nodup) (hdata : ∀ e ∈ entries, e.2.IsData)
    (hback : ∀ e ∈ entries, ReadsBack L charset e.2) (hrest : EndsNumber rest)
    (hskip : skip rest = '\x7d' :: after)
    (hfuel : (laidEntries L charset level entries).length + 1 < fuel) :
    readEntries standIn fuel before (laidEntries L charset level entries ++ rest) = .ok (before ++ entries, after) := by
  induction entries generalizing fuel before with
  | nil => exact absurd rfl hne
  | cons e entries ih =>
    obtain ⟨key, v⟩ := e
    obtain ⟨(hv : v.IsData), hentries⟩ := List.forall_mem_cons.mp hdata
    obtain ⟨(hvback : ReadsBack L charset v), hentriesback⟩ := List.forall_mem_cons.mp hback
    obtain ⟨fuel, rfl⟩ := Nat.exists_eq_succ_of_ne_zero (Nat.ne_zero_of_lt hfuel)
    have hset : before.set key v = before ++ [(key, v)] := by
      refine Entries.set_of_not_mem fun hmem => ?_
      rw [List.map_append, List.nodup_append] at hkeys
      exact hkeys.2.2 key hmem key (by simp) rfl
    cases entries with
    | nil =>
      rw [laidEntries] at hfuel ⊢
      simp only [List.length_append, List.length_cons] at hfuel
      rw [List.append_assoc, List.cons_append, List.cons_append,
        readEntries_entry key hv hvback hrest (by omega), hskip, hset]
      rfl
    | cons e' entries =>
      obtain ⟨tail, hquote⟩ := exists_quote_entries L charset level e' entries rest
      have hnext : skip (L.next level ++ (laidEntries L charset level (e' :: entries) ++ rest)) =
          laidEntries L charset level (e' :: entries) ++ rest := by
        rw [skip_gap (hL.next level), hquote, skip_cons rfl]
      have hkeys' : ((before ++ [(key, v)] ++ e' :: entries).map (·.1)).Nodup := by rwa [List.append_assoc]
      rw [laidEntries_cons] at hfuel ⊢
      simp only [List.length_append, List.length_cons] at hfuel
      rw [List.append_assoc, List.cons_append, List.cons_append, List.append_assoc, List.cons_append,
        List.append_assoc, readEntries_entry key hv hvback (endsNumber_cons (by decide) _) (by omega),
        skip_cons rfl]
      have hshort : (laidEntries L charset level (e' :: entries)).length + 1 < fuel := by omega
      simp only [hset, hnext, ih (List.cons_ne_nil _ _) hkeys' hentries hentriesback hshort]
      rw [List.append_assoc, List.singleton_append]

theorem readValue_leaf {c : Char} {tail : List Char} (hquote : c ≠ '"') (hlist : c ≠ '[') (hobject : c ≠ '\x7b') :
    readValue standIn (fuel + 1) (c :: tail) = readLeaf (c :: tail) := by
  rw [readValue]
  · rintro rest ⟨⟩
    exact hquote rfl
  · rintro rest ⟨⟩
    exact hlist rfl
  · rintro rest ⟨⟩
    exact hobject rfl

theorem StartsNumber.readValue_eq {s : List Char} (hs : StartsNumber s) : readValue standIn (fuel + 1) s = readLeaf s := by
  obtain ⟨negative, d, more, hd, rfl⟩ := hs
  have hne {c : Char} (hc : c.isDigit = false) : d ≠ c := by
    rintro rfl
    rw [hc] at hd
    cases hd
  cases negative with
  | true => exact readValue_leaf (by decide) (by decide) (by decide)
  | false => exact readValue_leaf (hne rfl) (hne rfl) (hne rfl)

theorem readsBack_float (x : Float) : ReadsBack L charset (.float x) := by
  intro standIn level fuel rest hrest hfuel
  obtain ⟨fuel, rfl⟩ := Nat.exists_eq_succ_of_ne_zero (Nat.ne_zero_of_lt hfuel)
  refine Eq.trans ?_ (readLeaf_float x hrest)
  show readValue standIn (fuel + 1) (floatChars x ++ rest) = _
  unfold floatChars
  split
  · rfl
  · split <;> rfl
  · rename_i hx
    exact ((startsNumber_text hx).append rest).readValue_eq

theorem readsBack_text (s : String) : ReadsBack L charset (.text s) := by
  intro standIn level fuel rest _ hfuel
  obtain ⟨fuel, rfl⟩ := Nat.exists_eq_succ_of_ne_zero (Nat.ne_zero_of_lt hfuel)
  obtain ⟨body, hbody, hread⟩ := readString_stringChars standIn charset (stringChars charset s ++ rest).length s rest
  show readValue standIn (fuel + 1) (stringChars charset s ++ rest) = _
  rw [hbody] at hread ⊢
  rw [readValue, hread]
  rfl

theorem readsBack_list (hL : L.All fun c => isSpace c = true) {items : List Value} (hdata : ∀ v ∈ items, v.IsData)
    (hback : ∀ v ∈ items, ReadsBack L charset v) : ReadsBack L charset (.list items) := by
  intro standIn level fuel rest _ hfuel
  obtain ⟨fuel, rfl⟩ := Nat.exists_eq_succ_of_ne_zero (Nat.ne_zero_of_lt hfuel)
  cases items with
  | nil => rfl
  | cons v items =>
    have htext : laidChars L charset level (.list (v :: items)) ++ rest =
        '[' :: (L.first level ++ (laidItems L charset level (v :: items) ++ (L.last level ++ ']' :: rest))) := by
      show '[' :: (_ ++ (_ ++ (_ ++ [']']))) ++ rest = _
      simp only [List.append_assoc, List.cons_append, List.nil_append]
    have hlength : (laidItems L charset level (v :: items)).length + 1 < fuel := by
      have := congrArg List.length htext
      simp only [List.length_append, List.length_cons] at this
      omega
    have hclose : skip (L.last level ++ ']' :: rest) = ']' :: rest := by
      rw [skip_gap (hL.last level), skip_cons rfl]
    have hends : EndsNumber (L.last level ++ ']' :: rest) :=
      (endsNumber_cons (by decide) rest).gap_append (hL.last level)
    have hitems : readItems standIn fuel (laidItems L charset level (v :: items) ++ (L.last level ++ ']' :: rest)) =
        .ok (v :: items, rest) :=
      readItems_laid hL (List.cons_ne_nil v items) hdata hback hends hclose hlength
    obtain ⟨c, tail, hopen, hc⟩ := exists_opens_items (hdata v List.mem_cons_self) L charset level items
      (L.last level ++ ']' :: rest)
    rw [htext, readValue, skip_gap (hL.first level)]
    rw [hopen] at hitems ⊢
    rw [skip_cons hc.isSpace_eq_false]
    split
    · rename_i heq
      exact absurd (List.cons.inj heq).1 (hc.ne (by decide) rfl)
    · rw [hitems]
      rfl

theorem readsBack_object (hL : L.All fun c => isSpace c = true) {entries : Entries}
    (hkeys : (entries.map (·.1)).Nodup) (hdata : ∀ e ∈ entries, e.2.IsData)
    (hback : ∀ e ∈ entries, ReadsBack L charset e.2) : ReadsBack L charset (.object entries) := by
  intro standIn level fuel rest _ hfuel
  obtain ⟨fuel, rfl⟩ := Nat.exists_eq_succ_of_ne_zero (Nat.ne_zero_of_lt hfuel)
  cases entries with
  | nil => rfl
  | cons e entries =>
    have htext : laidChars L charset level (.object (e :: entries)) ++ rest =
        '\x7b' :: (L.first level ++
          (laidEntries L charset level (e :: entries) ++ (L.last level ++ '\x7d' :: rest))) := by
      show '\x7b' :: (_ ++ (_ ++ (_ ++ ['\x7d']))) ++ rest = _
      simp only [List.append_assoc, List.cons_append, List.nil_append]
    have hlength : (laidEntries L charset level (e :: entries)).length + 1 < fuel := by
      have := congrArg List.length htext
      simp only [List.length_append, List.length_cons] at this
      omega
    have hclose : skip (L.last level ++ '\x7d' :: rest) = '\x7d' :: rest := by
      rw [skip_gap (hL.last level), skip_cons rfl]
    have hends : EndsNumber (L.last level ++ '\x7d' :: rest) :=
      (endsNumber_cons (by decide) rest).gap_append (hL.last level)
    have hentries : readEntries standIn fuel [] (laidEntries L charset level (e :: entries) ++
        (L.last level ++ '\x7d' :: rest)) = .ok (e :: entries, rest) :=
      readEntries_laid hL (List.cons_ne_nil e entries) hkeys hdata hback hends hclose hlength
    obtain ⟨tail, hquote⟩ := exists_quote_entries L charset level e entries
      (L.last level ++ '\x7d' :: rest)
    rw [htext, readValue, skip_gap (hL.first level)]
    rw [hquote] at hentries ⊢
    rw [skip_cons rfl]
    split
    · rename_i heq
      exact absurd (List.cons.inj heq).1 (by decide)
    · rw [hentries]
      rfl

/-- Every value that a text can hold is read back. -/
theorem readsBack_of_isData (hL : L.All fun c => isSpace c = true) (charset : Charset) (h : v.IsData) :
    ReadsBack L charset v := by
  induction h with
  | null =>
    intro standIn level fuel rest _ hfuel
    obtain ⟨fuel, rfl⟩ := Nat.exists_eq_succ_of_ne_zero (Nat.ne_zero_of_lt hfuel)
    rfl
  | bool b =>
    intro standIn level fuel rest _ hfuel
    obtain ⟨fuel, rfl⟩ := Nat.exists_eq_succ_of_ne_zero (Nat.ne_zero_of_lt hfuel)
    cases b <;> rfl
  | int n hn =>
    intro standIn level fuel rest hrest hfuel
    obtain ⟨fuel, rfl⟩ := Nat.exists_eq_succ_of_ne_zero (Nat.ne_zero_of_lt hfuel)
    exact ((startsNumber_int n).append rest).readValue_eq.trans (readLeaf_int hn hrest)
  | float x => exact readsBack_float x
  | text s => exact readsBack_text s
  | list items hdata ih => exact readsBack_list hL hdata ih
  | object entries hkeys hdata ih => exact readsBack_object hL hkeys hdata ih

/-! ## Texts -/

theorem read_laid (hL : L.All fun c => isSpace c = true) (charset : Charset) (h : v.IsData) {tail : List Char}
    (htail : ∀ c ∈ tail, isSpace c = true) :
    Json.readWith standIn (String.ofList (laidChars L charset 0 v ++ tail)) = .ok v := by
  obtain ⟨c, more, hchars, hc⟩ := exists_opens h L charset 0
  have hvalue := readsBack_of_isData hL charset h standIn 0 (2 * (laidChars L charset 0 v ++ tail).length + 2) tail
    (endsNumber_of_spaces htail) (by rw [List.length_append]; omega)
  have hread : readChars standIn (laidChars L charset 0 v ++ tail) = .ok v := by
    unfold readChars
    split
    · rename_i heq
      rw [hchars] at heq
      exact absurd (List.cons.inj heq).1 (hc.ne (by decide) rfl)
    · have hskip : skip (laidChars L charset 0 v ++ tail) = laidChars L charset 0 v ++ tail := by
        rw [hchars]
        exact skip_cons hc.isSpace_eq_false _
      have hend : skip tail = [] := List.dropWhile_eq_nil_iff.mpr htail
      rw [hskip, hvalue, ok_bind]
      dsimp only
      rw [hend]
      rfl
  unfold Json.readWith
  rw [String.toList_ofList]
  dsimp only
  rw [hread]

/-- A value that is written with one item a line is read back. -/
theorem read_indented (h : v.IsData) {tail : List Char} (htail : ∀ c ∈ tail, isSpace c = true) :
    Json.readWith standIn (String.ofList (indentedChars .unicode 0 v ++ tail)) = .ok v := by
  rw [← laidChars_lines h]
  exact read_laid (Layout.all_lines rfl rfl) .unicode h htail

/-- A value that is written on one line is read back. -/
theorem read_compact (h : v.IsData) : Json.readWith standIn (compact v) = .ok v := by
  rw [compact, ← laidChars_line h 0, ← List.append_nil (laidChars _ _ _ _)]
  exact read_laid (Layout.all_line rfl) .ascii h (by simp)

/-! ## Numerals that are too long -/

theorem exists_error_of_long {ds : List Char} (hwhole : IsWhole ds) (hlong : digitLimit < ds.length) :
    ∃ e, Json.readWith standIn (String.ofList ds) = .error e ∧ e.fault = .longNumber := by
  have hnumber : readNumber ds = .error ⟨.longNumber, ds.length⟩ := by
    have hread : readNumber (signed false (ds ++ [])) = _ := readNumber_of_whole false hwhole (by simp)
    rw [List.append_nil] at hread
    refine hread.trans ?_
    simp [numberFrom, fractionOf, exponentOf, hlong, signed]
  obtain ⟨d, more, rfl⟩ := List.exists_cons_of_ne_nil hwhole.nonempty
  have hdigit : d.isDigit = true := hwhole.digits d List.mem_cons_self
  have hstarts : StartsNumber (d :: more) := ⟨false, d, more, hdigit, rfl⟩
  have hleaf : readLeaf (d :: more) = .error ⟨.longNumber, (d :: more).length⟩ := by
    rw [readLeaf, findWord_of_startsNumber hstarts]
    dsimp only
    rw [hnumber]
    rfl
  have hchars : readChars standIn (d :: more) = .error ⟨.longNumber, (d :: more).length⟩ := by
    unfold readChars
    split
    · rename_i heq
      obtain ⟨rfl, -⟩ := List.cons.inj heq
      exact absurd hdigit (by decide)
    · rw [skip_cons (Opens.isSpace_eq_false (.inr hdigit)), hstarts.readValue_eq, hleaf]
      rfl
  refine ⟨⟨.longNumber, placeOf (d :: more) (d :: more).length⟩, ?_, rfl⟩
  unfold Json.readWith
  simp only [String.toList_ofList, hchars]

/-! ## Control characters -/

theorem le_toNat_of_isDigit {c : Char} (h : c.isDigit = true) : 32 ≤ c.toNat := by
  simp only [Char.isDigit, Bool.and_eq_true, decide_eq_true_eq] at h
  have hle : (48 : UInt32) ≤ c.val := h.1
  have := UInt32.le_iff_toNat_le.mp hle
  exact le_trans (by decide) this

theorem le_toNat_of_mem_signed {cs : List Char} (h : ∀ c ∈ cs, 32 ≤ c.toNat) (negative : Bool) :
    ∀ c ∈ signed negative cs, 32 ≤ c.toNat := by
  cases negative
  · exact h
  · exact List.forall_mem_cons.mpr ⟨by decide, h⟩

theorem le_toNat_of_mem_exponentMark (e : ℤ) : ∀ c ∈ Decimal.exponentMark e, 32 ≤ c.toNat := by
  have hdigits : ∀ c ∈ Decimal.padded 2 e.natAbs, 32 ≤ c.toNat := fun c hc =>
    le_toNat_of_isDigit (isDigit_of_mem_padded hc)
  unfold Decimal.exponentMark
  split <;> exact List.forall_mem_cons.mpr ⟨by decide, List.forall_mem_cons.mpr ⟨by decide, hdigits⟩⟩

theorem Spelling.le_toNat_of_mem_chars {x : Spelling} (hx : x.IsDouble) : ∀ c ∈ x.chars, 32 ≤ c.toNat := by
  have hwhole : ∀ c ∈ x.whole, 32 ≤ c.toNat := fun c hc => le_toNat_of_isDigit (hx.isWhole.digits c hc)
  have hfraction : ∀ c ∈ x.fraction, 32 ≤ c.toNat := fun c hc => le_toNat_of_isDigit (hx.digits c hc)
  have hexponent : ∀ c ∈ (x.exponent.map Decimal.exponentMark).getD [], 32 ≤ c.toNat := by
    cases x.exponent with
    | none => simp
    | some e => exact le_toNat_of_mem_exponentMark e
  intro c hc
  rcases List.mem_append.mp hc with hc | hc
  · exact hwhole c hc
  · rcases List.mem_append.mp hc with hc | hc
    · split at hc
      · cases hc
      · exact List.forall_mem_cons.mpr ⟨by decide, hfraction⟩ c hc
    · exact hexponent c hc

theorem le_toNat_of_mem_floatChars (x : Float) : ∀ c ∈ floatChars x, 32 ≤ c.toNat := by
  unfold floatChars
  split
  · simp
  · split <;> simp
  · rename_i hx
    obtain ⟨y, hdouble, htext, -⟩ := exists_spelling_of_decode hx
    rw [htext]
    exact le_toNat_of_mem_signed (Spelling.le_toNat_of_mem_chars hdouble) _

section

variable {p : Char → Prop} (hp : ∀ c, 32 ≤ c.toNat → p c) (hL : L.All p)

include hp hL

theorem forall_mem_laidItems {items : List Value}
    (h : ∀ v ∈ items, ∀ c ∈ laidChars L charset (level + 1) v, p c) :
    ∀ c ∈ laidItems L charset level items, p c := by
  induction items with
  | nil => exact fun c hc => absurd hc List.not_mem_nil
  | cons v items ih =>
    obtain ⟨hv, hitems⟩ := List.forall_mem_cons.mp h
    cases items with
    | nil => exact hv
    | cons w items =>
      rw [laidItems_cons]
      simp only [List.forall_mem_append, List.forall_mem_cons]
      exact ⟨hv, hp _ (by decide), hL.next level, ih hitems⟩

theorem forall_mem_laidEntries {entries : Entries}
    (h : ∀ e ∈ entries, ∀ c ∈ laidChars L charset (level + 1) e.2, p c) :
    ∀ c ∈ laidEntries L charset level entries, p c := by
  induction entries with
  | nil => exact fun c hc => absurd hc List.not_mem_nil
  | cons e entries ih =>
    obtain ⟨key, v⟩ := e
    obtain ⟨(hv : ∀ c ∈ laidChars L charset (level + 1) v, p c), hentries⟩ := List.forall_mem_cons.mp h
    have hkey : ∀ c ∈ stringChars charset key, p c := fun c hc => hp c (le_toNat_of_mem_stringChars hc)
    cases entries with
    | nil =>
      rw [laidEntries]
      simp only [List.forall_mem_append, List.forall_mem_cons]
      exact ⟨hkey, hp _ (by decide), hp _ (by decide), hv⟩
    | cons e' entries =>
      rw [laidEntries_cons]
      simp only [List.forall_mem_append, List.forall_mem_cons]
      exact ⟨hkey, hp _ (by decide), hp _ (by decide), hv, hp _ (by decide), hL.next level, ih hentries⟩

theorem forall_mem_laidChars (h : v.IsData) (level : ℕ) : ∀ c ∈ laidChars L charset level v, p c := by
  have hword {s : List Char} (hs : ∀ c ∈ s, 32 ≤ c.toNat) : ∀ c ∈ s, p c := fun c hc => hp c (hs c hc)
  induction h generalizing level with
  | null => exact hword (s := "null".toList) (by simp)
  | bool b =>
    refine hword (s := (if b then "true" else "false").toList) ?_
    cases b <;> simp
  | int n hn =>
    refine hword (s := (toString n).toList) ?_
    rw [toList_toString_int]
    exact le_toNat_of_mem_signed (fun c hc => le_toNat_of_isDigit (Decimal.isDigit_of_mem_digitsOf hc)) _
  | float x => exact hword (le_toNat_of_mem_floatChars x)
  | text s => exact hword fun c hc => le_toNat_of_mem_stringChars hc
  | list items hdata ih =>
    cases items with
    | nil => exact hword (s := ['[', ']']) (by simp)
    | cons v items =>
      have hitems := forall_mem_laidItems hp hL fun w hw => ih w hw (level + 1)
      show ∀ c ∈ '[' :: (L.first level ++ (laidItems L charset level (v :: items) ++ (L.last level ++ [']']))), p c
      simp only [List.forall_mem_append, List.forall_mem_cons]
      exact ⟨hp _ (by decide), hL.first level, hitems, hL.last level, hp _ (by decide), by simp⟩
  | object entries hkeys hdata ih =>
    cases entries with
    | nil => exact hword (s := ['\x7b', '\x7d']) (by simp)
    | cons e entries =>
      have hentries := forall_mem_laidEntries hp hL fun w hw => ih w hw (level + 1)
      show ∀ c ∈ '\x7b' :: (L.first level ++
        (laidEntries L charset level (e :: entries) ++ (L.last level ++ ['\x7d']))), p c
      simp only [List.forall_mem_append, List.forall_mem_cons]
      exact ⟨hp _ (by decide), hL.first level, hentries, hL.last level, hp _ (by decide), by simp⟩

end

theorem not_mem_indentedChars (h : v.IsData) (level : ℕ) : '\r' ∉ indentedChars .unicode level v := by
  intro hmem
  rw [← laidChars_lines h] at hmem
  refine forall_mem_laidChars (p := (· ≠ '\r')) ?_ (Layout.all_lines (by decide) (by decide)) h level _ hmem rfl
  rintro c hc rfl
  exact absurd hc (by decide)

theorem le_toNat_of_mem_compactChars (h : v.IsData) {c : Char} (hc : c ∈ compactChars charset v) :
    32 ≤ c.toNat := by
  rw [← laidChars_line h 0] at hc
  exact forall_mem_laidChars (fun _ hle => hle) (Layout.all_line (by decide)) h 0 c hc

end Pagewright.Json
