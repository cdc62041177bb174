import Pagewright.Proofs.Json.RoundTrip

/-!
# An object behind an unfinished text

Two texts in a row are no JSON if the second is an object whose first key starts with a letter, and the first is
not blank (`not_read_append`). The first text may end in the middle of a string, of a list or of an object: wherever
it ends, it does not go on with what follows.

The second text is followed through the reader as a suffix of what is still to be read. A string that was left open
swallows the brace and ends with the quote of the first key, so a letter stands where a delimiter should; anything
else that was left open takes the whole object as a value, and then nothing is left that could close it. The object is
read as a whole with whatever fuel is there, as readers agree once they come to an end (`readValue_unique`).
-/

namespace Pagewright.Json

variable {s rest : List Char} {v : Value} {fuel : ℕ} {standIn : Option Char}

/-! ## Fuel -/

/-- What is read with some fuel is read with more. -/
structure Steady (fuel : ℕ) : Prop where
  value : ∀ {standIn s r}, readValue standIn fuel s = .ok r → readValue standIn (fuel + 1) s = .ok r
  items : ∀ {standIn s r}, readItems standIn fuel s = .ok r → readItems standIn (fuel + 1) s = .ok r
  entries : ∀ {standIn before s r}, readEntries standIn fuel before s = .ok r → readEntries standIn (fuel + 1) before s = .ok r

theorem Steady.value_succ (h : Steady fuel) {r : Value × List Char} (hread : readValue standIn (fuel + 1) s = .ok r) :
    readValue standIn (fuel + 1 + 1) s = .ok r := by
  unfold readValue at hread ⊢
  split at hread
  · exact hread
  · dsimp only
    split at hread
    · exact hread
    · obtain ⟨vs, hvs, hread⟩ := bind_eq_ok.mp hread
      rw [h.items hvs]
      exact hread
  · dsimp only
    split at hread
    · exact hread
    · obtain ⟨es, hes, hread⟩ := bind_eq_ok.mp hread
      rw [h.entries hes]
      exact hread
  · exact hread

theorem Steady.items_succ (h : Steady fuel) {r : List Value × List Char}
    (hread : readItems standIn (fuel + 1) s = .ok r) : readItems standIn (fuel + 1 + 1) s = .ok r := by
  unfold readItems at hread ⊢
  obtain ⟨⟨v, rest⟩, hv, hread⟩ := bind_eq_ok.mp hread
  rw [h.value hv, ok_bind]
  dsimp only at hread ⊢
  split at hread
  · exact hread
  · obtain ⟨vs, hvs, hread⟩ := bind_eq_ok.mp hread
    rw [h.items hvs]
    exact hread
  · cases hread

theorem Steady.entries_succ (h : Steady fuel) {before : Entries} {r : Entries × List Char}
    (hread : readEntries standIn (fuel + 1) before s = .ok r) : readEntries standIn (fuel + 1 + 1) before s = .ok r := by
  unfold readEntries at hread ⊢
  split at hread
  · obtain ⟨⟨key, rest⟩, hkey, hread⟩ := bind_eq_ok.mp hread
    dsimp only at hread ⊢
    rw [hkey, ok_bind]
    dsimp only
    split at hread
    · obtain ⟨⟨v, rest'⟩, hv, hread⟩ := bind_eq_ok.mp hread
      rw [h.value hv, ok_bind]
      dsimp only at hread ⊢
      split at hread
      · exact hread
      · exact h.entries hread
      · cases hread
    · cases hread
  · cases hread

theorem steady (fuel : ℕ) : Steady fuel := by
  induction fuel with
  | zero =>
    constructor
    · intro standIn s r h
      cases h
    · intro standIn s r h
      cases h
    · intro standIn before s r h
      cases h
  | succ fuel ih => exact ⟨ih.value_succ, ih.items_succ, ih.entries_succ⟩

theorem readValue_of_le {fuel' : ℕ} {r : Value × List Char} (hle : fuel ≤ fuel') (h : readValue standIn fuel s = .ok r) :
    readValue standIn fuel' s = .ok r := by
  induction hle with
  | refl => exact h
  | step _ ih => exact (steady _).value ih

/-- The fuel has no say in what is read, only in whether it is. -/
theorem readValue_unique {fuel' : ℕ} {r r' : Value × List Char} (h : readValue standIn fuel s = .ok r)
    (h' : readValue standIn fuel' s = .ok r') : r = r' := by
  rcases Nat.le_total fuel fuel' with hle | hle
  · exact Except.ok.inj ((readValue_of_le hle h).symm.trans h')
  · exact Except.ok.inj (h.symm.trans (readValue_of_le hle h'))

/-! ## Reading on without a brace -/

/-- What is left of a text behind characters that are no opening braces. -/
def Passes (s rest : List Char) : Prop := ∃ read, '\x7b' ∉ read ∧ s = read ++ rest

theorem Passes.refl (s : List Char) : Passes s s := ⟨[], List.not_mem_nil, rfl⟩

theorem Passes.trans {s₁ s₂ s₃ : List Char} (h : Passes s₁ s₂) (h' : Passes s₂ s₃) : Passes s₁ s₃ := by
  obtain ⟨read, hread, rfl⟩ := h
  obtain ⟨read', hread', rfl⟩ := h'
  exact ⟨read ++ read', by simp [hread, hread'], (List.append_assoc ..).symm⟩

theorem passes_cons {c : Char} (hc : c ≠ '\x7b') (rest : List Char) : Passes (c :: rest) rest :=
  ⟨[c], by simpa using hc.symm, rfl⟩

theorem passes_dropWhile {p : Char → Bool} (hp : p '\x7b' = false) (s : List Char) : Passes s (s.dropWhile p) :=
  ⟨s.takeWhile p, fun hmem => Bool.eq_false_iff.mp hp (List.mem_takeWhile_imp hmem),
    List.takeWhile_append_dropWhile.symm⟩

theorem passes_skip (s : List Char) : Passes s (skip s) := passes_dropWhile rfl s

theorem passes_drop {read : List Char} (hread : '\x7b' ∉ read) (h : read <+: s) : Passes s (s.drop read.length) :=
  ⟨read, hread, (List.prefix_iff_eq_append.mp h).symm⟩

theorem not_mem_digits (s : List Char) : '\x7b' ∉ s.takeWhile Char.isDigit := fun h =>
  absurd (List.mem_takeWhile_imp h) (by decide)

theorem passes_digits (s : List Char) : Passes s (s.drop (s.takeWhile Char.isDigit).length) :=
  passes_drop (not_mem_digits s) (List.takeWhile_prefix _)

/-! ### Numbers and words -/

theorem passes_minusOf (s : List Char) : Passes s (minusOf s).2 := by
  unfold minusOf
  split
  · exact passes_cons (by decide) _
  · exact .refl _

theorem passes_wholeOf (s : List Char) : Passes s (s.drop (wholeOf s).length) := by
  refine passes_drop (fun h => absurd (isDigit_of_mem_wholeOf h) (by decide)) ?_
  unfold wholeOf
  split
  · exact ⟨_, rfl⟩
  · exact List.takeWhile_prefix _

theorem passes_fractionOf (s : List Char) : Passes s (fractionOf s).2 := by
  unfold fractionOf
  split
  · dsimp only
    split
    · exact .refl _
    · exact (passes_cons (by decide) _).trans (passes_digits _)
  · exact .refl _

theorem passes_signOf (s : List Char) : Passes s (Numeral.signOf s).2 := by
  unfold Numeral.signOf
  split
  · exact passes_cons (by decide) _
  · exact passes_cons (by decide) _
  · exact .refl _

theorem passes_exponentOf (s : List Char) : Passes s (exponentOf s).2 := by
  unfold exponentOf
  split
  · exact .refl _
  · rename_i c rest
    split
    · rename_i hc
      have hbrace : c ≠ '\x7b' := by
        rintro rfl
        cases hc
      dsimp only
      split
      · exact .refl _
      · exact ((passes_cons hbrace _).trans (passes_signOf _)).trans (passes_digits _)
    · exact .refl _

theorem passes_readNumber (h : readNumber s = .ok (some (v, rest))) : Passes s rest := by
  rw [readNumber_eq] at h
  split at h
  · cases h
  · unfold numberFrom at h
    dsimp only at h
    -- Whole numbers and doubles leave the same rest.
    obtain rfl : _ = rest := by
      split at h
      · split at h
        · cases h
        · exact (Prod.mk.inj (Option.some.inj (Except.ok.inj h))).2
      · exact (Prod.mk.inj (Option.some.inj (Except.ok.inj h))).2
    exact (((passes_minusOf s).trans (passes_wholeOf _)).trans (passes_fractionOf _)).trans (passes_exponentOf _)

theorem not_mem_words : ∀ e ∈ words, '\x7b' ∉ e.1.toList := by simp [words]

theorem passes_readLeaf (h : readLeaf s = .ok (v, rest)) : Passes s rest := by
  unfold readLeaf at h
  split at h
  · rename_i hword
    obtain ⟨⟨word, u⟩, hmem, hword⟩ := List.exists_of_findSome?_eq_some hword
    obtain rfl := Except.ok.inj h
    obtain ⟨_, hprefix, hpair⟩ := Option.map_eq_some_iff.mp hword
    obtain ⟨-, rfl⟩ := Prod.mk.inj hpair
    exact ⟨word.toList, not_mem_words _ hmem, (List.isPrefixOf?_eq_some_iff_append_eq.mp hprefix).symm⟩
  · obtain ⟨read, hnumber, h⟩ := bind_eq_ok.mp h
    cases read with
    | none => cases h
    | some r =>
      obtain rfl := Except.ok.inj h
      exact passes_readNumber hnumber

/-! ### Escapes -/

theorem passes_hexUnit? {n : ℕ} (h : hexUnit? s = some (n, rest)) : Passes s rest := by
  unfold hexUnit? at h
  split at h
  · rename_i a b c d tail
    -- A brace is no hexadecimal digit.
    have hne {x : Char} {m : ℕ} (hx : hexValue? x = some m) : x ≠ '\x7b' := by
      rintro rfl
      cases hx
    obtain ⟨_, ha, h⟩ := Option.bind_eq_some_iff.mp h
    obtain ⟨_, hb, h⟩ := Option.bind_eq_some_iff.mp h
    obtain ⟨_, hc, h⟩ := Option.bind_eq_some_iff.mp h
    obtain ⟨_, hd, h⟩ := Option.bind_eq_some_iff.mp h
    obtain ⟨-, rfl⟩ := Prod.mk.inj (Option.some.inj h)
    exact ⟨[a, b, c, d], by simp [(hne ha).symm, (hne hb).symm, (hne hc).symm, (hne hd).symm], rfl⟩
  · cases h

theorem passes_unicodeEscape? {x : Option Char} (h : unicodeEscape? s = some (x, rest)) : Passes s rest := by
  unfold unicodeEscape? at h
  obtain ⟨⟨high, tail⟩, hhigh, h⟩ := Option.bind_eq_some_iff.mp h
  have htail := passes_hexUnit? hhigh
  -- All but a pair of units leave what is behind the first unit.
  have hone {y : Option Char} (h : some (y, tail) = some (x, rest)) : Passes s rest := by
    obtain ⟨-, rfl⟩ := Prod.mk.inj (Option.some.inj h)
    exact htail
  dsimp only at h
  split at h
  · split at h
    · rename_i tail'
      have hmark : Passes ('\\' :: 'u' :: tail') tail' :=
        (passes_cons (by decide) _).trans (passes_cons (by decide) _)
      split at h
      · rename_i low tail'' hlow
        split at h
        · obtain ⟨-, rfl⟩ := Prod.mk.inj (Option.some.inj h)
          exact (htail.trans hmark).trans (passes_hexUnit? hlow)
        · exact hone h
      · exact hone h
    · exact hone h
  · split at h
    · exact hone h
    · exact hone h

/-! ## An object that follows -/

/-- The text of an object whose first key starts with a letter, and that is read to its end. -/
structure StartsRecord (next : List Char) : Prop where
  opens : ∃ more, next = '\x7b' :: '"' :: 'i' :: more
  whole : ∀ {standIn fuel v rest}, readValue standIn fuel next = .ok (v, rest) → rest = []

variable {next : List Char}

namespace StartsRecord

theorem suffix_of_cons (hnext : StartsRecord next) {c : Char} (hc : c ≠ '\x7b') (h : next <:+ c :: s) :
    next <:+ s := by
  obtain ⟨more, rfl⟩ := hnext.opens
  rcases List.suffix_cons_iff.mp h with heq | h
  · exact absurd (List.head_eq_of_cons_eq heq).symm hc
  · exact h

/-- What is read without an opening brace leaves the object. -/
theorem suffix_of_passes (hnext : StartsRecord next) (h : next <:+ s) (hpasses : Passes s rest) :
    next <:+ rest := by
  obtain ⟨read, hread, rfl⟩ := hpasses
  induction read with
  | nil => exact h
  | cons c read ih =>
    obtain ⟨hc, hread⟩ := List.ne_and_not_mem_of_not_mem_cons hread
    exact ih hread (hnext.suffix_of_cons hc.symm h)

/-- A string that is open where the object starts ends with the quote of the object's first key. -/
theorem readString_cases (hnext : StartsRecord next) {start : ℕ} {read : List Char} {x : String} (h : next <:+ s)
    (hread : readString standIn start fuel read s = .ok (x, rest)) : next <:+ rest ∨ ∃ more, rest = 'i' :: more := by
  induction fuel generalizing read s with
  | zero => cases hread
  | succ fuel ih =>
    cases s with
    | nil => cases hread
    | cons c tail =>
      unfold readString at hread
      split at hread
      · rename_i hquote
        obtain ⟨-, rfl⟩ := Prod.mk.inj (Except.ok.inj hread)
        obtain rfl := eq_of_beq hquote
        exact .inl (hnext.suffix_of_cons (by decide) h)
      · split at hread
        · rename_i hslash
          obtain rfl := eq_of_beq hslash
          have htail := hnext.suffix_of_cons (by decide) h
          split at hread
          · cases hread
          · split at hread
            · cases hread
            · rename_i hescape
              have hrest := hnext.suffix_of_cons (by decide) htail
              split at hread
              · exact ih (hnext.suffix_of_passes hrest (passes_unicodeEscape? hescape)) hread
              · cases hread
          · rename_i e _ _
            split at hread
            · rename_i hescape
              have he : e ≠ '\x7b' := by
                rintro rfl
                cases hescape
              exact ih (hnext.suffix_of_cons he htail) hread
            · cases hread
        · split at hread
          · cases hread
          · rcases List.suffix_cons_iff.mp h with heq | htail
            · -- The brace belongs to the string, and the quote behind it ends it.
              obtain ⟨more, rfl⟩ := hnext.opens
              obtain ⟨rfl, rfl⟩ := List.cons_eq_cons.mp heq.symm
              cases fuel with
              | zero => cases hread
              | succ fuel =>
                obtain ⟨-, rfl⟩ := Prod.mk.inj (Except.ok.inj hread)
                exact .inr ⟨more, rfl⟩
            · exact ih htail hread

end StartsRecord

/-- What is left behind a value: the object is still to come, or the value ended inside it, or the value was the
object. -/
def Behind (next s rest : List Char) : Prop :=
  next <:+ rest ∨ (∃ more, rest = 'i' :: more) ∨ (s = next ∧ rest = [])

/-- Where a delimiter is found behind a value, the object is still to come. -/
theorem Behind.suffix (hnext : StartsRecord next) (h : Behind next s rest) {c : Char} {tail : List Char}
    (hskip : skip rest = c :: tail) (hi : c ≠ 'i') (hbrace : c ≠ '\x7b') : next <:+ tail := by
  rcases h with h | ⟨more, rfl⟩ | ⟨-, rfl⟩
  · have hrest := hnext.suffix_of_passes h (passes_skip rest)
    rw [hskip] at hrest
    exact hnext.suffix_of_cons hbrace hrest
  · rw [skip_cons rfl] at hskip
    exact absurd (List.head_eq_of_cons_eq hskip).symm hi
  · cases hskip

/-- What the readers leave of a text that ends with the object. -/
structure Leaves (next : List Char) (fuel : ℕ) : Prop where
  value : ∀ {standIn s v rest}, next <:+ s → readValue standIn fuel s = .ok (v, rest) → Behind next s rest
  items : ∀ {standIn s vs rest}, next <:+ s → readItems standIn fuel s = .ok (vs, rest) → next <:+ rest
  entries : ∀ {standIn s before es rest}, next <:+ s → readEntries standIn fuel before s = .ok (es, rest) → next <:+ rest

theorem Leaves.value_succ (hnext : StartsRecord next) (h : Leaves next fuel) (hs : next <:+ s)
    (hread : readValue standIn (fuel + 1) s = .ok (v, rest)) : Behind next s rest := by
  by_cases heq : s = next
  · exact .inr (.inr ⟨heq, hnext.whole (heq ▸ hread)⟩)
  -- The object starts behind the first character, so a bracket or a quote there is not its own.
  have htail {c : Char} {tail : List Char} (hc : s = c :: tail) : next <:+ tail :=
    (List.suffix_cons_iff.mp (hc ▸ hs)).resolve_left fun hall => heq (hc.trans hall.symm)
  have hskip {c : Char} {tail : List Char} (hc : s = c :: tail) : next <:+ skip tail :=
    hnext.suffix_of_passes (htail hc) (passes_skip tail)
  rcases readValue_cases hread with ⟨_, x, hc, hx, -⟩ | ⟨_, hc, ⟨hclose, -⟩ | ⟨vs, hvs, -⟩⟩ |
    ⟨_, hc, ⟨hclose, -⟩ | ⟨es, hes, -⟩⟩ | hleaf
  · exact (hnext.readString_cases (htail hc) hx).imp_right .inl
  · exact .inl (hnext.suffix_of_cons (by decide) (hclose ▸ hskip hc))
  · exact .inl (h.items (hskip hc) hvs)
  · exact .inl (hnext.suffix_of_cons (by decide) (hclose ▸ hskip hc))
  · exact .inl (h.entries (hskip hc) hes)
  · exact .inl (hnext.suffix_of_passes hs (passes_readLeaf hleaf))

theorem Leaves.items_succ (hnext : StartsRecord next) (h : Leaves next fuel) {vs : List Value} (hs : next <:+ s)
    (hread : readItems standIn (fuel + 1) s = .ok (vs, rest)) : next <:+ rest := by
  obtain ⟨v, behind, hv, hrest⟩ := readItems_cases hread
  have hbehind := h.value hs hv
  rcases hrest with ⟨hclose, -⟩ | ⟨tail, us, hcomma, hus, -⟩
  · exact hbehind.suffix hnext hclose (by decide) (by decide)
  · have htail := hbehind.suffix hnext hcomma (by decide) (by decide)
    exact h.items (hnext.suffix_of_passes htail (passes_skip _)) hus

theorem Leaves.entries_succ (hnext : StartsRecord next) (h : Leaves next fuel) {before es : Entries}
    (hs : next <:+ s) (hread : readEntries standIn (fuel + 1) before s = .ok (es, rest)) : next <:+ rest := by
  obtain ⟨tail, key, behind, colon, v, behind', rfl, hkey, hcolon, hv, hrest⟩ := readEntries_cases hread
  have hkey : Behind next ('"' :: tail) behind :=
    (hnext.readString_cases (hnext.suffix_of_cons (by decide) hs) hkey).imp_right .inl
  have hvalue := hkey.suffix hnext hcolon (by decide) (by decide)
  have hbehind := h.value (hnext.suffix_of_passes hvalue (passes_skip _)) hv
  rcases hrest with ⟨hclose, -⟩ | ⟨comma, hcomma, hes⟩
  · exact hbehind.suffix hnext hclose (by decide) (by decide)
  · have htail := hbehind.suffix hnext hcomma (by decide) (by decide)
    exact h.entries (hnext.suffix_of_passes htail (passes_skip _)) hes

theorem leaves (hnext : StartsRecord next) (fuel : ℕ) : Leaves next fuel := by
  induction fuel with
  | zero =>
    constructor
    · intro standIn s v rest _ h
      cases h
    · intro standIn s vs rest _ h
      cases h
    · intro standIn s before es rest _ h
      cases h
  | succ fuel ih => exact ⟨ih.value_succ hnext, ih.items_succ hnext, ih.entries_succ hnext⟩

theorem readChars_append_ne_ok (hnext : StartsRecord next) {c : Char} {tail : List Char} (hc : isSpace c = false)
    (v : Value) : readChars standIn (c :: (tail ++ next)) ≠ .ok v := by
  intro hread
  unfold readChars at hread
  split at hread
  · cases hread
  · obtain ⟨⟨w, rest⟩, hw, hread⟩ := bind_eq_ok.mp hread
    rw [skip_cons hc] at hw
    dsimp only at hread
    split at hread
    · rename_i hskip
      -- Nothing may be left behind the value, but the object is, or the rest of it.
      rcases (leaves hnext _).value (List.suffix_append (c :: tail) next) hw with hrest | ⟨more, rfl⟩ | ⟨heq, -⟩
      · have hnil := hnext.suffix_of_passes hrest (passes_skip rest)
        obtain ⟨more, rfl⟩ := hnext.opens
        rw [hskip] at hnil
        exact absurd (List.suffix_nil.mp hnil) (List.cons_ne_nil _ _)
      · rw [skip_cons rfl] at hskip
        cases hskip
      · have hlength := congrArg List.length heq
        simp only [List.length_cons, List.length_append] at hlength
        omega
    · cases hread

/-- With the object behind it, a text that does not start blank is no JSON. -/
theorem not_read_append (hnext : StartsRecord next) {c : Char} {tail : List Char} (hc : isSpace c = false)
    (v : Value) : Json.readWith standIn (String.ofList (c :: (tail ++ next))) ≠ .ok v := by
  unfold Json.readWith
  rw [String.toList_ofList]
  dsimp only
  split
  · rename_i w hw
    intro heq
    obtain rfl := Except.ok.inj heq
    exact readChars_append_ne_ok hnext hc w hw
  · intro heq
    cases heq

theorem startsRecord_compactChars {id : Value} {entries : Entries}
    (h : (Value.object (("id", id) :: entries)).IsData) :
    StartsRecord (compactChars .ascii (.object (("id", id) :: entries))) where
  opens := by cases entries <;> exact ⟨_, rfl⟩
  whole {standIn fuel v rest} hread := by
    have hback := readsBack_of_isData (Layout.all_line rfl) .ascii h standIn 0 _ [] (endsNumber_of_spaces (by simp))
      (Nat.lt_succ_self _)
    rw [laidChars_line h, List.append_nil] at hback
    exact congrArg Prod.snd (readValue_unique hread hback)

end Pagewright.Json
