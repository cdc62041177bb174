import Pagewright.Proofs.Json.Numerals

/-!
# What a JSON text can hold

Values as a text holds them (`Value.IsData`): the keys of an object are distinct, a whole number has at most 4300
digits, and there are no dates. Whatever is read from a text is of this kind (`isData_of_read`): a key that comes
again replaces the value that it had. What one step of each reader has read is said once (`readValue_cases`,
`readItems_cases`, `readEntries_cases`).
-/

namespace Pagewright

/-- A value that a text can hold. -/
inductive Value.IsData : Value → Prop
  | null : IsData .null
  | bool (b : Bool) : IsData (.bool b)
  | int (n : ℤ) (hn : Decimal.width n.natAbs ≤ Numeral.digitLimit) : IsData (.int n)
  | float (x : Float) : IsData (.float x)
  | text (s : String) : IsData (.text s)
  | list (items : List Value) (hitems : ∀ v ∈ items, IsData v) : IsData (.list items)
  | object (entries : Entries) (hkeys : (entries.map (·.1)).Nodup) (hentries : ∀ e ∈ entries, IsData e.2) :
    IsData (.object entries)

attribute [simp] Value.IsData.null Value.IsData.bool Value.IsData.float Value.IsData.text

namespace Value

@[simp] theorem isData_int_iff {n : ℤ} : (int n).IsData ↔ Decimal.width n.natAbs ≤ Numeral.digitLimit :=
  ⟨fun h => by cases h; assumption, .int n⟩

@[simp] theorem isData_list_iff {items : List Value} : (list items).IsData ↔ ∀ v ∈ items, v.IsData :=
  ⟨fun h => by cases h; assumption, .list items⟩

@[simp] theorem isData_object_iff {entries : Entries} :
    (object entries).IsData ↔ (entries.map (·.1)).Nodup ∧ ∀ e ∈ entries, e.2.IsData :=
  ⟨fun h => by cases h; exact ⟨‹_›, ‹_›⟩, fun h => .object entries h.1 h.2⟩

end Value

namespace Entries

variable {entries : Entries} {key : String} {v : Value}

theorem set_of_not_mem (h : key ∉ entries.map (·.1)) : set entries key v = entries ++ [(key, v)] := by
  induction entries with
  | nil => rfl
  | cons e rest ih =>
    obtain ⟨k, u⟩ := e
    obtain ⟨hk, hrest⟩ := List.ne_and_not_mem_of_not_mem_cons h
    rw [set, if_neg (by simpa using Ne.symm hk), ih hrest, List.cons_append]

theorem keys_set_of_mem (h : key ∈ entries.map (·.1)) : (set entries key v).map (·.1) = entries.map (·.1) := by
  induction entries with
  | nil => cases h
  | cons e rest ih =>
    obtain ⟨k, u⟩ := e
    rw [set]
    split
    · rename_i hk
      rw [List.map_cons, List.map_cons, eq_of_beq hk]
    · rename_i hk
      have hne : key ≠ k := fun heq => hk (by simp [heq])
      rw [List.map_cons, List.map_cons, ih ((List.mem_cons.mp h).resolve_left hne)]

theorem set_set (entries : Entries) (key : String) (v w : Value) :
    set (set entries key v) key w = set entries key w := by
  induction entries with
  | nil => simp [set]
  | cons e rest ih =>
    obtain ⟨k, u⟩ := e
    by_cases h : (k == key) = true <;> simp [set, h, ih]

theorem forall_mem_set {p : String × Value → Prop} (hentries : ∀ e ∈ entries, p e) (hv : p (key, v)) :
    ∀ e ∈ set entries key v, p e := by
  induction entries with
  | nil => simpa [set] using hv
  | cons e rest ih =>
    obtain ⟨k, u⟩ := e
    obtain ⟨he, hrest⟩ := List.forall_mem_cons.mp hentries
    rw [set]
    split
    · rename_i hk
      exact List.forall_mem_cons.mpr ⟨eq_of_beq hk ▸ hv, hrest⟩
    · exact List.forall_mem_cons.mpr ⟨he, ih hrest⟩

end Entries

theorem Value.IsData.set {entries : Entries} {v : Value} (h : (Value.object entries).IsData) (key : String)
    (hv : v.IsData) : (Value.object (entries.set key v)).IsData := by
  obtain ⟨hkeys, hentries⟩ := isData_object_iff.mp h
  refine .object _ ?_ (Entries.forall_mem_set hentries hv)
  by_cases hkey : key ∈ entries.map (·.1)
  · rwa [Entries.keys_set_of_mem hkey]
  · rw [Entries.set_of_not_mem hkey, List.map_append]
    exact hkeys.append (List.nodup_singleton _) (by simpa using hkey)

namespace Json

variable {s rest : List Char} {v : Value} {standIn : Option Char}

theorem bind_eq_ok {α β : Type} {x : Except Stop α} {f : α → Except Stop β} {b : β} :
    (x >>= f) = .ok b ↔ ∃ a, x = .ok a ∧ f a = .ok b := by
  cases x <;> simp [bind, Except.bind]

theorem width_ofDigits {cs : List Char} (hne : cs ≠ []) (hdigits : ∀ c ∈ cs, c.isDigit = true) :
    Decimal.width (Numeral.ofDigits (digitValues cs)) ≤ cs.length := by
  refine Nat.toDigits_length 10 _ _ (List.length_pos_iff.mpr hne) ?_
  have hlt := Numeral.ofDigits_lt (lt_of_mem_digitValues hdigits)
  rwa [digitValues, List.length_map] at hlt

theorem isDigit_of_mem_wholeOf {c : Char} (h : c ∈ wholeOf s) : c.isDigit = true := by
  unfold wholeOf at h
  split at h
  · rw [List.mem_singleton.mp h]
    rfl
  · exact List.mem_takeWhile_imp h

theorem natAbs_signed (negative : Bool) (n : ℕ) : (if negative then -(n : ℤ) else n).natAbs = n := by
  cases negative <;> simp

theorem isData_of_readNumber (h : readNumber s = .ok (some (v, rest))) : v.IsData := by
  rw [readNumber_eq] at h
  split at h
  · cases h
  · rename_i hwhole
    have hwidth := width_ofDigits (by simpa using hwhole) fun c => isDigit_of_mem_wholeOf
    unfold numberFrom at h
    dsimp only at h
    split at h
    · split at h
      · cases h
      · rename_i hlimit
        obtain ⟨rfl, -⟩ := Prod.mk.inj (Option.some.inj (Except.ok.inj h))
        refine .int _ ?_
        rw [natAbs_signed]
        exact hwidth.trans (Nat.not_lt.mp hlimit)
    · obtain ⟨rfl, -⟩ := Prod.mk.inj (Option.some.inj (Except.ok.inj h))
      exact .float _

theorem isData_of_mem_words : ∀ e ∈ words, e.2.IsData := by
  simp only [words, List.forall_mem_cons]
  exact ⟨.null, .bool _, .bool _, .float _, .float _, .float _, fun e he => absurd he List.not_mem_nil⟩

theorem isData_of_readLeaf (h : readLeaf s = .ok (v, rest)) : v.IsData := by
  unfold readLeaf at h
  split at h
  · rename_i hword
    obtain ⟨⟨word, u⟩, hmem, hword⟩ := List.exists_of_findSome?_eq_some hword
    obtain rfl := Except.ok.inj h
    obtain ⟨_, -, hpair⟩ := Option.map_eq_some_iff.mp hword
    obtain ⟨rfl, -⟩ := Prod.mk.inj hpair
    exact isData_of_mem_words _ hmem
  · obtain ⟨read, hnumber, h⟩ := bind_eq_ok.mp h
    cases read with
    | none => cases h
    | some r =>
      obtain rfl := Except.ok.inj h
      exact isData_of_readNumber hnumber

/-! ## What the readers have read -/

variable {fuel : ℕ}

/-- A value is a string, a list or an object, empty or up to its closing bracket, or has no items. -/
theorem readValue_cases (h : readValue standIn (fuel + 1) s = .ok (v, rest)) :
    (∃ tail x, s = '"' :: tail ∧ readString standIn s.length tail.length.succ [] tail = .ok (x, rest) ∧ v = .text x) ∨
    (∃ tail, s = '[' :: tail ∧ ((skip tail = ']' :: rest ∧ v = .list []) ∨
      ∃ vs, readItems standIn fuel (skip tail) = .ok (vs, rest) ∧ v = .list vs)) ∨
    (∃ tail, s = '\x7b' :: tail ∧ ((skip tail = '\x7d' :: rest ∧ v = .object []) ∨
      ∃ es, readEntries standIn fuel [] (skip tail) = .ok (es, rest) ∧ v = .object es)) ∨
    readLeaf s = .ok (v, rest) := by
  unfold readValue at h
  split at h
  · obtain ⟨⟨x, rest'⟩, hx, h⟩ := bind_eq_ok.mp h
    obtain ⟨rfl, rfl⟩ := Prod.mk.inj (Except.ok.inj h)
    exact .inl ⟨_, x, rfl, hx, rfl⟩
  · refine .inr (.inl ⟨_, rfl, ?_⟩)
    split at h
    · rename_i hclose
      obtain ⟨rfl, rfl⟩ := Prod.mk.inj (Except.ok.inj h)
      exact .inl ⟨hclose, rfl⟩
    · obtain ⟨⟨vs, rest'⟩, hvs, h⟩ := bind_eq_ok.mp h
      obtain ⟨rfl, rfl⟩ := Prod.mk.inj (Except.ok.inj h)
      exact .inr ⟨vs, hvs, rfl⟩
  · refine .inr (.inr (.inl ⟨_, rfl, ?_⟩))
    split at h
    · rename_i hclose
      obtain ⟨rfl, rfl⟩ := Prod.mk.inj (Except.ok.inj h)
      exact .inl ⟨hclose, rfl⟩
    · obtain ⟨⟨es, rest'⟩, hes, h⟩ := bind_eq_ok.mp h
      obtain ⟨rfl, rfl⟩ := Prod.mk.inj (Except.ok.inj h)
      exact .inr ⟨es, hes, rfl⟩
  · exact .inr (.inr (.inr h))

/-- Behind an item the list ends, or a comma and more items follow. -/
theorem readItems_cases {vs : List Value} (h : readItems standIn (fuel + 1) s = .ok (vs, rest)) :
    ∃ v behind, readValue standIn fuel s = .ok (v, behind) ∧ ((skip behind = ']' :: rest ∧ vs = [v]) ∨
      ∃ tail us, skip behind = ',' :: tail ∧ readItems standIn fuel (skip tail) = .ok (us, rest) ∧ vs = v :: us) := by
  unfold readItems at h
  obtain ⟨⟨v, behind⟩, hv, h⟩ := bind_eq_ok.mp h
  refine ⟨v, behind, hv, ?_⟩
  dsimp only at h
  split at h
  · rename_i hskip
    obtain ⟨rfl, rfl⟩ := Prod.mk.inj (Except.ok.inj h)
    exact .inl ⟨hskip, rfl⟩
  · rename_i hskip
    obtain ⟨⟨us, rest'⟩, hus, h⟩ := bind_eq_ok.mp h
    obtain ⟨rfl, rfl⟩ := Prod.mk.inj (Except.ok.inj h)
    exact .inr ⟨_, us, hskip, hus, rfl⟩
  · cases h

/-- An entry is a key, a colon and a value, and behind it the object ends, or a comma and more entries follow. -/
theorem readEntries_cases {before es : Entries} (h : readEntries standIn (fuel + 1) before s = .ok (es, rest)) :
    ∃ tail key behind colon v behind', s = '"' :: tail ∧
      readString standIn s.length tail.length.succ [] tail = .ok (key, behind) ∧ skip behind = ':' :: colon ∧
      readValue standIn fuel (skip colon) = .ok (v, behind') ∧
      ((skip behind' = '\x7d' :: rest ∧ es = before.set key v) ∨
        ∃ comma, skip behind' = ',' :: comma ∧ readEntries standIn fuel (before.set key v) (skip comma) = .ok (es, rest)) := by
  unfold readEntries at h
  split at h
  · obtain ⟨⟨key, behind⟩, hkey, h⟩ := bind_eq_ok.mp h
    dsimp only at h
    split at h
    · rename_i hcolon
      obtain ⟨⟨v, behind'⟩, hv, h⟩ := bind_eq_ok.mp h
      refine ⟨_, key, behind, _, v, behind', rfl, hkey, hcolon, hv, ?_⟩
      dsimp only at h
      split at h
      · rename_i hskip
        obtain ⟨rfl, rfl⟩ := Prod.mk.inj (Except.ok.inj h)
        exact .inl ⟨hskip, rfl⟩
      · rename_i hskip
        exact .inr ⟨_, hskip, h⟩
      · cases h
    · cases h
  · cases h

/-- What is read with some fuel can be held by a text: a value, the items of a list, the entries of an object. -/
structure ReadsData (fuel : ℕ) : Prop where
  value : ∀ {standIn s v rest}, readValue standIn fuel s = .ok (v, rest) → v.IsData
  items : ∀ {standIn s vs rest}, readItems standIn fuel s = .ok (vs, rest) → ∀ v ∈ vs, v.IsData
  entries : ∀ {standIn s before es rest}, (Value.object before).IsData → readEntries standIn fuel before s = .ok (es, rest) →
    (Value.object es).IsData

theorem ReadsData.value_succ (h : ReadsData fuel) (hread : readValue standIn (fuel + 1) s = .ok (v, rest)) : v.IsData := by
  have hnone : (Value.object []).IsData := .object _ (by simp) (by simp)
  rcases readValue_cases hread with ⟨_, x, -, -, rfl⟩ | ⟨_, -, ⟨-, rfl⟩ | ⟨vs, hvs, rfl⟩⟩ |
    ⟨_, -, ⟨-, rfl⟩ | ⟨es, hes, rfl⟩⟩ | hleaf
  · exact .text x
  · exact .list _ (by simp)
  · exact .list _ (h.items hvs)
  · exact hnone
  · exact h.entries hnone hes
  · exact isData_of_readLeaf hleaf

theorem ReadsData.items_succ (h : ReadsData fuel) {vs : List Value}
    (hread : readItems standIn (fuel + 1) s = .ok (vs, rest)) : ∀ v ∈ vs, v.IsData := by
  obtain ⟨v, _, hv, ⟨-, rfl⟩ | ⟨_, us, -, hus, rfl⟩⟩ := readItems_cases hread
  · exact List.forall_mem_singleton.mpr (h.value hv)
  · exact List.forall_mem_cons.mpr ⟨h.value hv, h.items hus⟩

theorem ReadsData.entries_succ (h : ReadsData fuel) {before es : Entries} (hbefore : (Value.object before).IsData)
    (hread : readEntries standIn (fuel + 1) before s = .ok (es, rest)) : (Value.object es).IsData := by
  obtain ⟨_, key, _, _, v, _, -, -, -, hv, hrest⟩ := readEntries_cases hread
  have hset := hbefore.set key (h.value hv)
  rcases hrest with ⟨-, rfl⟩ | ⟨_, -, hes⟩
  · exact hset
  · exact h.entries hset hes

theorem readsData (fuel : ℕ) : ReadsData fuel := by
  induction fuel with
  | zero =>
    constructor
    · intro standIn s v rest h
      cases h
    · intro standIn s vs rest h
      cases h
    · intro standIn s before es rest _ h
      cases h
  | succ fuel ih => exact ⟨ih.value_succ, ih.items_succ, ih.entries_succ⟩

/-- A value that was read from a text. -/
theorem isData_of_read {text : String} (h : Json.readWith standIn text = .ok v) : v.IsData := by
  unfold Json.readWith at h
  dsimp only at h
  split at h
  · rename_i u hread
    obtain rfl := Except.ok.inj h
    unfold readChars at hread
    split at hread
    · cases hread
    · obtain ⟨⟨w, rest⟩, hw, hread⟩ := bind_eq_ok.mp hread
      dsimp only at hread
      split at hread
      · obtain rfl := Except.ok.inj hread
        exact (readsData _).value hw
      · cases hread
  · cases h

end Json

end Pagewright
