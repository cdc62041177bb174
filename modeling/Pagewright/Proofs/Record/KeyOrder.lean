import Mathlib.Data.String.Basic
import Pagewright.Proofs.Record.Place

/-!
# Records up to the order of keys

`Value.sorted` brings the keys of all objects in a value into order, so two values are the same up to the
order of keys when they are equal once sorted. Reading along a path does not depend on the order of keys
(`Value.find_sorted`), and neither does a write, up to that order (`Value.assignAt_rel`).

Writes along paths that diverge can be exchanged (`Value.assignAt_comm`). They do not give the same record:
two new keys of one object stand in the order in which they were written.
-/

namespace Pagewright

namespace Entries

/-- Put a value under a key where the keys are in order, in place when the key is present. -/
def insertKey : Entries → String → Value → Entries
  | [], key, v => [(key, v)]
  | (k, w) :: rest, key, v =>
    if key < k then (key, v) :: (k, w) :: rest
    else if key = k then (key, v) :: rest
    else (k, w) :: insertKey rest key v

variable {key other k : String} {v w u : Value} {rest : Entries}

theorem lookup_cons (k other : String) (u : Value) (rest : Entries) :
    ((k, u) :: rest).lookup other = if other = k then some u else rest.lookup other := by
  by_cases h : other = k
  · simp [h]
  · have h' : (other == k) = false := by simpa using h
    simp [List.lookup_cons, h, h']

theorem insertKey_of_lt (h : key < k) (rest : Entries) (v u : Value) :
    insertKey ((k, u) :: rest) key v = (key, v) :: (k, u) :: rest := by
  rw [insertKey, if_pos h]

theorem insertKey_of_eq (rest : Entries) (v u : Value) :
    insertKey ((key, u) :: rest) key v = (key, v) :: rest := by
  rw [insertKey, if_neg (lt_irrefl key), if_pos rfl]

theorem insertKey_of_gt (h : k < key) (rest : Entries) (v u : Value) :
    insertKey ((k, u) :: rest) key v = (k, u) :: insertKey rest key v := by
  rw [insertKey, if_neg (lt_asymm h), if_neg (ne_of_gt h)]

theorem lookup_insertKey (entries : Entries) (key other : String) (v : Value) :
    (insertKey entries key v).lookup other = if other = key then some v else entries.lookup other := by
  induction entries with
  | nil => rw [insertKey, lookup_cons]
  | cons e rest ih =>
    obtain ⟨k, u⟩ := e
    rcases lt_trichotomy key k with h | rfl | h
    · rw [insertKey_of_lt h, lookup_cons]
    · rw [insertKey_of_eq, lookup_cons, lookup_cons]
      split <;> rfl
    · rw [insertKey_of_gt h, lookup_cons, lookup_cons, ih]
      split
      · rename_i hother
        rw [if_neg (hother ▸ ne_of_lt h)]
      · rfl

theorem insertKey_self (entries : Entries) (key : String) (v w : Value) :
    insertKey (insertKey entries key v) key w = insertKey entries key w := by
  induction entries with
  | nil => exact insertKey_of_eq [] w v
  | cons e rest ih =>
    obtain ⟨k, u⟩ := e
    rcases lt_trichotomy key k with h | rfl | h
    · rw [insertKey_of_lt h, insertKey_of_lt h, insertKey_of_eq]
    · rw [insertKey_of_eq, insertKey_of_eq, insertKey_of_eq]
    · rw [insertKey_of_gt h, insertKey_of_gt h, insertKey_of_gt h, ih]

theorem insertKey_comm (h : key ≠ other) (entries : Entries) (v w : Value) :
    insertKey (insertKey entries key v) other w = insertKey (insertKey entries other w) key v := by
  -- The equation is symmetric in the two keys.
  wlog hlt : key < other generalizing key other v w
  · exact (this h.symm w v (lt_of_le_of_ne (not_lt.mp hlt) h.symm)).symm
  induction entries with
  | nil =>
    rw [insertKey, insertKey, insertKey_of_gt hlt, insertKey_of_lt hlt, insertKey]
  | cons e rest ih =>
    obtain ⟨k, u⟩ := e
    rcases lt_trichotomy key k with hk | rfl | hk
    · rw [insertKey_of_lt hk, insertKey_of_gt hlt]
      rcases lt_trichotomy other k with ho | rfl | ho
      · rw [insertKey_of_lt ho, insertKey_of_lt hlt]
      · rw [insertKey_of_eq, insertKey_of_lt hlt]
      · rw [insertKey_of_gt ho, insertKey_of_lt hk]
    · rw [insertKey_of_eq, insertKey_of_gt hlt, insertKey_of_gt hlt, insertKey_of_eq]
    · have ho : k < other := lt_trans hk hlt
      rw [insertKey_of_gt hk, insertKey_of_gt ho, insertKey_of_gt ho, insertKey_of_gt hk, ih]

theorem lookup_set (entries : Entries) (key other : String) (v : Value) :
    (set entries key v).lookup other = if other = key then some v else entries.lookup other := by
  induction entries with
  | nil => rw [set, lookup_cons]
  | cons e rest ih =>
    obtain ⟨k, u⟩ := e
    rw [set]
    by_cases h : k = key
    · subst h
      rw [if_pos (by simp), lookup_cons, lookup_cons]
      split <;> rfl
    · rw [if_neg (by simpa using h), lookup_cons, lookup_cons, ih]
      split
      · rename_i hother
        rw [if_neg (hother ▸ h)]
      · rfl

theorem get_set_self (entries : Entries) (key : String) (v : Value) : get (set entries key v) key = v := by
  rw [get, lookup_set, if_pos rfl]
  rfl

theorem get_set_of_ne (h : key ≠ other) (entries : Entries) (v : Value) :
    get (set entries key v) other = get entries other := by
  rw [get, lookup_set, if_neg h.symm, get]

end Entries

namespace Value

mutual

/-- A value with the keys of all its objects in order. -/
def sorted : Value → Value
  | list items => list (sortedItems items)
  | object entries => object (sortedEntries entries)
  | v => v

/-- Items with the keys of all objects in order. -/
def sortedItems : List Value → List Value
  | [] => []
  | v :: rest => sorted v :: sortedItems rest

/-- Entries with all keys in order. -/
def sortedEntries : Entries → Entries
  | [] => []
  | (k, v) :: rest => Entries.insertKey (sortedEntries rest) k (sorted v)

end

theorem sortedItems_eq (items : List Value) : sortedItems items = items.map sorted := by
  induction items with
  | nil => rfl
  | cons v rest ih => rw [sortedItems, List.map_cons, ih]

theorem lookup_sortedEntries (entries : Entries) (key : String) :
    (sortedEntries entries).lookup key = (entries.lookup key).map sorted := by
  induction entries with
  | nil => rfl
  | cons e rest ih =>
    obtain ⟨k, v⟩ := e
    rw [sortedEntries, Entries.lookup_insertKey, Entries.lookup_cons, ih]
    split <;> rfl

theorem sorted_get (entries : Entries) (key : String) :
    (Entries.get entries key).sorted = Entries.get (sortedEntries entries) key := by
  rw [Entries.get, Entries.get, lookup_sortedEntries]
  cases entries.lookup key <;> simp [sorted]

theorem sorted_getD (part : Option Value) : (part.getD .null).sorted = (part.map sorted).getD .null := by
  cases part <;> simp [sorted]

theorem sortedEntries_set (entries : Entries) (key : String) (v : Value) :
    sortedEntries (Entries.set entries key v) =
      Entries.insertKey (sortedEntries entries) key v.sorted := by
  induction entries with
  | nil => rfl
  | cons e rest ih =>
    obtain ⟨k, u⟩ := e
    rw [Entries.set]
    by_cases h : k = key
    · subst h
      rw [if_pos (by simp), sortedEntries, sortedEntries, Entries.insertKey_self]
    · rw [if_neg (by simpa using h), sortedEntries, sortedEntries, ih, Entries.insertKey_comm (Ne.symm h)]

@[simp] theorem isNull_sorted (v : Value) : v.sorted.isNull = v.isNull := by
  cases v <;> simp [sorted, isNull]

@[simp] theorem isContainer_sorted (v : Value) : v.sorted.isContainer = v.isContainer := by
  cases v <;> simp [sorted, isContainer]

/-! ## Reading -/

theorem child_sorted (v : Value) (segment : String) :
    v.sorted.child segment = sorted <$> v.child segment := by
  cases v with
  | list items =>
    simp only [sorted, child]
    cases Path.index? segment with
    | error e => rfl
    | ok i =>
      cases i with
      | none => simp [sorted]
      | some i =>
        simp only [Outcome.ok_bind, sortedItems_eq, List.getD_eq_getElem?_getD, List.getElem?_map]
        cases items[i]? <;> simp [sorted]
  | object entries => simp [sorted, child, sorted_get]
  | _ => simp [sorted, child]

theorem walk_sorted (v : Value) (segs : List String) : v.sorted.walk segs = sorted <$> v.walk segs := by
  induction segs generalizing v with
  | nil => simp [walk]
  | cons segment rest ih =>
    rw [walk, walk, isNull_sorted, child_sorted]
    split
    · simp [sorted]
    · cases v.child segment with
      | error e => rfl
      | ok u => exact ih u

/-- What is read does not depend on the order of keys, up to that order. -/
theorem find_sorted (v : Value) (path : String) : v.sorted.find path = sorted <$> v.find path := by
  unfold find
  split
  · simp [sorted]
  · exact walk_sorted v _

/-! ## Writing -/

theorem assignAt_object (entries : Entries) (new : Value) (segment : String) (rest : List String) :
    (object entries).assignAt new (segment :: rest) =
      assignIn (Entries.get entries segment) new rest >>= fun u =>
        .ok (object (Entries.set entries segment u)) := by
  cases rest <;> simp [assignAt, assignIn]

theorem target?_list {xs ys : List Value} (h : xs.length = ys.length) (segment : String) :
    (Container.list xs).target? segment = (Container.list ys).target? segment := by
  simp only [Container.target?, h]

/-- A list and an object differ once sorted, and a value without parts is what it was. -/
theorem cases_of_sorted_eq {v w : Value} (h : v.sorted = w.sorted) :
    (∃ xs ys, v = list xs ∧ w = list ys ∧ xs.map sorted = ys.map sorted) ∨
    (∃ es fs, v = object es ∧ w = object fs ∧ sortedEntries es = sortedEntries fs) ∨
    (v.isContainer = false ∧ v = w) := by
  cases v with
  | list xs =>
    cases w <;> simp only [sorted, list.injEq, reduceCtorEq, sortedItems_eq] at h
    exact .inl ⟨_, _, rfl, rfl, h⟩
  | object es =>
    cases w <;> simp only [sorted, object.injEq, reduceCtorEq] at h
    exact .inr (.inl ⟨_, _, rfl, rfl, h⟩)
  | null | bool | int | float | text | date | moment =>
    refine .inr (.inr ⟨rfl, ?_⟩)
    cases w <;> simp_all [sorted]

theorem sorted_put_list (items : List Value) (segment : String) (i : ℕ) (u : Value) :
    ((Container.list items).put segment i u).toValue.sorted =
      ((Container.list (items.map sorted)).put segment i u.sorted).toValue := by
  simp [Container.put, Container.toValue, sorted, sortedItems_eq]

theorem sorted_asContainer {v w : Value} (h : v.sorted = w.sorted) :
    v.asContainer.sorted = w.asContainer.sorted := by
  have hc : v.isContainer = w.isContainer := by rw [← isContainer_sorted v, h, isContainer_sorted]
  unfold asContainer
  rw [hc]
  split
  · exact h
  · rfl

theorem assignAt_rel {v w : Value} (h : v.sorted = w.sorted) (new : Value) (segs : List String) :
    Outcome.Rel (fun v w => v.sorted = w.sorted) (v.assignAt new segs) (w.assignAt new segs) := by
  induction segs generalizing v w with
  | nil => exact .ok h
  | cons segment rest ih =>
    have hin {u x : Value} (hux : u.sorted = x.sorted) :
        Outcome.Rel (fun v w => v.sorted = w.sorted) (assignIn u new rest) (assignIn x new rest) := by
      cases rest with
      | nil => exact .ok rfl
      | cons s rest => exact ih (sorted_asContainer hux)
    rcases cases_of_sorted_eq h with ⟨xs, ys, rfl, rfl, hitems⟩ | ⟨es, fs, rfl, rfl, hentries⟩ | ⟨-, rfl⟩
    · have hlength : xs.length = ys.length := by simpa using congrArg List.length hitems
      rw [show list xs = (Container.list xs).toValue from rfl,
        show list ys = (Container.list ys).toValue from rfl, assignAt_cons, assignAt_cons,
        target?_list hlength]
      refine (Outcome.Rel.refl _).bind fun target _ htarget => ?_
      subst htarget
      cases target with
      | none => exact .ok h
      | some i =>
        refine (hin ?_).bind fun u x hux => .ok ?_
        · have hi := congrArg (fun l => (l[i]?).getD .null) hitems
          simpa [List.getElem?_map, sorted_getD, Container.parts] using hi
        · rw [sorted_put_list, sorted_put_list, hitems, hux]
    · rw [assignAt_object, assignAt_object]
      refine (hin ?_).bind fun u x hux => .ok ?_
      · rw [sorted_get, sorted_get, hentries]
      · simp only [sorted, sortedEntries_set, hentries, hux]
    · exact (Outcome.Rel.refl _).imp fun _ _ h => h ▸ rfl

theorem isContainer_of_assignAt {v new w : Value} {segs : List String} (hv : v.isContainer = true)
    (h : v.assignAt new segs = .ok w) : w.isContainer = true := by
  obtain ⟨c, rfl⟩ := exists_toValue hv
  obtain ⟨d, rfl⟩ := exists_toValue_of_assignAt h
  exact isContainer_toValue d

theorem isContainer_asContainer (v : Value) : v.asContainer.isContainer = true := by
  obtain ⟨c, hc⟩ := exists_asContainer v
  rw [hc, isContainer_toValue]

theorem asContainer_of_isContainer {v : Value} (hv : v.isContainer = true) : v.asContainer = v := by
  rw [asContainer, if_pos hv]

/-- A write in a list is refused, or changes one of its items. -/
theorem assignAt_list_cases {items : List Value} {new w : Value} {segment : String} {rest : List String}
    (h : (list items).assignAt new (segment :: rest) = .ok w) :
    ((Container.list items).target? segment = .ok none ∧ w = list items) ∨
      ∃ (i : ℕ) (v u : Value), (Container.list items).target? segment = .ok (some i) ∧
        items[i]? = some v ∧ assignIn v new rest = .ok u ∧ w = list (items.set i u) := by
  rcases assignAt_cons_cases (c := .list items) h with ⟨htarget, rfl⟩ | ⟨i, u, htarget, hu, rfl⟩
  · exact .inl ⟨htarget, rfl⟩
  · have hi : i < items.length := by
      obtain ⟨_ | n, -, h⟩ := Outcome.bind_eq_ok.mp htarget
      · simp at h
      · simp only [Outcome.pure_eq_ok, Except.ok.injEq, Option.ite_none_right_eq_some,
          Option.some.injEq] at h
        exact h.2 ▸ h.1
    simp only [Container.parts, List.getElem?_eq_getElem hi, Option.getD_some] at hu
    refine .inr ⟨i, _, u, htarget, List.getElem?_eq_getElem hi, hu, ?_⟩
    rw [List.set_eq_take_append_cons_drop, if_pos hi]
    rfl

theorem assignAt_list {items : List Value} {new v u : Value} {segment : String} {rest : List String} {i : ℕ}
    (htarget : (Container.list items).target? segment = .ok (some i)) (hi : items[i]? = some v)
    (hu : assignIn v new rest = .ok u) :
    (list items).assignAt new (segment :: rest) = .ok (list (items.set i u)) := by
  have h := assignAt_of_target htarget new rest
  rw [Container.parts, hi, Option.getD_some, hu] at h
  rw [List.set_eq_take_append_cons_drop, if_pos (List.getElem?_eq_some_iff.mp hi).1]
  exact h

/-- Whether writes of `a` along `p` and of `b` along `q` in a part of a record can be exchanged, up to the order
of keys in what they give. -/
def Exchange (a b : Value) (p q : List String) : Prop :=
  ∀ u u₁ u₂, assignIn u a p = .ok u₁ → assignIn u₁ b q = .ok u₂ →
    ∃ u₁' u₂', assignIn u b q = .ok u₁' ∧ assignIn u₁' a p = .ok u₂' ∧ u₂.sorted = u₂'.sorted

section Exchange

variable {a b w x : Value} {s t : String} {p q : List String}

theorem assignAt_comm_object {entries : Entries} (hin : s = t → Exchange a b p q)
    (ha : (object entries).assignAt a (s :: p) = .ok w) (hb : w.assignAt b (t :: q) = .ok x) :
    ∃ w' x', (object entries).assignAt b (t :: q) = .ok w' ∧ w'.assignAt a (s :: p) = .ok x' ∧
      x.sorted = x'.sorted := by
  rw [assignAt_object, Outcome.bind_eq_ok] at ha
  obtain ⟨u₁, h₁, ha⟩ := ha
  obtain rfl := Except.ok.inj ha
  rw [assignAt_object, Outcome.bind_eq_ok] at hb
  obtain ⟨u₂, h₂, hb⟩ := hb
  obtain rfl := Except.ok.inj hb
  by_cases hst : s = t
  · subst hst
    rw [Entries.get_set_self] at h₂
    obtain ⟨u₁', u₂', h₁', h₂', hsame⟩ := hin rfl _ _ _ h₁ h₂
    refine ⟨_, _, by rw [assignAt_object, h₁']; rfl,
      by rw [assignAt_object, Entries.get_set_self, h₂']; rfl, ?_⟩
    simp only [sorted, sortedEntries_set, Entries.insertKey_self, hsame]
  · rw [Entries.get_set_of_ne hst] at h₂
    refine ⟨_, _, by rw [assignAt_object, h₂]; rfl,
      by rw [assignAt_object, Entries.get_set_of_ne (Ne.symm hst), h₁]; rfl, ?_⟩
    simp only [sorted, sortedEntries_set, Entries.insertKey_comm hst]

theorem assignAt_comm_list {items : List Value} (hin : Path.Agree s t → Exchange a b p q)
    (ha : (list items).assignAt a (s :: p) = .ok w) (hb : w.assignAt b (t :: q) = .ok x) :
    ∃ w' x', (list items).assignAt b (t :: q) = .ok w' ∧ w'.assignAt a (s :: p) = .ok x' ∧
      x.sorted = x'.sorted := by
  rcases assignAt_list_cases ha with ⟨hs, rfl⟩ | ⟨i, v, u₁, hs, hv, h₁, rfl⟩
  · refine ⟨x, x, hb, ?_, rfl⟩
    rcases assignAt_list_cases hb with ⟨-, rfl⟩ | ⟨j, _, u₂, -, -, -, rfl⟩
    · exact ha
    · exact assignAt_of_refused ((target?_list (by simp) s).trans hs) a p
  · have hi : i < items.length := (List.getElem?_eq_some_iff.mp hv).1
    rcases assignAt_list_cases hb with ⟨ht, rfl⟩ | ⟨j, v', u₂, ht, hv', h₂, rfl⟩
    · rw [target?_list (by simp : _ = items.length)] at ht
      exact ⟨_, _, assignAt_of_refused ht b q, ha, rfl⟩
    · rw [target?_list (by simp : _ = items.length)] at ht
      by_cases hij : i = j
      · subst hij
        rw [List.getElem?_set_self hi, Option.some.injEq] at hv'
        subst hv'
        obtain ⟨u₁', u₂', h₁', h₂', hsame⟩ := hin (Container.agree_of_target hs ht hv) _ _ _ h₁ h₂
        refine ⟨_, _, assignAt_list ht hv h₁', assignAt_list ((target?_list (by simp) s).trans hs)
          (List.getElem?_set_self hi) h₂', ?_⟩
        simp only [List.set_set, sorted, sortedItems_eq, List.map_set, hsame]
      · rw [List.getElem?_set_ne hij] at hv'
        refine ⟨_, _, assignAt_list ht hv' h₂, assignAt_list ((target?_list (by simp) s).trans hs)
          ((List.getElem?_set_ne (Ne.symm hij)).trans hv) h₁, ?_⟩
        rw [List.set_comm _ _ hij]

end Exchange

/-- Writes along paths that diverge can be exchanged. What they give is the same up to the order of keys. -/
theorem assignAt_comm {v a b w x : Value} {p q : List String} (hv : v.isContainer = true)
    (hdiverge : Path.Diverge p q) (ha : v.assignAt a p = .ok w) (hb : w.assignAt b q = .ok x) :
    ∃ w' x', v.assignAt b q = .ok w' ∧ w'.assignAt a p = .ok x' ∧ x.sorted = x'.sorted := by
  induction p generalizing v q w x with
  | nil =>
    obtain ⟨_, _, _, h, -⟩ := hdiverge
    simp at h
  | cons s p ih =>
    obtain ⟨t, q, rfl⟩ := hdiverge.exists_cons
    -- Where the two paths go on in one part, they diverge below it.
    have hin (hagree : Path.Agree s t) : Exchange a b p q := by
      intro u u₁ u₂ h₁ h₂
      have hrest := hdiverge.tail hagree
      obtain ⟨t', q', rfl⟩ := hrest.exists_cons
      obtain ⟨s', p', rfl⟩ := hrest.symm.exists_cons
      have hu := isContainer_asContainer u
      rw [assignIn_cons] at h₁ h₂
      rw [asContainer_of_isContainer (isContainer_of_assignAt hu h₁)] at h₂
      obtain ⟨u₁', u₂', h₁', h₂', hsame⟩ := ih hu hrest h₁ h₂
      refine ⟨u₁', u₂', h₁', ?_, hsame⟩
      rw [assignIn_cons, asContainer_of_isContainer (isContainer_of_assignAt hu h₁'), h₂']
    cases v with
    | object entries => exact assignAt_comm_object (fun hst => hin (.inl hst)) ha hb
    | list items => exact assignAt_comm_list hin ha hb
    | null | bool | int | float | text | date | moment => simp [isContainer] at hv

end Value

end Pagewright
