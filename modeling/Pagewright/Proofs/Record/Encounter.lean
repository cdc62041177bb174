import Pagewright.Proofs.Record.Place

/-!
# Lists on the way

Under an object every segment stands for a key, and below a value without parts nothing is read. So what becomes of a
path is decided where it comes to a list: by the lists on the way and the segments that it has for them (`Value.Meets`).

In a list a segment of digits is a position. Some digits make no number, as not all of them are decimal digits or there
are more of them than a number is read from (`Path.IsIllegible`). A path is read and written in every record, whether or
not it leads anywhere, unless it comes to a list with such a segment; then it is neither read nor written
(`Value.returns_access_iff`).
-/

namespace Pagewright

open Outcome

namespace Path

open Pagewright.Text

variable {segment : String} {s : List Char}

/-! ## Digits without a number -/

/-- Digits that no number can be read from: one of them is no decimal digit, or there are too many. -/
structure IsIllegible (segment : String) : Prop where
  ne_empty : segment ≠ ""
  isDigit_of_mem : ∀ c ∈ segment.toList, isDigit c = true
  noNumber : (∃ c ∈ segment.toList, decimalValue? c = none) ∨ Numeral.digitLimit < segment.toList.length

theorem mapM_decimalValue?_eq_none_iff : s.mapM decimalValue? = none ↔ ∃ c ∈ s, decimalValue? c = none := by
  induction s with
  | nil => simp
  | cons c s ih =>
    rw [List.mapM_cons, List.exists_mem_cons_iff, ← ih]
    cases decimalValue? c with
    | none => simp
    | some d => cases s.mapM decimalValue? <;> simp

theorem natural?_eq_none_iff (hne : s ≠ []) : Numeral.natural? s = none ↔ ∃ c ∈ s, decimalValue? c = none := by
  rw [Numeral.natural?, if_neg (by simpa using hne), Option.map_eq_none_iff, mapM_decimalValue?_eq_none_iff]

theorem index?_of_not_digits (h : segment = "" ∨ segment.toList.all isDigit = false) :
    index? segment = .ok none := by
  rw [index?, if_pos]
  rcases h with rfl | h
  · rfl
  · rw [h, Bool.not_false, Bool.or_true]

/-- Each segment has a position or none, but for digits without a number. -/
theorem not_returns_index?_iff : ¬ Returns (index? segment) ↔ IsIllegible segment := by
  by_cases hdigits : segment = "" ∨ segment.toList.all isDigit = false
  · rw [index?_of_not_digits hdigits]
    refine iff_of_false (not_not_intro (returns_ok none)) fun h => ?_
    rcases hdigits with rfl | hdigits
    · exact h.ne_empty rfl
    · rw [List.all_eq_true.mpr h.isDigit_of_mem] at hdigits
      cases hdigits
  · rw [not_or, Bool.not_eq_false] at hdigits
    obtain ⟨hne, hall⟩ := hdigits
    have hlegible : IsIllegible segment ↔
        Numeral.natural? segment.toList = none ∨ Numeral.digitLimit < segment.toList.length := by
      rw [natural?_eq_none_iff (by simpa using hne)]
      exact ⟨fun h => h.noNumber, fun h => ⟨hne, List.all_eq_true.mp hall, h⟩⟩
    have hposition : ¬ (segment.toList.isEmpty || !segment.toList.all isDigit) = true := by simp [hall, hne]
    rw [hlegible, index?, if_neg hposition]
    cases Numeral.natural? segment.toList with
    | none => simp [undefinedOn]
    | some n =>
      by_cases hlong : segment.toList.length ≤ Numeral.digitLimit
      · simp [hlong]
      · simp [hlong, undefinedOn, Nat.lt_of_not_le hlong]

/-- Positions can be written in the digits of any script. -/
example : index? "٣" = .ok (some 3) := by decide +kernel

end Path

namespace Value

variable {P : List Value → String → Prop} {c : Container Value} {v : Value} {segment : String} {segs rest : List String}

/-! ## Lists that a path comes to -/

/-- Segments come to a list of which, and of the next segment, something holds. -/
def Meets (P : List Value → String → Prop) (v : Value) (segs : List String) : Prop :=
  ∃ before segment after items, segs = before ++ segment :: after ∧ v.walk before = .ok (list items) ∧
    P items segment

theorem not_meets_nil (v : Value) : ¬ v.Meets P [] := by
  rintro ⟨before, segment, after, items, hsegs, -⟩
  simp at hsegs

/-- A path comes to a list at once, or where its first segment leads. -/
theorem meets_cons : v.Meets P (segment :: rest) ↔
    (∃ items, v = list items ∧ P items segment) ∨ ∃ u, v.child segment = .ok u ∧ u.Meets P rest := by
  constructor
  · rintro ⟨_ | ⟨_, before⟩, next, after, items, hsegs, hwalk, hP⟩
    · obtain ⟨rfl, rfl⟩ := List.cons.inj hsegs
      exact .inl ⟨items, Except.ok.inj hwalk, hP⟩
    · obtain ⟨rfl, rfl⟩ := List.cons.inj hsegs
      rw [walk_cons, bind_eq_ok] at hwalk
      obtain ⟨u, hchild, hwalk⟩ := hwalk
      exact .inr ⟨u, hchild, before, next, after, items, rfl, hwalk, hP⟩
  · rintro (⟨items, rfl, hP⟩ | ⟨u, hchild, before, next, after, items, rfl, hwalk, hP⟩)
    · exact ⟨[], segment, rest, items, rfl, rfl, hP⟩
    · refine ⟨segment :: before, next, after, items, rfl, ?_, hP⟩
      rw [walk_cons, hchild]
      exact hwalk

theorem Meets.isContainer (h : v.Meets P segs) : v.isContainer = true := by
  obtain ⟨before, segment, after, items, rfl, hwalk, -⟩ := h
  obtain ⟨ρ, -, hpart⟩ := place?_of_walk hwalk rfl
  exact isContainer_of_part? hpart rfl

theorem meets_toValue_cons : c.toValue.Meets P (segment :: rest) ↔
    (∃ items, c = .list items ∧ P items segment) ∨
      ∃ i u, c.target? segment = .ok (some i) ∧ c.parts[i]? = some u ∧ u.Meets P rest := by
  rw [meets_cons]
  refine or_congr ⟨?_, ?_⟩ ⟨?_, ?_⟩
  · rintro ⟨items, hlist, hP⟩
    have hc : c = .list items := toValue_injective hlist
    exact ⟨items, hc, hP⟩
  · rintro ⟨items, rfl, hP⟩
    exact ⟨items, rfl, hP⟩
  · rintro ⟨u, hchild, hmeets⟩
    rw [child_eq_get, bind_eq_ok] at hchild
    obtain ⟨_ | w, hget, hw⟩ := hchild
    · -- Null leads to no list.
      obtain rfl := Except.ok.inj hw
      cases hmeets.isContainer
    · obtain rfl := Except.ok.inj hw
      obtain ⟨i, htarget, hpart⟩ := Container.target_of_get hget
      exact ⟨i, w, htarget, hpart, hmeets⟩
  · rintro ⟨i, u, htarget, hpart, hmeets⟩
    refine ⟨u, ?_, hmeets⟩
    rw [child_toValue, htarget]
    simp [hpart]

theorem not_meets_empty (segs : List String) : ¬ (Container.object []).toValue.Meets P segs := by
  cases segs with
  | nil => exact not_meets_nil _
  | cons segment rest =>
    rw [meets_toValue_cons]
    rintro (⟨items, hlist, -⟩ | ⟨i, u, -, hpart, -⟩)
    · cases hlist
    · simp [Container.parts] at hpart

/-- Where a write goes on, a path comes to the lists that it comes to in the part that stands there. -/
theorem meets_asContainer (v : Value) : v.asContainer.Meets P segs ↔ v.Meets P segs := by
  rcases asContainer_cases v with ⟨d, rfl, h⟩ | ⟨hv, h⟩
  · rw [h]
  · rw [h]
    refine iff_of_false (not_meets_empty segs) fun hmeets => ?_
    rw [hmeets.isContainer] at hv
    cases hv

/-! ## Reading and writing -/

/-- A path has digits without a number for a list that it comes to. -/
def IsStuck (v : Value) (segs : List String) : Prop := v.Meets (fun _ segment => Path.IsIllegible segment) segs

theorem returns_child_iff :
    Returns (v.child segment) ↔ ¬ ∃ items, v = list items ∧ Path.IsIllegible segment := by
  cases v with
  | list items =>
    have hindex : Returns ((list items).child segment) ↔ Returns (Path.index? segment) := by
      constructor
      · exact Returns.of_bind
      · intro h
        refine h.bind fun n _ => ?_
        cases n <;> exact returns_pure _
    simp [hindex, ← Path.not_returns_index?_iff]
  | _ => simp [child]

theorem returns_walk_iff : Returns (v.walk segs) ↔ ¬ v.IsStuck segs := by
  induction segs generalizing v with
  | nil => exact iff_of_true (returns_ok v) (not_meets_nil v)
  | cons segment rest ih =>
    rw [walk_cons, returns_bind_iff, IsStuck, meets_cons, not_or, ← returns_child_iff]
    simp only [ih]
    constructor
    · rintro ⟨u, hchild, hrest⟩
      refine ⟨⟨u, hchild⟩, ?_⟩
      rintro ⟨w, hw, hstuck⟩
      obtain rfl := Except.ok.inj (hchild.symm.trans hw)
      exact hrest hstuck
    · rintro ⟨⟨u, hchild⟩, hfree⟩
      exact ⟨u, hchild, fun hstuck => hfree ⟨u, hchild, hstuck⟩⟩

/-- A write returns where a walk does: it takes the same steps, and levels that it makes take every segment. -/
theorem returns_assignAt_iff_walk (c : Container Value) (new : Value) (segs : List String) :
    Returns (c.toValue.assignAt new segs) ↔ Returns (c.toValue.walk segs) := by
  induction segs generalizing c with
  | nil => exact iff_of_true (returns_ok _) (returns_ok _)
  | cons segment rest ih =>
    rw [assignAt_cons, walk_cons, child_toValue]
    cases c.target? segment with
    | error e => exact Iff.rfl
    | ok target =>
      cases target with
      | none =>
        refine iff_of_true (returns_pure _) ?_
        exact ⟨.null, walk_null rest⟩
      | some i =>
        have hin : Returns (assignIn ((c.parts[i]?).getD .null) new rest) ↔
            Returns (((c.parts[i]?).getD .null).walk rest) := by
          cases rest with
          | nil => exact iff_of_true (returns_ok _) (returns_ok _)
          | cons s rest =>
            obtain ⟨d, hd⟩ := exists_asContainer ((c.parts[i]?).getD .null)
            rw [assignIn_cons, ← walk_asContainer _ (List.cons_ne_nil s rest), hd]
            exact ih d
        show Returns (assignIn ((c.parts[i]?).getD .null) new rest >>= fun a => pure (c.put segment i a).toValue) ↔
          Returns (((c.parts[i]?).getD .null).walk rest)
        rw [← hin]
        exact ⟨Returns.of_bind, fun h => h.bind fun _ _ => returns_pure _⟩

theorem returns_find_iff (v : Value) (path : String) :
    Returns (v.find path) ↔ ¬ v.IsStuck (Path.segments path) := by
  by_cases hsegs : Path.segments path = []
  · rw [find, hsegs]
    exact iff_of_true (returns_ok _) (not_meets_nil v)
  · rw [find_eq_walk hsegs, returns_walk_iff]

theorem returns_assign_iff (c : Container Value) (path : String) (new : Value) :
    Returns (c.toValue.assign path new) ↔ ¬ c.toValue.IsStuck (Path.segments path) := by
  rw [assign, returns_assignAt_iff_walk, returns_walk_iff]

/-- A path is read in a value, and written in a list or object, unless it comes to a list with digits that stand for no
number. Missing keys, positions behind the last item, other segments for a list and values without parts on the way are
no obstacle. -/
theorem returns_access_iff (path : String) :
    (∀ v : Value, Returns (v.find path) ↔ ¬ v.IsStuck (Path.segments path)) ∧
    ∀ (c : Container Value) (new : Value),
      Returns (c.toValue.assign path new) ↔ ¬ c.toValue.IsStuck (Path.segments path) :=
  ⟨fun v => returns_find_iff v path, fun c new => returns_assign_iff c path new⟩

/-- A superscript two is a digit, but not one that numbers are written with. -/
theorem not_returns_access_superscript :
    ¬ Returns ((object [("items", list [.text "A"])]).find "items.²") ∧
    ¬ Returns ((object [("items", list [.text "A"])]).assign "items.²" (.text "B")) := by
  decide +kernel

end Value

end Pagewright
