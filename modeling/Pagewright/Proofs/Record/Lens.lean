import Pagewright.Proofs.Record.Encounter

/-!
# What is written is read

A path is blocked in a value if it comes to a list that has no position for its next segment
(`Value.IsBlocked`). A write at a blocked path changes nothing at all (`Value.eq_of_isBlocked`), and any other
write is read back at its path (`Value.walk_of_not_isBlocked`): the levels that it makes on the way are objects,
which take every segment, so nothing is made before a write is refused.

Besides, of two writes at one path the later counts (`Value.assignAt_assignAt`), and a write of what is read
changes nothing (`Value.assign_find`).
-/

namespace Pagewright

namespace Container

variable {c : Container α} {segment : String} {i : ℕ}

theorem target?_list_eq_some {items : List α} :
    (list items).target? segment = .ok (some i) ↔ Path.index? segment = .ok (some i) ∧ i < items.length := by
  simp only [target?, Outcome.bind_eq_ok]
  constructor
  · rintro ⟨_ | n, hn, h⟩
    · simp at h
    · simp only [Outcome.pure_eq_ok, Except.ok.injEq, Option.ite_none_right_eq_some, Option.some.injEq] at h
      obtain ⟨hlt, rfl⟩ := h
      exact ⟨hn, hlt⟩
  · rintro ⟨hn, hlt⟩
    exact ⟨some i, hn, by simp [hlt]⟩

theorem put_put (h : i ≤ c.parts.length) (a b : α) : (c.put segment i a).put segment i b = c.put segment i b := by
  cases c with
  | list items =>
    have hlength : (items.take i).length = i := by simpa [parts] using h
    simp only [put, list.injEq]
    rw [List.take_append_of_le_length (by omega), List.take_take, Nat.min_self, List.drop_append]
    simp [hlength]
  | object entries =>
    have hlength : (entries.take i).length = i := by simpa [parts] using h
    simp only [put, object.injEq]
    rw [List.take_append_of_le_length (by omega), List.take_take, Nat.min_self, List.drop_append]
    simp [hlength]

end Container

namespace Value

variable {c : Container Value} {v v' new u : Value} {segs rest : List String} {segment : String} {i : ℕ}

/-! ## Blocked paths -/

/-- Segments come to a list that has no position for the next one. -/
def IsBlocked (v : Value) (segs : List String) : Prop :=
  ∃ before segment after items, segs = before ++ segment :: after ∧ v.walk before = .ok (list items) ∧
    ∀ i < items.length, Path.index? segment ≠ .ok (some i)

-- To be blocked is to meet a list that has no position for the next segment.

theorem not_isBlocked_nil (v : Value) : ¬v.IsBlocked [] := not_meets_nil v

theorem IsBlocked.isContainer (h : v.IsBlocked segs) : v.isContainer = true := Meets.isContainer h

/-- A path is blocked at its first segment, or the segment leads to a part in which the rest is. -/
theorem isBlocked_cons : c.toValue.IsBlocked (segment :: rest) ↔
    (∀ i, c.target? segment ≠ .ok (some i)) ∨
      ∃ i u, c.target? segment = .ok (some i) ∧ c.parts[i]? = some u ∧ u.IsBlocked rest := by
  refine meets_toValue_cons.trans (or_congr_left ⟨?_, fun h => ?_⟩)
  · rintro ⟨items, rfl, hnone⟩ i hi
    obtain ⟨hi, hlt⟩ := Container.target?_list_eq_some.mp hi
    exact hnone i hlt hi
  · cases c with
    | list items => exact ⟨items, rfl, fun i hlt hi => h i (Container.target?_list_eq_some.mpr ⟨hi, hlt⟩)⟩
    | object entries => exact absurd rfl (h _)

theorem not_isBlocked_empty (segs : List String) : ¬(Container.object []).toValue.IsBlocked segs :=
  not_meets_empty segs

/-- Where a write goes on, a path is blocked as it is in the part that stands there. -/
theorem isBlocked_asContainer (v : Value) : v.asContainer.IsBlocked segs ↔ v.IsBlocked segs := meets_asContainer v

theorem isBlocked_cons_of_target (htarget : c.target? segment = .ok (some i)) :
    c.toValue.IsBlocked (segment :: rest) ↔ ((c.parts[i]?).getD .null).asContainer.IsBlocked rest := by
  rw [isBlocked_cons, isBlocked_asContainer]
  constructor
  · rintro (h | ⟨j, u, hj, hpart, hblocked⟩)
    · exact absurd htarget (h i)
    · obtain rfl := Option.some.inj (Except.ok.inj (htarget.symm.trans hj))
      rwa [hpart]
  · intro hblocked
    cases hpart : c.parts[i]? with
    | none =>
      rw [hpart] at hblocked
      cases hblocked.isContainer
    | some u =>
      rw [hpart] at hblocked
      exact .inr ⟨i, u, htarget, hpart, hblocked⟩

theorem eq_of_isBlocked (hblocked : c.toValue.IsBlocked segs) (h : c.toValue.assignAt new segs = .ok v') :
    v' = c.toValue ∧ c.toValue.walk segs = .ok .null := by
  induction segs generalizing c v' with
  | nil => exact absurd hblocked (not_isBlocked_nil _)
  | cons segment rest ih =>
    obtain ⟨htarget, rfl⟩ | ⟨i, a, htarget, ha, rfl⟩ := assignAt_cons_cases h
    · refine ⟨rfl, ?_⟩
      rw [walk_cons, child_toValue, htarget]
      exact walk_null rest
    · rw [isBlocked_cons_of_target htarget] at hblocked
      have hrest : rest ≠ [] := by
        rintro rfl
        exact not_isBlocked_nil _ hblocked
      obtain ⟨s, rest, rfl⟩ := List.exists_cons_of_ne_nil hrest
      rw [assignIn_cons] at ha
      rcases asContainer_cases ((c.parts[i]?).getD .null) with ⟨d, hpart, hd⟩ | ⟨-, hd⟩
      · rw [hd] at ha hblocked
        obtain ⟨rfl, hwalk⟩ := ih hblocked ha
        have hparts : c.parts[i]? = some d.toValue := by
          cases hi : c.parts[i]? with
          | none =>
            rw [hi] at hpart
            cases d <;> cases hpart
          | some u =>
            rw [hi] at hpart
            exact congrArg some hpart
        refine ⟨by rw [Container.put_eq_self htarget hparts], ?_⟩
        rw [walk_cons, child_toValue, htarget]
        simp only [Outcome.ok_bind, hparts, Option.getD_some, Outcome.pure_eq_ok]
        exact hwalk
      · rw [hd] at hblocked
        exact absurd hblocked (not_isBlocked_empty _)

theorem walk_of_not_isBlocked (hblocked : ¬c.toValue.IsBlocked segs) (hsegs : segs ≠ [])
    (h : c.toValue.assignAt new segs = .ok v') : v'.walk segs = .ok new := by
  induction segs generalizing c v' with
  | nil => exact absurd rfl hsegs
  | cons segment rest ih =>
    obtain ⟨htarget, -⟩ | ⟨i, a, htarget, ha, rfl⟩ := assignAt_cons_cases h
    · refine absurd (isBlocked_cons.mpr (.inl fun i hi => ?_)) hblocked
      cases htarget.symm.trans hi
    · rw [isBlocked_cons_of_target htarget] at hblocked
      rw [walk_cons, child_toValue, Container.target?_put htarget]
      simp only [Outcome.ok_bind, Container.getElem?_parts_put (Container.target?_le htarget), if_pos,
        Option.getD_some, Outcome.pure_eq_ok]
      cases rest with
      | nil => exact ha.symm
      | cons s rest =>
        obtain ⟨d, hd⟩ := exists_asContainer ((c.parts[i]?).getD .null)
        rw [assignIn_cons, hd] at ha
        exact ih (hd ▸ hblocked) (List.cons_ne_nil s rest) ha

/-! ## Writes at one path -/

theorem assignAt_assignAt (h : c.toValue.assignAt new segs = .ok v') (w : Value) :
    v'.assignAt w segs = c.toValue.assignAt w segs := by
  induction segs generalizing c v' with
  | nil =>
    obtain rfl := Except.ok.inj h
    rfl
  | cons segment rest ih =>
    obtain ⟨-, rfl⟩ | ⟨i, a, htarget, ha, rfl⟩ := assignAt_cons_cases h
    · rfl
    · have hle := Container.target?_le htarget
      have hin : assignIn a w rest = assignIn ((c.parts[i]?).getD .null) w rest := by
        cases rest with
        | nil => rfl
        | cons s rest =>
          obtain ⟨d, hd⟩ := exists_asContainer ((c.parts[i]?).getD .null)
          rw [assignIn_cons, hd] at ha
          obtain ⟨d', rfl⟩ := exists_toValue_of_assignAt ha
          rw [assignIn_cons, assignIn_cons, hd, asContainer_toValue]
          exact ih ha
      rw [assignAt_of_target (Container.target?_put htarget a), assignAt_of_target htarget,
        Container.getElem?_parts_put hle, if_pos rfl, Option.getD_some, hin]
      simp only [Container.put_put hle]

/-- A write in a record changes nothing if its path is blocked, and is read back at the path otherwise. Of two
writes at one path the later counts. What is read at paths that diverge from the written one stays as it was:
at some place both have a segment, and the two are not the same nor digits of one number. A write of what is
read changes nothing. -/
theorem find_assign_laws {entries : Entries} {path : String} (hpath : Path.segments path ≠ []) (v w : Value) :
    (∀ r, (object entries).assign path v = .ok r →
      ((object entries).IsBlocked (Path.segments path) → r = object entries) ∧
      (¬(object entries).IsBlocked (Path.segments path) → r.find path = .ok v) ∧
      r.assign path w = (object entries).assign path w ∧
      ∀ other, Path.Diverge (Path.segments path) (Path.segments other) →
        r.find other = (object entries).find other) ∧
    ∀ x, (object entries).find path = .ok x → x.isNull = false →
      (object entries).assign path x = .ok (object entries) := by
  refine ⟨fun r h => ⟨fun hblocked => ?_, fun hblocked => ?_, ?_, fun other hdiverge => ?_⟩, fun x h hx => ?_⟩
  · exact (eq_of_isBlocked (c := .object entries) hblocked h).1
  · rw [find_eq_walk hpath]
    exact walk_of_not_isBlocked (c := .object entries) hblocked hpath h
  · exact assignAt_assignAt (c := .object entries) h w
  · exact find_assign_of_diverge (c := .object entries) hdiverge h
  · exact assign_of_find h hx

/-- A record with a list of items, one of them an object. -/
def stock : Entries := [("items", .list [.text "pen", .object [("sku", .text "A")]]), ("name", .text "Ada")]

/-- Items are written by their position, however it is spelled, and a list takes no other segment. -/
theorem find_assign_laws_stock :
    Path.segments "items[01].sku" ≠ [] ∧ Path.segments "items.total.sum" ≠ [] ∧
    Path.Diverge (Path.segments "items[01].sku") (Path.segments "items.0") ∧
    (object stock).IsBlocked (Path.segments "items.total.sum") ∧
    (∃ r, (object stock).assign "items[01].sku" (.text "B") = .ok r ∧ r.find "items[01].sku" = .ok (.text "B") ∧
      r.assign "items[01].sku" (.text "C") = (object stock).assign "items[01].sku" (.text "C") ∧
      r.find "items.0" = (object stock).find "items.0") ∧
    (∃ r, (object stock).assign "items.total.sum" (.int 2) = .ok r ∧ r = object stock) ∧
    ∃ x, (object stock).find "name" = .ok x ∧ (object stock).assign "name" x = .ok (object stock) := by
  have hitem : Path.segments "items[01].sku" ≠ [] := by decide
  have htotal : Path.segments "items.total.sum" ≠ [] := by decide
  have hdiverge : Path.Diverge (Path.segments "items[01].sku") (Path.segments "items.0") := by decide
  have hblocked : (object stock).IsBlocked (Path.segments "items.total.sum") := by
    refine ⟨["items"], "total", ["sum"], _, by decide, rfl, ?_⟩
    decide
  have hwrite : ∃ r, (object stock).assign "items[01].sku" (.text "B") = .ok r ∧
      (r.find "items[01].sku").toOption.bind text? = some "B" := by decide
  have hrefuse : ∃ r, (object stock).assign "items.total.sum" (.int 2) = .ok r ∧ True := by decide
  have hname : ∃ x, (object stock).find "name" = .ok x ∧ x.isNull = false := by decide
  obtain ⟨r, hr, hread⟩ := hwrite
  obtain ⟨r', hr', -⟩ := hrefuse
  obtain ⟨x, hx, hnull⟩ := hname
  obtain ⟨hsame, hback, hlater, hbeside⟩ := (find_assign_laws hitem (.text "B") (.text "C")).1 r hr
  have hfree : ¬(object stock).IsBlocked (Path.segments "items[01].sku") := by
    intro h
    rw [hsame h] at hread
    exact absurd hread (by decide)
  refine ⟨hitem, htotal, hdiverge, hblocked, ⟨r, hr, hback hfree, hlater, hbeside _ hdiverge⟩, ⟨r', hr', ?_⟩, x, hx,
    ?_⟩
  · exact ((find_assign_laws htotal (.int 2) .null).1 r' hr').1 hblocked
  · exact (find_assign_laws (by decide) .null .null).2 x hx hnull

end Value

end Pagewright
