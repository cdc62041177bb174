import Pagewright.Proofs.Record.Encounter
import Pagewright.Record.Display

/-!
# Paths and records that cannot fail

Where a record is read or written, only the segments of the path can go wrong: one made of digits must
have a position. A path without such a segment is readable, whatever the record
(`Value.returns_find`, `Value.returns_assign`).

Where a value is shown, only dates inside objects can go wrong. Records of documents have none: what is
read in a document is one (`Value.isDocument_of_find`), and so is what is written
(`Value.isDocument_of_assign`).
-/

namespace Pagewright

/-- A path whose segments have positions wherever they are made of digits. -/
def Path.IsReadable (path : String) : Prop :=
  ∀ segment ∈ Path.segments path, Outcome.Returns (Path.index? segment)

instance (path : String) : Decidable (Path.IsReadable path) :=
  inferInstanceAs (Decidable (∀ segment ∈ Path.segments path, Outcome.Returns (Path.index? segment)))

namespace Value

variable {c : Container Value} {v u new : Value} {segment path : String} {segs : List String}

/-! ## Reading and writing -/

theorem not_isStuck_of_isReadable (h : Path.IsReadable path) (v : Value) : ¬ v.IsStuck (Path.segments path) := by
  rintro ⟨before, segment, after, items, hsegs, -, hillegible⟩
  have hmem : segment ∈ Path.segments path := by
    rw [hsegs]
    exact List.mem_append_right before List.mem_cons_self
  exact Path.not_returns_index?_iff.mpr hillegible (h segment hmem)

theorem returns_find (h : Path.IsReadable path) (v : Value) : Outcome.Returns (v.find path) :=
  (returns_find_iff v path).mpr (not_isStuck_of_isReadable h v)

theorem returns_assign (h : Path.IsReadable path) (c : Container Value) (new : Value) :
    Outcome.Returns (c.toValue.assign path new) :=
  (returns_assign_iff c path new).mpr (not_isStuck_of_isReadable h c.toValue)

/-! ## Documents -/

theorem areDocuments_iff (items : List Value) :
    Json.areDocuments items = true ↔ ∀ v ∈ items, Json.isDocument v = true := by
  induction items with
  | nil => simp [Json.areDocuments]
  | cons v rest ih => simp [Json.areDocuments, ih]

theorem haveDocuments_iff (entries : Entries) :
    Json.haveDocuments entries = true ↔ ∀ e ∈ entries, Json.isDocument e.2 = true := by
  induction entries with
  | nil => simp [Json.haveDocuments]
  | cons e rest ih => simp [Json.haveDocuments, ih]

theorem isDocument_toValue (c : Container Value) :
    Json.isDocument c.toValue = true ↔ ∀ v ∈ c.parts, Json.isDocument v = true := by
  cases c with
  | list items => exact areDocuments_iff items
  | object entries =>
    rw [Container.toValue, Json.isDocument, haveDocuments_iff, Container.parts, List.forall_mem_map]

theorem isDocument_getD {items : List Value} (h : ∀ v ∈ items, Json.isDocument v = true) (i : ℕ) :
    Json.isDocument ((items[i]?).getD .null) = true := by
  cases hi : items[i]? with
  | none => rfl
  | some v => exact h v (List.mem_of_getElem? hi)

theorem isDocument_of_child (hv : Json.isDocument v = true) (h : v.child segment = .ok u) :
    Json.isDocument u = true := by
  cases hcontainer : v.isContainer with
  | true =>
    obtain ⟨c, rfl⟩ := exists_toValue hcontainer
    rw [child_toValue] at h
    obtain ⟨i, -, h⟩ := Outcome.bind_eq_ok.mp h
    cases i with
    | none => exact Except.ok.inj h ▸ rfl
    | some i => exact Except.ok.inj h ▸ isDocument_getD ((isDocument_toValue c).mp hv) i
  | false =>
    rw [child_of_not_isContainer hcontainer] at h
    exact Except.ok.inj h ▸ rfl

theorem isDocument_get {entries : Entries} (h : Json.isDocument (.object entries) = true) (key : String) :
    Json.isDocument (Entries.get entries key) = true := by
  have hchild : (Value.object entries).child key = .ok (Entries.get entries key) := rfl
  exact isDocument_of_child h hchild

theorem isDocument_of_walk (hv : Json.isDocument v = true) (h : v.walk segs = .ok u) :
    Json.isDocument u = true := by
  induction segs generalizing v with
  | nil => exact Except.ok.inj h ▸ hv
  | cons segment rest ih =>
    unfold walk at h
    split at h
    · exact Except.ok.inj h ▸ rfl
    · obtain ⟨w, hw, h⟩ := Outcome.bind_eq_ok.mp h
      exact ih (isDocument_of_child hv hw) h

theorem isDocument_of_find (hv : Json.isDocument v = true) (h : v.find path = .ok u) :
    Json.isDocument u = true := by
  unfold find at h
  split at h
  · exact Except.ok.inj h ▸ rfl
  · exact isDocument_of_walk hv h

theorem isDocument_asContainer (hv : Json.isDocument v = true) : Json.isDocument v.asContainer = true := by
  unfold asContainer
  split
  · exact hv
  · rfl

theorem isDocument_of_assignAt (hc : Json.isDocument c.toValue = true) (hnew : Json.isDocument new = true)
    (h : c.toValue.assignAt new segs = .ok v) : Json.isDocument v = true := by
  induction segs generalizing c v with
  | nil => exact Except.ok.inj h ▸ hc
  | cons segment rest ih =>
    obtain ⟨-, rfl⟩ | ⟨i, a, -, ha, rfl⟩ := assignAt_cons_cases h
    · exact hc
    · have hparts := (isDocument_toValue c).mp hc
      have hpart : Json.isDocument a = true := by
        cases rest with
        | nil => exact Except.ok.inj ha ▸ hnew
        | cons s rest =>
          obtain ⟨d, hd⟩ := exists_asContainer ((c.parts[i]?).getD .null)
          rw [assignIn_cons, hd] at ha
          exact ih (hd ▸ isDocument_asContainer (isDocument_getD hparts i)) ha
      refine (isDocument_toValue _).mpr fun w hw => ?_
      rcases Container.mem_parts_put hw with rfl | hw
      · exact hpart
      · exact hparts w hw

theorem isDocument_of_assign (hc : Json.isDocument c.toValue = true) (hnew : Json.isDocument new = true)
    (h : c.toValue.assign path new = .ok v) : Json.isDocument v = true :=
  isDocument_of_assignAt hc hnew h

mutual

theorem returns_shown (v : Value) (hv : Json.isDocument v = true) : Outcome.Returns v.shown := by
  cases v with
  | list items =>
    rw [shown]
    exact (returns_shownItems items hv).bind fun _ _ => Outcome.returns_pure _
  | object entries =>
    rw [shown, if_pos hv]
    exact Outcome.returns_ok _
  | _ => exact Outcome.returns_ok _

theorem returns_shownItems (items : List Value) (h : Json.areDocuments items = true) :
    Outcome.Returns (shownItems items) := by
  cases items with
  | nil => exact Outcome.returns_ok _
  | cons v rest =>
    rw [Json.areDocuments, Bool.and_eq_true] at h
    rw [shownItems]
    exact (returns_shown v h.1).bind fun _ _ =>
      (returns_shownItems rest h.2).bind fun _ _ => Outcome.returns_pure _

end

end Value

end Pagewright
