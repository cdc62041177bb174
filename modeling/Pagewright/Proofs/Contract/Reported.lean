import Pagewright.Proofs.Contract.Apart
import Pagewright.Proofs.Contract.Simulation
import Pagewright.Proofs.Record.Written

/-!
# What is reported as written

A field reports the value that it handed over for its path, whether or not the record took it. So a reported
value is read at the field's path just when the record does not refuse the path (`Contract.findRecord_of_run`);
a refused value leaves the record as it was, like a field that reports nothing.
-/

namespace Pagewright

/-- Whether a record takes no value at a path: the path has no segments, or comes to a list that has no
position for the next one. -/
def Value.Refuses (record : Value) (path : String) : Prop :=
  Path.segments path = [] ∨ record.IsBlocked (Path.segments path)

theorem Slot.isNull_of_isPresent {s : Slot} (h : s.isPresent = true) : s.isNull = false := by
  cases s with
  | leaf v =>
    cases v with
    | null => cases h
    | _ => rfl
  | node => rfl

namespace Contract

namespace Workspace

variable {settings : Entries} {w w' : Workspace} {f : ContractField} {found : Slot} {usedDefault : Bool}
variable {heap : Heap} {s : Step} {contract : Contract} {steps : List Step}

/-- The heap and the payload of a workspace are flat. -/
structure IsFlat (w : Workspace) : Prop where
  heap : w.heap.IsFlat
  payload : w.payload.IsFlat

theorem isFlat_ofPayload (payload : Entries) : (ofPayload payload).IsFlat := by
  obtain ⟨hfirst, hslot⟩ := Heap.IsFlat.empty.insert (.object payload)
  exact ⟨(hfirst.insert (.object payload)).1, hslot⟩

theorem IsFlat.source (hw : w.IsFlat) (h : w.source f = .ok found) : found.IsFlat := by
  have hrecord {t : Slot} (ht : w.findRecord f.path = .ok t) : t.IsFlat := hw.heap.find (Slot.isFlat_node _) ht
  unfold Workspace.source at h
  split at h
  · obtain ⟨t, ht, h⟩ := Outcome.bind_eq_ok.mp h
    split at h
    · obtain rfl := Except.ok.inj h
      unfold findPayload at ht
      split at ht
      · exact hw.heap.find hw.payload ht
      · simp [undefinedOn] at ht
    · exact hrecord h
  · exact hrecord h

theorem IsFlat.resolve (hw : w.IsFlat) (h : w.resolve f = .ok (found, usedDefault, heap)) :
    heap.IsFlat ∧ found.IsFlat ∧ w.heap.Grows heap := by
  obtain ⟨t, ht, h⟩ := Outcome.bind_eq_ok.mp h
  split at h
  · simp only [Outcome.pure_eq_ok, Except.ok.injEq, Prod.mk.injEq] at h
    obtain ⟨rfl, -, rfl⟩ := h
    obtain ⟨hheap, hslot⟩ := hw.heap.insert f.defaultValue
    exact ⟨hheap, hslot, (Heap.inserted_insert w.heap f.defaultValue).grows⟩
  · simp only [Outcome.pure_eq_ok, Except.ok.injEq, Prod.mk.injEq] at h
    obtain ⟨rfl, -, rfl⟩ := h
    exact ⟨hw.heap, hw.source ht, .refl _⟩

/-- What a field does to a flat workspace: it reports nothing and the record stays as it is, or it hands over
a flat slot for its path, and reports it. -/
theorem IsFlat.step_cases (hw : w.IsFlat) (h : w.step settings f = .ok (w', s)) :
    ∃ heap : Heap, heap.IsFlat ∧ w.heap.Grows heap ∧
      ((s.written = .null ∧ w' = { w with heap := heap }) ∨
        ∃ heap' : Heap, s.written.isNull = false ∧ s.written.IsFlat ∧
          heap.assign w.record f.path s.written = .ok heap' ∧ w' = { w with heap := heap' }) := by
  obtain ⟨found, usedDefault, heap, hresolve, hstep⟩ := Workspace.step_cases h
  obtain ⟨hheap, hfound, hgrows⟩ := hw.resolve hresolve
  refine ⟨heap, hheap, hgrows, hstep.imp_right ?_⟩
  rintro ⟨heap', hpresent, hnew, hassign, rfl⟩
  refine ⟨heap', Slot.isNull_of_isPresent hpresent, ?_, hassign, rfl⟩
  rcases hnew with hnew | ⟨v, hnew, hv⟩
  · rwa [hnew]
  · obtain ⟨t, -, hv⟩ := Outcome.bind_eq_ok.mp hv
    cases t with
    | none => simp at hv
    | some t =>
      obtain ⟨u, -, hv⟩ := Outcome.bind_eq_ok.mp hv
      rw [hnew]
      exact (Transform.leaf_of_run (Except.ok.inj hv)).1

theorem IsFlat.step (hw : w.IsFlat) (h : w.step settings f = .ok (w', s)) : w'.IsFlat := by
  obtain ⟨heap, hheap, -, ⟨-, rfl⟩ | ⟨heap', -, hwritten, hassign, rfl⟩⟩ := hw.step_cases h
  · exact ⟨hheap, hw.payload⟩
  · exact ⟨hheap.assignAt hwritten hassign, hw.payload⟩

theorem IsFlat.run (hw : w.IsFlat) (h : w.run settings contract = .ok (w', steps)) : w'.IsFlat := by
  induction contract generalizing w steps with
  | nil =>
    obtain ⟨rfl, -⟩ := Prod.mk.inj (Except.ok.inj h)
    exact hw
  | cons f rest ih =>
    obtain ⟨⟨w₁, s⟩, hstep, h⟩ := Outcome.bind_eq_ok.mp h
    obtain ⟨⟨w₂, steps⟩, hrun, h⟩ := Outcome.bind_eq_ok.mp h
    obtain ⟨rfl, -⟩ := Prod.mk.inj (Except.ok.inj h)
    exact ih (hw.step hstep) hrun

/-- What is reported is read at the field's path just when the record does not refuse the path. -/
theorem IsFlat.findRecord_step (hw : w.IsFlat) {record : Value} (hdata : w.data = .ok record)
    (h : w.step settings f = .ok (w', s)) :
    (s.written.isNull = true ∨ record.Refuses f.path → w'.data = .ok record) ∧
      (s.written.isNull = false → (w'.findRecord f.path = .ok s.written ↔ ¬record.Refuses f.path)) := by
  obtain ⟨heap, hheap, hgrows, hstep⟩ := hw.step_cases h
  have hrep : Represents heap (.node w.record) record :=
    (hw.heap.represents (Slot.isFlat_node _) (Heap.toValueWithin_of_toValue hdata)).mono hgrows.keeps
  rcases hstep with ⟨hwritten, rfl⟩ | ⟨heap', hwritten, -, hassign, rfl⟩
  · rw [hwritten]
    exact ⟨fun _ => hrep.toValue_eq, fun hnull => absurd hnull (by decide)⟩
  · -- The record refuses the path, or what is written is read.
    have hcases : (record.Refuses f.path ∧ heap' = heap ∧ heap'.find (.node w.record) f.path = .ok .null) ∨
        (¬record.Refuses f.path ∧ heap'.find (.node w.record) f.path = .ok s.written) := by
      by_cases hsegs : Path.segments f.path = []
      · rw [Heap.assign, hsegs] at hassign
        exact .inl ⟨.inl hsegs, (Except.ok.inj hassign).symm, by simp [Heap.find, hsegs]⟩
      · rw [Heap.find_eq_walk hsegs]
        rcases hrep.assignAt_cases hsegs hassign with ⟨hblocked, rfl⟩ | ⟨hblocked, hread⟩
        · exact .inl ⟨.inr hblocked, rfl, hrep.walk_of_isBlocked hblocked hassign⟩
        · exact .inr ⟨fun hrefuses => hblocked (hrefuses.resolve_left hsegs), hread⟩
    rcases hcases with ⟨hrefuses, rfl, hread⟩ | ⟨hrefuses, hread⟩
    · refine ⟨fun _ => hrep.toValue_eq, fun _ => iff_of_false ?_ (not_not.mpr hrefuses)⟩
      intro hfind
      rw [findRecord, hread] at hfind
      rw [← Except.ok.inj hfind] at hwritten
      cases hwritten
    · exact ⟨fun h => (h.elim (fun h => by simp [h] at hwritten) hrefuses).elim,
        fun _ => iff_of_true hread hrefuses⟩

end Workspace

/-- Whatever fields come before it, a field that reports no value leaves the record as it is. A reported value
is read at the field's path right after the field, and is the same list or object if it is one, just when the
record that the field meets does not refuse the path. If it does, the record stays as it is. -/
theorem findRecord_of_run {settings payload : Entries} {contract : Contract} {last : Workspace}
    {steps : List Step} {n : ℕ} {f : ContractField}
    (hrun : (Workspace.ofPayload payload).run settings contract = .ok (last, steps))
    (hf : contract[n]? = some f) :
    ∃ (w w' : Workspace) (before : List Step) (s : Step),
      (Workspace.ofPayload payload).run settings (contract.take n) = .ok (w, before) ∧
      w.step settings f = .ok (w', s) ∧ steps[n]? = some s ∧
      (s.written.isNull = true → w'.record = w.record ∧ w.heap.Grows w'.heap) ∧
      ∀ record, w.data = .ok record →
        (s.written.isNull = true ∨ record.Refuses f.path → w'.data = .ok record) ∧
        (s.written.isNull = false → (w'.findRecord f.path = .ok s.written ↔ ¬record.Refuses f.path)) := by
  obtain ⟨w, w', before, s, hbefore, hstep, hs⟩ := Workspace.exists_step_of_run hf hrun
  have hw : w.IsFlat := (Workspace.isFlat_ofPayload payload).run hbefore
  refine ⟨w, w', before, s, hbefore, hstep, hs, fun hnull => ?_,
    fun record hdata => hw.findRecord_step hdata hstep⟩
  obtain ⟨heap, -, hgrows, ⟨-, rfl⟩ | ⟨_, hwritten, -⟩⟩ := hw.step_cases hstep
  · exact ⟨rfl, hgrows⟩
  · simp [hwritten] at hnull

/-- A contract that writes a name in capitals, and once more below a list. -/
def listContract : Contract :=
  [{ path := "name", transform := .text "uppercase" },
    { path := "items.total", externalPath := .text "name" }]

/-- A payload with a name and a list. -/
def listPayload : Entries := [("items", .list [.int 1]), ("name", .text "ada")]

/-- The list refuses the second name. -/
theorem findRecord_of_run_total :
    ∃ (last w w' : Workspace) (steps before : List Step) (f : ContractField) (s : Step) (record : Value),
      (Workspace.ofPayload listPayload).run [] listContract = .ok (last, steps) ∧
      listContract[1]? = some f ∧
      (Workspace.ofPayload listPayload).run [] (listContract.take 1) = .ok (w, before) ∧
      w.step [] f = .ok (w', s) ∧ w.data = .ok record ∧ record.Refuses f.path ∧ s.written.isNull = false ∧
      w'.data = .ok record ∧ w'.findRecord f.path ≠ .ok s.written := by
  have hrun : ∃ r, (Workspace.ofPayload listPayload).run [] listContract = .ok r ∧
      (r.2[1]?.map fun s => s.written.isNull) = some false := by decide +kernel
  have hbefore : ∀ r, (Workspace.ofPayload listPayload).run [] (listContract.take 1) = .ok r →
      ∃ record, r.1.data = .ok record ∧ ∃ v, record.walk ["items"] = .ok v ∧ v.list?.isSome := by
    decide +kernel
  obtain ⟨⟨last, steps⟩, hrun, hwritten⟩ := hrun
  obtain ⟨w, w', before, s, hfirst, hstep, hs, -, hread⟩ := findRecord_of_run (n := 1) hrun rfl
  obtain ⟨record, hdata, v, hwalk, hlist⟩ := hbefore _ hfirst
  obtain ⟨items, rfl⟩ : ∃ items, v = .list items := by
    cases v <;> simp_all [Value.list?]
  have hindex : Path.index? "total" = .ok none := by decide +kernel
  have hrefuses : record.Refuses "items.total" :=
    .inr ⟨["items"], "total", [], items, by decide +kernel, hwalk, by simp [hindex]⟩
  have hnull : s.written.isNull = false := by simpa [hs] using hwritten
  obtain ⟨hsame, hfind⟩ := hread record hdata
  exact ⟨last, w, w', steps, before, _, s, record, hrun, rfl, hfirst, hstep, hdata, hrefuses, hnull,
    hsame (.inr hrefuses), fun h => (hfind hnull).mp h hrefuses⟩

/-- The name is reported as written below the list, where nothing is read. -/
theorem not_find_evaluate_total : ¬∀ e r, evaluate listContract [] (.object listPayload) = .ok e →
    e.fields[1]? = some r → r.value.isNull = false → e.data.find "items.total" = .ok r.value := by
  have htold : ∃ e, evaluate listContract [] (.object listPayload) = .ok e ∧
      (e.fields[1]?.bind fun r => r.value.text?) = some "ada" ∧
      (e.data.find "items.total").toOption.map Value.isNull = some true := by decide +kernel
  intro h
  obtain ⟨e, he, hname, hread⟩ := htold
  obtain ⟨r, hr, hname⟩ := Option.bind_eq_some_iff.mp hname
  have hvalue : r.value.isNull = false := by
    cases hv : r.value <;> simp_all [Value.text?, Value.isNull]
  rw [h e r he hr hvalue] at hread
  simp [Except.toOption, hvalue] at hread

end Contract

end Pagewright
