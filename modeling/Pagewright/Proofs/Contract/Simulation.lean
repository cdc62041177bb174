import Pagewright.Json.Writer
import Pagewright.Proofs.Contract.Plain
import Pagewright.Proofs.Record.Linked

/-!
# Contracts over shared parts

The workspace of a contract and the trees of `Contract.Plain` go in step as long as the plain steps are
quiet (`Contract.Stands.step_rel`). The first step that is not quiet shows: what is then read off the
workspace is not what the trees say.
-/

namespace Pagewright

/-! ## Transforms -/

/-- A transform makes a value without parts, and one that can stand in a document. -/
theorem Transform.leaf_of_run {t : Transform} {v w : Value} {options : TransformOptions}
    {settings : Entries} (h : t.run v options settings = .changed w) :
    w.isContainer = false ∧ Json.isDocument w = true := by
  have hrun : t.run? v options settings = .ok (.changed w) := by
    unfold Transform.run at h
    split at h
    · rw [← h]
      assumption
    · simp at h
  clear h
  cases t with
  | trim =>
    simp only [run?] at hrun
    split at hrun <;> simp only [Except.ok.injEq, Transformed.changed.injEq, reduceCtorEq] at hrun
    exact hrun ▸ ⟨rfl, rfl⟩
  | uppercase | lowercase | titlecase =>
    simp only [run?, Except.ok.injEq, Transformed.changed.injEq] at hrun
    exact hrun ▸ ⟨rfl, rfl⟩
  | number =>
    obtain ⟨x, -, hrun⟩ := Outcome.bind_eq_ok.mp hrun
    cases x with
    | none => simp at hrun
    | some x =>
      simp only [Outcome.pure_eq_ok, Except.ok.injEq, Transformed.changed.injEq] at hrun
      rw [← hrun, plainNumber]
      split <;> exact ⟨rfl, rfl⟩
  | boolean =>
    simp only [run?] at hrun
    split at hrun <;> simp only [Except.ok.injEq, Transformed.changed.injEq, reduceCtorEq] at hrun
    exact hrun ▸ ⟨rfl, rfl⟩
  | date =>
    simp only [run?, runDate] at hrun
    split at hrun
    · simp at hrun
    · split at hrun
      · simp at hrun
      · obtain ⟨locale, -, hrun⟩ := Outcome.bind_eq_ok.mp hrun
        simp only [Outcome.pure_eq_ok, Except.ok.injEq, Transformed.changed.injEq] at hrun
        exact hrun ▸ ⟨rfl, rfl⟩
  | currency =>
    obtain ⟨x, -, hrun⟩ := Outcome.bind_eq_ok.mp hrun
    cases x with
    | none => simp at hrun
    | some x =>
      obtain ⟨locale, -, hrun⟩ := Outcome.bind_eq_ok.mp hrun
      obtain ⟨amount, -, hrun⟩ := Outcome.bind_eq_ok.mp hrun
      simp only [Outcome.pure_eq_ok, Except.ok.injEq, Transformed.changed.injEq] at hrun
      exact hrun ▸ ⟨rfl, rfl⟩

namespace Contract

theorem leaf_of_apply {f : ContractField} {v w : Value} {settings : Entries}
    (h : f.apply v settings = .ok (.changed w)) : w.isContainer = false ∧ Json.isDocument w = true := by
  obtain ⟨t, -, h⟩ := Outcome.bind_eq_ok.mp h
  cases t with
  | none => simp at h
  | some t => exact Transform.leaf_of_run (Except.ok.inj h)

/-- A transform sees the tree that a slot stands for. -/
theorem transform_eq {h : Heap} {s : Slot} {v : Value} (hv : Represents h s v) (f : ContractField)
    (settings : Entries) : Workspace.transform h f s settings = f.apply v settings := by
  unfold Workspace.transform ContractField.apply
  cases f.transform? with
  | error e => rfl
  | ok t =>
    cases t with
    | none => rfl
    | some t => simp [hv.toValue_eq]

/-! ## Steps -/

/-- A workspace stands for a payload and a record. -/
structure Stands (payload : Value) (G : Sharing) (w : Workspace) (record : Value) : Prop where
  heap : G.heap = w.heap
  linked : Linked G w.record record
  payload_in : w.payload.In G.shared
  payload : Represents G.heap w.payload payload

/-- A step stands for a report. -/
structure Told (G : Sharing) (s : Step) (r : FieldReport) : Prop where
  written_in : s.written.In G.shared
  represents : Represents G.heap s.written r.value
  report : r = Plain.report s.field s.usedDefault s.missing s.problem r.value

/-- A step has led from what stands for a record to what stands for another. -/
structure Follows (payload : Value) (G G' : Sharing) (w : Workspace) (s : Step) (record : Value)
    (r : FieldReport) : Prop where
  stands : Stands payload G' w record
  leads : G.Leads G'
  told : Told G' s r
  held : G'.held = Plain.heldBy G.held record r
  wrote : ∀ (y : ℕ) (v : Value), (y, v) ∈ G'.wrote →
    (y, v) ∈ G.wrote ∨ (s.written = .node y ∧ v = r.value)

/-- What a step on the workspace has in common with the plain step. If that is quiet, the workspace stands
for what it gives; if not, the difference can be read off the workspace. -/
inductive InStep (payload : Value) (G : Sharing) (w w' : Workspace) (s : Step) (record record' : Value)
    (r : FieldReport) (path : String) : Prop where
  | quiet (hquiet : Quiet G.held record record' path) {G' : Sharing}
      (hfollows : Follows payload G G' w' s record' r)
  | disturbed (hnot : ¬Quiet G.held record record' path) (hrecord : w'.record = w.record)
      (hdisturbed : Linked.Disturbed G w.record record' w'.heap)

theorem InStep.of_leads {payload record record' : Value} {G G₁ : Sharing} {w w₁ w' : Workspace} {s : Step}
    {r : FieldReport} {path : String} (h : InStep payload G₁ w₁ w' s record record' r path)
    (hrecord : w₁.record = w.record) (hleads : G.Leads G₁) (hheld : G₁.held = G.held)
    (hwrote : G₁.wrote = G.wrote) : InStep payload G w w' s record record' r path := by
  cases h with
  | quiet hquiet h =>
    exact .quiet (hheld ▸ hquiet)
      ⟨h.stands, hleads.trans h.leads, h.told, hheld ▸ h.held, hwrote ▸ h.wrote⟩
  | disturbed hnot hrecord' h =>
    obtain ⟨y, v, hy, hne⟩ := h
    exact .disturbed (hheld ▸ hnot) (hrecord'.trans hrecord) ⟨y, v, hwrote ▸ hy, hrecord ▸ hne⟩

theorem Told.leads {G G' : Sharing} {s : Step} {r : FieldReport} (ht : Told G s r) (hl : G.Leads G') :
    Told G' s r :=
  have ⟨hin, hv⟩ := hl.represents _ _ ht.written_in ht.represents
  ⟨hin, hv, ht.report⟩

theorem Told.report_eq {G : Sharing} {s : Step} {r : FieldReport} (ht : Told G s r) :
    s.report G.heap = .ok r := by
  have hreport := ht.report
  rw [Step.report, ht.represents.toValue_eq, hreport]
  rfl

namespace Stands

variable {settings : Entries} {payload record : Value} {G : Sharing} {w : Workspace}

/-- A field reads what is shared, or what the record has at the field's own path. -/
theorem source_rel (hs : Stands payload G w record) (f : ContractField) :
    Outcome.Rel (fun s v => Represents G.heap s v ∧ (s.In G.shared ∨
        (record.find f.path = .ok v ∧ G.heap.find (.node w.record) f.path = .ok s)))
      (w.source f) (Plain.source payload record f) := by
  have hrecord : Outcome.Rel (fun s v => Represents G.heap s v ∧ (s.In G.shared ∨
        (record.find f.path = .ok v ∧ G.heap.find (.node w.record) f.path = .ok s)))
      (w.findRecord f.path) (record.find f.path) := by
    rw [Workspace.findRecord, ← hs.heap]
    refine (hs.linked.placed.represents.find f.path).with_eq.imp fun s v h => ?_
    obtain ⟨hv, hfind, hfind'⟩ := h
    exact ⟨hv, .inr ⟨hfind', hfind⟩⟩
  have hpayload : Outcome.Rel (fun s v => Represents G.heap s v ∧ s.In G.shared)
      (w.findPayload f.payloadPath) (Plain.findPayload payload f.payloadPath) := by
    cases f.payloadPath with
    | text path =>
      rw [Workspace.findPayload, Plain.findPayload, ← hs.heap]
      refine (hs.payload.find path).with_eq.imp fun s v h => ?_
      obtain ⟨hv, hfind, -⟩ := h
      exact ⟨hv, hs.linked.closed.find_in hs.payload_in hfind⟩
    | _ => exact .error _
  unfold Workspace.source Plain.source
  split
  · refine hpayload.bind fun s v h => ?_
    obtain ⟨hv, hin⟩ := h
    rw [hv.isPresent_eq]
    split
    · exact .ok ⟨hv, .inl hin⟩
    · exact hrecord
  · exact hrecord

theorem resolve_rel (hs : Stands payload G w record) (f : ContractField) :
    Outcome.Rel (fun a b => a.2.1 = b.2 ∧ ∃ G₁, Stands payload G₁ { w with heap := a.2.2 } record ∧
        G.Leads G₁ ∧ G₁.held = G.held ∧ G₁.wrote = G.wrote ∧ Represents G₁.heap a.1 b.1 ∧
        (a.1.In G₁.shared ∨
          (record.find f.path = .ok b.1 ∧ G₁.heap.find (.node w.record) f.path = .ok a.1)))
      (w.resolve f) (Plain.resolve payload record f) := by
  refine (hs.source_rel f).bind fun s v ⟨hv, hsource⟩ => ?_
  rw [hv.isPresent_eq]
  split
  · have hdefault : Heap.Inserted G.heap (w.heap.insert f.defaultValue).1
        (w.heap.insert f.defaultValue).2 f.defaultValue := by
      rw [hs.heap]
      exact Heap.inserted_insert w.heap f.defaultValue
    obtain ⟨G₁, hheap, hlinked, hleads, hin, hheld, hwrote⟩ := hs.linked.grow hdefault
    obtain ⟨hpayload_in, hpayload⟩ := hleads.represents _ _ hs.payload_in hs.payload
    refine .ok ⟨rfl, G₁, ⟨hheap, hlinked, hpayload_in, hpayload⟩, hleads, hheld, hwrote, ?_, .inl hin⟩
    rw [hheap]
    exact hdefault.represents
  · exact .ok ⟨rfl, G, hs, .refl G, rfl, rfl, hv, hsource⟩

/-- A write on the workspace goes in step with the one in the tree. -/
theorem write_rel (hs : Stands payload G w record) (f : ContractField) (usedDefault : Bool)
    (problem : String) {new : Slot} {u : Value} (hu : Represents G.heap new u)
    (hpresent : u.isPresent = true)
    (hsource : new.In G.shared ∨
      (record.find f.path = .ok u ∧ G.heap.find (.node w.record) f.path = .ok new)) :
    Outcome.Rel (fun h' record' => InStep payload G w { w with heap := h' }
        ⟨f, usedDefault, false, problem, new⟩ record record'
        (Plain.report f usedDefault false problem u) f.path)
      (G.heap.assign w.record f.path new) (record.assign f.path u) := by
  have hassign : Outcome.Rel (fun _ _ => True) (G.heap.assign w.record f.path new)
      (record.assign f.path u) := by
    unfold Heap.assign Value.assign
    by_cases hsegs : Path.segments f.path = []
    · rw [hsegs]
      exact .ok trivial
    · exact (hs.linked.placed.represents.assignAt new u hsegs).imp fun _ _ _ => trivial
  refine hassign.with_eq.imp fun h' record' ⟨_, hheap, hrecord⟩ => ?_
  rcases hs.linked.write hu hpresent hsource hrecord hheap with
    ⟨hquiet, G', rfl, hkept⟩ | ⟨hnot, hdisturbed⟩
  · obtain ⟨hpayload_in, hpayload⟩ := hkept.leads.represents _ _ hs.payload_in hs.payload
    refine .quiet hquiet ⟨⟨rfl, hkept.linked, hpayload_in, hpayload⟩, hkept.leads,
      ⟨hkept.new_in, hkept.represents, rfl⟩, ?_, hkept.wrote⟩
    rw [hkept.held, Plain.heldBy]
    exact (if_pos hpresent).symm
  · exact .disturbed hnot rfl hdisturbed

/-- A step on the workspace fails as the plain step does, and goes in step with it. -/
theorem step_rel (hs : Stands payload G w record) (f : ContractField) :
    Outcome.Rel (fun a b => InStep payload G w a.1 a.2 record b.1 b.2 f.path) (w.step settings f)
      (Plain.step settings payload record f) := by
  refine (hs.resolve_rel f).bind ?_
  rintro ⟨s, usedDefault, h⟩ ⟨v, usedDefault'⟩ ⟨rfl, G₁, hs₁, hleads, hheld, hwrote, hv, hsource⟩
  obtain rfl : G₁.heap = h := hs₁.heap
  have hsilent (missing : Bool) (problem : String) :
      InStep payload G w { w with heap := G₁.heap } ⟨f, usedDefault, missing, problem, .null⟩
        record record (Plain.report f usedDefault missing problem .null) f.path := by
    refine .quiet (Quiet.refl _ _ _)
      ⟨hs₁, hleads, ⟨trivial, .null, rfl⟩, ?_, fun y u hy => .inl (hwrote ▸ hy)⟩
    simp [hheld, Plain.heldBy, Plain.report, Value.isPresent]
  have hfinish (new : Slot) (u : Value) (problem : String) (hu : Represents G₁.heap new u)
      (hsource : new.In G₁.shared ∨
        (record.find f.path = .ok u ∧ G₁.heap.find (.node w.record) f.path = .ok new)) :
      Outcome.Rel (fun a b => InStep payload G w a.1 a.2 record b.1 b.2 f.path)
        (if new.isPresent then do
          let heap ← G₁.heap.assign w.record f.path new
          return ({ w with heap := heap },
            { field := f, usedDefault := usedDefault, problem := problem, written := new })
        else return ({ w with heap := G₁.heap },
          { field := f, usedDefault := usedDefault, problem := problem }))
        (if u.isPresent then do
          return (← record.assign f.path u, Plain.report f usedDefault false problem u)
        else return (record, Plain.report f usedDefault false problem .null)) := by
    rw [hu.isPresent_eq]
    split
    · refine (hs₁.write_rel f usedDefault problem hu (by assumption) hsource).bind fun h' record' h => ?_
      exact .ok (h.of_leads rfl hleads hheld hwrote)
    · exact .ok (hsilent false problem)
  simp only [hv.isPresent_eq]
  split
  · exact .ok (hsilent true "")
  · rw [transform_eq hv]
    refine (Outcome.Rel.refl _).with_eq.bind ?_
    rintro result _ ⟨rfl, hresult, -⟩
    cases result with
    | changed u => exact hfinish _ u "" (.leaf ((leaf_of_apply hresult).1)) (.inl trivial)
    | kept => exact hfinish s v "" hv hsource
    | failed problem => exact hfinish s v problem hv hsource

end Stands

end Contract

end Pagewright
