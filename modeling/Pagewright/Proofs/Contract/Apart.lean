import Pagewright.Contract.Evaluation
import Pagewright.Proofs.Record.Beside

/-!
# Data that a contract does not touch

A path that diverges from the path of every field reads in the data what it reads in the payload that was
handed in (`Contract.find_of_diverge`). This holds whatever the fields read and write, and for records
that have come to share parts with the payload or with themselves, so it does not go by way of
`Contract.Plain`: no field writes what is own at another place than where it is.
-/

namespace Pagewright

namespace Contract

/-- A workspace whose record reads as `o` along some segments, by way of its own nodes, and whose payload
has none of them. -/
structure Keeps (w : Workspace) (segs : List String) (o : Outcome Value) (home : Homes) : Prop where
  homed : Homed w.heap home
  payload : w.payload.Foreign w.heap home
  shows : Shows w.heap home (.node w.record) segs o

/-- What a step does with the slot that its field gets: it leaves the record alone, or writes that slot or
what the transform made of it. -/
theorem Workspace.step_cases {settings : Entries} {w w' : Workspace} {f : ContractField} {t : Step}
    (h : w.step settings f = .ok (w', t)) :
    ∃ (found : Slot) (usedDefault : Bool) (heap : Heap), w.resolve f = .ok (found, usedDefault, heap) ∧
      ((t.written = .null ∧ w' = { w with heap := heap }) ∨ ∃ heap' : Heap, t.written.isPresent = true ∧
        (t.written = found ∨ ∃ v, t.written = .leaf v ∧ transform heap f found settings = .ok (.changed v)) ∧
        heap.assign w.record f.path t.written = .ok heap' ∧ w' = { w with heap := heap' }) := by
  obtain ⟨⟨found, usedDefault, heap⟩, hresolve, h⟩ := Outcome.bind_eq_ok.mp h
  refine ⟨found, usedDefault, heap, hresolve, ?_⟩
  dsimp only at h
  split at h
  · obtain ⟨rfl, rfl⟩ := Prod.mk.inj (Except.ok.inj h)
    exact .inl ⟨rfl, rfl⟩
  · obtain ⟨result, hresult, h⟩ := Outcome.bind_eq_ok.mp h
    have hfinish (new : Slot) (problem : String)
        (hnew : new = found ∨ ∃ v, new = .leaf v ∧ transform heap f found settings = .ok (.changed v))
        (h : (if new.isPresent then do
            let heap ← heap.assign w.record f.path new
            return ({ w with heap := heap },
              { field := f, usedDefault := usedDefault, problem := problem, written := new })
          else return ({ w with heap := heap },
            { field := f, usedDefault := usedDefault, problem := problem })) =
              (.ok (w', t) : Outcome (Workspace × Step))) :
        (t.written = .null ∧ w' = { w with heap := heap }) ∨ ∃ heap' : Heap, t.written.isPresent = true ∧
          (t.written = found ∨
            ∃ v, t.written = .leaf v ∧ transform heap f found settings = .ok (.changed v)) ∧
          heap.assign w.record f.path t.written = .ok heap' ∧ w' = { w with heap := heap' } := by
      split at h
      · obtain ⟨heap', hassign, h⟩ := Outcome.bind_eq_ok.mp h
        obtain ⟨rfl, rfl⟩ := Prod.mk.inj (Except.ok.inj h)
        exact .inr ⟨heap', by assumption, hnew, hassign, rfl⟩
      · obtain ⟨rfl, rfl⟩ := Prod.mk.inj (Except.ok.inj h)
        exact .inl ⟨rfl, rfl⟩
    cases result with
    | changed v => exact hfinish _ _ (.inr ⟨v, rfl, hresult⟩) h
    | kept | failed => exact hfinish _ _ (.inl rfl) h

/-- The field at a number is evaluated in the workspace that the fields before it have left. -/
theorem Workspace.exists_step_of_run {settings : Entries} {w w' : Workspace} {steps : List Step}
    {f : ContractField} {contract : Contract} {n : ℕ} (hf : contract[n]? = some f)
    (h : w.run settings contract = .ok (w', steps)) :
    ∃ (w₁ w₂ : Workspace) (steps₁ : List Step) (s : Step),
      w.run settings (contract.take n) = .ok (w₁, steps₁) ∧ w₁.step settings f = .ok (w₂, s) ∧
      steps[n]? = some s := by
  induction contract generalizing n w steps with
  | nil => simp at hf
  | cons g rest ih =>
    obtain ⟨⟨w₁, s⟩, hstep, h⟩ := Outcome.bind_eq_ok.mp h
    obtain ⟨⟨w₂, steps₂⟩, hrun, h⟩ := Outcome.bind_eq_ok.mp h
    obtain ⟨rfl, rfl⟩ := Prod.mk.inj (Except.ok.inj h)
    cases n with
    | zero =>
      obtain rfl := Option.some.inj hf
      exact ⟨w, w₁, [], s, rfl, hstep, rfl⟩
    | succ n =>
      obtain ⟨w₃, w₄, steps₃, s', hrun', hstep', hs'⟩ := ih (by simpa using hf) hrun
      refine ⟨w₃, w₄, s :: steps₃, s', ?_, hstep', by simpa using hs'⟩
      simp [Workspace.run, hstep, hrun']

namespace Keeps

variable {settings : Entries} {w w' : Workspace} {segs : List String} {o : Outcome Value} {home : Homes}
variable {f : ContractField} {found : Slot} {usedDefault : Bool} {heap : Heap} {s : Step}

theorem ofPayload (payload : Entries) (segs : List String) :
    ∃ home, Keeps (Workspace.ofPayload payload) segs ((Value.object payload).walk segs) home := by
  have hs := Heap.inserted_insert #[] (.object payload)
  have ht := Heap.inserted_insert (Heap.insert #[] (.object payload)).2 (.object payload)
  obtain ⟨home, hhomed, hpayload, hown⟩ := Homed.start hs ht
  exact ⟨home, hhomed, hpayload, .of_represents ht.represents hown segs⟩

theorem grow (hw : Keeps w segs o home) (hg : w.heap.Grows heap) :
    Keeps { w with heap := heap } segs o home where
  homed := hw.homed.grow hg
  payload := Slot.Foreign.mono hw.payload hg.size_le fun _ _ => rfl
  shows := hw.shows.grow hw.homed hg

/-- A field reads what is not own, or what the record has at the field's own path. -/
theorem source_cases (hw : Keeps w segs o home) (h : w.source f = .ok found) :
    found.Foreign w.heap home ∨ w.findRecord f.path = .ok found := by
  unfold Workspace.source at h
  split at h
  · obtain ⟨t, ht, h⟩ := Outcome.bind_eq_ok.mp h
    split at h
    · obtain rfl := Except.ok.inj h
      unfold Workspace.findPayload at ht
      split at ht
      · exact .inl (hw.homed.closed.find_in hw.payload ht)
      · simp [undefinedOn] at ht
    · exact .inr h
  · exact .inr h

theorem resolve (hw : Keeps w segs o home) (h : w.resolve f = .ok (found, usedDefault, heap)) :
    Keeps { w with heap := heap } segs o home ∧
      (found.Foreign heap home ∨ heap.find (.node w.record) f.path = .ok found) := by
  obtain ⟨t, ht, h⟩ := Outcome.bind_eq_ok.mp h
  split at h
  · have hdefault := Heap.inserted_insert w.heap f.defaultValue
    simp only [Outcome.pure_eq_ok, Except.ok.injEq, Prod.mk.injEq] at h
    obtain ⟨rfl, -, rfl⟩ := h
    exact ⟨hw.grow hdefault.grows, .inl (hdefault.isNew.foreign hw.homed)⟩
  · simp only [Outcome.pure_eq_ok, Except.ok.injEq, Prod.mk.injEq] at h
    obtain ⟨rfl, -, rfl⟩ := h
    exact ⟨hw, hw.source_cases ht⟩

/-- A write at a diverging path leaves alone what is read, if it writes what is not own, or an own node
where it is. -/
theorem write (hw : Keeps w segs o home) (hdiverge : Path.Diverge (Path.segments f.path) segs) {new : Slot}
    (hnew : new.Foreign w.heap home ∨ w.heap.find (.node w.record) f.path = .ok new)
    (hassign : w.heap.assign w.record f.path new = .ok heap) :
    ∃ home', Keeps { w with heap := heap } segs o home' := by
  by_cases hforeign : new.Foreign w.heap home
  · obtain ⟨home', hwrote⟩ := hw.homed.assignAt hforeign hassign
    exact ⟨home', hwrote.homed, Slot.Foreign.mono hw.payload hwrote.size_le hwrote.home_eq,
      hwrote.shows segs o hdiverge hw.shows⟩
  · have hfind := hnew.resolve_left hforeign
    cases new with
    | leaf => exact absurd trivial hforeign
    | node x =>
      have hsegs : Path.segments f.path ≠ [] := by
        intro hnil
        obtain ⟨_, _, _, h, -⟩ := hdiverge
        simp [hnil] at h
      rw [Heap.find_eq_walk hsegs] at hfind
      obtain rfl := Except.ok.inj (hassign.symm.trans (Heap.assignAt_of_walk hsegs hfind))
      exact ⟨home, hw⟩

theorem step (hw : Keeps w segs o home) (hdiverge : Path.Diverge (Path.segments f.path) segs)
    (h : w.step settings f = .ok (w', s)) : ∃ home', Keeps w' segs o home' := by
  obtain ⟨found, usedDefault, heap, hresolve, h⟩ := Workspace.step_cases h
  obtain ⟨hw₁, hfound⟩ := hw.resolve hresolve
  rcases h with ⟨-, rfl⟩ | ⟨heap', -, hnew | ⟨v, hnew, -⟩, hassign, rfl⟩
  · exact ⟨home, hw₁⟩
  · exact hw₁.write hdiverge (hnew ▸ hfound) hassign
  · refine hw₁.write hdiverge (.inl ?_) hassign
    rw [hnew]
    exact trivial

theorem run {contract : Contract} {steps : List Step} (hw : Keeps w segs o home)
    (hdiverge : ∀ f ∈ contract, Path.Diverge (Path.segments f.path) segs)
    (h : w.run settings contract = .ok (w', steps)) : ∃ home', Keeps w' segs o home' := by
  induction contract generalizing w home steps with
  | nil =>
    obtain ⟨rfl, -⟩ := Prod.mk.inj (Except.ok.inj h)
    exact ⟨home, hw⟩
  | cons f rest ih =>
    obtain ⟨⟨w₁, s⟩, hstep, h⟩ := Outcome.bind_eq_ok.mp h
    obtain ⟨⟨w₂, steps⟩, hrun, h⟩ := Outcome.bind_eq_ok.mp h
    obtain ⟨rfl, -⟩ := Prod.mk.inj (Except.ok.inj h)
    obtain ⟨home₁, hw₁⟩ := hw.step (hdiverge f List.mem_cons_self) hstep
    exact ih hw₁ (fun g hg => hdiverge g (List.mem_cons_of_mem f hg)) hrun

/-- The tree that the record's slot reads as is what it was. -/
theorem toValue_eq (hw : Keeps w segs o home) :
    (w.heap.walk (.node w.record) segs >>= w.heap.toValue) = o := by
  have hrel := hw.shows.walk_rel
  generalize w.heap.walk (.node w.record) segs = x at hrel
  cases hrel with
  | ok hv => rw [Outcome.ok_bind, hv.toValue_eq]
  | error => rfl

end Keeps

/-- A path that diverges from the path of every field reads what it reads in the payload that was handed
in: on the workspace after any fields, and in the data that an evaluation gives. -/
theorem find_of_diverge {contract : Contract} {payload : Entries} {path : String} (settings : Entries)
    (hdiverge : ∀ f ∈ contract, Path.Diverge (Path.segments f.path) (Path.segments path)) :
    (∀ (w : Workspace) (steps : List Step),
      (Workspace.ofPayload payload).run settings contract = .ok (w, steps) →
      (w.findRecord path >>= w.heap.toValue) = (Value.object payload).find path) ∧
    (∀ e : Evaluation, evaluate contract settings (.object payload) = .ok e →
      e.data.find path = (Value.object payload).find path) := by
  by_cases hsegs : Path.segments path = []
  · refine ⟨fun w _ _ => ?_, fun e _ => ?_⟩
    · simp [Workspace.findRecord, Heap.find, Value.find, hsegs, Represents.null.toValue_eq]
    · simp [Value.find, hsegs]
  · have hkeeps {w : Workspace} {steps : List Step}
        (hrun : (Workspace.ofPayload payload).run settings contract = .ok (w, steps)) :
        ∃ home, Keeps w (Path.segments path) ((Value.object payload).find path) home := by
      obtain ⟨home, hw⟩ := Keeps.ofPayload payload (Path.segments path)
      rw [Value.find_eq_walk hsegs]
      exact hw.run hdiverge hrun
    refine ⟨fun w steps hrun => ?_, fun e he => ?_⟩
    · obtain ⟨home, hw⟩ := hkeeps hrun
      rw [Workspace.findRecord, Heap.find_eq_walk hsegs, hw.toValue_eq]
    · obtain ⟨⟨w, steps⟩, hrun, he⟩ := Outcome.bind_eq_ok.mp he
      obtain ⟨data, hdata, he⟩ := Outcome.bind_eq_ok.mp he
      obtain ⟨reports, -, he⟩ := Outcome.bind_eq_ok.mp he
      obtain rfl := Except.ok.inj he
      obtain ⟨home, hw⟩ := hkeeps hrun
      rw [Value.find_eq_walk hsegs]
      exact hw.shows.walk_eq (Heap.toValueWithin_of_toValue hdata)

/-- A contract that maps the buyer of an order to the customer, and writes the customer's name in capitals. -/
def buyerContract : Contract :=
  [{ path := "customer", externalPath := .text "order.buyer" },
    { path := "customer.name", transform := .text "uppercase" }]

/-- A payload with an order. -/
def orderPayload : Entries := [("order", .object [("buyer", .object [("name", .text "ada")])])]

/-- The name is written into the payload's buyer. The buyer of the data's own order keeps the name. -/
theorem find_of_diverge_order :
    (∀ f ∈ buyerContract, Path.Diverge (Path.segments f.path) (Path.segments "order.buyer.name")) ∧
    ∃ e, evaluate buyerContract [] (.object orderPayload) = .ok e ∧
      e.data.find "order.buyer.name" = (Value.object orderPayload).find "order.buyer.name" ∧
      (e.data.find "customer.name").toOption.bind Value.text? = some "ADA" := by
  have hdiverge : ∀ f ∈ buyerContract,
      Path.Diverge (Path.segments f.path) (Path.segments "order.buyer.name") := by decide +kernel
  have hcustomer : ∃ e, evaluate buyerContract [] (.object orderPayload) = .ok e ∧
      (e.data.find "customer.name").toOption.bind Value.text? = some "ADA" := by decide +kernel
  obtain ⟨e, he, hname⟩ := hcustomer
  exact ⟨hdiverge, e, he, (find_of_diverge [] hdiverge).2 e he, hname⟩

end Contract

end Pagewright
