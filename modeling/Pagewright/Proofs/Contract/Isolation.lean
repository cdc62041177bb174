import Pagewright.Proofs.Contract.Simulation

/-!
# What a contract leaves alone

A contract is evaluated as its plain reading says, after any number of its fields, just when no plain step
changes the inside of a list or object that a field wrote before (`Contract.evaluate_eq_plain_iff`). Then
the payload is left alone as well. A contract that maps an object and afterwards writes inside it is not
evaluated so: the write goes to the payload.
-/

namespace Pagewright

namespace Contract

/-- An evaluation that goes on with `contract` after some steps. -/
def evaluateFrom (settings : Entries) (w : Workspace) (steps : List Step) (contract : Contract) :
    Outcome Evaluation := do
  let (w, rest) ← w.run settings contract
  return ⟨← w.data, ← (steps ++ rest).mapM (Step.report w.heap), missingPaths (steps ++ rest)⟩

/-- A plain evaluation that goes on with `contract` after some reports. -/
def Plain.evaluateFrom (settings : Entries) (payload record : Value) (reports : List FieldReport)
    (contract : Contract) : Outcome Evaluation := do
  let (record, rest) ← Plain.run settings payload record contract
  return ⟨record, reports ++ rest, Plain.missingPaths (reports ++ rest)⟩

section

variable {settings : Entries} {payload record record' : Value} {w w' : Workspace} {G : Sharing}
variable {steps : List Step} {reports : List FieldReport} {s : Step} {r : FieldReport}
variable {contract : Contract} {f : ContractField}

theorem evaluateFrom_cons (settings : Entries) (w : Workspace) (steps : List Step) (f : ContractField)
    (rest : Contract) : evaluateFrom settings w steps (f :: rest) =
      w.step settings f >>= fun a => evaluateFrom settings a.1 (steps ++ [a.2]) rest := by
  simp only [evaluateFrom, Workspace.run]
  cases w.step settings f with
  | error e => rfl
  | ok a =>
    simp only [Outcome.ok_bind, List.append_assoc, List.singleton_append]
    cases a.1.run settings rest <;> rfl

theorem Plain.evaluateFrom_cons (settings : Entries) (payload record : Value) (reports : List FieldReport)
    (f : ContractField) (rest : Contract) : evaluateFrom settings payload record reports (f :: rest) =
      step settings payload record f >>= fun a =>
        evaluateFrom settings payload a.1 (reports ++ [a.2]) rest := by
  simp only [evaluateFrom, run]
  cases step settings payload record f with
  | error e => rfl
  | ok a =>
    simp only [Outcome.ok_bind, List.append_assoc, List.singleton_append]
    cases run settings payload a.1 rest <;> rfl

theorem missingPaths_eq {G : Sharing} {steps : List Step} {reports : List FieldReport}
    (ht : List.Forall₂ (Told G) steps reports) : missingPaths steps = Plain.missingPaths reports := by
  unfold missingPaths Plain.missingPaths
  induction ht with
  | nil => rfl
  | @cons s r _ _ hs _ ih =>
    have hmissing : r.missing = s.missing := by rw [hs.report, Plain.report]
    have hrequired : r.required = s.field.required := by rw [hs.report, Plain.report]
    have hpath : r.path = s.field.path := by rw [hs.report, Plain.report]
    rw [List.filter_cons, List.filter_cons, hmissing, hrequired]
    split
    · rw [List.map_cons, List.map_cons, ih, hpath]
    · exact ih

/-- A workspace after some steps stands for a record and the reports so far. -/
structure Tells (payload : Value) (G : Sharing) (w : Workspace) (steps : List Step) (record : Value)
    (reports : List FieldReport) : Prop where
  stands : Stands payload G w record
  told : List.Forall₂ (Told G) steps reports
  wrote : ∀ (y : ℕ) (v : Value), (y, v) ∈ G.wrote → ∃ (i : ℕ) (s : Step) (r : FieldReport),
    steps[i]? = some s ∧ reports[i]? = some r ∧ s.written = .node y ∧ v = r.value

namespace Tells

theorem step {G' : Sharing} (ht : Tells payload G w steps record reports)
    (hf : Follows payload G G' w' s record' r) :
    Tells payload G' w' (steps ++ [s]) record' (reports ++ [r]) where
  stands := hf.stands
  told := List.rel_append (ht.told.imp fun _ _ h => h.leads hf.leads) (.cons hf.told .nil)
  wrote y v hy := by
    rcases hf.wrote y v hy with hy | ⟨hs, hv⟩
    · obtain ⟨i, s', r', hs', hr', h⟩ := ht.wrote y v hy
      refine ⟨i, s', r', ?_, ?_, h⟩
      · rw [List.getElem?_append_left (List.getElem?_eq_some_iff.mp hs').1, hs']
      · rw [List.getElem?_append_left (List.getElem?_eq_some_iff.mp hr').1, hr']
    · refine ⟨steps.length, s, r, by simp, ?_, hs, hv⟩
      rw [ht.told.length_eq]
      simp

/-- What is read off the workspace is what it stands for. -/
theorem evaluateFrom_nil (ht : Tells payload G w steps record reports) :
    evaluateFrom settings w steps [] = Plain.evaluateFrom settings payload record reports [] := by
  have hdata : w.data = .ok record := by
    rw [Workspace.data, ← ht.stands.heap]
    exact ht.stands.linked.placed.represents.toValue_eq
  have hreports : steps.mapM (Step.report w.heap) = .ok reports := by
    rw [← ht.stands.heap, Outcome.mapM_eq_ok]
    exact ht.told.imp fun _ _ h => h.report_eq
  simp [evaluateFrom, Plain.evaluateFrom, Workspace.run, Plain.run, hdata, hreports,
    missingPaths_eq ht.told]

/-- A disturbed workspace tells something else. -/
theorem evaluateFrom_ne (ht : Tells payload G w steps record reports) (hrecord : w'.record = w.record)
    (hd : Linked.Disturbed G w.record record' w'.heap) :
    evaluateFrom settings w' (steps ++ [s]) [] ≠
      Plain.evaluateFrom settings payload record' (reports ++ [r]) [] := by
  intro h
  simp only [evaluateFrom, Plain.evaluateFrom, Workspace.run, Plain.run, Outcome.ok_bind, List.append_nil,
    Outcome.pure_eq_ok, Outcome.bind_eq_ok, Except.ok.injEq, Evaluation.mk.injEq] at h
  obtain ⟨data, hdata, reports', hreports, rfl, rfl, -⟩ := h
  obtain ⟨y, v, hy, hne⟩ := hd
  refine hne ⟨hrecord ▸ hdata, ?_⟩
  obtain ⟨i, s', r', hs', hr', hwritten, rfl⟩ := ht.wrote y v hy
  have hi : i < steps.length := (List.getElem?_eq_some_iff.mp hs').1
  have hi' : i < reports.length := (List.getElem?_eq_some_iff.mp hr').1
  rw [← List.getElem?_append_left hi] at hs'
  obtain ⟨r'', hr'', hreport⟩ := Outcome.getElem?_of_mapM hreports hs'
  rw [List.getElem?_append_left hi', hr', Option.some.injEq] at hr''
  obtain ⟨v, hv, hvalue⟩ := Outcome.bind_eq_ok.mp hreport
  rw [hwritten] at hv
  rw [hr'', ← Except.ok.inj hvalue, hv]

end Tells

/-- From a workspace that stands for a record on, the evaluation goes in step with the plain one just when
that does not disturb what was written. -/
theorem evaluateFrom_eq_iff (ht : Tells payload G w steps record reports) :
    (∀ n, evaluateFrom settings w steps (contract.take n) =
      Plain.evaluateFrom settings payload record reports (contract.take n)) ↔
    Plain.Undisturbed settings payload G.held record contract := by
  induction contract generalizing G w record steps reports with
  | nil => simpa [Plain.Undisturbed] using ht.evaluateFrom_nil
  | cons f rest ih =>
    constructor
    · intro h record' r hplain
      obtain ⟨⟨w', s⟩, -, hin, hstep, -⟩ := (ht.stands.step_rel f).with_eq.of_ok_right hplain
      have hnext (n : ℕ) : evaluateFrom settings w' (steps ++ [s]) (rest.take n) =
          Plain.evaluateFrom settings payload record' (reports ++ [r]) (rest.take n) := by
        have hnext := h (n + 1)
        rwa [List.take_succ_cons, evaluateFrom_cons, Plain.evaluateFrom_cons, hstep, hplain,
          Outcome.ok_bind, Outcome.ok_bind] at hnext
      cases hin with
      | quiet hquiet hfollows => exact ⟨hquiet, hfollows.held ▸ (ih (ht.step hfollows)).mp hnext⟩
      | disturbed _ hrecord hdisturbed => exact absurd (hnext 0) (ht.evaluateFrom_ne hrecord hdisturbed)
    · intro h n
      cases n with
      | zero => exact ht.evaluateFrom_nil
      | succ n =>
        rw [List.take_succ_cons, evaluateFrom_cons, Plain.evaluateFrom_cons]
        refine ((ht.stands.step_rel f).with_eq.bind fun a b ⟨hin, _, hplain⟩ => ?_).eq
        obtain ⟨hquiet, hrest⟩ := h b.1 b.2 hplain
        cases hin with
        | quiet _ hfollows =>
          rw [(ih (ht.step hfollows)).mpr (hfollows.held ▸ hrest) n]
          exact .refl _
        | disturbed hnot => exact absurd hquiet hnot

/-- A run that disturbs nothing leads to a workspace that stands for what the plain run gives. -/
theorem Tells.run {rest : List Step} (ht : Tells payload G w steps record reports)
    (h : Plain.Undisturbed settings payload G.held record contract)
    (hrun : w.run settings contract = .ok (w', rest)) :
    ∃ (G' : Sharing) (record' : Value) (reports' : List FieldReport),
      Tells payload G' w' (steps ++ rest) record' (reports ++ reports') := by
  induction contract generalizing G w record steps reports rest with
  | nil =>
    obtain ⟨rfl, rfl⟩ := Prod.mk.inj (Except.ok.inj hrun)
    exact ⟨G, record, [], by simpa using ht⟩
  | cons f contract ih =>
    obtain ⟨⟨w₁, s⟩, hstep, hafter⟩ := Outcome.bind_eq_ok.mp hrun
    obtain ⟨⟨w₂, rest⟩, hrest', heq⟩ := Outcome.bind_eq_ok.mp hafter
    obtain ⟨rfl, rfl⟩ := Prod.mk.inj (Except.ok.inj heq)
    obtain ⟨⟨record₁, r⟩, -, hin, -, hplain⟩ := (ht.stands.step_rel f).with_eq.of_ok_left hstep
    obtain ⟨hquiet, hrest⟩ := h record₁ r hplain
    cases hin with
    | quiet _ hfollows =>
      obtain ⟨G', record', reports', ht'⟩ := ih (ht.step hfollows) (hfollows.held ▸ hrest) hrest'
      exact ⟨G', record', r :: reports', by simpa using ht'⟩
    | disturbed hnot => exact absurd hquiet hnot

end

theorem exists_tells (payload : Entries) :
    ∃ G, G.held = ∅ ∧
      Tells (.object payload) G (Workspace.ofPayload payload) [] (.object payload) [] := by
  have hs := Heap.inserted_insert #[] (.object payload)
  have ht := Heap.inserted_insert (Heap.insert #[] (.object payload)).2 (.object payload)
  obtain ⟨id, G, hid, hheap, hlinked, hin, hrep, hheld, hwrote⟩ :=
    Linked.start (c := .object payload) hs ht
  have hstart : Workspace.ofPayload payload = ⟨G.heap, (Heap.insert #[] (.object payload)).1, id⟩ := by
    simp only [Workspace.ofPayload, hid, hheap]
  rw [hstart]
  exact ⟨G, hheld, ⟨rfl, hlinked, hin, hheap ▸ hrep⟩, .nil, by simp [hwrote]⟩

theorem forall_evaluate_eq_iff (contract : Contract) (settings payload : Entries) :
    (∀ n, evaluate (contract.take n) settings (.object payload) =
        Plain.evaluate (contract.take n) settings payload) ↔
      Plain.Undisturbed settings (.object payload) ∅ (.object payload) contract := by
  obtain ⟨G, hheld, ht⟩ := exists_tells payload
  rw [← hheld, ← evaluateFrom_eq_iff ht]
  rfl

/-- A contract is evaluated as its plain reading says, after any number of its fields, just when that
disturbs nothing. Each field changes the plain data at its own path only. If nothing is disturbed, the
payload is afterwards what it was. -/
theorem evaluate_eq_plain_iff (contract : Contract) (settings payload : Entries) :
    ((∀ n, evaluate (contract.take n) settings (.object payload) =
        Plain.evaluate (contract.take n) settings payload) ↔
      Plain.Undisturbed settings (.object payload) ∅ (.object payload) contract) ∧
    (∀ (n : ℕ) (f : ContractField) (before after : Evaluation) (path : String), contract[n]? = some f →
      Plain.evaluate (contract.take n) settings payload = .ok before →
      Plain.evaluate (contract.take (n + 1)) settings payload = .ok after →
      Path.Diverge (Path.segments f.path) (Path.segments path) →
      after.data.find path = before.data.find path) ∧
    (Plain.Undisturbed settings (.object payload) ∅ (.object payload) contract →
      ∀ (w : Workspace) (steps : List Step),
        (Workspace.ofPayload payload).run settings contract = .ok (w, steps) →
        w.heap.toValue w.payload = .ok (.object payload)) := by
  refine ⟨forall_evaluate_eq_iff contract settings payload,
    fun n f before after path hf hbefore hafter hdiverge =>
      Plain.find_evaluate_of_diverge hf hbefore hafter hdiverge, fun h w steps hrun => ?_⟩
  obtain ⟨G, hheld, ht⟩ := exists_tells payload
  obtain ⟨G', record', reports', ht'⟩ := ht.run (hheld ▸ h) hrun
  rw [← ht'.stands.heap]
  exact ht'.stands.payload.toValue_eq

/-- A contract that maps a customer, writes the customer's name in capitals, and reads the payload's name
once more. -/
def customerContract : Contract :=
  [{ path := "customer" }, { path := "customer.name", transform := .text "uppercase" },
    { path := "name2", externalPath := .text "customer.name" }]

/-- A payload with a customer. -/
def customerPayload : Entries := [("customer", .object [("name", .text "ada")])]

/-- What is read once more is the name in capitals. -/
theorem evaluate_ne_plain_of_customer : evaluate customerContract [] (.object customerPayload) ≠
    Plain.evaluate customerContract [] customerPayload := by
  intro h
  have hname : ((evaluate customerContract [] (.object customerPayload)).toOption.bind fun e =>
      (e.data.find "name2").toOption.bind Value.text?) = some "ADA" := by decide +kernel
  have hplain : ((Plain.evaluate customerContract [] customerPayload).toOption.bind fun e =>
      (e.data.find "name2").toOption.bind Value.text?) = some "ada" := by decide +kernel
  rw [h, hplain] at hname
  exact absurd hname (by decide)

end Contract

end Pagewright
