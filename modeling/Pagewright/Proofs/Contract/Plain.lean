import Pagewright.Contract.Evaluation
import Pagewright.Proofs.Record.Place

/-!
# Contracts over trees

What a contract means when no two places share anything: an ordered fold over trees, in which the payload
is what was handed in and a write changes the record only. A field reads its path in the payload, then in
the record, then takes its default; its transform is applied, and a value worth showing is written.

`Undisturbed` is the condition on such a fold that no write changes the inside of a list or object that a
field wrote before and that still stands at its place.
-/

namespace Pagewright

namespace Contract

namespace Plain

/-- The value at a path of the payload; the path must be a text. -/
def findPayload (payload path : Value) : Outcome Value :=
  match path with
  | .text s => payload.find s
  | v => undefinedOn (.wrongKind v)

/-- The value that a field reads, before its default. -/
def source (payload record : Value) (f : ContractField) : Outcome Value := do
  if f.isExternal then
    let found ← findPayload payload f.payloadPath
    if found.isPresent then return found else record.find f.path
  else record.find f.path

/-- The value that a field gets, and whether it is the default. -/
def resolve (payload record : Value) (f : ContractField) : Outcome (Value × Bool) := do
  let found ← source payload record f
  if !found.isPresent && f.hasDefault then return (f.defaultValue, true) else return (found, false)

/-- What is reported on a field. -/
def report (f : ContractField) (usedDefault missing : Bool) (problem : String) (value : Value) :
    FieldReport where
  path := f.path
  required := f.required
  source := f.source
  externalPath := f.payloadPath
  transform := f.transformName
  usedDefault := usedDefault
  missing := missing
  problem := problem
  value := value

/-- Evaluate one field. -/
def step (settings : Entries) (payload record : Value) (f : ContractField) :
    Outcome (Value × FieldReport) := do
  let (found, usedDefault) ← resolve payload record f
  if !found.isPresent then return (record, report f usedDefault true "" .null)
  else
    let result ← f.apply found settings
    let new := result.value found
    if new.isPresent then
      return (← record.assign f.path new, report f usedDefault false result.problem new)
    else return (record, report f usedDefault false result.problem .null)

/-- Evaluate fields in order. -/
def run (settings : Entries) (payload record : Value) : Contract → Outcome (Value × List FieldReport)
  | [] => .ok (record, [])
  | f :: rest => do
    let (record, first) ← step settings payload record f
    let (record, reports) ← run settings payload record rest
    return (record, first :: reports)

/-- The paths of required fields that got no value. -/
def missingPaths (reports : List FieldReport) : List String :=
  (reports.filter fun r => r.missing && r.required).map (·.path)

/-- Evaluate a contract on a payload. -/
def evaluate (contract : Contract) (settings payload : Entries) : Outcome Evaluation := do
  let (record, reports) ← run settings (.object payload) (.object payload) contract
  return ⟨record, reports, missingPaths reports⟩

/-- The held places after a step. -/
def heldBy (held : Set (List ℕ)) (record : Value) (r : FieldReport) : Set (List ℕ) :=
  if r.value.isPresent then heldAlong held record r.path r.value else held

/-- No step changes the inside of a list or object that a field wrote before and that still stands at its
place. -/
def Undisturbed (settings : Entries) (payload : Value) : Set (List ℕ) → Value → Contract → Prop
  | _, _, [] => True
  | held, record, f :: rest => ∀ record' r, step settings payload record f = .ok (record', r) →
    Quiet held record record' f.path ∧ Undisturbed settings payload (heldBy held record' r) record' rest

variable {settings : Entries} {payload record record' : Value} {f : ContractField} {r : FieldReport}

/-- What a step does: it leaves the record alone, or writes the value that it reports. -/
theorem step_cases (h : step settings payload record f = .ok (record', r)) :
    r.path = f.path ∧
      ((record' = record ∧ r.value = .null) ∨
        (r.value.isPresent = true ∧ r.missing = false ∧ record.assign f.path r.value = .ok record')) := by
  simp only [step, Outcome.bind_eq_ok] at h
  obtain ⟨⟨found, usedDefault⟩, -, h⟩ := h
  split at h
  · simp only [Outcome.pure_eq_ok, Except.ok.injEq, Prod.mk.injEq] at h
    obtain ⟨rfl, rfl⟩ := h
    exact ⟨rfl, .inl ⟨rfl, rfl⟩⟩
  · obtain ⟨result, -, h⟩ := Outcome.bind_eq_ok.mp h
    split at h
    · obtain ⟨written, hwritten, h⟩ := Outcome.bind_eq_ok.mp h
      simp only [Outcome.pure_eq_ok, Except.ok.injEq, Prod.mk.injEq] at h
      obtain ⟨rfl, rfl⟩ := h
      exact ⟨rfl, .inr ⟨by assumption, rfl, hwritten⟩⟩
    · simp only [Outcome.pure_eq_ok, Except.ok.injEq, Prod.mk.injEq] at h
      obtain ⟨rfl, rfl⟩ := h
      exact ⟨rfl, .inl ⟨rfl, rfl⟩⟩

theorem find_step_of_diverge (hrecord : record.isContainer = true)
    (h : step settings payload record f = .ok (record', r)) {path : String}
    (hdiverge : Path.Diverge (Path.segments f.path) (Path.segments path)) :
    record'.find path = record.find path := by
  obtain ⟨c, rfl⟩ := Value.exists_toValue hrecord
  obtain ⟨-, ⟨rfl, -⟩ | ⟨-, -, hassign⟩⟩ := step_cases h
  · rfl
  · exact Value.find_assign_of_diverge hdiverge hassign

theorem isContainer_of_step (hrecord : record.isContainer = true)
    (h : step settings payload record f = .ok (record', r)) : record'.isContainer = true := by
  obtain ⟨c, rfl⟩ := Value.exists_toValue hrecord
  obtain ⟨-, ⟨rfl, -⟩ | ⟨-, -, hassign⟩⟩ := step_cases h
  · exact hrecord
  · obtain ⟨d, rfl⟩ := Value.exists_toValue_of_assignAt hassign
    exact Value.isContainer_toValue d

theorem isContainer_of_run {contract : Contract} {reports : List FieldReport}
    (hrecord : record.isContainer = true)
    (h : run settings payload record contract = .ok (record', reports)) :
    record'.isContainer = true := by
  induction contract generalizing record reports with
  | nil =>
    obtain ⟨rfl, -⟩ := Prod.mk.inj (Except.ok.inj h)
    exact hrecord
  | cons f rest ih =>
    obtain ⟨⟨record₁, r⟩, hstep, h⟩ := Outcome.bind_eq_ok.mp h
    obtain ⟨⟨record₂, reports⟩, hrun, h⟩ := Outcome.bind_eq_ok.mp h
    obtain ⟨rfl, -⟩ := Prod.mk.inj (Except.ok.inj h)
    exact ih (isContainer_of_step hrecord hstep) hrun

theorem run_append (settings : Entries) (payload record : Value) (first rest : Contract) :
    run settings payload record (first ++ rest) = run settings payload record first >>= fun a =>
      run settings payload a.1 rest >>= fun b => .ok (b.1, a.2 ++ b.2) := by
  induction first generalizing record with
  | nil =>
    simp only [List.nil_append, run, Outcome.ok_bind]
    cases run settings payload record rest <;> rfl
  | cons f first ih =>
    simp only [List.cons_append, run, ih]
    cases step settings payload record f with
    | error e => rfl
    | ok a =>
      simp only [Outcome.ok_bind]
      cases run settings payload a.1 first with
      | error e => rfl
      | ok b =>
        simp only [Outcome.ok_bind, Outcome.pure_eq_ok]
        cases run settings payload b.1 rest <;> rfl

theorem length_of_run {contract : Contract} {reports : List FieldReport}
    (h : run settings payload record contract = .ok (record', reports)) :
    reports.length = contract.length := by
  induction contract generalizing record reports with
  | nil =>
    obtain ⟨-, rfl⟩ := Prod.mk.inj (Except.ok.inj h)
    rfl
  | cons f rest ih =>
    obtain ⟨⟨record₁, r⟩, -, h⟩ := Outcome.bind_eq_ok.mp h
    obtain ⟨⟨record₂, reports⟩, hrun, h⟩ := Outcome.bind_eq_ok.mp h
    obtain ⟨rfl, rfl⟩ := Prod.mk.inj (Except.ok.inj h)
    simp [ih hrun]

theorem exists_step_of_run {contract : Contract} {n : ℕ} {reports : List FieldReport}
    (hf : contract[n]? = some f)
    (h : run settings payload record (contract.take (n + 1)) = .ok (record', reports)) :
    ∃ (record₁ : Value) (reports₁ : List FieldReport) (r : FieldReport),
      run settings payload record (contract.take n) = .ok (record₁, reports₁) ∧
      step settings payload record₁ f = .ok (record', r) ∧ reports[n]? = some r := by
  rw [List.take_add_one, hf, Option.toList_some, run_append, Outcome.bind_eq_ok] at h
  obtain ⟨⟨record₁, reports₁⟩, hrun, h⟩ := h
  obtain ⟨⟨record₂, reports₂⟩, hlast, h⟩ := Outcome.bind_eq_ok.mp h
  obtain ⟨⟨record₃, r⟩, hstep, hlast⟩ := Outcome.bind_eq_ok.mp hlast
  obtain ⟨rfl, rfl⟩ := Prod.mk.inj (Except.ok.inj hlast)
  obtain ⟨rfl, rfl⟩ := Prod.mk.inj (Except.ok.inj h)
  refine ⟨record₁, reports₁, r, hrun, hstep, ?_⟩
  have hlength : reports₁.length = n := by
    rw [length_of_run hrun, List.length_take, Nat.min_eq_left]
    exact Nat.le_of_lt (List.getElem?_eq_some_iff.mp hf).1
  simp [← hlength]

theorem find_evaluate_of_diverge {contract : Contract} {settings payload : Entries} {n : ℕ}
    {before after : Evaluation} (hf : contract[n]? = some f)
    (hbefore : evaluate (contract.take n) settings payload = .ok before)
    (hafter : evaluate (contract.take (n + 1)) settings payload = .ok after) {path : String}
    (hdiverge : Path.Diverge (Path.segments f.path) (Path.segments path)) :
    after.data.find path = before.data.find path := by
  obtain ⟨⟨record₁, reports₁⟩, hrun₁, h₁⟩ := Outcome.bind_eq_ok.mp hbefore
  obtain ⟨⟨record₂, reports₂⟩, hrun₂, h₂⟩ := Outcome.bind_eq_ok.mp hafter
  obtain rfl := Except.ok.inj h₁
  obtain rfl := Except.ok.inj h₂
  obtain ⟨record, reports, r, hrun, hstep, -⟩ := exists_step_of_run hf hrun₂
  obtain ⟨rfl, -⟩ := Prod.mk.inj (Except.ok.inj (hrun₁.symm.trans hrun))
  exact find_step_of_diverge (isContainer_of_run rfl hrun) hstep hdiverge

end Plain

end Contract

end Pagewright
