import Pagewright.Proofs.Contract.Isolation
import Pagewright.Proofs.Contract.Nesting
import Pagewright.Proofs.Record.KeyOrder

/-!
# Fields in another order

Where the paths of a contract diverge pairwise, no field reads what another writes, and no write goes
inside what another has written. So each field gets the report that it would get alone on the payload
(`Contract.Plain.run_eq_ok_iff`), and the writes can be made in any order
(`Contract.Plain.foldlM_write_perm`): the data is the same, up to the order in which new keys came in.
-/

namespace Pagewright

namespace Contract

namespace Plain

variable {settings : Entries} {payload record record' start v w : Value} {f : ContractField}
variable {r s : FieldReport} {contract : Contract} {reports : List FieldReport}

/-- What is reported on a field that finds the record as given. -/
def reportOn (settings : Entries) (payload record : Value) (f : ContractField) : Outcome FieldReport := do
  let (found, usedDefault) ← resolve payload record f
  if !found.isPresent then return report f usedDefault true "" .null
  else
    let result ← f.apply found settings
    let new := result.value found
    return report f usedDefault false result.problem (if new.isPresent then new else .null)

/-- Write the value of a report, if it is worth showing. -/
def write (record : Value) (r : FieldReport) : Outcome Value :=
  if r.value.isPresent then record.assign r.path r.value else .ok record

theorem step_eq (settings : Entries) (payload record : Value) (f : ContractField) :
    step settings payload record f = reportOn settings payload record f >>= fun r =>
      write record r >>= fun record' => .ok (record', r) := by
  have hnull : Value.null.isPresent = false := rfl
  unfold step reportOn
  cases resolve payload record f with
  | error e => rfl
  | ok a =>
    obtain ⟨found, usedDefault⟩ := a
    simp only [Outcome.ok_bind]
    split
    · simp [write, report, hnull]
    · cases f.apply found settings with
      | error e => rfl
      | ok result =>
        simp only [Outcome.ok_bind, Outcome.pure_eq_ok, write, report]
        split
        · simp_all
        · simp_all

theorem reportOn_congr (h : record.find f.path = start.find f.path) :
    reportOn settings payload record f = reportOn settings payload start f := by
  simp only [reportOn, resolve, source, h]

theorem path_of_reportOn (h : reportOn settings payload record f = .ok r) :
    r.path = f.path ∧ r.required = f.required := by
  obtain ⟨⟨found, usedDefault⟩, -, h⟩ := Outcome.bind_eq_ok.mp h
  dsimp only at h
  split at h
  · obtain rfl := Except.ok.inj h
    exact ⟨rfl, rfl⟩
  · obtain ⟨result, -, h⟩ := Outcome.bind_eq_ok.mp h
    obtain rfl := Except.ok.inj h
    exact ⟨rfl, rfl⟩

/-! ## Writes -/

theorem write_of_present (h : r.value.isPresent = true) (record : Value) :
    write record r = record.assign r.path r.value := if_pos h

theorem write_of_absent (h : ¬r.value.isPresent = true) (record : Value) : write record r = .ok record :=
  if_neg h

theorem isContainer_of_write (hrecord : record.isContainer = true) (h : write record r = .ok record') :
    record'.isContainer = true := by
  unfold write at h
  split at h
  · exact Value.isContainer_of_assignAt hrecord h
  · exact Except.ok.inj h ▸ hrecord

theorem find_write_of_diverge (hrecord : record.isContainer = true) (h : write record r = .ok record')
    {path : String} (hdiverge : Path.Diverge (Path.segments r.path) (Path.segments path)) :
    record'.find path = record.find path := by
  unfold write at h
  split at h
  · obtain ⟨c, rfl⟩ := Value.exists_toValue hrecord
    exact Value.find_assign_of_diverge hdiverge h
  · rw [Except.ok.inj h]

theorem write_rel (h : v.sorted = w.sorted) (r : FieldReport) :
    Outcome.Rel (fun v w => v.sorted = w.sorted) (write v r) (write w r) := by
  unfold write
  split
  · exact Value.assignAt_rel h _ _
  · exact .ok h

theorem foldlM_write_rel (h : v.sorted = w.sorted) (reports : List FieldReport) :
    Outcome.Rel (fun v w => v.sorted = w.sorted) (reports.foldlM write v) (reports.foldlM write w) := by
  induction reports generalizing v w with
  | nil => exact .ok h
  | cons r rest ih =>
    rw [List.foldlM_cons, List.foldlM_cons]
    exact (write_rel h r).bind fun v w h => ih h

theorem write_comm (hrecord : record.isContainer = true)
    (hdiverge : Path.Diverge (Path.segments r.path) (Path.segments s.path)) (hr : write record r = .ok v)
    (hs : write v s = .ok w) :
    ∃ v' w', write record s = .ok v' ∧ write v' r = .ok w' ∧ w.sorted = w'.sorted := by
  by_cases hr' : r.value.isPresent = true
  · by_cases hs' : s.value.isPresent = true
    · simp only [write_of_present hr', write_of_present hs'] at hr hs ⊢
      exact Value.assignAt_comm hrecord hdiverge hr hs
    · simp only [write_of_absent hs'] at hs ⊢
      obtain rfl := Except.ok.inj hs
      exact ⟨record, v, rfl, hr, rfl⟩
  · simp only [write_of_absent hr'] at hr ⊢
    obtain rfl := Except.ok.inj hr
    exact ⟨w, w, hs, rfl, rfl⟩

/-- Writes at paths that diverge pairwise can be made in any order. -/
theorem foldlM_write_perm {reports reports' : List FieldReport} (hperm : reports.Perm reports')
    (hdiverge : reports.Pairwise fun r s => Path.Diverge (Path.segments r.path) (Path.segments s.path))
    (hrecord : record.isContainer = true) (h : reports.foldlM write record = .ok v) :
    ∃ v', reports'.foldlM write record = .ok v' ∧ v.sorted = v'.sorted := by
  induction hperm generalizing record v with
  | nil => exact ⟨v, h, rfl⟩
  | cons r _ ih =>
    rw [List.foldlM_cons, Outcome.bind_eq_ok] at h
    obtain ⟨record₁, hr, h⟩ := h
    obtain ⟨v', hv', hsame⟩ := ih (List.pairwise_cons.mp hdiverge).2 (isContainer_of_write hrecord hr) h
    exact ⟨v', by rw [List.foldlM_cons, hr, Outcome.ok_bind, hv'], hsame⟩
  | swap r s rest =>
    simp only [List.foldlM_cons, Outcome.bind_eq_ok] at h
    obtain ⟨v₁, hs, v₂, hr, h⟩ := h
    have hsr := (List.pairwise_cons.mp hdiverge).1 r List.mem_cons_self
    obtain ⟨v₁', v₂', hr', hs', hsame⟩ := write_comm hrecord hsr hs hr
    obtain ⟨v', hv', hsame'⟩ := (foldlM_write_rel hsame rest).of_ok_left h
    refine ⟨v', ?_, hsame'⟩
    rw [List.foldlM_cons, hr', Outcome.ok_bind, List.foldlM_cons, hs', Outcome.ok_bind, hv']
  | trans hperm₁ _ ih₁ ih₂ =>
    obtain ⟨v₁, hv₁, hsame₁⟩ := ih₁ hdiverge hrecord h
    have hdiverge₁ := hdiverge.perm hperm₁ fun h => h.symm
    obtain ⟨v₂, hv₂, hsame₂⟩ := ih₂ hdiverge₁ hrecord hv₁
    exact ⟨v₂, hv₂, hsame₁.trans hsame₂⟩

/-! ## Runs -/

/-- The paths of the fields diverge pairwise. -/
def Apart (contract : Contract) : Prop :=
  contract.Pairwise fun f g => Path.Diverge (Path.segments f.path) (Path.segments g.path)

instance (contract : Contract) : Decidable (Apart contract) :=
  inferInstanceAs (Decidable (contract.Pairwise _))

/-- Fields whose paths diverge are reported on alike at every turn, and it remains to make the writes. -/
theorem run_eq_ok_iff (hdiverge : Apart contract) (hrecord : record.isContainer = true)
    (hsame : ∀ f ∈ contract, record.find f.path = start.find f.path) :
    run settings payload record contract = .ok (record', reports) ↔
      contract.mapM (reportOn settings payload start) = .ok reports ∧
        reports.foldlM write record = .ok record' := by
  induction contract generalizing record reports with
  | nil =>
    simp only [run, List.mapM_nil, Outcome.pure_eq_ok, Except.ok.injEq, Prod.mk.injEq]
    constructor
    · rintro ⟨rfl, rfl⟩
      exact ⟨rfl, rfl⟩
    · rintro ⟨rfl, h⟩
      exact ⟨Except.ok.inj h, rfl⟩
  | cons f rest ih =>
    obtain ⟨hf, hrest⟩ := List.pairwise_cons.mp hdiverge
    have hreport : reportOn settings payload record f = reportOn settings payload start f :=
      reportOn_congr (hsame f List.mem_cons_self)
    have hnext {r : FieldReport} {record₁ : Value} (hr : reportOn settings payload start f = .ok r)
        (hwrite : write record r = .ok record₁) : ∀ g ∈ rest, record₁.find g.path = start.find g.path := by
      intro g hg
      have hpath := (path_of_reportOn hr).1
      rw [find_write_of_diverge hrecord hwrite (hpath ▸ hf g hg), hsame g (List.mem_cons_of_mem f hg)]
    simp only [run, step_eq, hreport, List.mapM_cons, Outcome.bind_eq_ok, Outcome.pure_eq_ok,
      Except.ok.injEq]
    constructor
    · rintro ⟨_, ⟨r, hr, record₁, hwrite, rfl⟩, ⟨_, reports'⟩, hrun, h⟩
      obtain ⟨rfl, rfl⟩ := Prod.mk.inj h
      obtain ⟨hreports, hfold⟩ :=
        (ih hrest (isContainer_of_write hrecord hwrite) (hnext hr hwrite)).mp hrun
      exact ⟨⟨r, hr, reports', hreports, rfl⟩,
        by rw [List.foldlM_cons, hwrite, Outcome.ok_bind, hfold]⟩
    · rintro ⟨⟨r, hr, reports', hreports, rfl⟩, h⟩
      rw [List.foldlM_cons, Outcome.bind_eq_ok] at h
      obtain ⟨record₁, hwrite, hfold⟩ := h
      have hrun := (ih hrest (isContainer_of_write hrecord hwrite) (hnext hr hwrite)).mpr ⟨hreports, hfold⟩
      exact ⟨(record₁, r), ⟨r, hr, record₁, hwrite, rfl⟩, (record', reports'), hrun, rfl⟩

end Plain

/-- Where the paths of the fields diverge pairwise, the contract is evaluated as its plain reading says. -/
theorem evaluate_eq_plain_of_apart {contract : Contract} (settings payload : Entries)
    (hdiverge : Plain.Apart contract) :
    evaluate contract settings (.object payload) = Plain.evaluate contract settings payload := by
  have hnot : contract.Pairwise fun f g => ¬Path.Above (Path.segments f.path) (Path.segments g.path) :=
    hdiverge.imp fun h habove => habove.2.2 h
  have h := (forall_evaluate_eq_iff contract settings payload).mpr
    (Plain.undisturbed_of_pairwise settings payload hnot) contract.length
  rwa [List.take_length] at h

namespace Plain

variable {contract : Contract} {settings payload : Entries} {e : Evaluation}

/-- The report on a field that is evaluated alone. -/
def reportAlone (settings payload : Entries) (f : ContractField) : FieldReport :=
  (reportOn settings (.object payload) (.object payload) f).toOption.getD default

theorem missingPaths_map_reportAlone
    (h : ∀ f ∈ contract, Outcome.Returns (reportOn settings (.object payload) (.object payload) f)) :
    missingPaths (contract.map (reportAlone settings payload)) =
      (contract.filter fun f => (reportAlone settings payload f).missing && f.required).map (·.path) := by
  have halone : ∀ f ∈ contract, (reportAlone settings payload f).path = f.path ∧
      (reportAlone settings payload f).required = f.required := by
    intro f hf
    obtain ⟨r, hr⟩ := h f hf
    rw [reportAlone, hr]
    exact path_of_reportOn hr
  rw [missingPaths, List.filter_map, List.map_map, List.filter_congr fun f hf => ?_]
  · exact List.map_congr_left fun f hf => (halone f (List.mem_of_mem_filter hf)).1
  · simp [(halone f hf).2]

/-- Where the paths diverge pairwise, each field is reported on as when it is evaluated alone, and the data
is the payload with all writes made. -/
theorem evaluate_eq_ok_iff (hdiverge : Apart contract) : evaluate contract settings payload = .ok e ↔
    (∀ f ∈ contract, Outcome.Returns (reportOn settings (.object payload) (.object payload) f)) ∧
    (contract.map (reportAlone settings payload)).foldlM write (.object payload) = .ok e.data ∧
    e.fields = contract.map (reportAlone settings payload) ∧
    e.missingRequired =
      (contract.filter fun f => (reportAlone settings payload f).missing && f.required).map (·.path) := by
  have hrun (record : Value) (reports : List FieldReport) :
      run settings (.object payload) (.object payload) contract = .ok (record, reports) ↔
        contract.mapM (reportOn settings (.object payload) (.object payload)) = .ok reports ∧
          reports.foldlM write (.object payload) = .ok record :=
    run_eq_ok_iff hdiverge rfl fun _ _ => rfl
  simp only [evaluate, Outcome.bind_eq_ok, Prod.exists, hrun, Outcome.mapM_eq_ok_iff_map]
  constructor
  · rintro ⟨record, reports, ⟨⟨hall, rfl⟩, hwrites⟩, h⟩
    obtain rfl := Except.ok.inj h
    exact ⟨hall, hwrites, rfl, missingPaths_map_reportAlone hall⟩
  · rintro ⟨hall, hwrites, hfields, hmissing⟩
    refine ⟨e.data, _, ⟨⟨hall, rfl⟩, hwrites⟩, ?_⟩
    have hpaths := missingPaths_map_reportAlone hall
    unfold reportAlone at hfields hmissing hpaths
    rw [hpaths, ← hmissing, ← hfields]
    rfl

end Plain

/-- Fields whose paths diverge pairwise can be evaluated in any order: each gets the same report, the same
required fields are missing, and every path reads the same in the data, up to the order of keys. -/
theorem evaluate_perm {contract contract' : Contract} {settings payload : Entries} {e : Evaluation}
    (hdiverge : contract.Pairwise fun f g => Path.Diverge (Path.segments f.path) (Path.segments g.path))
    (hperm : contract.Perm contract') (he : evaluate contract settings (.object payload) = .ok e) :
    ∃ (e' : Evaluation) (report : ContractField → FieldReport),
      evaluate contract' settings (.object payload) = .ok e' ∧
      e.fields = contract.map report ∧ e'.fields = contract'.map report ∧
      e.missingRequired = (contract.filter fun f => (report f).missing && f.required).map (·.path) ∧
      e'.missingRequired = (contract'.filter fun f => (report f).missing && f.required).map (·.path) ∧
      ∀ path, Value.sorted <$> e.data.find path = Value.sorted <$> e'.data.find path := by
  have hdiverge' : Plain.Apart contract' := hdiverge.perm hperm fun h => h.symm
  rw [evaluate_eq_plain_of_apart settings payload hdiverge, Plain.evaluate_eq_ok_iff hdiverge] at he
  obtain ⟨hall, hwrites, hfields, hmissing⟩ := he
  have hreports : (contract.map (Plain.reportAlone settings payload)).Pairwise fun r s =>
      Path.Diverge (Path.segments r.path) (Path.segments s.path) := by
    have hpath : ∀ f ∈ contract, (Plain.reportAlone settings payload f).path = f.path := by
      intro f hf
      obtain ⟨r, hr⟩ := hall f hf
      rw [Plain.reportAlone, hr]
      exact (Plain.path_of_reportOn hr).1
    rw [List.pairwise_map]
    refine hdiverge.imp_of_mem fun hf hg h => ?_
    rwa [hpath _ hf, hpath _ hg]
  obtain ⟨data, hdata, hsame⟩ :=
    Plain.foldlM_write_perm (hperm.map (Plain.reportAlone settings payload)) hreports rfl hwrites
  have hall' : ∀ f ∈ contract',
      Outcome.Returns (Plain.reportOn settings (.object payload) (.object payload) f) :=
    fun f hf => hall f (hperm.mem_iff.mpr hf)
  refine ⟨⟨data, contract'.map (Plain.reportAlone settings payload), _⟩,
    Plain.reportAlone settings payload, ?_, hfields, rfl, hmissing, rfl, fun path => ?_⟩
  · rw [evaluate_eq_plain_of_apart settings payload hdiverge', Plain.evaluate_eq_ok_iff hdiverge']
    exact ⟨hall', hdata, rfl, rfl⟩
  · rw [← Value.find_sorted, hsame, Value.find_sorted]

/-- A contract that writes two new keys and asks for a third. -/
def totalContract : Contract :=
  [{ path := "total", externalPath := .text "order.total", transform := .text "number" },
    { path := "buyer", externalPath := .text "order.buyer", transform := .text "uppercase" },
    { path := "site", required := true }]

/-- A payload with an order that has a buyer and a total. -/
def totalPayload : Entries :=
  [("order", .object [("buyer", .text "ada"), ("total", .text "12")])]

/-- In the reverse order the same field is missing, and the new keys of the data change places. -/
theorem evaluate_perm_total :
    (totalContract.Pairwise fun f g => Path.Diverge (Path.segments f.path) (Path.segments g.path)) ∧
    totalContract.Perm totalContract.reverse ∧
    ∃ e e', evaluate totalContract [] (.object totalPayload) = .ok e ∧
      evaluate totalContract.reverse [] (.object totalPayload) = .ok e' ∧
      (e.data.object?.map fun entries => entries.map (·.1)) = some ["order", "total", "buyer"] ∧
      (e'.data.object?.map fun entries => entries.map (·.1)) = some ["order", "buyer", "total"] ∧
      e.missingRequired = ["site"] ∧ e'.missingRequired = ["site"] ∧
      ∀ path, Value.sorted <$> e.data.find path = Value.sorted <$> e'.data.find path := by
  have hdiverge : totalContract.Pairwise fun f g =>
      Path.Diverge (Path.segments f.path) (Path.segments g.path) := by decide +kernel
  have hforward : ∃ e, evaluate totalContract [] (.object totalPayload) = .ok e ∧
      (e.data.object?.map fun entries => entries.map (·.1)) = some ["order", "total", "buyer"] ∧
      e.missingRequired = ["site"] := by decide +kernel
  have hbackward : ∃ e, evaluate totalContract.reverse [] (.object totalPayload) = .ok e ∧
      (e.data.object?.map fun entries => entries.map (·.1)) = some ["order", "buyer", "total"] ∧
      e.missingRequired = ["site"] := by decide +kernel
  obtain ⟨e, he, hkeys, hmissing⟩ := hforward
  obtain ⟨e', he', hkeys', hmissing'⟩ := hbackward
  obtain ⟨e'', report, he'', -, -, -, -, hsame⟩ :=
    evaluate_perm hdiverge (List.reverse_perm totalContract).symm he
  obtain rfl := Except.ok.inj (he'.symm.trans he'')
  exact ⟨hdiverge, (List.reverse_perm _).symm, e, e', he, he', hkeys, hkeys', hmissing, hmissing', hsame⟩

end Contract

end Pagewright
