import Pagewright.Proofs.Contract.Isolation
import Pagewright.Proofs.Rendering.Modes
import Pagewright.Proofs.Template.Sync

/-!
# Fields that change nothing

A field is neutral (`ContractField.IsNeutral`) if it reads the payload at the very path it writes, leaves what
it finds as it is, has no default worth showing and is not required. The field that a path gets on its own is
of this kind.

1. What a neutral field finds in the payload stands at the same place of a record that is still the payload, so
   writing it there changes nothing (`Value.assign_of_find`). Paths may overlap or spell one place in two ways:
   each step is back where it started (`Contract.Plain.step_of_isNeutral`).
2. Such steps disturb nothing that was written before. So the evaluation over shared values does what its plain
   reading does, which ends with the payload (`Contract.evaluate_of_isNeutral`).
3. A layout knows the contract by its data only, so a template without a contract is laid out the same after
   its contract was brought in line (`Template.layout_of_syncContract`).
-/

namespace Pagewright

/-- A field that takes the payload's own value to its own place, as it is, or nothing. -/
structure ContractField.IsNeutral (f : ContractField) : Prop where
  external : f.isExternal = true
  own : f.payloadPath = .text f.path
  kept : f.transform? = .ok none
  blank : f.hasDefault = true → f.defaultValue.isPresent = false
  optional : f.required = false

theorem Template.isNeutral_defaultField (path : String) : (defaultField path).IsNeutral where
  external := rfl
  own := by
    show (Value.text path).orElse (.text path) = .text path
    rw [Value.orElse, ite_self]
  kept := rfl
  blank _ := rfl
  optional := rfl

namespace Contract

namespace Plain

variable {settings : Entries} {payload : Value} {f : ContractField} {contract : Contract}

/-- A neutral field finds what the payload has at its path, whether it looks into the payload or into a record
that is still the payload. -/
theorem source_of_isNeutral (hf : f.IsNeutral) (payload : Value) :
    source payload payload f = payload.find f.path := by
  rw [source, if_pos hf.external, hf.own, findPayload]
  cases payload.find f.path with
  | error failure => rfl
  | ok found =>
    rw [Outcome.ok_bind]
    split <;> rfl

/-- A neutral field gets a value of the payload, or none worth showing. -/
theorem find_of_resolve (hf : f.IsNeutral) {found : Value} {usedDefault : Bool}
    (h : resolve payload payload f = .ok (found, usedDefault)) (hfound : found.isPresent = true) :
    payload.find f.path = .ok found := by
  rw [resolve, source_of_isNeutral hf, Outcome.bind_eq_ok] at h
  obtain ⟨u, hu, h⟩ := h
  split at h
  · rename_i hdefault
    obtain ⟨rfl, -⟩ := Prod.mk.inj (Except.ok.inj h)
    rw [Bool.and_eq_true] at hdefault
    rw [hf.blank hdefault.2] at hfound
    cases hfound
  · obtain ⟨rfl, -⟩ := Prod.mk.inj (Except.ok.inj h)
    exact hu

theorem step_of_isNeutral (hf : f.IsNeutral) {record' : Value} {r : FieldReport}
    (h : step settings payload payload f = .ok (record', r)) : record' = payload ∧ r.required = false := by
  rw [step, Outcome.bind_eq_ok] at h
  obtain ⟨⟨found, usedDefault⟩, hresolve, h⟩ := h
  dsimp only at h
  split at h
  · obtain ⟨rfl, rfl⟩ := Prod.mk.inj (Except.ok.inj h)
    exact ⟨rfl, hf.optional⟩
  · rename_i hfound
    have hpresent : found.isPresent = true := by simpa using hfound
    have hkept : f.apply found settings = .ok .kept := by
      rw [ContractField.apply, hf.kept]
      rfl
    have hnull : found.isNull = false := by cases found <;> trivial
    simp only [hkept, Outcome.ok_bind, Transformed.value, hpresent, if_true,
      Value.assign_of_find (find_of_resolve hf hresolve hpresent) hnull] at h
    obtain ⟨rfl, rfl⟩ := Prod.mk.inj (Except.ok.inj h)
    exact ⟨rfl, hf.optional⟩

theorem run_of_isNeutral (hcontract : ∀ f ∈ contract, f.IsNeutral) {record' : Value}
    {reports : List FieldReport} (h : run settings payload payload contract = .ok (record', reports)) :
    record' = payload ∧ ∀ r ∈ reports, r.required = false := by
  induction contract generalizing reports with
  | nil =>
    obtain ⟨rfl, rfl⟩ := Prod.mk.inj (Except.ok.inj h)
    exact ⟨rfl, fun r hr => absurd hr List.not_mem_nil⟩
  | cons f rest ih =>
    obtain ⟨hf, hrest⟩ := List.forall_mem_cons.mp hcontract
    obtain ⟨⟨record₁, r⟩, hstep, h⟩ := Outcome.bind_eq_ok.mp h
    obtain ⟨rfl, hr⟩ := step_of_isNeutral hf hstep
    obtain ⟨⟨record₂, reports⟩, hrun, h⟩ := Outcome.bind_eq_ok.mp h
    obtain ⟨rfl, rfl⟩ := Prod.mk.inj (Except.ok.inj h)
    obtain ⟨rfl, hreports⟩ := ih hrest hrun
    exact ⟨rfl, List.forall_mem_cons.mpr ⟨hr, hreports⟩⟩

theorem undisturbed_of_isNeutral (hcontract : ∀ f ∈ contract, f.IsNeutral) (held : Set (List ℕ)) :
    Undisturbed settings payload held payload contract := by
  induction contract generalizing held with
  | nil => trivial
  | cons f rest ih =>
    obtain ⟨hf, hrest⟩ := List.forall_mem_cons.mp hcontract
    intro record' r hstep
    obtain ⟨rfl, -⟩ := step_of_isNeutral hf hstep
    exact ⟨Quiet.refl _ _ _, ih hrest _⟩

end Plain

/-- Neutral fields leave the payload as it is, and none of them is missed. -/
theorem evaluate_of_isNeutral {contract : Contract} (hcontract : ∀ f ∈ contract, f.IsNeutral)
    {settings payload : Entries} {e : Evaluation} (h : evaluate contract settings (.object payload) = .ok e) :
    e.data = .object payload ∧ e.missingRequired = [] := by
  have hplain := (forall_evaluate_eq_iff contract settings payload).mpr
    (Plain.undisturbed_of_isNeutral hcontract ∅) contract.length
  rw [List.take_length, h, eq_comm, Plain.evaluate, Outcome.bind_eq_ok] at hplain
  obtain ⟨⟨record, reports⟩, hrun, he⟩ := hplain
  obtain ⟨hrecord, hrequired⟩ := Plain.run_of_isNeutral hcontract hrun
  obtain rfl := Except.ok.inj he
  refine ⟨hrecord, ?_⟩
  show Plain.missingPaths reports = []
  rw [Plain.missingPaths, List.map_eq_nil_iff, List.filter_eq_nil_iff]
  intro r hr
  rw [hrequired r hr, Bool.and_false]
  exact Bool.false_ne_true

theorem evaluate_nil (settings payload : Entries) :
    evaluate [] settings (.object payload) = .ok ⟨.object payload, [], []⟩ :=
  (forall_evaluate_eq_iff [] settings payload).mpr trivial 0

end Contract

theorem Layout.assemble_withContract (t : Template) (contract : Contract) (data : Value) (evaluate : Bool)
    (pages : Option (List Int)) :
    assemble (t.withContract contract) data evaluate pages = assemble t data evaluate pages := by
  unfold assemble
  rw [Template.expandLogged_withContract]
  rfl

namespace Template

variable {t t' : Template} {payload : Entries} {e e' : Contract.Evaluation} {contract : Contract}

theorem outcome_missingBindingsLogged (t : Template) (data : Value) :
    (t.missingBindingsLogged data).outcome = t.missingBindings data := by
  unfold missingBindingsLogged
  rw [Logged.outcome_bind, Logged.outcome_lift]
  cases t.missingBindings data with
  | error failure => rfl
  | ok missing =>
    rw [Outcome.ok_bind]
    split <;> rfl

theorem outcome_layOut (t : Template) (e : Contract.Evaluation) (evaluate : Bool) (pages : Option (List Int)) :
    (t.layOut e evaluate pages).outcome = do
      let layout ← (Layout.assemble t e.data evaluate pages).outcome
      let missing ← t.missingBindings e.data
      return ⟨e, layout, missing⟩ := by
  unfold layOut
  simp only [Logged.outcome_bind, Rendering.outcome_sayLayout, Outcome.ok_bind, outcome_missingBindingsLogged,
    Logged.outcome_pure]
  rfl

theorem missingBindings_withContract (t : Template) (contract : Contract) (data : Value) :
    (t.withContract contract).missingBindings data = t.missingBindings data := by
  unfold missingBindings
  rw [textPaths_withContract]

theorem layout_layOut_withContract (hdata : e'.data = e.data) (evaluate : Bool) (pages : Option (List Int)) :
    Rendering.layout <$> ((t.withContract contract).layOut e' evaluate pages).outcome =
      Rendering.layout <$> (t.layOut e evaluate pages).outcome := by
  rw [outcome_layOut, outcome_layOut, Layout.assemble_withContract, missingBindings_withContract, hdata]
  cases (Layout.assemble t e.data evaluate pages).outcome with
  | error failure => rfl
  | ok layout => cases t.missingBindings e.data <;> rfl

/-- **Fields on their own change nothing.** Where a template has no contract, the contract that it gets when it is
brought in line leaves the payload as it is and requires nothing; so the template is laid out as before. -/
theorem layout_of_syncContract (hcontract : t.contract = []) (hsync : t.syncContract = .ok t')
    (he : t'.evaluate (.object payload) = .ok e) :
    e.data = .object payload ∧ e.missingRequired = [] ∧
      t.evaluate (.object payload) = .ok ⟨.object payload, [], []⟩ ∧
      (∀ evaluate pages,
        Layout.assemble t' e.data evaluate pages = Layout.assemble t (.object payload) evaluate pages) ∧
      (∀ evaluate pages, Rendering.layout <$> (t'.preview (.object payload) evaluate pages).outcome =
        Rendering.layout <$> (t.preview (.object payload) evaluate pages).outcome) ∧
      Rendering.layout <$> (t'.render (.object payload)).outcome =
        Rendering.layout <$> (t.render (.object payload)).outcome := by
  obtain ⟨ds, hds, hsynced⟩ := Outcome.bind_eq_ok.mp hsync
  obtain rfl : t.withContract (contractFor t.contract ds) = t' := Except.ok.inj hsynced
  have hneutral : ∀ f ∈ contractFor t.contract ds, f.IsNeutral :=
    forall_mem_contractFor (by simp [hcontract]) fun p _ => isNeutral_defaultField p
  obtain ⟨hdata, hmissing⟩ := Contract.evaluate_of_isNeutral hneutral he
  have hplain : t.evaluate (.object payload) = .ok ⟨.object payload, [], []⟩ := by
    rw [evaluate, hcontract, Contract.evaluate_nil]
  have hlayOut (evaluate : Bool) (pages : Option (List Int)) :
      Rendering.layout <$> ((t.withContract (contractFor t.contract ds)).layOut e evaluate pages).outcome =
        Rendering.layout <$> (t.layOut ⟨.object payload, [], []⟩ evaluate pages).outcome :=
    layout_layOut_withContract hdata evaluate pages
  refine ⟨hdata, hmissing, hplain, fun evaluate pages => ?_, fun evaluate pages => ?_, ?_⟩
  · rw [hdata, Layout.assemble_withContract]
  · unfold preview
    simp only [Logged.outcome_bind, outcome_evaluateLogged, he, hplain, Outcome.ok_bind]
    exact hlayOut evaluate pages
  · unfold render
    simp only [Logged.outcome_bind, Rendering.outcome_sayStart, outcome_evaluateLogged, he, hplain, Outcome.ok_bind,
      hmissing, List.isEmpty_nil, if_true]
    exact hlayOut true none

/-- A receipt that reads one item in two spellings, the list that it is in, and a customer with a part. -/
def receipt : Template :=
  { (default : Template) with
    elements := [cornerElement "items" .null (.text (.text "{{items[0].sku}} {{items.0.sku}} {{items}}") false),
      cornerElement "customer" (.text "customer.vip") (.text (.text "{{customer}} {{customer.name}}") false)] }

/-- An order without a word on whether the customer is a good one. -/
def receiptPayload : Entries :=
  [("items", .list [.object [("sku", .text "A-1"), ("count", .int 2)], .null]),
    ("customer", .object [("name", .text "Ada"), ("since", .int 1843)])]

/-- The paths of the receipt overlap; its contract leaves the order as it is all the same. -/
theorem layout_of_syncContract_receipt : ∃ t' e, receipt.contract = [] ∧ receipt.syncContract = .ok t' ∧
    t'.contract.map (·.path) = ["customer", "customer.name", "customer.vip", "items", "items.0.sku", "items[0].sku"] ∧
    t'.evaluate (.object receiptPayload) = .ok e ∧ e.data = .object receiptPayload ∧ e.missingRequired = [] ∧
    Rendering.layout <$> (t'.preview (.object receiptPayload) true none).outcome =
      Rendering.layout <$> (receipt.preview (.object receiptPayload) true none).outcome := by
  have hds : receipt.discover =
      .ok ["customer", "customer.name", "customer.vip", "items", "items.0.sku", "items[0].sku"] := by
    rw [discover_of_plain (by decide)]
    decide +kernel
  have hsync := syncContract_eq hds
  obtain ⟨e, he, -⟩ : ∃ e, (receipt.withContract (contractFor receipt.contract
      ["customer", "customer.name", "customer.vip", "items", "items.0.sku", "items[0].sku"])).evaluate
        (.object receiptPayload) = .ok e ∧ e.missingRequired = [] := by
    decide +kernel
  obtain ⟨hdata, hmissing, -, -, hpreview, -⟩ := layout_of_syncContract rfl hsync he
  exact ⟨_, e, rfl, hsync, map_path_contractFor _ _, he, hdata, hmissing, hpreview true none⟩

end Template

end Pagewright
