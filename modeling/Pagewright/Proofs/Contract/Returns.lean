import Mathlib.Tactic.MkIffOfInductiveProp
import Pagewright.Proofs.Contract.Simulation
import Pagewright.Proofs.Record.Readable

/-!
# Evaluations that return

A contract whose fields read and write along readable paths, with transforms that have names, is evaluated
over trees with a result, whatever the payload (`Contract.Plain.returns_evaluate`). If the payload is a
document and the defaults are, the data is one as well (`Contract.Plain.isDocument_of_evaluate`).
-/

namespace Pagewright

/-- A field that reads and writes along readable paths. -/
@[mk_iff]
structure ContractField.IsReadable (f : ContractField) : Prop where
  path : Path.IsReadable f.path
  payloadPath : f.isExternal = true → ∃ s, f.payloadPath = .text s ∧ Path.IsReadable s

instance {v : Value} {P : String → Prop} [∀ s, Decidable (P s)] : Decidable (∃ s, v = .text s ∧ P s) :=
  decidable_of_iff (∃ s ∈ v.text?, P s) (by cases v <;> simp [Value.text?])

instance ContractField.instDecidableIsReadable (f : ContractField) : Decidable f.IsReadable :=
  decidable_of_iff _ (isReadable_iff f).symm

namespace Contract.Plain

variable {f : ContractField} {settings : Entries} {payload record record' found : Value} {r : FieldReport}
  {usedDefault : Bool} {contract : Contract}

/-! ## Results -/

theorem returns_source (hf : f.IsReadable) (payload record : Value) :
    Outcome.Returns (source payload record f) := by
  unfold source
  split
  · rename_i hexternal
    obtain ⟨s, hs, hreadable⟩ := hf.payloadPath hexternal
    rw [hs]
    refine Outcome.Returns.bind (Value.returns_find hreadable payload) fun found _ => ?_
    split
    · exact Outcome.returns_pure found
    · exact Value.returns_find hf.path record
  · exact Value.returns_find hf.path record

theorem returns_resolve (hf : f.IsReadable) (payload record : Value) :
    Outcome.Returns (resolve payload record f) := by
  refine (returns_source hf payload record).bind fun found _ => ?_
  split <;> exact Outcome.returns_pure _

theorem returns_apply (hf : f.transformName.isContainer = false) (v : Value) (settings : Entries) :
    Outcome.Returns (f.apply v settings) := by
  have htransform : Outcome.Returns f.transform? := by
    unfold ContractField.transform?
    split
    · exact Outcome.returns_ok _
    · rw [hf]
      exact Outcome.returns_ok _
  refine htransform.bind fun t _ => ?_
  cases t <;> exact Outcome.returns_pure _

theorem returns_step (hf : f.IsReadable) (hname : f.transformName.isContainer = false) (settings : Entries)
    (payload : Value) (hrecord : record.isContainer = true) :
    Outcome.Returns (step settings payload record f) := by
  refine (returns_resolve hf payload record).bind fun ⟨found, usedDefault⟩ _ => ?_
  dsimp only
  split
  · exact Outcome.returns_pure _
  · refine (returns_apply hname found settings).bind fun result _ => ?_
    split
    · obtain ⟨c, rfl⟩ := Value.exists_toValue hrecord
      exact (Value.returns_assign hf.path c _).bind fun _ _ => Outcome.returns_pure _
    · exact Outcome.returns_pure _

theorem returns_run (hreadable : ∀ f ∈ contract, f.IsReadable)
    (hnames : ∀ f ∈ contract, f.transformName.isContainer = false) (settings : Entries) (payload : Value)
    (hrecord : record.isContainer = true) : Outcome.Returns (run settings payload record contract) := by
  induction contract generalizing record with
  | nil => exact Outcome.returns_ok _
  | cons f rest ih =>
    obtain ⟨hf, hrest⟩ := List.forall_mem_cons.mp hreadable
    obtain ⟨hname, hnames⟩ := List.forall_mem_cons.mp hnames
    refine (returns_step hf hname settings payload hrecord).bind fun ⟨record', r⟩ hstep => ?_
    exact (ih hrest hnames (isContainer_of_step hrecord hstep)).bind fun _ _ => Outcome.returns_pure _

/-- A contract with readable paths and named transforms is evaluated on any payload. -/
theorem returns_evaluate (hreadable : ∀ f ∈ contract, f.IsReadable)
    (hnames : ∀ f ∈ contract, f.transformName.isContainer = false) (settings payload : Entries) :
    Outcome.Returns (evaluate contract settings payload) :=
  (returns_run hreadable hnames settings (.object payload) rfl).bind fun _ _ => Outcome.returns_pure _

/-! ## Documents -/

theorem isDocument_of_source (hpayload : Json.isDocument payload = true)
    (hrecord : Json.isDocument record = true) (h : source payload record f = .ok found) :
    Json.isDocument found = true := by
  unfold source at h
  split at h
  · obtain ⟨first, hfirst, h⟩ := Outcome.bind_eq_ok.mp h
    split at h
    · rw [← Except.ok.inj h]
      cases hpath : f.payloadPath with
      | text s =>
        rw [hpath] at hfirst
        exact Value.isDocument_of_find hpayload hfirst
      | _ =>
        rw [hpath] at hfirst
        cases hfirst
    · exact Value.isDocument_of_find hrecord h
  · exact Value.isDocument_of_find hrecord h

theorem isDocument_of_resolve (hpayload : Json.isDocument payload = true)
    (hrecord : Json.isDocument record = true) (hdefault : Json.isDocument f.defaultValue = true)
    (h : resolve payload record f = .ok (found, usedDefault)) : Json.isDocument found = true := by
  obtain ⟨first, hfirst, h⟩ := Outcome.bind_eq_ok.mp h
  split at h
  · rw [← (Prod.mk.inj (Except.ok.inj h)).1]
    exact hdefault
  · rw [← (Prod.mk.inj (Except.ok.inj h)).1]
    exact isDocument_of_source hpayload hrecord hfirst

theorem isDocument_of_apply {result : Transformed} (hfound : Json.isDocument found = true)
    (h : f.apply found settings = .ok result) : Json.isDocument (result.value found) = true := by
  cases result with
  | changed w => exact (leaf_of_apply h).2
  | _ => exact hfound

theorem isDocument_of_step (hpayload : Json.isDocument payload = true)
    (hrecord : Json.isDocument record = true) (hdefault : Json.isDocument f.defaultValue = true)
    (hcontainer : record.isContainer = true) (h : step settings payload record f = .ok (record', r)) :
    Json.isDocument record' = true := by
  obtain ⟨c, rfl⟩ := Value.exists_toValue hcontainer
  obtain ⟨⟨found, usedDefault⟩, hfound, h⟩ := Outcome.bind_eq_ok.mp h
  dsimp only at h
  split at h
  · rw [← (Prod.mk.inj (Except.ok.inj h)).1]
    exact hrecord
  · obtain ⟨result, hresult, h⟩ := Outcome.bind_eq_ok.mp h
    split at h
    · obtain ⟨written, hwritten, h⟩ := Outcome.bind_eq_ok.mp h
      rw [← (Prod.mk.inj (Except.ok.inj h)).1]
      have hnew := isDocument_of_apply (isDocument_of_resolve hpayload hrecord hdefault hfound) hresult
      exact Value.isDocument_of_assign hrecord hnew hwritten
    · rw [← (Prod.mk.inj (Except.ok.inj h)).1]
      exact hrecord

theorem isDocument_of_run {reports : List FieldReport} (hpayload : Json.isDocument payload = true)
    (hrecord : Json.isDocument record = true)
    (hdefaults : ∀ f ∈ contract, Json.isDocument f.defaultValue = true)
    (hcontainer : record.isContainer = true)
    (h : run settings payload record contract = .ok (record', reports)) :
    Json.isDocument record' = true := by
  induction contract generalizing record reports with
  | nil =>
    rw [← (Prod.mk.inj (Except.ok.inj h)).1]
    exact hrecord
  | cons f rest ih =>
    obtain ⟨hdefault, hrest⟩ := List.forall_mem_cons.mp hdefaults
    obtain ⟨⟨record₁, r⟩, hstep, h⟩ := Outcome.bind_eq_ok.mp h
    obtain ⟨⟨record₂, reports⟩, hrun, h⟩ := Outcome.bind_eq_ok.mp h
    obtain ⟨rfl, -⟩ := Prod.mk.inj (Except.ok.inj h)
    exact ih (isDocument_of_step hpayload hrecord hdefault hcontainer hstep) hrest
      (isContainer_of_step hcontainer hstep) hrun

theorem isDocument_of_evaluate {payload : Entries} {e : Evaluation}
    (hpayload : Json.isDocument (.object payload) = true)
    (hdefaults : ∀ f ∈ contract, Json.isDocument f.defaultValue = true)
    (h : evaluate contract settings payload = .ok e) : Json.isDocument e.data = true := by
  obtain ⟨⟨record, reports⟩, hrun, h⟩ := Outcome.bind_eq_ok.mp h
  obtain rfl := Except.ok.inj h
  exact isDocument_of_run hpayload hpayload hdefaults rfl hrun

end Contract.Plain

end Pagewright
