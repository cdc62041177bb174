import Pagewright.Proofs.Contract.Apart
import Pagewright.Proofs.Contract.Isolation
import Pagewright.Proofs.Contract.Nesting
import Pagewright.Rendering.Basic

/-!
# Required fields of a final document

A final document is refused when a required field has found no value at its turn. The value is looked at
before the field's transform and before it is written: a transform that leaves nothing worth showing, a
path that a list refuses and a later field above the path can each take it away again. Apart from these
the document has a value at every required path (`Template.required_of_render`).
-/

namespace Pagewright

namespace Contract

/-! ## The turn of a field -/

namespace Workspace

variable {settings : Entries} {w w' : Workspace} {steps : List Step} {f : ContractField} {s : Step}

/-- A field that is not missing has found a value worth showing. -/
theorem resolve_of_step (h : w.step settings f = .ok (w', s)) : s.field = f ∧ (s.missing = false →
    ∃ (found : Slot) (usedDefault : Bool) (heap : Heap),
      w.resolve f = .ok (found, usedDefault, heap) ∧ found.isPresent = true) := by
  obtain ⟨⟨found, usedDefault, heap⟩, hresolve, h⟩ := Outcome.bind_eq_ok.mp h
  simp only at h
  split at h
  · obtain ⟨-, rfl⟩ := Prod.mk.inj (Except.ok.inj h)
    exact ⟨rfl, fun h => absurd h (by simp)⟩
  · rename_i hfound
    refine ⟨?_, fun _ => ⟨found, usedDefault, heap, hresolve, by simpa using hfound⟩⟩
    obtain ⟨result, -, h⟩ := Outcome.bind_eq_ok.mp h
    have hwritten (new : Slot) (h : (do
        if new.isPresent then
          let heap ← heap.assign w.record f.path new
          return ({ w with heap := heap },
            { field := f, usedDefault := usedDefault, problem := result.problem, written := new })
        else
          return ({ w with heap := heap },
            { field := f, usedDefault := usedDefault, problem := result.problem }) :
          Outcome (Workspace × Step)) = .ok (w', s)) : s.field = f := by
      split at h
      · obtain ⟨heap', -, h⟩ := Outcome.bind_eq_ok.mp h
        obtain ⟨-, rfl⟩ := Prod.mk.inj (Except.ok.inj h)
        rfl
      · obtain ⟨-, rfl⟩ := Prod.mk.inj (Except.ok.inj h)
        rfl
    exact hwritten _ h

/-- Where no required field is missing, each has found a value worth showing at its turn. -/
theorem exists_found_of_run {contract : Contract} {n : ℕ} (hf : contract[n]? = some f)
    (hrequired : f.required = true) (h : w.run settings contract = .ok (w', steps))
    (hmissing : missingPaths steps = []) : ∃ (w₁ : Workspace) (steps₁ : List Step) (found : Slot)
      (usedDefault : Bool) (heap : Heap), w.run settings (contract.take n) = .ok (w₁, steps₁) ∧
      w₁.resolve f = .ok (found, usedDefault, heap) ∧ found.isPresent = true := by
  obtain ⟨w₁, w₂, steps₁, s, hrun, hstep, hs⟩ := exists_step_of_run hf h
  obtain ⟨hfield, hresolve⟩ := resolve_of_step hstep
  have hnot : s.missing = false := by
    simp only [missingPaths, List.map_eq_nil_iff, List.filter_eq_nil_iff] at hmissing
    have := hmissing s (List.mem_of_getElem? hs)
    simpa [hfield, hrequired] using this
  obtain ⟨found, usedDefault, heap, hfound⟩ := hresolve hnot
  exact ⟨w₁, steps₁, found, usedDefault, heap, hrun, hfound⟩

end Workspace

/-! ## Values that stay -/

namespace Plain

variable {settings : Entries} {payload record record' : Value} {f : ContractField} {r : FieldReport}

theorem hasAt_of_step {path : String} (hrecord : record.isContainer = true) (hat : record.HasAt path)
    (hnot : ¬Path.Above (Path.segments f.path) (Path.segments path))
    (h : step settings payload record f = .ok (record', r)) : record'.HasAt path := by
  obtain ⟨c, rfl⟩ := Value.exists_toValue hrecord
  obtain ⟨-, ⟨rfl, -⟩ | ⟨hpresent, -, hassign⟩⟩ := step_cases h
  · exact hat
  · exact hat.assign hassign hpresent hnot

/-- What a record has at a path it keeps, unless a field above the path is evaluated. -/
theorem hasAt_of_run {contract : Contract} {path : String} {reports : List FieldReport}
    (hrecord : record.isContainer = true) (hat : record.HasAt path)
    (hnot : ∀ g ∈ contract, ¬Path.Above (Path.segments g.path) (Path.segments path))
    (h : run settings payload record contract = .ok (record', reports)) : record'.HasAt path := by
  induction contract generalizing record reports with
  | nil =>
    obtain ⟨rfl, -⟩ := Prod.mk.inj (Except.ok.inj h)
    exact hat
  | cons f rest ih =>
    obtain ⟨⟨record₁, r⟩, hstep, h⟩ := Outcome.bind_eq_ok.mp h
    obtain ⟨⟨record₂, reports⟩, hrun, h⟩ := Outcome.bind_eq_ok.mp h
    obtain ⟨rfl, rfl⟩ := Prod.mk.inj (Except.ok.inj h)
    exact ih (isContainer_of_step hrecord hstep)
      (hasAt_of_step hrecord hat (hnot f List.mem_cons_self) hstep)
      (fun g hg => hnot g (List.mem_cons_of_mem _ hg)) hrun

/-- Right after its turn, a field has its value at its path if it reports one and the path has a place. -/
theorem hasAt_after_turn {contract : Contract} {settings payload : Entries} {n : ℕ} {after : Evaluation}
    (hf : contract[n]? = some f) (hafter : evaluate (contract.take (n + 1)) settings payload = .ok after)
    (hr : after.fields[n]? = some r) (hpresent : r.value.isPresent = true)
    (hplace : (after.data.placeOf? f.path).isSome = true) : after.data.HasAt f.path := by
  obtain ⟨⟨record₂, reports₂⟩, hrun₂, h₂⟩ := Outcome.bind_eq_ok.mp hafter
  obtain rfl := Except.ok.inj h₂
  obtain ⟨record₁, reports₁, r', hrun, hstep, hr'⟩ := exists_step_of_run hf hrun₂
  obtain rfl := Option.some.inj (hr.symm.trans hr')
  obtain ⟨c, rfl⟩ := Value.exists_toValue (isContainer_of_run rfl hrun)
  obtain ⟨-, ⟨-, hnull⟩ | ⟨-, -, hassign⟩⟩ := step_cases hstep
  · simp [hnull, Value.isPresent] at hpresent
  · exact Value.hasAt_of_assign hassign hpresent hplace

theorem exists_evaluate_take {contract : Contract} {settings payload : Entries} {e : Evaluation}
    (h : evaluate contract settings payload = .ok e) (n : ℕ) :
    ∃ before, evaluate (contract.take n) settings payload = .ok before := by
  obtain ⟨⟨record', reports⟩, hrun, -⟩ := Outcome.bind_eq_ok.mp h
  rw [← List.take_append_drop n contract, run_append, Outcome.bind_eq_ok] at hrun
  obtain ⟨⟨record₁, reports₁⟩, hrun₁, -⟩ := hrun
  exact ⟨_, Outcome.bind_eq_ok.mpr ⟨_, hrun₁, rfl⟩⟩

/-- What the record has at a path after some fields, it has in the end if no later field is above. -/
theorem hasAt_of_take {contract : Contract} {settings payload : Entries} {n : ℕ} {path : String}
    {before after : Evaluation} (hbefore : evaluate (contract.take n) settings payload = .ok before)
    (hafter : evaluate contract settings payload = .ok after)
    (hnot : ∀ (m : ℕ) (g : ContractField), n ≤ m → contract[m]? = some g →
      ¬Path.Above (Path.segments g.path) (Path.segments path))
    (hat : before.data.HasAt path) : after.data.HasAt path := by
  obtain ⟨⟨record₁, reports₁⟩, hrun₁, h₁⟩ := Outcome.bind_eq_ok.mp hbefore
  obtain ⟨⟨record₂, reports₂⟩, hrun₂, h₂⟩ := Outcome.bind_eq_ok.mp hafter
  obtain rfl := Except.ok.inj h₁
  obtain rfl := Except.ok.inj h₂
  rw [← List.take_append_drop n contract, run_append, hrun₁, Outcome.ok_bind, Outcome.bind_eq_ok] at hrun₂
  obtain ⟨⟨record₃, reports₃⟩, hrest, heq⟩ := hrun₂
  obtain ⟨rfl, -⟩ := Prod.mk.inj (Except.ok.inj heq)
  refine hasAt_of_run (isContainer_of_run rfl hrun₁) hat (fun g hg => ?_) hrest
  obtain ⟨k, hk⟩ := List.mem_iff_getElem?.mp hg
  rw [List.getElem?_drop] at hk
  exact hnot (n + k) g (by omega) hk

end Plain

end Contract

/-! ## Final documents -/

namespace Template

variable {t : Template} {payload : Value} {r : Rendering}

/-- What it takes that a final document comes about. -/
theorem render_eq_ok (h : (t.render payload).outcome = .ok r) :
    t.evaluate payload = .ok r.evaluation ∧ r.evaluation.missingRequired = [] ∧
      (Layout.assemble t r.evaluation.data true none).outcome = .ok r.layout := by
  unfold render evaluateLogged at h
  simp only [Logged.outcome_bind, Outcome.bind_eq_ok, Logged.outcome_lift, Logged.outcome_pure,
    Except.ok.injEq] at h
  obtain ⟨-, -, e, ⟨e', heval, -, -, rfl⟩, h⟩ := h
  split at h
  · rename_i hmissing
    unfold layOut at h
    simp only [Logged.outcome_bind, Outcome.bind_eq_ok, Logged.outcome_pure, Except.ok.injEq] at h
    obtain ⟨layout, hlayout, -, -, missing, -, rfl⟩ := h
    exact ⟨heval, List.isEmpty_iff.mp hmissing, hlayout⟩
  · cases h

/-- The value that a field finds at its turn, before its transform, is worth showing. -/
def FoundAtTurn (t : Template) (payload : Entries) (n : ℕ) (f : ContractField) : Prop :=
  ∃ (w : Contract.Workspace) (steps : List Contract.Step) (found : Slot) (usedDefault : Bool)
      (heap : Heap),
    (Contract.Workspace.ofPayload payload).run t.settings (t.contract.take n) = .ok (w, steps) ∧
    w.resolve f = .ok (found, usedDefault, heap) ∧ found.isPresent = true

/-- The contract writes nowhere inside a list or object that it wrote before. -/
def IsUndisturbed (t : Template) (payload : Entries) : Prop :=
  Contract.Plain.Undisturbed t.settings (.object payload) ∅ (.object payload) t.contract

theorem foundAtTurn_of_evaluate {e : Contract.Evaluation} {n : ℕ} {f : ContractField}
    (h : t.evaluate payload = .ok e) (hmissing : e.missingRequired = []) (hf : t.contract[n]? = some f)
    (hrequired : f.required = true) : t.FoundAtTurn (payload.object?.getD []) n f := by
  obtain ⟨⟨w, steps⟩, hrun, h⟩ := Outcome.bind_eq_ok.mp h
  obtain ⟨data, -, h⟩ := Outcome.bind_eq_ok.mp h
  obtain ⟨reports, -, h⟩ := Outcome.bind_eq_ok.mp h
  obtain rfl := Except.ok.inj h
  obtain ⟨w₁, steps₁, found, usedDefault, heap, h⟩ :=
    Contract.Workspace.exists_found_of_run hf hrequired hrun hmissing
  exact ⟨w₁, steps₁, found, usedDefault, heap, h⟩

theorem evaluate_eq_plain (t : Template) (payload : Value)
    (h : t.IsUndisturbed (payload.object?.getD [])) :
    t.evaluate payload = Contract.Plain.evaluate t.contract t.settings (payload.object?.getD []) := by
  have := (Contract.forall_evaluate_eq_iff _ _ _).mpr h t.contract.length
  rwa [List.take_length] at this

/-- In a final document every required field has found a value worth showing at its turn. If no write goes
inside what was written before, the data that is laid out has such a value at the field's path, provided
that it was there after the field's turn and no later field is above. It is there after the turn if the
field reports a value and its path has a place. -/
theorem required_of_render (h : (t.render payload).outcome = .ok r) :
    t.evaluate payload = .ok r.evaluation ∧
    (Layout.assemble t r.evaluation.data true none).outcome = .ok r.layout ∧
    ∀ (n : ℕ) (f : ContractField), t.contract[n]? = some f → f.required = true →
      t.FoundAtTurn (payload.object?.getD []) n f ∧
      (t.IsUndisturbed (payload.object?.getD []) → ∃ after : Contract.Evaluation,
        Contract.evaluate (t.contract.take (n + 1)) t.settings payload = .ok after ∧
        (∀ report, after.fields[n]? = some report → report.value.isPresent = true →
          (after.data.placeOf? f.path).isSome = true → after.data.HasAt f.path) ∧
        (after.data.HasAt f.path →
          (∀ (m : ℕ) (g : ContractField), n < m → t.contract[m]? = some g →
            ¬Path.Above (Path.segments g.path) (Path.segments f.path)) →
          r.evaluation.data.HasAt f.path)) := by
  obtain ⟨heval, hmissing, hlayout⟩ := render_eq_ok h
  refine ⟨heval, hlayout, fun n f hf hrequired =>
    ⟨foundAtTurn_of_evaluate heval hmissing hf hrequired, fun hundisturbed => ?_⟩⟩
  have hplain := (Contract.forall_evaluate_eq_iff _ _ _).mpr hundisturbed (n + 1)
  have hfinal := (evaluate_eq_plain t payload hundisturbed).symm.trans heval
  obtain ⟨after, hafter⟩ := Contract.Plain.exists_evaluate_take hfinal (n + 1)
  exact ⟨after, hplain.trans hafter,
    fun report hreport hpresent hplace =>
      Contract.Plain.hasAt_after_turn hf hafter hreport hpresent hplace,
    fun hat hnot => Contract.Plain.hasAt_of_take hafter hfinal hnot hat⟩

/-- A template that only asks for the name of a buyer, trimmed. -/
def buyerTemplate : Template where
  page := ⟨100, 100, ⟨0, 0, 0, 0⟩, 0, 0⟩
  id := "buyer"
  name := ""
  version := .null
  unit := .null
  fonts := []
  styles := []
  contract := [{
    path := "name", externalPath := .text "buyer.name", required := true, transform := .text "trim" }]
  elements := []
  partials := []
  settings := []
  pageCount := none

/-- A payload with the name of a buyer. -/
def buyerNamed (name : String) : Value := .object [("buyer", .object [("name", .text name)])]

theorem expandLogged_buyerTemplate : buyerTemplate.expandLogged = ⟨[], .ok []⟩ := by cbv

theorem textPaths_buyerTemplate : buyerTemplate.textPaths = .ok [] := by
  simp [textPaths, allElements, buyerTemplate, readElements]

/-- A name is laid out where the contract puts it. -/
theorem required_of_render_ada :
    ∃ r, (buyerTemplate.render (buyerNamed " Ada ")).outcome = .ok r ∧
      r.evaluation.data.HasAt "name" := by
  have hok : (buyerTemplate.render (buyerNamed " Ada ")).outcome.isOk = true := by
    unfold render layOut missingBindingsLogged missingBindings Layout.assemble
    rw [expandLogged_buyerTemplate, textPaths_buyerTemplate]
    decide +kernel
  have hundisturbed : buyerTemplate.IsUndisturbed ((buyerNamed " Ada ").object?.getD []) :=
    Contract.Plain.undisturbed_of_pairwise _ _ (List.pairwise_singleton _ _)
  obtain ⟨r, hr⟩ := Outcome.exists_of_isOk hok
  obtain ⟨-, -, hfields⟩ := required_of_render hr
  obtain ⟨-, hlaidOut⟩ := hfields 0 buyerTemplate.contract.head! rfl rfl
  obtain ⟨after, hafter, hturn, hend⟩ := hlaidOut hundisturbed
  have hreport : ((Contract.evaluate (buyerTemplate.contract.take 1) buyerTemplate.settings
      (buyerNamed " Ada ")).toOption.map fun e =>
        ((e.fields[0]?).map (·.value.isPresent), (e.data.placeOf? "name").isSome)) =
      some (some true, true) := by decide +kernel
  rw [hafter] at hreport
  simp only [Except.toOption, Option.map_some, Option.some.injEq, Prod.mk.injEq] at hreport
  obtain ⟨report, hfields, hpresent⟩ := Option.map_eq_some_iff.mp hreport.1
  refine ⟨r, hr, hend (hturn report hfields hpresent hreport.2) fun m g hm hg => ?_⟩
  have hlt := (List.getElem?_eq_some_iff.mp hg).1
  simp only [buyerTemplate, List.length_singleton] at hlt
  omega

/-- A name of spaces passes the gate, and the data that is laid out has no name. -/
theorem not_hasAt_of_render_blank :
    ¬∀ (t : Template) (payload : Entries) (r : Rendering), (t.render (.object payload)).outcome = .ok r →
      ∀ f ∈ t.contract, f.required = true → r.evaluation.data.HasAt f.path := by
  intro hall
  have hok : (buyerTemplate.render (buyerNamed "   ")).outcome.isOk = true := by
    unfold render layOut missingBindingsLogged missingBindings Layout.assemble
    rw [expandLogged_buyerTemplate, textPaths_buyerTemplate]
    decide +kernel
  have hname : ((buyerTemplate.evaluate (buyerNamed "   ")).toOption.bind fun e =>
      (e.data.find "name").toOption.map Value.isPresent) = some false := by decide +kernel
  obtain ⟨r, hr⟩ := Outcome.exists_of_isOk hok
  obtain ⟨heval, -⟩ := render_eq_ok hr
  obtain ⟨u, hu, hpresent⟩ := hall buyerTemplate _ r hr _ List.mem_cons_self rfl
  simp [heval, hu, hpresent, Except.toOption] at hname

end Template

end Pagewright
