import Pagewright.Proofs.Store.Progress

/-!
# Two further versions at once

Two requests for further versions of one template are in progress on the same store, and their accesses
come in any order (`Pair.run`). Both succeed, but only where one wrote its version before the other looked
for the versions that are there do they get different numbers and are both versions kept. Where both were
adding at the same time, they get one number, and the version that is written last takes the place of the
other (`both_versions_kept`).

What the two requests can have done so far is one of few things (`Ordered`), and each access leads from one
to another (`Together.proceeds`).
-/

namespace Pagewright.Store

open Procedure

variable {supply : Supply} {w : World} {d d' : Disk} {id : String} {content actor : Bool → Value}
  {vs us : List TemplateVersion} {overlapped : Bool} {a a' b : Phase} {access : Option Access}

/-! ## Requests in turn -/

/-- A request in progress: what is left of it, and whether it is adding its version. -/
structure Request where
  rest : Procedure StoredTemplate
  adding : Bool := false

/-- A request after its next access. -/
def Request.after (r : Request) (a : Advance StoredTemplate) : Request :=
  ⟨a.rest, addingAfter r.adding a.access⟩

/-- What a request that is done and succeeded has returned. -/
def Request.result? (r : Request) : Option StoredTemplate :=
  match r.rest with
  | done (.ok t) => some t
  | _ => none

theorem Request.exists_of_result? {r : Request} (h : r.result?.isSome = true) :
    ∃ t, r.rest = done (.ok t) := by
  unfold result? at h
  split at h
  · exact ⟨_, ‹_›⟩
  · cases h

/-- Two requests in progress on one store. -/
structure Pair where
  world : World
  request : Bool → Request
  /-- Whether both were adding their versions at the same time. -/
  overlapped : Bool := false

/-- One of the requests makes its next access. -/
def Pair.step (supply : Supply) (p : Pair) (turn : Bool) : Pair :=
  let a := advance supply p.world (p.request turn).rest
  let request := Function.update p.request turn ((p.request turn).after a)
  ⟨a.world, request, p.overlapped || ((request false).adding && (request true).adding)⟩

/-- The requests make accesses, each of them in turn. -/
def Pair.run (supply : Supply) (p : Pair) (turns : List Bool) : Pair := turns.foldl (Pair.step supply) p

/-- Two requests for further versions of a template. -/
def Pair.start (w : World) (id : String) (content actor : Bool → Value) : Pair where
  world := w
  request i := ⟨createVersion id (content i) (actor i), false⟩

/-! ## Phases of both requests -/

/-- Phases of two requests, the first of which is not behind the other, on a template that had the versions
`vs`; the versions that it has now, and whether the requests overlapped. -/
inductive Ordered (vs : List TemplateVersion) : Phase → Phase → List TemplateVersion → Bool → Prop where
  | start : Ordered vs .before .before vs false
  | one : Ordered vs (.adding vs.length) .before vs false
  | both : Ordered vs (.adding vs.length) (.adding vs.length) vs true
  | first {v : TemplateVersion} (h : v.number = vs.length + 1) :
      Ordered vs (.added v) .before (vs ++ [v]) false
  | behind {v : TemplateVersion} (h : v.number = vs.length + 1) :
      Ordered vs (.added v) (.adding (vs.length + 1)) (vs ++ [v]) false
  | beside {v : TemplateVersion} (h : v.number = vs.length + 1) :
      Ordered vs (.added v) (.adding vs.length) (vs ++ [v]) true
  | apart {v u : TemplateVersion} (h : v.number = vs.length + 1) (hu : u.number = vs.length + 2) :
      Ordered vs (.added v) (.added u) (vs ++ [v, u]) false
  | replaced {v u : TemplateVersion} (h : v.number = vs.length + 1) (hu : u.number = vs.length + 1) :
      Ordered vs (.added v) (.added u) (vs ++ [u]) true

/-- Phases of two requests. -/
def Together (vs : List TemplateVersion) (a b : Phase) (us : List TemplateVersion) (overlapped : Bool) :
    Prop :=
  Ordered vs a b us overlapped ∨ Ordered vs b a us overlapped

theorem Together.symm (h : Together vs a b us overlapped) : Together vs b a us overlapped := Or.symm h

theorem Together.le_length (h : Together vs a b us overlapped) {k : ℕ} (hk : a = .adding k) :
    k ≤ us.length := by
  subst hk
  rcases h with h | h <;> cases h <;> simp

theorem Together.overlapped_eq (h : Together vs a b us overlapped) :
    (overlapped || (a.isAdding && b.isAdding)) = overlapped := by
  rcases h with h | h <;> cases h <;> rfl

/-- An access of one request, while the other waits. -/
theorem Together.proceeds {content : Value} (h : Together vs a b us overlapped) (hd : Usable d id us)
    (hp : Proceeds id content d us a a' access d') :
    ∃ us', Usable d' id us' ∧ Together vs a' b us' (overlapped || (a'.isAdding && b.isAdding)) := by
  cases hp with
  | quietly hd' =>
    refine ⟨us, hd', ?_⟩
    rw [h.overlapped_eq]
    exact h
  | lists =>
    refine ⟨us, hd, ?_⟩
    rcases h with h | h
    · cases h
      exact .inl .one
    · cases h with
      | start => exact .inl .one
      | one => exact .inl .both
      | first hv =>
        rw [List.length_append]
        exact .inr (.behind hv)
  | @writes k v path hnumber hcontent =>
    have hv : contentOf v.content = v.content := by rw [hcontent, contentOf_contentOf]
    rcases h with h | h
    · cases h with
      | one => exact ⟨vs ++ [v], hd.add hnumber hv, .inl (.first hnumber)⟩
      | both => exact ⟨vs ++ [v], hd.add hnumber hv, .inl (.beside hnumber)⟩
    · cases h with
      | both => exact ⟨vs ++ [v], hd.add hnumber hv, .inl (.beside hnumber)⟩
      | @behind u hu =>
        have hadd := hd.add (by simpa using hnumber) hv
        rw [List.append_assoc] at hadd
        refine ⟨vs ++ [u, v], hadd, .inr (.apart hu ?_)⟩
        push_cast at hnumber
        omega
      | @beside u hu =>
        exact ⟨vs ++ [v], hd.replace (hnumber.trans hu.symm) hv, .inr (.replaced hu hnumber)⟩

/-! ## Any number of accesses -/

/-- Two requests for further versions of a template that had the versions `vs` are in progress. -/
structure Pair.InProgress (p : Pair) (id : String) (content actor : Bool → Value) (vs : List TemplateVersion)
    (phase : Bool → Phase) (us : List TemplateVersion) : Prop where
  stage : ∀ i, Stage id (content i) (actor i) (p.request i).rest (phase i)
  adding_eq : ∀ i, (p.request i).adding = (phase i).isAdding
  content_eq : ∀ i v, phase i = .added v → v.content = contentOf (content i)
  usable : Usable p.world.disk id us
  together : Together vs (phase false) (phase true) us p.overlapped

theorem Pair.inProgress_start (h : Usable w.disk id vs) (content actor : Bool → Value) :
    (Pair.start w id content actor).InProgress id content actor vs (fun _ => .before) vs where
  stage _ := .start
  adding_eq _ := rfl
  content_eq _ _ hphase := by cases hphase
  usable := h
  together := .inl .start

theorem Pair.InProgress.together_turn {p : Pair} {phase : Bool → Phase}
    (h : p.InProgress id content actor vs phase us) (i : Bool) :
    Together vs (phase i) (phase !i) us p.overlapped := by
  cases i with
  | false => exact h.together
  | true => exact h.together.symm

theorem Pair.InProgress.step {p : Pair} {phase : Bool → Phase}
    (h : p.InProgress id content actor vs phase us) (turn : Bool) :
    ∃ phase us, (p.step supply turn).InProgress id content actor vs phase us := by
  obtain ⟨next, hstage, hproceeds⟩ := (h.stage turn).proceeds h.usable
    fun k hk => (h.together_turn turn).le_length hk
  obtain ⟨us', husable, htogether⟩ := (h.together_turn turn).proceeds h.usable hproceeds
  have hadding (i : Bool) : ((p.step supply turn).request i).adding =
      (Function.update phase turn next i).isAdding := by
    by_cases hi : i = turn
    · subst hi
      simp only [Pair.step, Function.update_self, Request.after, h.adding_eq]
      exact hproceeds.adding_eq
    · simp only [Pair.step, Function.update_of_ne hi, h.adding_eq]
  refine ⟨Function.update phase turn next, us', fun i => ?_, hadding, fun i v hv => ?_, husable, ?_⟩
  · by_cases hi : i = turn
    · subst hi
      simpa only [Pair.step, Function.update_self, Request.after] using hstage
    · simpa only [Pair.step, Function.update_of_ne hi] using h.stage i
  · by_cases hi : i = turn
    · subst hi
      rw [Function.update_self] at hv
      subst hv
      exact hproceeds.content_eq.elim (h.content_eq i v) fun hcontent => hcontent
    · rw [Function.update_of_ne hi] at hv
      exact h.content_eq i v hv
  · have hoverlapped : (p.step supply turn).overlapped = (p.overlapped ||
        ((Function.update phase turn next false).isAdding &&
          (Function.update phase turn next true).isAdding)) := by
      rw [← hadding, ← hadding]
      rfl
    rw [hoverlapped]
    cases turn with
    | false => exact htogether
    | true =>
      rw [Bool.and_comm]
      exact htogether.symm

theorem Pair.InProgress.run {p : Pair} {phase : Bool → Phase}
    (h : p.InProgress id content actor vs phase us) (turns : List Bool) :
    ∃ phase us, (p.run supply turns).InProgress id content actor vs phase us := by
  induction turns generalizing p phase us with
  | nil => exact ⟨phase, us, h⟩
  | cons turn turns ih =>
    obtain ⟨phase', us', hstep⟩ := h.step turn
    exact ih hstep

/-- What there is when both wrote their versions. -/
theorem Pair.InProgress.of_added {p : Pair} {phase : Bool → Phase} {v : Bool → TemplateVersion}
    (h : p.InProgress id content actor vs phase us) (hphase : ∀ i, phase i = .added (v i)) :
    ((v false).number ≠ (v true).number ↔ p.overlapped = false) ∧ ∃ more, us = vs ++ more ∧
      (p.overlapped = false → ∃ i, more = [v !i, v i]) ∧ (p.overlapped = true → ∃ i, more = [v i]) := by
  have htogether := h.together
  rw [hphase, hphase] at htogether
  generalize p.overlapped = overlapped at htogether ⊢
  rcases htogether with h | h
  · cases h with
    | apart hv hu => exact ⟨⟨fun _ => rfl, fun _ => by omega⟩, _, rfl, fun _ => ⟨true, rfl⟩, nofun⟩
    | replaced hv hu =>
      exact ⟨⟨fun hne => absurd (hv.trans hu.symm) hne, nofun⟩, _, rfl, nofun, fun _ => ⟨true, rfl⟩⟩
  · cases h with
    | apart hv hu => exact ⟨⟨fun _ => rfl, fun _ => by omega⟩, _, rfl, fun _ => ⟨false, rfl⟩, nofun⟩
    | replaced hv hu =>
      exact ⟨⟨fun hne => absurd (hu.trans hv.symm) hne, nofun⟩, _, rfl, nofun, fun _ => ⟨false, rfl⟩⟩

/-- Two requests for further versions of a template, whose accesses come in any order, both succeed and are
given versions with their contents. Where they did not overlap, the versions have different numbers and both
are added to the others. Where they did, the versions have one number and only one of them is added. -/
theorem both_versions_kept {supply : Supply} {before : List Attempt} {w : World}
    (hbefore : runAttempts supply {} before = w) (hfresh : Fresh supply w.ids) {id : String}
    (hrecord : w.disk.find? (recordPath id) ≠ none) {content actor : Bool → Value} {turns : List Bool}
    {p : Pair} (hrun : (Pair.start w id content actor).run supply turns = p) {o : Bool → Outcome StoredTemplate}
    (hdone : ∀ i, (p.request i).rest = done (o i)) :
    ∃ (vs added : List TemplateVersion) (t : Bool → StoredTemplate) (v : Bool → TemplateVersion),
      (∀ i, o i = .ok (t i) ∧ (t i).version = some (v i) ∧ (v i).content = contentOf (content i)) ∧
      Goes supply w (versions id) w (.ok vs) ∧ Goes supply p.world (versions id) p.world (.ok (added ++ vs)) ∧
      ((v false).number ≠ (v true).number ↔ p.overlapped = false) ∧
      (p.overlapped = false → ∃ i, added = [v i, v !i]) ∧ (p.overlapped = true → ∃ i, added = [v i]) := by
  subst hbefore hrun
  obtain ⟨horder, -⟩ := (inOrder_empty supply).runAttempts hfresh before (Nat.le_refl _)
  obtain ⟨vs, hkept⟩ : ∃ vs, Kept (runAttempts supply {} before).disk id vs := by
    cases horder id with
    | absent h => exact absurd h.record_eq hrecord
    | kept h _ => exact ⟨_, h⟩
  obtain ⟨phase, us, h⟩ := (Pair.inProgress_start (hkept.usable hrecord) content actor).run turns
  have hadded (i : Bool) : ∃ v t, phase i = .added v ∧ o i = .ok t ∧ t.version = some v := by
    have hstage := h.stage i
    rw [hdone i] at hstage
    exact hstage.of_done h.usable fun k hk => (h.together_turn i).le_length hk
  choose v t hphase hok hversion using hadded
  obtain ⟨hnumbers, more, rfl, hapart, hreplaced⟩ := h.of_added hphase
  have hversions : Goes supply _ (versions id) _ _ := goes_versions h.usable.isHexId h.usable.toHasVersions
  rw [List.reverse_append] at hversions
  refine ⟨vs.reverse, more.reverse, t, v, fun i => ⟨hok i, hversion i, h.content_eq i _ (hphase i)⟩,
    goes_versions hkept.isHexId hkept.toHasVersions, hversions, hnumbers, fun hfalse => ?_, fun htrue => ?_⟩
  · obtain ⟨i, rfl⟩ := hapart hfalse
    exact ⟨i, rfl⟩
  · obtain ⟨i, rfl⟩ := hreplaced htrue
    exact ⟨i, rfl⟩

/-- An invoice with its first version. -/
def firstInvoice : List Attempt := [⟨.create (.text "Invoice") .null (.text "first") .null, none⟩]

/-- Two contents are sent for the invoice, and the requests make accesses in turn. -/
def bothSent (turns : List Bool) : Pair :=
  (Pair.start (runAttempts counted {} firstInvoice) (counted.id 0)
    (fun i => .text (if i then "right" else "left")) fun _ => .null).run counted turns

/-- One request looks for versions after the other wrote its own, which it then goes on to record. -/
def takingTurns : List Bool :=
  [true, false, false, false, true, false, false, true, true, true, true, false, true, false, true, false,
    true]

/-- Where they take turns, both versions are kept. -/
theorem both_versions_kept_takingTurns :
    ∃ (vs added : List TemplateVersion) (v : Bool → TemplateVersion),
      (∀ i, (v i).content = .text (if i then "right" else "left")) ∧ (v false).number ≠ (v true).number ∧
      Goes counted (bothSent takingTurns).world (versions (counted.id 0)) (bothSent takingTurns).world
        (.ok (added ++ vs)) ∧ ∃ i, added = [v i, v !i] := by
  have hturns : (runAttempts counted {} firstInvoice).ids ≤ 8 ∧
      ((runAttempts counted {} firstInvoice).disk.find? (recordPath (counted.id 0))).isSome = true ∧
      (∀ i, ((bothSent takingTurns).request i).result?.isSome = true) ∧
      (bothSent takingTurns).overlapped = false := by
    decide +kernel
  choose t hdone using fun i => Request.exists_of_result? (hturns.2.2.1 i)
  obtain ⟨vs, added, t, v, hgiven, -, hversions, hnumbers, hadded, -⟩ := both_versions_kept rfl
    (fresh_counted.mono hturns.1) (Option.isSome_iff_ne_none.mp hturns.2.1) rfl hdone
  refine ⟨vs, added, v, fun i => (hgiven i).2.2.trans ?_, hnumbers.mpr hturns.2.2.2, hversions,
    hadded hturns.2.2.2⟩
  cases i <;> rfl

/-- Both requests look for versions before one of them writes its own. -/
def overlapping : List Bool := List.replicate 4 false ++ List.replicate 8 true ++ List.replicate 4 false

/-- Where they overlap, both succeed with version 2, and one content is lost. -/
theorem not_both_versions_kept_overlapping :
    (∀ i, (((bothSent overlapping).request i).result?.bind (·.version)).map
      (fun v => (v.number, v.content.display)) = some (2, if i then "right" else "left")) ∧
    ((run counted (bothSent overlapping).world (versions (counted.id 0))).2.outcome.toOption.map fun vs =>
      vs.map fun v => (v.number, v.content.display)) = some [(2, "left"), (1, "first")] := by
  decide +kernel

end Pagewright.Store
