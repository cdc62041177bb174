import Pagewright.Proofs.Store.Effects

/-!
# The history of a store

Calls are made one after the other on a store that is empty at first (`runCalls`); some of them are
rejected. What the store holds afterwards is told by the replies (`version_history`): a template that was
created has one version for each content that was given to it, in this order, and it is found as the last
successful call about it returned it.

One call either changes nothing or makes a template, adds a version to one or replaces its record
(`effect_of_call`). Each of these keeps the files in step with the replies (`Invariant.step`) and takes no
version away (`Effect.isStored`), so by induction any number of calls does.
-/

namespace Pagewright.Store

open Procedure Text

/-! ## Calls and replies -/

/-- A call that changes a store. -/
inductive Call where
  | create (name description content actor : Value)
  | version (id : String) (content actor : Value)
  | update (id : String) (name description status actor : Value)

/-- What a call does. -/
def Call.procedure : Call → Procedure StoredTemplate
  | create name description content actor => Store.create name description content actor
  | version id content actor => createVersion id content actor
  | update id name description status actor => Store.update id name description status actor

/-- A call with its outcome. -/
structure Reply where
  call : Call
  outcome : Outcome StoredTemplate

/-- Calls made one after the other: the world then, and the replies. -/
def runCalls (supply : Supply) (w : World) : List Call → World × List Reply
  | [] => (w, [])
  | c :: rest =>
    let (w', result) := run supply w c.procedure
    let (w'', replies) := runCalls supply w' rest
    (w'', ⟨c, result.outcome⟩ :: replies)

namespace Reply

/-- The template that a successful call returned, if it is the one with the given id: a new one that got
this id, or one that the call names. -/
def resultFor (id : String) (reply : Reply) : Option StoredTemplate :=
  match reply.call, reply.outcome with
  | .create .., .ok t => if t.record.id.display = id then some t else none
  | .version other _ _, .ok t => if other = id then some t else none
  | .update other _ _ _ _, .ok t => if other = id then some t else none
  | _, .error _ => none

/-- The content that a successful call gave to the template with an id. -/
def contentFor (id : String) (reply : Reply) : Option Value :=
  match reply.call with
  | .create _ _ content _ => (reply.resultFor id).map fun _ => contentOf content
  | .version _ content _ => (reply.resultFor id).map fun _ => contentOf content
  | .update .. => none

/-- Whether a call created the template with an id. -/
def creates (id : String) (reply : Reply) : Bool :=
  match reply.call with
  | .create .. => (reply.resultFor id).isSome
  | _ => false

/-- Whether a call added a version to the template with an id. -/
def addsVersion (id : String) (reply : Reply) : Bool :=
  match reply.call with
  | .version .. => (reply.resultFor id).isSome
  | _ => false

variable {id : String} {reply : Reply}

theorem resultFor_error (id : String) (c : Call) (e : Failure) :
    resultFor id ⟨c, .error e⟩ = none := by
  cases c <;> rfl

theorem contentFor_of_resultFor (h : reply.resultFor id = none) : reply.contentFor id = none := by
  unfold contentFor
  split <;> simp [h]

theorem addsVersion_of_resultFor (h : reply.resultFor id = none) : reply.addsVersion id = false := by
  unfold addsVersion
  split <;> simp [h]

theorem resultFor_of_creates (h : reply.creates id = true) : reply.resultFor id ≠ none := by
  unfold creates at h
  split at h
  · exact Option.isSome_iff_ne_none.mp h
  · simp at h

end Reply

variable {supply : Supply} {w w' : World} {replies : List Reply} {c : Call}
  {o : Outcome StoredTemplate} {id other : String} {t t' : StoredTemplate} {vs : List TemplateVersion} {n : ℕ}

/-! ## What one call does -/

/-- Ids that are all different, up to a number. -/
structure Fresh (supply : Supply) (n : ℕ) : Prop where
  isHexId : ∀ k < n, IsHexId (supply.id k)
  inj : ∀ i < n, ∀ j < n, supply.id i = supply.id j → i = j

/-- What a call does to a store. -/
inductive Effect (supply : Supply) (w : World) : Call → World → Outcome StoredTemplate → Prop where
  | rejected (c : Call) (e : Failure) : Effect supply w c w (.error e)
  | created {name description content actor : Value} {w' : World} {t : StoredTemplate}
      {v : TemplateVersion} (hids : w.ids < w'.ids) (habsent : Absent w.disk (supply.id w.ids))
      (hcontent : v.content = contentOf content)
      (hchanged : Changed w.disk w'.disk (supply.id w.ids) t [v])
      (hevent : w.AddsEvent w' (createdEvent t content actor)) :
      Effect supply w (.create name description content actor) w' (.ok t)
  | versioned {id : String} {content actor : Value} {w' : World} {t t' : StoredTemplate}
      {vs : List TemplateVersion} {v old : TemplateVersion} (hids : w.ids ≤ w'.ids)
      (hstored : IsStored w.disk id t vs) (hcontent : v.content = contentOf content)
      (hchanged : Changed w.disk w'.disk id t' (vs ++ [v]))
      (hmetadata : t'.record.metadata = t.record.metadata) (hold : t.version = some old)
      (hevent : w.AddsEvent w' (versionedEvent old t' content actor)) :
      Effect supply w (.version id content actor) w' (.ok t')
  | updated {id : String} {name description status actor : Value} {w' : World}
      {t t' : StoredTemplate} {vs : List TemplateVersion} (hids : w.ids ≤ w'.ids)
      (hstored : IsStored w.disk id t vs) (hchanged : Changed w.disk w'.disk id t' vs)
      (hevent : w.AddsEvent w' (updatedEvent t.record t' actor)) :
      Effect supply w (.update id name description status actor) w' (.ok t')

/-! ## Files in step with replies -/

/-- The replies tell how a template is stored. -/
structure Tells (replies : List Reply) (id : String) (t : StoredTemplate) (vs : List TemplateVersion) :
    Prop where
  last_eq : (replies.filterMap (Reply.resultFor id)).getLast? = some t
  contents_eq : vs.map (·.content) = replies.filterMap (Reply.contentFor id)
  length_eq : vs.length = 1 + replies.countP (Reply.addsVersion id)

/-- What is known of an id: a template is stored under it, as the replies tell, or there is none, and no
reply is about it. -/
inductive Entry (supply : Supply) (w : World) (replies : List Reply) (id : String) : Prop where
  | stored {t : StoredTemplate} {vs : List TemplateVersion} (h : IsStored w.disk id t vs)
      (htells : Tells replies id t vs) (hgiven : ∃ k < w.ids, supply.id k = id)
  | absent (h : Absent w.disk id) (hsilent : ∀ reply ∈ replies, reply.resultFor id = none)

/-- The files of a store are in step with the replies. -/
def Invariant (supply : Supply) (w : World) (replies : List Reply) : Prop :=
  ∀ id, Entry supply w replies id

theorem invariant_empty (supply : Supply) : Invariant supply {} [] := fun _ =>
  .absent ⟨rfl, rfl, by simp, rfl, by simp⟩ (by simp)

theorem Absent.not_isStored {d : Disk} (h : Absent d id) : ¬ IsStored d id t vs := by
  intro hstored
  have hfind := hstored.record_eq
  rw [h.record_eq] at hfind
  exact absurd hfind (by simp)

theorem Absent.of_elsewhere {d d' : Disk} (h : Absent d other) (hd : Elsewhere id d d')
    (hne : other ≠ id) : Absent d' other where
  record_eq := (hd.record_eq other hne).trans h.record_eq
  versions := ⟨(hd.names_eq other hne).trans h.versions.names_eq, by simp, rfl, by simp⟩

/-- What a call does, in a store in step with the replies. -/
theorem effect_of_call (hfresh : Fresh supply n) (h : Invariant supply w replies) (c : Call)
    (hn : (run supply w c.procedure).1.ids ≤ n) :
    Effect supply w c (run supply w c.procedure).1 (run supply w c.procedure).2.outcome := by
  suffices ∃ w' o, Goes supply w c.procedure w' o ∧ Effect supply w c w' o by
    obtain ⟨w', o, hgoes, heffect⟩ := this
    rw [hgoes.world, hgoes.outcome]
    exact heffect
  cases c with
  | create name description content actor =>
    rcases goes_create supply w name description content actor with
      ⟨e, hgoes⟩ | ⟨w', t, hgoes, hids, hevent, hchanged⟩
    · exact ⟨w, _, hgoes, .rejected _ e⟩
    have hlt : w.ids < n := by
      rw [Call.procedure, hgoes.world] at hn
      exact Nat.lt_of_lt_of_le hids hn
    have habsent : Absent w.disk (supply.id w.ids) := by
      cases h (supply.id w.ids) with
      | absent habsent _ => exact habsent
      | stored _ _ hgiven =>
        obtain ⟨k, hk, hid⟩ := hgiven
        have heq := hfresh.inj k (Nat.lt_trans hk hlt) w.ids hlt hid
        omega
    obtain ⟨v, hcontent, hchanged⟩ := hchanged (hfresh.isHexId _ hlt) habsent
    exact ⟨w', _, hgoes, .created hids habsent hcontent hchanged hevent⟩
  | version id content actor =>
    cases h id with
    | absent habsent _ =>
      obtain ⟨e, hgoes⟩ := goes_createVersion_error supply habsent content actor
      exact ⟨w, _, hgoes, .rejected _ e⟩
    | stored hstored _ _ =>
      obtain ⟨w', t', v, hgoes, hcontent, hchanged, hmetadata, old, hold, hevent⟩ :=
        goes_createVersion supply hstored content actor
      exact ⟨w', _, hgoes, .versioned hgoes.ids_le hstored hcontent hchanged hmetadata hold hevent⟩
  | update id name description status actor =>
    cases h id with
    | absent habsent _ =>
      obtain ⟨e, hgoes⟩ := goes_update_error supply habsent name description status actor
      exact ⟨w, _, hgoes, .rejected _ e⟩
    | stored hstored _ _ =>
      rcases goes_update supply hstored name description status actor with
        ⟨e, hgoes⟩ | ⟨w', t', hgoes, hchanged, hevent⟩
      · exact ⟨w, _, hgoes, .rejected _ e⟩
      · exact ⟨w', _, hgoes, .updated hgoes.ids_le hstored hchanged hevent⟩

/-! ## One step -/

/-- A reply that is not about a template tells nothing new of it. -/
theorem Tells.append_none (h : Tells replies id t vs) {reply : Reply}
    (hnone : reply.resultFor id = none) : Tells (replies ++ [reply]) id t vs where
  last_eq := by
    rw [List.filterMap_append, List.filterMap_cons_none hnone, List.filterMap_nil, List.append_nil]
    exact h.last_eq
  contents_eq := by
    rw [List.filterMap_append, List.filterMap_cons_none (Reply.contentFor_of_resultFor hnone),
      List.filterMap_nil, List.append_nil]
    exact h.contents_eq
  length_eq := by
    rw [List.countP_append, List.countP_singleton, Reply.addsVersion_of_resultFor hnone]
    exact h.length_eq

theorem Entry.append_none (h : Entry supply w replies id) {reply : Reply}
    (hnone : reply.resultFor id = none) : Entry supply w (replies ++ [reply]) id := by
  cases h with
  | stored h htells hgiven => exact .stored h (htells.append_none hnone) hgiven
  | absent h hsilent =>
    refine .absent h fun r hr => ?_
    rcases List.mem_append.mp hr with hr | hr
    · exact hsilent r hr
    · obtain rfl := List.mem_singleton.mp hr
      exact hnone

theorem Entry.of_elsewhere (h : Entry supply w replies other) (hd : Elsewhere id w.disk w'.disk)
    (hne : other ≠ id) (hids : w.ids ≤ w'.ids) : Entry supply w' replies other := by
  cases h with
  | stored h htells hgiven =>
    obtain ⟨k, hk, hid⟩ := hgiven
    exact .stored (h.of_elsewhere hd hne) htells ⟨k, Nat.lt_of_lt_of_le hk hids, hid⟩
  | absent h hsilent => exact .absent (h.of_elsewhere hd hne) hsilent

theorem Entry.of_isStored (h : Entry supply w replies id) (hstored : IsStored w.disk id t vs) :
    Tells replies id t vs ∧ ∃ k < w.ids, supply.id k = id := by
  cases h with
  | absent habsent _ => exact absurd hstored habsent.not_isStored
  | stored h htells hgiven =>
    obtain ⟨rfl, rfl⟩ := hstored.unique h
    exact ⟨htells, hgiven⟩

theorem Entry.of_absent (h : Entry supply w replies id) (habsent : Absent w.disk id) :
    ∀ reply ∈ replies, reply.resultFor id = none := by
  cases h with
  | stored hstored _ _ => exact absurd hstored habsent.not_isStored
  | absent _ hsilent => exact hsilent

/-- A reply about a template tells its new state, with the version that it added. -/
theorem Tells.append (h : Tells replies id t vs) {reply : Reply} {added : List TemplateVersion}
    (hresult : reply.resultFor id = some t')
    (hcontents : added.map (·.content) = [reply].filterMap (Reply.contentFor id))
    (hlength : added.length = [reply].countP (Reply.addsVersion id)) :
    Tells (replies ++ [reply]) id t' (vs ++ added) where
  last_eq := by
    rw [List.filterMap_append, List.filterMap_cons_some hresult, List.filterMap_nil, List.getLast?_concat]
  contents_eq := by rw [List.map_append, h.contents_eq, hcontents, List.filterMap_append]
  length_eq := by rw [List.length_append, h.length_eq, hlength, List.countP_append, Nat.add_assoc]

/-- Before its creation no reply is about a template. -/
theorem tells_of_silent (hsilent : ∀ reply ∈ replies, reply.resultFor id = none) {reply : Reply}
    {v : TemplateVersion} (hresult : reply.resultFor id = some t)
    (hcontent : reply.contentFor id = some v.content) (hadds : reply.addsVersion id = false) :
    Tells (replies ++ [reply]) id t [v] where
  last_eq := by
    rw [List.filterMap_append, List.filterMap_eq_nil_iff.mpr hsilent]
    simp [hresult]
  contents_eq := by
    have hcontents := List.filterMap_eq_nil_iff.mpr fun r hr =>
      Reply.contentFor_of_resultFor (hsilent r hr)
    rw [List.filterMap_append, hcontents]
    simp [hcontent]
  length_eq := by
    have hcount : replies.countP (Reply.addsVersion id) = 0 := List.countP_eq_zero.mpr fun r hr => by
      rw [Reply.addsVersion_of_resultFor (hsilent r hr)]
      exact Bool.false_ne_true
    rw [List.countP_append, hcount, List.countP_singleton, hadds]
    rfl

/-- A call keeps the files in step with the replies. -/
theorem Invariant.step (h : Invariant supply w replies) (he : Effect supply w c w' o) :
    Invariant supply w' (replies ++ [⟨c, o⟩]) := by
  intro id
  cases he with
  | rejected c e => exact (h id).append_none (Reply.resultFor_error id c e)
  | @created name description content actor w' t v hids habsent hcontent hchanged hevent =>
    have hdisplay : t.record.id.display = supply.id w.ids := by
      rw [hchanged.stored.id_eq]
      rfl
    by_cases hid : id = supply.id w.ids
    · subst hid
      refine .stored hchanged.stored (tells_of_silent ((h _).of_absent habsent) ?_ ?_ ?_) ⟨w.ids, hids, rfl⟩
      · simp [Reply.resultFor, hdisplay]
      · simp [Reply.contentFor, Reply.resultFor, hdisplay, hcontent]
      · rfl
    · have hne : supply.id w.ids ≠ id := fun heq => hid heq.symm
      refine ((h id).append_none ?_).of_elsewhere hchanged.elsewhere hid hids.le
      simp [Reply.resultFor, hdisplay, hne]
  | @versioned id₀ content actor w' t t' vs v old hids hstored hcontent hchanged hmetadata hold hevent =>
    by_cases hid : id = id₀
    · subst hid
      obtain ⟨htells, k, hk, hgiven⟩ := (h id).of_isStored hstored
      refine .stored hchanged.stored (htells.append ?_ ?_ ?_) ⟨k, hk.trans_le hids, hgiven⟩
      · simp [Reply.resultFor]
      · simp [Reply.contentFor, Reply.resultFor, hcontent]
      · simp [Reply.addsVersion, Reply.resultFor]
    · have hne : id₀ ≠ id := fun heq => hid heq.symm
      refine ((h id).append_none ?_).of_elsewhere hchanged.elsewhere hid hids
      simp [Reply.resultFor, hne]
  | @updated id₀ name description status actor w' t t' vs hids hstored hchanged hevent =>
    by_cases hid : id = id₀
    · subst hid
      obtain ⟨htells, k, hk, hgiven⟩ := (h id).of_isStored hstored
      have happend : Tells (replies ++ [⟨.update id name description status actor, .ok t'⟩]) id t'
          (vs ++ []) := by
        refine htells.append ?_ ?_ ?_
        · simp [Reply.resultFor]
        · simp [Reply.contentFor]
        · simp [Reply.addsVersion]
      rw [List.append_nil] at happend
      exact .stored hchanged.stored happend ⟨k, hk.trans_le hids, hgiven⟩
    · have hne : id₀ ≠ id := fun heq => hid heq.symm
      refine ((h id).append_none ?_).of_elsewhere hchanged.elsewhere hid hids
      simp [Reply.resultFor, hne]

/-- A call takes no version away. -/
theorem Effect.isStored (he : Effect supply w c w' o) (h : IsStored w.disk id t vs) :
    ∃ t' more, IsStored w'.disk id t' (vs ++ more) := by
  cases he with
  | rejected c e => exact ⟨t, [], by simpa using h⟩
  | created hids habsent hcontent hchanged hevent =>
    have hne : id ≠ supply.id w.ids := by
      rintro rfl
      exact habsent.not_isStored h
    exact ⟨t, [], by simpa using h.of_elsewhere hchanged.elsewhere hne⟩
  | @versioned id₀ content actor w' t₀ t' vs₀ v old hids hstored hcontent hchanged hmetadata hold hevent =>
    by_cases hid : id = id₀
    · subst hid
      obtain ⟨rfl, rfl⟩ := hstored.unique h
      exact ⟨t', [v], hchanged.stored⟩
    · exact ⟨t, [], by simpa using h.of_elsewhere hchanged.elsewhere hid⟩
  | @updated id₀ name description status actor w' t₀ t' vs₀ hids hstored hchanged hevent =>
    by_cases hid : id = id₀
    · subst hid
      obtain ⟨rfl, rfl⟩ := hstored.unique h
      exact ⟨t', [], by simpa using hchanged.stored⟩
    · exact ⟨t, [], by simpa using h.of_elsewhere hchanged.elsewhere hid⟩

/-! ## All calls -/

theorem ids_le_runCalls (supply : Supply) (w : World) (calls : List Call) :
    w.ids ≤ (runCalls supply w calls).1.ids := by
  induction calls generalizing w with
  | nil => exact Nat.le_refl _
  | cons c calls ih => exact (ids_le_run supply w c.procedure).trans (ih _)

theorem Invariant.runCalls (hfresh : Fresh supply n) (calls : List Call)
    (hn : (runCalls supply w calls).1.ids ≤ n) (h : Invariant supply w replies) :
    Invariant supply (runCalls supply w calls).1 (replies ++ (runCalls supply w calls).2) := by
  induction calls generalizing w replies with
  | nil =>
    rw [Store.runCalls, List.append_nil]
    exact h
  | cons c calls ih =>
    have hcall := effect_of_call hfresh h c ((ids_le_runCalls supply _ calls).trans hn)
    have hrest := ih hn (h.step hcall)
    rwa [List.append_assoc] at hrest

theorem IsStored.runCalls (hfresh : Fresh supply n) (calls : List Call)
    (hn : (runCalls supply w calls).1.ids ≤ n) (hinv : Invariant supply w replies)
    (h : IsStored w.disk id t vs) :
    ∃ t' more, IsStored (runCalls supply w calls).1.disk id t' (vs ++ more) := by
  induction calls generalizing w replies t vs with
  | nil =>
    refine ⟨t, [], ?_⟩
    rw [List.append_nil]
    exact h
  | cons c calls ih =>
    have hcall := effect_of_call hfresh hinv c ((ids_le_runCalls supply _ calls).trans hn)
    obtain ⟨t', more, hstored⟩ := hcall.isStored h
    obtain ⟨t'', more', hstored'⟩ := ih hn (hinv.step hcall) hstored
    refine ⟨t'', more ++ more', ?_⟩
    rw [← List.append_assoc]
    exact hstored'

/-- After any calls on an empty store, a template that was created has the versions 1 to `n`, `n` being one
more than the number of versions that were added to it, with the contents that were given to it. These
versions stay as they are, whatever calls come later. The template is found as the last successful call
about it returned it, with version `n` as the current one, and it has a name without outer blanks. -/
theorem version_history {supply : Supply} {calls later : List Call} {w w' : World}
    {replies replies' : List Reply} (hcalls : runCalls supply {} calls = (w, replies))
    (hlater : runCalls supply w later = (w', replies')) (hfresh : Fresh supply w'.ids) {id : String}
    (hcreated : replies.any (Reply.creates id) = true) :
    ∃ (vs more : List TemplateVersion) (t : StoredTemplate) (current : TemplateVersion) (name : String),
      Goes supply w (versions id) w (.ok vs) ∧
      vs.map (·.number) = (numbersTo (1 + replies.countP (Reply.addsVersion id))).reverse ∧
      vs.reverse.map (·.content) = replies.filterMap (Reply.contentFor id) ∧
      Goes supply w' (versions id) w' (.ok (more ++ vs)) ∧
      Goes supply w (get id) w (.ok (some t)) ∧
      (replies.filterMap (Reply.resultFor id)).getLast? = some t ∧
      t.record.versionNumber = .int (1 + replies.countP (Reply.addsVersion id) : ℕ) ∧
      vs.head? = some current ∧ t.version = some current ∧ t.record.versionId = current.id ∧
      t.record.name = .text name ∧ name ≠ "" ∧ trimmed name = name := by
  have hworld : (runCalls supply {} calls).1 = w := congrArg Prod.fst hcalls
  have hworld' : (runCalls supply w later).1 = w' := congrArg Prod.fst hlater
  have hids : w.ids ≤ w'.ids := hworld' ▸ ids_le_runCalls supply w later
  have hinv : Invariant supply w replies := by
    have hrun := Invariant.runCalls hfresh calls (by rw [hworld]; exact hids) (invariant_empty supply)
    rwa [List.nil_append, hcalls] at hrun
  cases hinv id with
  | absent _ hsilent =>
    obtain ⟨reply, hreply, hcreates⟩ := List.any_eq_true.mp hcreated
    exact absurd (hsilent reply hreply) (Reply.resultFor_of_creates hcreates)
  | @stored t vs h htells hgiven =>
    obtain ⟨t', more, hstored⟩ := h.runCalls hfresh later (congrArg World.ids hworld').le hinv
    rw [hworld'] at hstored
    obtain ⟨current, hlast, hversion, hcurrent⟩ := h.current
    obtain ⟨name, hname, hne, htrimmed⟩ := h.name
    refine ⟨vs.reverse, more.reverse, t, current, name, goes_versions h.isHexId h.toHasVersions, ?_, ?_, ?_,
      goes_get h, htells.last_eq, ?_, ?_, hversion, hcurrent, hname, hne, htrimmed⟩
    · rw [List.map_reverse, h.numbers_eq, htells.length_eq]
    · rw [List.reverse_reverse, htells.contents_eq]
    · rw [← List.reverse_append]
      exact goes_versions hstored.isHexId hstored.toHasVersions
    · rw [h.number_eq, htells.length_eq]
    · rw [List.head?_reverse, hlast]

/-- Ids that count in the last digit. -/
def counted : Supply where
  id k := String.ofList (List.replicate 31 '0' ++ ["0123456789abcdef".toList.getD k '0'])
  time _ := "2026-01-01T00:00:00Z"

theorem isHexId_counted (k : ℕ) : IsHexId (counted.id k) := by
  have hdigit : "0123456789abcdef".toList.getD k '0' ∈ "0123456789abcdef".toList := by
    rw [List.getD_eq_getElem?_getD]
    cases hk : "0123456789abcdef".toList[k]? with
    | none => exact (by decide : '0' ∈ "0123456789abcdef".toList)
    | some c => exact List.mem_of_getElem? hk
  have hid : counted.id k =
      String.ofList (List.replicate 31 '0' ++ ["0123456789abcdef".toList.getD k '0']) := rfl
  generalize "0123456789abcdef".toList.getD k '0' = digit at hdigit hid
  refine ⟨?_, fun c hc => ?_⟩
  · rw [hid, String.length_ofList, List.length_append, List.length_replicate, List.length_singleton]
  · rw [hid, String.toList_ofList, List.mem_append, List.mem_singleton] at hc
    rcases hc with hc | rfl
    · rw [List.eq_of_mem_replicate hc]
      decide
    · exact hdigit

theorem Fresh.mono {m : ℕ} (h : Fresh supply n) (hle : m ≤ n) : Fresh supply m where
  isHexId k hk := h.isHexId k (hk.trans_le hle)
  inj i hi j hj := h.inj i (hi.trans_le hle) j (hj.trans_le hle)

theorem fresh_counted_of_le (hn : n ≤ 16) : Fresh counted n :=
  Fresh.mono ⟨fun k _ => isHexId_counted k, by decide +kernel⟩ hn

theorem fresh_counted : Fresh counted 8 := fresh_counted_of_le (by decide)

/-- A template is created, gets an empty version and a status. A blank name is refused twice. -/
def invoiceCalls : List Call :=
  [.create (.text " Invoice ") .null (.text "first") (.text "alice"),
    .create (.text " ") .null .null .null,
    .version (counted.id 0) .null (.text "bob"),
    .update (counted.id 0) (.text " ") .null .null .null,
    .update (counted.id 0) .null .null (.text "published") .null]

/-- The two versions of the invoice are found, and found again after a third one. -/
theorem version_history_invoice :
    ∃ (vs more : List TemplateVersion) (t : StoredTemplate) (w w' : World),
      w = (runCalls counted {} invoiceCalls).1 ∧
      w' = (runCalls counted w [.version (counted.id 0) (.text "third") .null]).1 ∧
      Goes counted w (versions (counted.id 0)) w (.ok vs) ∧ vs.map (·.number) = [2, 1] ∧
      (vs.reverse.map fun v => v.content.display) = ["first", "\x7b\x7d"] ∧
      Goes counted w' (versions (counted.id 0)) w' (.ok (more ++ vs)) ∧
      Goes counted w (get (counted.id 0)) w (.ok (some t)) ∧ t.record.versionNumber = .int 2 := by
  obtain ⟨hids, hcreated, hcount, hgiven⟩ : (runCalls counted (runCalls counted {} invoiceCalls).1
        [.version (counted.id 0) (.text "third") .null]).1.ids ≤ 8 ∧
      (runCalls counted {} invoiceCalls).2.any (Reply.creates (counted.id 0)) = true ∧
      (runCalls counted {} invoiceCalls).2.countP (Reply.addsVersion (counted.id 0)) = 1 ∧
      ((runCalls counted {} invoiceCalls).2.filterMap (Reply.contentFor (counted.id 0))).map
        Value.display = ["first", "\x7b\x7d"] := by
    decide +kernel
  obtain ⟨vs, more, t, current, name, hversions, hnumbers, hcontents, hmore, hget, -, hnumber, -⟩ :=
    version_history Prod.mk.eta.symm Prod.mk.eta.symm (fresh_counted.mono hids) hcreated
  refine ⟨vs, more, t, _, _, rfl, rfl, hversions, ?_, ?_, hmore, hget, ?_⟩
  · rw [hnumbers, hcount]
    rfl
  · rw [← hgiven, ← hcontents, List.map_map]
    rfl
  · rw [hnumber, hcount]
    rfl

end Pagewright.Store
