import Pagewright.Proofs.Store.Replay

/-!
# Calls that are rejected

Whatever operations were made on a store, its records and versions are documents that can be read back
(`Legible`). On such a store a call is rejected before it changes anything, or it succeeds
(`Legible.decided_call`). Blank names, and ids under which there is no template, are rejected
(`Refused.exists_goes`).
-/

namespace Pagewright.Store

open Procedure Text

variable {supply : Supply} {w : World} {d d' : Disk} {id : String} {r : TemplateRecord} {v : TemplateVersion}

/-! ## Files that can be read back -/

/-- Every record and every version of a store is a document as it was written. -/
structure Legible (d : Disk) : Prop where
  record : ∀ id contents, d.find? (recordPath id) = some contents →
    ∃ (r : TemplateRecord) (n : ℤ),
      contents = .document r.toValue ∧ r.id = .text id ∧ r.versionNumber = .int n
  version : ∀ id number contents, d.find? (versionPath id number) = some contents →
    ∃ v : TemplateVersion, contents = .document v.toValue

theorem legible_empty : Legible {} := ⟨nofun, nofun⟩

theorem Legible.of_files (h : Legible d) (hfiles : d'.files = d.files) : Legible d' where
  record id contents hfind := h.record id contents ((Disk.find?_congr hfiles _).symm.trans hfind)
  version id number contents hfind :=
    h.version id number contents ((Disk.find?_congr hfiles _).symm.trans hfind)

theorem Legible.put_record (h : Legible d) {n : ℤ} (hid : r.id = .text id)
    (hnumber : r.versionNumber = .int n) :
    Legible (d.put (recordPath id) (.document r.toValue)) where
  record other contents hfind := by
    rw [Disk.find?_put] at hfind
    split at hfind
    · next heq =>
      obtain rfl := recordPath_inj.mp heq
      exact ⟨r, n, (Option.some.inj hfind).symm, hid, hnumber⟩
    · exact h.record other contents hfind
  version other number contents hfind := by
    rw [Disk.find?_put_of_ne (recordPath_ne_versionPath _ _ _).symm] at hfind
    exact h.version other number contents hfind

theorem Legible.put_version (h : Legible d) (id : String) (v : TemplateVersion) :
    Legible (d.put (versionPath id v.number) (.document v.toValue)) where
  record other contents hfind := by
    rw [Disk.find?_put_of_ne (recordPath_ne_versionPath _ _ _)] at hfind
    exact h.record other contents hfind
  version other number contents hfind := by
    rw [Disk.find?_put] at hfind
    split at hfind
    · exact ⟨v, (Option.some.inj hfind).symm⟩
    · exact h.version other number contents hfind

/-- A record that is loaded is one that was written. -/
theorem Legible.of_requireRecord (h : Legible w.disk) (hgoes : Goes supply w (requireRecord id) w (.ok r)) :
    r.id = .text id ∧ ∃ n : ℤ, r.versionNumber = .int n := by
  obtain ⟨hid, hname, contents, hfind⟩ := find?_of_goes_requireRecord hgoes
  obtain ⟨r', n, rfl, hid', hnumber⟩ := h.record id contents hfind
  have hload : Goes supply w (requireRecord id) w (.ok r') :=
    Goes.bind (goes_loadRecord hid hname hfind) (goes_pure _)
  obtain rfl := Except.ok.inj (hgoes.unique hload).2
  exact ⟨hid', n, hnumber⟩

/-- A version is loaded if it is there, and as long as it is the same. -/
theorem Legible.goes_loadVersion (h : Legible d) (id : String) (n : ℤ) :
    ∃ found, ∀ (supply : Supply) (w : World), w.disk.find? (versionPath id n) = d.find? (versionPath id n) →
      Goes supply w (loadVersion id (.int n)) w (.ok found) := by
  unfold loadVersion
  cases hfind : d.find? (versionPath id n) with
  | none => exact ⟨none, fun _ _ hsame => Goes.bind (goes_document?_none hsame) (goes_pure _)⟩
  | some contents =>
    obtain ⟨v, rfl⟩ := h.version id n contents hfind
    exact ⟨some { v with content := contentOf v.content }, fun _ _ hsame =>
      Goes.bind (goes_document? hsame) (Goes.bind (goes_lift _) (goes_pure _))⟩

/-! ## Calls -/

/-- A procedure is rejected and changes nothing, or it succeeds and what it leaves can be read back. -/
def Decided {α : Type} (supply : Supply) (w : World) (t : Procedure α) : Prop :=
  (∃ e, Goes supply w t w (.error e)) ∨ ∃ w' a, Goes supply w t w' (.ok a) ∧ Legible w'.disk

/-- What is looked at first is there, or its absence decides. -/
theorem Decided.bind_of_looks {α β : Type} {t : Procedure α} {f : α → Procedure β} (ht : t.Looks)
    (hf : ∀ a, Goes supply w t w (.ok a) → Decided supply w (f a)) : Decided supply w (t >>= f) := by
  obtain ⟨a, ha⟩ | ⟨e, he⟩ := ht.exists_goes supply w
  · rcases hf a ha with ⟨e, he⟩ | ⟨w', b, hb, hlegible⟩
    · exact .inl ⟨e, Goes.bind ha he⟩
    · exact .inr ⟨w', b, Goes.bind ha hb, hlegible⟩
  · exact .inl ⟨e, Goes.bind_error he⟩

theorem Legible.decided_create (h : Legible w.disk) (supply : Supply)
    (name description content actor : Value) :
    Decided supply w (create name description content actor) := by
  cases hblank : (trimmed (name.orElse (.text "")).display).isEmpty with
  | true => exact .inl ⟨_, goes_create_of_blank hblank description content actor⟩
  | false =>
    obtain ⟨w', time, eventId, eventTime, r, rfl, hgoes, -, hdisk⟩ :=
      @goes_create_of_name supply w _ name hblank description content actor rfl
    refine .inr ⟨w', _, hgoes, ?_⟩
    rw [hdisk]
    exact ((h.put_version _ _).put_record rfl rfl).of_files rfl

theorem Legible.decided_createVersion (h : Legible w.disk) (supply : Supply) (id : String)
    (content actor : Value) : Decided supply w (createVersion id content actor) := by
  rw [createVersion_eq]
  refine .bind_of_looks (looks_requireRecord id) fun r hrecord =>
    .bind_of_looks (looks_loadVersion id r.versionNumber) fun previous _ =>
      .bind_of_looks (looks_versions id) fun listed _ => ?_
  have hid := (h.of_requireRecord hrecord).1
  obtain ⟨w', time, eventId, eventTime, hgoes, hdisk⟩ := goes_publishNext hid previous rfl
  refine .inr ⟨w', _, hgoes, ?_⟩
  rw [hdisk]
  exact ((h.put_version _ _).put_record (r := nextRecord r _ _ _) hid rfl).of_files rfl

theorem Legible.decided_update (h : Legible w.disk) (supply : Supply) (id : String)
    (name description status actor : Value) :
    Decided supply w (update id name description status actor) := by
  obtain ⟨old, hrecord⟩ | ⟨e, hrecord⟩ := (looks_requireRecord id).exists_goes supply w
  · cases hrevised : revise old name description status with
    | error e =>
      refine .inl ⟨e, Goes.bind hrecord (Goes.bind_error ?_)⟩
      rw [hrevised]
      exact goes_lift _
    | ok revised =>
      obtain ⟨hid, n, hnumber⟩ := h.of_requireRecord hrecord
      obtain ⟨hid', -, hnumber', -⟩ := revise_eq_ok hrevised
      obtain ⟨found, hload⟩ := h.goes_loadVersion id n
      obtain ⟨w', time, r, rfl, hgoes, eventId, eventTime, hdisk⟩ := goes_update_of_revise hrecord hrevised
        (hid'.trans hid) actor fun r event u hu => by
          rw [hnumber', hnumber]
          refine hload supply u ?_
          rw [hu]
          exact Disk.find?_put_of_ne (recordPath_ne_versionPath id id n).symm _ _
      refine .inr ⟨w', _, hgoes, ?_⟩
      rw [hdisk]
      exact (h.put_record (r := { revised with updatedBy := actorOf actor, updatedAt := .text time })
        (hid'.trans hid) (hnumber'.trans hnumber)).of_files rfl
  · exact .inl ⟨e, Goes.bind_error hrecord⟩

/-- Every call is decided. -/
theorem Legible.decided_call (h : Legible w.disk) (supply : Supply) (c : Call) :
    Decided supply w c.procedure := by
  cases c with
  | create name description content actor => exact h.decided_create supply name description content actor
  | version id content actor => exact h.decided_createVersion supply id content actor
  | update id name description status actor => exact h.decided_update supply id name description status actor

/-- Why a call is rejected in a store: its name is blank, or there is no template under its id. -/
inductive Refused (d : Disk) : Call → Prop where
  | blankName {name : Value} (h : (trimmed (name.orElse (.text "")).display).isEmpty = true)
      (description content actor : Value) : Refused d (.create name description content actor)
  | blankNewName {name : Value} (hgiven : name.isNull = false) (h : (trimmed name.display).isEmpty = true)
      (id : String) (description status actor : Value) : Refused d (.update id name description status actor)
  | noTemplate {id : String} (h : isId id = false ∨ d.find? (recordPath id) = none) (content actor : Value) :
      Refused d (.version id content actor)
  | noTemplateToUpdate {id : String} (h : isId id = false ∨ d.find? (recordPath id) = none)
      (name description status actor : Value) : Refused d (.update id name description status actor)

theorem goes_requireRecord_of_none (supply : Supply)
    (h : isId id = false ∨ w.disk.find? (recordPath id) = none) :
    ∃ e, Goes supply w (requireRecord id) w (.error e) := by
  rcases h with h | h
  · exact ⟨_, goes_requireRecord_of_not_isId h⟩
  · exact goes_requireRecord_error h

theorem revise_of_blank {name : Value} (hgiven : name.isNull = false)
    (h : (trimmed name.display).isEmpty = true) (r : TemplateRecord) (description status : Value) :
    revise r name description status = .error .nameEmpty := by
  simp [revise, hgiven, h]

/-- What is refused is rejected. -/
theorem Refused.exists_goes {c : Call} (h : Refused w.disk c) (supply : Supply) :
    ∃ e, Goes supply w c.procedure w (.error e) := by
  cases h with
  | blankName h description content actor =>
    exact ⟨_, goes_create_of_blank h description content actor⟩
  | blankNewName hgiven h id description status actor =>
    obtain ⟨r, hrecord⟩ | ⟨e, hrecord⟩ := (looks_requireRecord id).exists_goes supply w
    · refine ⟨.nameEmpty, Goes.bind hrecord (Goes.bind_error ?_)⟩
      rw [revise_of_blank hgiven h]
      exact goes_lift _
    · exact ⟨e, Goes.bind_error hrecord⟩
  | noTemplate h content actor =>
    obtain ⟨e, hrecord⟩ := goes_requireRecord_of_none supply h
    exact ⟨e, Goes.bind_error hrecord⟩
  | noTemplateToUpdate h name description status actor =>
    obtain ⟨e, hrecord⟩ := goes_requireRecord_of_none supply h
    exact ⟨e, Goes.bind_error hrecord⟩

end Pagewright.Store
