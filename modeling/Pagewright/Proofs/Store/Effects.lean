import Pagewright.Proofs.Store.Publication

/-!
# What operations do to a store

An operation is rejected and leaves the store as it is, or it changes one template: a new one gets its
first version (`goes_create`), one that is stored gets a further version (`goes_createVersion`) or a new
record (`goes_update`). The result is the template as it is stored then, and the change is one event in the
audit trail.
-/

namespace Pagewright.Store

open Procedure Text

variable {supply : Supply} {w w' : World} {id : String} {t : StoredTemplate}
  {vs : List TemplateVersion} {v : TemplateVersion}

/-- A template has no files. -/
structure Absent (d : Disk) (id : String) : Prop where
  record_eq : d.find? (recordPath id) = none
  versions : HasVersions d id []

/-- One template is stored, and the others are as they were. -/
structure Changed (d d' : Disk) (id : String) (t : StoredTemplate) (vs : List TemplateVersion) : Prop where
  stored : IsStored d' id t vs
  elsewhere : Elsewhere id d d'

/-! ## Events -/

/-- The event of a new template. -/
def createdEvent (t : StoredTemplate) (content actor : Value) : AuditEvent where
  action := "template.created"
  templateId := t.record.id
  actor := actorOf actor
  versionId := t.record.versionId
  after := contentOf content

/-- The event of a further version of a template whose current version was `old`. -/
def versionedEvent (old : TemplateVersion) (t : StoredTemplate) (content actor : Value) : AuditEvent where
  action := "template.version.created"
  templateId := t.record.id
  actor := actorOf actor
  versionId := t.record.versionId
  before := old.content
  after := contentOf content

/-- The event of new metadata of a template whose record was `old`. -/
def updatedEvent (old : TemplateRecord) (t : StoredTemplate) (actor : Value) : AuditEvent where
  action := "template.metadata.updated"
  templateId := t.record.id
  actor := actorOf actor
  versionId := t.record.versionId
  before := old.metadata
  after := t.record.metadata

/-! ## Parts of operations -/

/-- A new record and an event in the trail leave the versions as they are. -/
theorem HasVersions.put_record_apply {d : Disk} (h : HasVersions d id vs) (hid : isId id = true)
    (record event : Value) :
    HasVersions ((d.put (recordPath id) (.document record)).apply (.record event)) id vs :=
  have hput := h.put_record hid record
  ⟨hput.names_eq, hput.find?_eq, hput.numbers_eq, hput.content_eq⟩

/-- A template is stored when its record comes after its versions. -/
theorem HasVersions.isStored_put_record {d : Disk} (h : HasVersions d id vs) (hid : IsHexId id)
    {r : TemplateRecord} (hrecord : r.id = .text id) (hnumber : r.versionNumber = .int vs.length)
    (hlast : vs.getLast? = some v) (hversion : r.versionId = v.id)
    (hname : ∃ name, r.name = .text name ∧ name ≠ "" ∧ trimmed name = name) (event : Value) :
    IsStored ((d.put (recordPath id) (.document r.toValue)).apply (.record event)) id ⟨r, some v⟩ vs where
  toHasVersions := h.put_record_apply hid.isId r.toValue event
  isHexId := hid
  record_eq := Disk.find?_put_self _ _ _
  id_eq := hrecord
  number_eq := hnumber
  current := ⟨v, hlast, rfl, hversion⟩
  name := hname

theorem elsewhere_record (id : String) (d : Disk) (event : Value) :
    Elsewhere id d (d.apply (.record event)) := ⟨fun _ _ => rfl, fun _ _ => rfl, fun _ _ _ => rfl⟩

theorem elsewhere_put_record_apply (hid : isId id = true) (d : Disk) (contents : Contents) (event : Value) :
    Elsewhere id d ((d.put (recordPath id) contents).apply (.record event)) :=
  (elsewhere_put_record hid d contents).trans (elsewhere_record id _ event)

theorem name_of_trimmed {s : String} (h : (trimmed s).isEmpty = false) :
    ∃ name, Value.text (trimmed s) = .text name ∧ name ≠ "" ∧ trimmed name = name := by
  refine ⟨trimmed s, rfl, ?_, ?_⟩
  · intro hempty
    rw [hempty] at h
    exact absurd h (by decide)
  · simp [trimmed]

/-! ## Creating -/

/-- A template is created under a fresh id with its first version, unless its name is blank. -/
theorem goes_create (supply : Supply) (w : World) (name description content actor : Value) :
    (∃ e, Goes supply w (create name description content actor) w (.error e)) ∨
    ∃ w' t, Goes supply w (create name description content actor) w' (.ok t) ∧ w.ids < w'.ids ∧
      w.AddsEvent w' (createdEvent t content actor) ∧
      (IsHexId (supply.id w.ids) → Absent w.disk (supply.id w.ids) →
        ∃ v, v.content = contentOf content ∧ Changed w.disk w'.disk (supply.id w.ids) t [v]) := by
  by_cases hempty : (trimmed (name.orElse (.text "")).display).isEmpty = true
  · exact .inl ⟨_, goes_create_of_blank hempty description content actor⟩
  rw [Bool.not_eq_true] at hempty
  obtain ⟨w', time, eventId, eventTime, r, rfl, hgoes, hids, hdisk⟩ := goes_create_of_name hempty description
    content actor
    (v := versionAt supply w.tookId (supply.id w.ids) 1 (contentOf content) (actorOf actor)) rfl
  refine .inr ⟨w', _, hgoes, hids, ⟨eventId, eventTime, by rw [World.trail, hdisk]; rfl⟩, fun hid habsent =>
    ⟨versionAt supply w.tookId (supply.id w.ids) 1 (contentOf content) (actorOf actor), rfl, ?_, ?_⟩⟩
  · rw [hdisk]
    refine HasVersions.isStored_put_record ?_ hid rfl rfl rfl rfl (name_of_trimmed hempty) _
    exact habsent.versions.add (v := versionAt supply w.tookId _ 1 _ _) rfl (contentOf_contentOf content)
  · rw [hdisk]
    exact (elsewhere_put_version _ _ _ _).trans (elsewhere_put_record_apply hid.isId _ _ _)

/-! ## New versions -/

/-- A template gets its next version. -/
theorem goes_createVersion (supply : Supply) (h : IsStored w.disk id t vs) (content actor : Value) :
    ∃ w' t' v, Goes supply w (createVersion id content actor) w' (.ok t') ∧
      v.content = contentOf content ∧ Changed w.disk w'.disk id t' (vs ++ [v]) ∧
      t'.record.metadata = t.record.metadata ∧
      ∃ old, t.version = some old ∧ w.AddsEvent w' (versionedEvent old t' content actor) := by
  obtain ⟨current, hlast, hversion, hcurrent⟩ := h.current
  have hnames : Names t.record id current :=
    ⟨h.id_eq, h.number_eq.trans (congrArg Value.int (h.number_of_getLast? hlast).symm), hcurrent⟩
  obtain ⟨w', time, eventId, eventTime, hgoes, hdisk⟩ := goes_createVersion_of_names h.isHexId h.toHasVersions
    h.record_eq (List.mem_of_getLast? hlast) hnames content actor
    (v := versionAt supply w id (vs.length + 1) (contentOf content) (actorOf actor)) rfl
  refine ⟨w', _, versionAt supply w id (vs.length + 1) (contentOf content) (actorOf actor), hgoes, rfl,
    ⟨?_, ?_⟩, rfl, current, hversion, eventId, eventTime, ?_⟩
  · have hadd := h.add (v := versionAt supply w id (vs.length + 1) (contentOf content) (actorOf actor)) rfl
      (contentOf_contentOf content)
    rw [hdisk]
    refine hadd.isStored_put_record (r := nextRecord t.record _ _ time) h.isHexId h.id_eq ?_
      List.getLast?_concat rfl h.name _
    rw [List.length_append]
    rfl
  · rw [hdisk]
    exact (elsewhere_put_version _ _ _ _).trans (elsewhere_put_record_apply h.isHexId.isId _ _ _)
  · have hrecord : (nextRecord t.record (actorOf actor) (versionAt supply w id (vs.length + 1)
        (contentOf content) (actorOf actor)) time).id = .text id := h.id_eq
    rw [World.trail, hdisk, versionedEvent, hrecord]
    rfl

/-! ## New metadata -/

/-- A revised record is that of the same template with the same current version and, if any, a new name. -/
theorem revise_eq_ok {r r' : TemplateRecord} {name description status : Value}
    (h : revise r name description status = .ok r') :
    r'.id = r.id ∧ r'.versionId = r.versionId ∧ r'.versionNumber = r.versionNumber ∧
      (r'.name = r.name ∨ ∃ name, r'.name = .text name ∧ name ≠ "" ∧ trimmed name = name) := by
  unfold revise at h
  by_cases hnull : name.isNull = true
  · rw [if_pos hnull] at h
    obtain rfl := Except.ok.inj h
    exact ⟨rfl, rfl, rfl, .inl rfl⟩
  · rw [if_neg hnull] at h
    by_cases hempty : (trimmed name.display).isEmpty = true
    · simp [hempty] at h
    · rw [Bool.not_eq_true] at hempty
      simp only [hempty, Bool.false_eq_true, if_false] at h
      obtain rfl := Except.ok.inj h
      exact ⟨rfl, rfl, rfl, .inr (name_of_trimmed hempty)⟩

/-- A revised record is written, and the version that it names is loaded. -/
theorem goes_update_of_revise {old revised : TemplateRecord} {found : Option TemplateVersion}
    {name description status : Value} (hrecord : Goes supply w (requireRecord id) w (.ok old))
    (hrevised : revise old name description status = .ok revised) (hid : revised.id = .text id) (actor : Value)
    (hload : ∀ (r : TemplateRecord) (event : Value) (u : World),
      u.disk = (w.disk.put (recordPath id) (.document r.toValue)).apply (.record event) →
      Goes supply u (loadVersion id revised.versionNumber) u (.ok found)) :
    ∃ w' time, ∃ r : TemplateRecord, r = { revised with updatedBy := actorOf actor, updatedAt := .text time } ∧
      Goes supply w (update id name description status actor) w' (.ok ⟨r, found⟩) ∧
      ∃ eventId eventTime, w'.disk = (w.disk.put (recordPath id) (.document r.toValue)).apply (.record
        ((updatedEvent old ⟨r, found⟩ actor).toValue eventId eventTime)) := by
  have hrevise : Goes supply w (liftM (revise old name description status)) w (.ok revised) := by
    rw [← hrevised]
    exact goes_lift _
  refine ⟨_, supply.time w.readings, _, rfl, Goes.bind hrecord (Goes.bind hrevise (Goes.bind goes_now
    (Goes.bind (goes_writeRecord hid) (Goes.bind (goes_record rfl) (Goes.bind (goes_tell _ _)
    (Goes.bind (hload { revised with updatedBy := actorOf actor, updatedAt := .text (supply.time w.readings) }
      _ _ rfl) (goes_pure _))))))), supply.id w.ids, supply.time (w.readings + 1), ?_⟩
  simp only [updatedEvent, hid]
  rfl

/-- A template gets a new record and keeps its versions, unless its new name is blank. -/
theorem goes_update (supply : Supply) (h : IsStored w.disk id t vs)
    (name description status actor : Value) :
    (∃ e, Goes supply w (update id name description status actor) w (.error e)) ∨
    ∃ w' t', Goes supply w (update id name description status actor) w' (.ok t') ∧
      Changed w.disk w'.disk id t' vs ∧ w.AddsEvent w' (updatedEvent t.record t' actor) := by
  have hrecord : Goes supply w (requireRecord id) w (.ok t.record) := goes_requireRecord h.isHexId h.record_eq
  cases hrevised : revise t.record name description status with
  | error e =>
    refine .inl ⟨e, Goes.bind hrecord (Goes.bind_error ?_)⟩
    rw [hrevised]
    exact goes_lift _
  | ok revised =>
    obtain ⟨hid, hversion, hnumber, hname⟩ := revise_eq_ok hrevised
    obtain ⟨current, hlast, -, hcurrent⟩ := h.current
    obtain ⟨w', time, r, rfl, hgoes, eventId, eventTime, hdisk⟩ := goes_update_of_revise hrecord hrevised
      (hid.trans h.id_eq) actor fun r event u hu => by
        rw [hnumber, h.number_eq, ← h.number_of_getLast? hlast]
        refine goes_loadVersion ?_ (List.mem_of_getLast? hlast)
        rw [hu]
        exact h.put_record_apply h.isHexId.isId r.toValue event
    refine .inr ⟨w', _, hgoes, ⟨?_, ?_⟩, eventId, eventTime, by rw [World.trail, hdisk]; rfl⟩
    · rw [hdisk]
      refine h.isStored_put_record (r := { revised with updatedBy := actorOf actor, updatedAt := .text time })
        h.isHexId (hid.trans h.id_eq) (hnumber.trans h.number_eq) hlast (hversion.trans hcurrent) ?_ _
      exact hname.elim (fun hsame => hsame ▸ h.name) fun hnew => hnew
    · rw [hdisk]
      exact elsewhere_put_record_apply h.isHexId.isId _ _ _

/-! ## Templates that are not there -/

theorem goes_createVersion_error (supply : Supply) (h : Absent w.disk id) (content actor : Value) :
    ∃ e, Goes supply w (createVersion id content actor) w (.error e) := by
  obtain ⟨e, he⟩ : ∃ e, Goes supply w (requireRecord id) w (.error e) :=
    goes_requireRecord_error h.record_eq
  exact ⟨e, Goes.bind_error he⟩

theorem goes_update_error (supply : Supply) (h : Absent w.disk id)
    (name description status actor : Value) :
    ∃ e, Goes supply w (update id name description status actor) w (.error e) := by
  obtain ⟨e, he⟩ : ∃ e, Goes supply w (requireRecord id) w (.error e) :=
    goes_requireRecord_error h.record_eq
  exact ⟨e, Goes.bind_error he⟩

end Pagewright.Store
