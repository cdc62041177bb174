import Pagewright.Proofs.Store.Readings
import Pagewright.Proofs.Store.Templates

/-!
# Writing a version and the record that names it

A template is created and gets further versions in one way (`publish`): the version is written, then the
record that names it, and the event comes last. All of this succeeds (`goes_publish`). Cut off on the way,
it leaves nothing, the version, or the version and the record (`stopsAt_publish`, `Wrote`).
-/

namespace Pagewright.Store

open Procedure Text

variable {supply : Supply} {w u : World} {id : String} {number : ℤ} {content actor : Value}
  {r : TemplateRecord} {v : TemplateVersion} {vs : List TemplateVersion}

/-- Write the record that names a version, then an event. -/
def announce (recordOf : TemplateVersion → String → TemplateRecord) (eventOf : TemplateVersion → AuditEvent)
    (text : TemplateVersion → String) (version : TemplateVersion) : Procedure StoredTemplate := do
  let time ← now
  writeRecord (recordOf version time)
  let _ ← Procedure.record (eventOf version)
  tell .info (text version)
  return ⟨recordOf version time, some version⟩

/-- Write a version, then the record that names it, then an event. -/
def publish (id : String) (number : ℤ) (content actor : Value)
    (recordOf : TemplateVersion → String → TemplateRecord) (eventOf : TemplateVersion → AuditEvent)
    (text : TemplateVersion → String) : Procedure StoredTemplate :=
  writeVersion id number content actor >>= announce recordOf eventOf text

/-- The record of a new template. -/
def firstRecord (id name : String) (description actor : Value) (version : TemplateVersion) (time : String) :
    TemplateRecord where
  id := .text id
  name := .text name
  description := descriptionOf description
  status := .text initialStatus
  versionId := version.id
  versionNumber := .int version.number
  createdBy := actor
  updatedBy := actor
  createdAt := .text time
  updatedAt := .text time

/-- A record that names a further version. -/
def nextRecord (r : TemplateRecord) (actor : Value) (version : TemplateVersion) (time : String) :
    TemplateRecord :=
  { r with
    versionId := version.id
    versionNumber := .int version.number
    updatedBy := actor
    updatedAt := .text time }

/-- The event of a new template with its first version. -/
def firstEvent (id : String) (content actor : Value) (version : TemplateVersion) : AuditEvent where
  action := "template.created"
  templateId := .text id
  actor := actor
  versionId := version.id
  after := content

/-- The event of a further version. -/
def nextEvent (id : String) (previous : Option TemplateVersion) (content actor : Value)
    (version : TemplateVersion) : AuditEvent where
  action := "template.version.created"
  templateId := .text id
  actor := actor
  versionId := version.id
  before := (previous.map (·.content)).getD .null
  after := content

theorem create_eq (name description content actor : Value) :
    create name description content actor =
      (let name := trimmed (name.orElse (.text "")).display
      if name.isEmpty then Procedure.fail .nameRequired
      else do
        let id ← newId
        publish id 1 (contentOf content) (actorOf actor) (firstRecord id name description (actorOf actor))
          (firstEvent id (contentOf content) (actorOf actor))
          (fun _ => "Created template '" ++ name ++ "' (" ++ id ++ ")")) := rfl

/-- Publish the version after those that are listed. -/
def publishNext (id : String) (content actor : Value) (r : TemplateRecord) (previous : Option TemplateVersion)
    (listed : List TemplateVersion) : Procedure StoredTemplate :=
  publish id (latest listed + 1) (contentOf content) (actorOf actor) (nextRecord r (actorOf actor))
    (nextEvent id previous (contentOf content) (actorOf actor))
    (fun version => "Template " ++ id ++ ": version " ++ toString version.number ++ " created")

theorem createVersion_eq (id : String) (content actor : Value) :
    createVersion id content actor = (do
      let r ← requireRecord id
      let previous ← loadVersion id r.versionNumber
      publishNext id content actor r previous (← versions id)) := rfl

/-- A record names a version of its template as the current one. -/
structure Names (r : TemplateRecord) (id : String) (v : TemplateVersion) : Prop where
  id_eq : r.id = .text id
  number_eq : r.versionNumber = .int v.number
  version_eq : r.versionId = v.id

theorem names_firstRecord (id name : String) (description actor : Value) (v : TemplateVersion)
    (time : String) : Names (firstRecord id name description actor v time) id v := ⟨rfl, rfl, rfl⟩

theorem names_nextRecord (h : r.id = .text id) (actor : Value) (v : TemplateVersion) (time : String) :
    Names (nextRecord r actor v time) id v := ⟨h, rfl, rfl⟩

/-! ## Going through -/

/-- A version as it is written. -/
def versionAt (supply : Supply) (w : World) (id : String) (number : ℤ) (content actor : Value) :
    TemplateVersion :=
  ⟨.text (supply.id w.ids), .text id, number, content, actor, .text (supply.time w.readings)⟩

theorem goes_writeVersion (id : String) (number : ℤ) (content actor : Value) :
    Goes supply w (writeVersion id number content actor)
      (w.tookId.readClock.saved (versionPath id number)
        (versionAt supply w id number content actor).toValue)
      (.ok (versionAt supply w id number content actor)) :=
  Goes.bind goes_newId (Goes.bind goes_now (Goes.bind (goes_save _ _ _) (goes_pure _)))

theorem goes_writeRecord (h : r.id = .text id) :
    Goes supply w (writeRecord r) (w.saved (recordPath id) r.toValue) (.ok ()) := by
  rw [writeRecord, h]
  exact goes_save _ _ _

/-- A version is published with the record that names it and an event. -/
theorem goes_publish (recordOf : TemplateVersion → String → TemplateRecord)
    (eventOf : TemplateVersion → AuditEvent) (text : TemplateVersion → String)
    (hv : v = versionAt supply w id number content actor) (hid : ∀ time, (recordOf v time).id = .text id)
    (hevent : (eventOf v).check = .ok ()) :
    ∃ w' time event, Goes supply w (publish id number content actor recordOf eventOf text) w'
        (.ok ⟨recordOf v time, some v⟩) ∧ w.ids < w'.ids ∧
      w'.disk = ((w.disk.put (versionPath id v.number) (.document v.toValue)).put
        (recordPath id) (.document (recordOf v time).toValue)).apply (.record event) ∧
      ∃ eventId eventTime, event = (eventOf v).toValue eventId eventTime := by
  subst hv
  refine ⟨_, _, _, Goes.bind (goes_writeVersion _ _ _ _) (Goes.bind goes_now (Goes.bind
    (goes_writeRecord (hid _)) (Goes.bind (goes_record hevent) (Goes.bind (goes_tell _ _) (goes_pure _))))),
    ?_, rfl, _, _, rfl⟩
  exact Nat.lt_succ_of_le (Nat.le_succ _)

theorem goes_create_of_blank {name : Value} (h : (trimmed (name.orElse (.text "")).display).isEmpty = true)
    (description content actor : Value) :
    Goes supply w (create name description content actor) w (.error .nameRequired) := by
  rw [create_eq]
  simp only [h, if_true]
  exact goes_fail _

theorem goes_create_of_name {name : Value} (h : (trimmed (name.orElse (.text "")).display).isEmpty = false)
    (description content actor : Value)
    (hv : v = versionAt supply w.tookId (supply.id w.ids) 1 (contentOf content) (actorOf actor)) :
    ∃ w' time eventId eventTime, ∃ r : TemplateRecord,
      r = firstRecord (supply.id w.ids) (trimmed (name.orElse (.text "")).display) description
        (actorOf actor) v time ∧
      Goes supply w (create name description content actor) w' (.ok ⟨r, some v⟩) ∧ w.ids < w'.ids ∧
      w'.disk = ((w.disk.put (versionPath (supply.id w.ids) v.number) (.document v.toValue)).put
        (recordPath (supply.id w.ids)) (.document r.toValue)).apply
          (.record ((firstEvent (supply.id w.ids) (contentOf content) (actorOf actor) v).toValue
            eventId eventTime)) := by
  obtain ⟨w', time, event, hgoes, hids, hdisk, eventId, eventTime, rfl⟩ :=
    goes_publish
      (firstRecord (supply.id w.ids) (trimmed (name.orElse (.text "")).display) description (actorOf actor))
      (firstEvent (supply.id w.ids) (contentOf content) (actorOf actor))
      (fun _ => "Created template '" ++ trimmed (name.orElse (.text "")).display ++ "' (" ++
        supply.id w.ids ++ ")") hv (fun _ => rfl) rfl
  refine ⟨w', time, eventId, eventTime, _, rfl, ?_, (Nat.lt_succ_self w.ids).trans hids, hdisk⟩
  rw [create_eq]
  simp only [h, Bool.false_eq_true, if_false]
  exact Goes.bind goes_newId hgoes

theorem goes_publishNext {listed : List TemplateVersion} (hid : r.id = .text id)
    (previous : Option TemplateVersion)
    (hv : v = versionAt supply w id (latest listed + 1) (contentOf content) (actorOf actor)) :
    ∃ w' time eventId eventTime,
      Goes supply w (publishNext id content actor r previous listed) w'
        (.ok ⟨nextRecord r (actorOf actor) v time, some v⟩) ∧
      w'.disk = ((w.disk.put (versionPath id v.number) (.document v.toValue)).put (recordPath id)
        (.document (nextRecord r (actorOf actor) v time).toValue)).apply
          (.record ((nextEvent id previous (contentOf content) (actorOf actor) v).toValue
            eventId eventTime)) := by
  obtain ⟨w', time, event, hgoes, -, hdisk, eventId, eventTime, rfl⟩ :=
    goes_publish (nextRecord r (actorOf actor)) (nextEvent id previous (contentOf content) (actorOf actor))
      (fun version => "Template " ++ id ++ ": version " ++ toString version.number ++ " created")
      hv (fun _ => hid) rfl
  exact ⟨w', time, eventId, eventTime, hgoes, hdisk⟩

/-- A template whose record names one of its versions gets the next one. -/
theorem goes_createVersion_of_names {current : TemplateVersion} (hid : IsHexId id)
    (hversions : HasVersions w.disk id vs)
    (hrecord : w.disk.find? (recordPath id) = some (.document r.toValue)) (hcurrent : current ∈ vs) (hnames : Names r id current) (content actor : Value)
    (hv : v = versionAt supply w id (vs.length + 1) (contentOf content) (actorOf actor)) :
    ∃ w' time eventId eventTime,
      Goes supply w (createVersion id content actor) w' (.ok ⟨nextRecord r (actorOf actor) v time, some v⟩) ∧
      w'.disk = ((w.disk.put (versionPath id v.number) (.document v.toValue)).put (recordPath id)
        (.document (nextRecord r (actorOf actor) v time).toValue)).apply
          (.record ((nextEvent id (some current) (contentOf content) (actorOf actor) v).toValue
            eventId eventTime)) := by
  have hprevious : Goes supply w (loadVersion id r.versionNumber) w (.ok (some current)) := by
    rw [hnames.number_eq]
    exact goes_loadVersion hversions hcurrent
  have hlatest : latest vs.reverse + 1 = vs.length + 1 := by rw [latest_reverse hversions.numbers_eq]
  obtain ⟨w', time, eventId, eventTime, hgoes, hdisk⟩ :=
    goes_publishNext hnames.id_eq (some current) (hlatest ▸ hv)
  refine ⟨w', time, eventId, eventTime, ?_, hdisk⟩
  rw [createVersion_eq]
  exact Goes.bind (goes_requireRecord hid hrecord) (Goes.bind hprevious
    (Goes.bind (goes_versions hid hversions) hgoes))

/-! ## Being cut off -/

/-- How far the writing of a version and of the record that names it has come. -/
inductive Wrote (d : Disk) (id : String) (v : TemplateVersion) (r : TemplateRecord) (d' : Disk) : Prop where
  | nothing (h : d'.files = d.files)
  | version (h : d'.files = (d.put (versionPath id v.number) (.document v.toValue)).files)
  | record (h : d'.files = ((d.put (versionPath id v.number) (.document v.toValue)).put
      (recordPath id) (.document r.toValue)).files)

/-- A version is written as a whole or not at all. -/
theorem stopsAt_writeVersion (h : StopsAt supply w (writeVersion id number content actor) u) :
    u.disk = w.disk ∨ u.disk = w.disk.put (versionPath id number)
      (.document (versionAt supply w id number content actor).toValue) := by
  rcases h.bind_of_goes goes_newId with h | h
  · rcases stopsAt_newId h with rfl | rfl <;> exact .inl rfl
  rcases h.bind_of_goes goes_now with h | h
  · rcases stopsAt_now h with rfl | rfl <;> exact .inl rfl
  rcases h.bind_of_goes (goes_save _ _ _) with h | h
  · rcases stopsAt_save h with rfl | rfl
    · exact .inl rfl
    · exact .inr rfl
  · obtain rfl := stopsAt_done h
    exact .inr rfl

/-- The record comes after the version, and the event after both. -/
theorem stopsAt_publish {recordOf : TemplateVersion → String → TemplateRecord}
    {eventOf : TemplateVersion → AuditEvent} {text : TemplateVersion → String}
    (hv : v = versionAt supply w id number content actor) (hid : ∀ time, (recordOf v time).id = .text id)
    (hevent : (eventOf v).check = .ok ())
    (h : StopsAt supply w (publish id number content actor recordOf eventOf text) u) :
    ∃ time, Wrote w.disk id v (recordOf v time) u.disk := by
  subst hv
  have hfiles {d : Disk} (h : u.disk = d ∨ ∃ event, u.disk = d.apply (.record event)) :
      u.disk.files = d.files := by
    rcases h with h | ⟨event, h⟩ <;> rw [h]
    rfl
  rcases h.bind_of_goes (goes_writeVersion _ _ _ _) with h | h
  · refine ⟨"", ?_⟩
    rcases stopsAt_writeVersion h with h | h
    · exact .nothing (congrArg Disk.files h)
    · exact .version (congrArg Disk.files h)
  rcases h.bind_of_goes goes_now with h | h
  · refine ⟨"", .version ?_⟩
    rcases stopsAt_now h with rfl | rfl <;> rfl
  refine ⟨supply.time (w.readings + 1), ?_⟩
  rcases h.bind_of_goes (goes_writeRecord (hid _)) with h | h
  · rw [writeRecord, hid] at h
    rcases stopsAt_save h with rfl | rfl
    · exact .version rfl
    · exact .record rfl
  rcases h.bind_of_goes (goes_record hevent) with h | h
  · exact .record (hfiles (stopsAt_record hevent h))
  rcases h.bind_of_goes (goes_tell _ _) with h | h
  · obtain rfl := (looks_tell _ _).eq_of_stopsAt h
    exact .record (hfiles (.inr ⟨_, rfl⟩))
  · obtain rfl := stopsAt_done h
    exact .record (hfiles (.inr ⟨_, rfl⟩))

/-- A template is created from its version on. -/
theorem stopsAt_create {name description : Value}
    (h : StopsAt supply w (create name description content actor) u) :
    u.disk = w.disk ∨ w.ids < u.ids ∧ ∃ v r, v.number = 1 ∧ v.content = contentOf content ∧
      Names r (supply.id w.ids) v ∧ Wrote w.disk (supply.id w.ids) v r u.disk := by
  rw [create_eq] at h
  by_cases hempty : (trimmed (name.orElse (.text "")).display).isEmpty = true
  · simp only [hempty, if_true] at h
    exact .inl (congrArg World.disk (stopsAt_done h))
  rw [Bool.not_eq_true] at hempty
  simp only [hempty, Bool.false_eq_true, if_false] at h
  rcases h.bind_of_goes goes_newId with h | h
  · rcases stopsAt_newId h with rfl | rfl <;> exact .inl rfl
  · obtain ⟨time, hwrote⟩ := stopsAt_publish rfl (fun _ => rfl) rfl h
    exact .inr ⟨(Nat.lt_succ_self w.ids).trans_le h.ids_le, _, _, rfl, rfl,
      names_firstRecord _ _ _ _ _ _, hwrote⟩

/-- A template has versions, and its record, if there is one, names one of them. -/
structure Kept (d : Disk) (id : String) (vs : List TemplateVersion) : Prop extends HasVersions d id vs where
  isHexId : IsHexId id
  named : ∀ contents, d.find? (recordPath id) = some contents →
    ∃ r v, contents = .document r.toValue ∧ v ∈ vs ∧ Names r id v

theorem Kept.of_requireRecord (h : Kept w.disk id vs) (hgoes : Goes supply w (requireRecord id) w (.ok r)) :
    w.disk.find? (recordPath id) = some (.document r.toValue) ∧ ∃ v ∈ vs, Names r id v := by
  obtain ⟨-, -, contents, hfind⟩ := find?_of_goes_requireRecord hgoes
  obtain ⟨r', v, rfl, hv, hnames⟩ := h.named contents hfind
  obtain rfl := Except.ok.inj (hgoes.unique (goes_requireRecord h.isHexId hfind)).2
  exact ⟨hfind, v, hv, hnames⟩

/-- A further version gets the number after those of all versions that are there. -/
theorem stopsAt_createVersion (hkept : Kept w.disk id vs)
    (h : StopsAt supply w (createVersion id content actor) u) :
    u = w ∨ ∃ (v : TemplateVersion) (r : TemplateRecord), v.number = vs.length + 1 ∧
      v.content = contentOf content ∧ Names r id v ∧ Wrote w.disk id v r u.disk := by
  rw [createVersion_eq] at h
  obtain rfl | ⟨r, hrecord, h⟩ := h.bind_of_looks (looks_requireRecord id)
  · exact .inl rfl
  obtain rfl | ⟨previous, -, h⟩ := h.bind_of_looks (looks_loadVersion id r.versionNumber)
  · exact .inl rfl
  obtain rfl | ⟨listed, hlisted, h⟩ := h.bind_of_looks (looks_versions id)
  · exact .inl rfl
  obtain rfl := Except.ok.inj (hlisted.unique (goes_versions hkept.isHexId hkept.toHasVersions)).2
  obtain ⟨-, current, -, hnames⟩ := hkept.of_requireRecord hrecord
  obtain ⟨time, hwrote⟩ := stopsAt_publish rfl (fun _ => hnames.id_eq) rfl h
  refine .inr ⟨_, _, ?_, rfl, names_nextRecord hnames.id_eq _ _ _, hwrote⟩
  exact congrArg (· + 1) (latest_reverse hkept.numbers_eq)

end Pagewright.Store
