import Pagewright.Proofs.Store.Effects
import Pagewright.Proofs.Store.History
import Pagewright.Proofs.Store.RecordFolder
import Pagewright.Proofs.Store.Trail

/-!
# What every step of a call maintains

Wherever a call stops, the files of the folder of records are well filed, and the audit trail holds whole
events that each name a template (`Sound`). A call that goes through leaves the temporary files of that
folder as they were, and the record that it returns was changed at a time that it took (`Ends`). All this is
maintained by publishing a version (`maintains_publish`) and so by every call (`maintains_call`).
-/

namespace Pagewright.Store

open Procedure Disk Text

variable {supply : Supply} {w w' : World} {id own name folder : String} {number : ℤ}
  {content actor v event : Value} {contents : Contents} {r : TemplateRecord}

/-! ## Sound worlds -/

/-- An event that names a template. -/
structure IsTraced (event : Value) : Prop where
  isEvent : IsEvent event
  template : ∃ id, id ≠ "" ∧ eventField "template_id" event = .text id

/-- The folder of records is in order, and so is the audit trail. -/
structure Sound (w : World) : Prop where
  wellFiled : WellFiled w.disk
  trail : ∃ events, w.trail = trailOf events ∧ ∀ event ∈ events, IsTraced event

theorem sound_empty : Sound {} := ⟨wellFiled_empty, [], rfl, by simp⟩

theorem Sound.of_disk (h : Sound w) (hdisk : w'.disk = w.disk) : Sound w' where
  wellFiled := hdisk ▸ h.wellFiled
  trail := by
    rw [World.trail, hdisk]
    exact h.trail

theorem Sound.put (h : Sound w) (hname : IsName name) (hfiled : folder = recordFolder → Filed name contents) :
    Sound { w with disk := w.disk.put (inFolder folder name) contents } :=
  ⟨h.wellFiled.put hname hfiled, h.trail⟩

theorem Sound.drafted (h : Sound w)
    (hfiled : folder = recordFolder → ∀ n, Filed (temporaryName n) contents) :
    Sound (w.drafted folder contents) := by
  obtain ⟨n, hpath⟩ := exists_temporaryPath w.disk folder
  rw [World.drafted, hpath]
  exact h.put (isName_temporaryName n) fun hfolder => hfiled hfolder n

theorem Sound.recorded (h : Sound w) (hevent : IsTraced event) : Sound (w.recorded event) where
  wellFiled := h.wellFiled.of_files rfl
  trail := by
    obtain ⟨events, htrail, htraced⟩ := h.trail
    refine ⟨events ++ [event], ?_, fun e he => ?_⟩
    · rw [← trailOf_add, ← htrail]
      rfl
    · rcases List.mem_append.mp he with he | he
      · exact htraced e he
      · exact List.mem_singleton.mp he ▸ hevent

/-! ## Parts of calls -/

theorem Sound.runFor_save (h : Sound w) (hname : IsName name)
    (hfiled : folder = recordFolder → Filed name (.document v) ∧ ∀ n, Filed (temporaryName n) (.document v))
    (n : ℕ) : Sound (runFor supply n w (save folder name v)) := by
  rcases Procedure.runFor_save n folder name v with heq | heq | heq | heq
  · exact heq ▸ h
  · rw [heq]
    exact h.drafted fun _ => .empty
  · rw [heq]
    exact h.drafted fun hfolder => (hfiled hfolder).2
  · rw [heq]
    exact h.put hname fun hfolder => (hfiled hfolder).1

theorem Sound.runFor_newId (h : Sound w) (n : ℕ) : Sound (runFor supply n w newId) := by
  rcases Procedure.runFor_newId n with heq | heq <;> exact heq ▸ h.of_disk rfl

theorem Sound.runFor_now (h : Sound w) (n : ℕ) : Sound (runFor supply n w now) := by
  rcases Procedure.runFor_now n with heq | heq <;> exact heq ▸ h.of_disk rfl

theorem Sound.runFor_record (h : Sound w) {e : AuditEvent} (he : e.check = .ok ())
    (htraced : ∀ eventId time, IsTraced (e.toValue eventId time)) (n : ℕ) :
    Sound (runFor supply n w (record e)) := by
  have htook : Sound w.tookId.readClock := h.of_disk rfl
  rcases Procedure.runFor_record he n with heq | heq | heq | heq
  · exact heq ▸ h
  · exact heq ▸ h.of_disk rfl
  · exact heq ▸ htook
  · exact heq ▸ htook.recorded (htraced _ _)

theorem Sound.runFor_writeRecord (h : Sound w) (hr : IsRecordOf own r) (n : ℕ) :
    Sound (runFor supply n w (writeRecord r)) := by
  rw [writeRecord, hr.id_eq]
  exact h.runFor_save (isName_recordName hr.isHexId.isId)
    (fun _ => ⟨.record hr, fun n => .draft n hr⟩) n

theorem Sound.runFor_writeVersion (h : Sound w) (n : ℕ) :
    Sound (runFor supply n w (writeVersion id number content actor)) := by
  have hmaintains : Maintains supply Sound (fun _ _ => True) w (writeVersion id number content actor) := by
    have htook : Sound w.tookId := h.of_disk rfl
    have hread : Sound w.tookId.readClock := h.of_disk rfl
    have hother {P : Prop} (hfolder : versionFolder id = recordFolder) : P :=
      absurd hfolder.symm (recordFolder_ne id)
    refine .after goes_newId h.runFor_newId (.after goes_now htook.runFor_now
      (.after (goes_save _ _ _) (hread.runFor_save (isName_versionName number) hother) ?_))
    exact maintains_done (hread.put (isName_versionName number) hother) trivial
  exact hmaintains.through n

/-! ## Calls -/

/-- A later world is sound and has the temporary files of records that were there before. -/
structure Keeps (w w' : World) : Prop where
  sound : Sound w'
  drafts_eq : ∀ n, w'.disk.find? (draftPath n) = w.disk.find? (draftPath n)

/-- What holds when a call has gone through: if it has a result, the record in it was changed at a time that
the call took. -/
structure Ends (supply : Supply) (w : World) (o : Outcome StoredTemplate) (w' : World) : Prop
    extends Keeps w w' where
  stamped : ∀ t, o = .ok t →
    ∃ k, w.readings ≤ k ∧ k < w'.readings ∧ t.record.updatedAt = .text (supply.time k)

theorem Sound.keeps (h : Sound w) : Keeps w w := ⟨h, fun _ => rfl⟩

theorem Keeps.of_disk {u : World} (h : Keeps w w') (hdisk : u.disk = w'.disk) : Keeps w u where
  sound := h.sound.of_disk hdisk
  drafts_eq n := by
    rw [hdisk]
    exact h.drafts_eq n

theorem Keeps.saved_record (h : Keeps w w') (hr : IsRecordOf own r) :
    Keeps w (w'.saved (recordPath own) r.toValue) where
  sound := h.sound.put (isName_recordName hr.isHexId.isId) fun _ => .record hr
  drafts_eq n := (find?_put_of_ne (recordPath_ne_draftPath hr.isHexId n).symm _ _).trans (h.drafts_eq n)

theorem Keeps.saved_version (h : Keeps w w') (id : String) (number : ℤ) (v : Value) :
    Keeps w (w'.saved (versionPath id number) v) where
  sound := h.sound.put (isName_versionName number) fun hfolder => absurd hfolder.symm (recordFolder_ne id)
  drafts_eq n := by
    refine (find?_put_of_ne (fun hpath => recordFolder_ne id ?_) _ _).trans (h.drafts_eq n)
    exact ((inFolder_inj (isName_temporaryName n) (isName_versionName number)).mp hpath).1

theorem Keeps.recorded (h : Keeps w w') (hevent : IsTraced event) : Keeps w (w'.recorded event) :=
  ⟨h.sound.recorded hevent, h.drafts_eq⟩

theorem Keeps.ends_error (h : Keeps w w') (e : Failure) : Ends supply w (.error e) w' :=
  ⟨h, fun _ h => by cases h⟩

/-- A record is written, and an event that names its template is added. -/
theorem Keeps.maintains_record {Q : Outcome StoredTemplate → World → Prop} {e : AuditEvent}
    {f : Value → Procedure StoredTemplate} (h : Keeps w w') (hr : IsRecordOf own r)
    (hcheck : e.check = .ok ()) (htraced : ∀ eventId time, IsTraced (e.toValue eventId time))
    (hf : ∀ event u, Keeps w u → w'.readings < u.readings → Maintains supply Sound Q u (f event)) :
    Maintains supply Sound Q w' (writeRecord r >>= fun _ => record e >>= f) := by
  have hsaved := h.saved_record hr
  have htook := hsaved.of_disk (u := (w'.saved (recordPath own) r.toValue).tookId.readClock) rfl
  exact .after (goes_writeRecord hr.id_eq) (h.sound.runFor_writeRecord hr) (.after (goes_record hcheck)
    (hsaved.sound.runFor_record hcheck htraced)
    (hf _ _ (htook.recorded (htraced _ _)) (Nat.lt_succ_self _)))

theorem isTraced_toValue {e : AuditEvent} {eventId time : String} (htemplate : e.templateId = .text id)
    (hid : isId id = true) (hextra : e.extra = []) : IsTraced (e.toValue eventId time) := by
  refine ⟨⟨_, rfl⟩, id, ?_, ?_⟩
  · rintro rfl
    exact absurd hid (by decide)
  · rw [AuditEvent.toValue, hextra, ← htemplate]
    rfl

/-- A version is published with the record of a template. -/
theorem Keeps.maintains_publish {recordOf : TemplateVersion → String → TemplateRecord}
    {eventOf : TemplateVersion → AuditEvent} (h : Keeps w w') (hreadings : w'.readings = w.readings)
    (hrecord : ∀ v time, IsRecordOf own (recordOf v time) ∧ (recordOf v time).updatedAt = .text time)
    (hcheck : ∀ v, (eventOf v).check = .ok ())
    (htraced : ∀ v eventId time, IsTraced ((eventOf v).toValue eventId time))
    (text : TemplateVersion → String) :
    Maintains supply Sound (Ends supply w) w' (publish id number content actor recordOf eventOf text) := by
  let version := versionAt supply w' id number content actor
  let written := w'.tookId.readClock.saved (versionPath id number) version.toValue
  have hwritten : Keeps w written := (h.of_disk rfl : Keeps w w'.tookId.readClock).saved_version _ _ _
  refine .after (goes_writeVersion _ _ _ _) h.sound.runFor_writeVersion (.after goes_now
    hwritten.sound.runFor_now ((hwritten.of_disk rfl : Keeps w written.readClock).maintains_record
      (hrecord version _).1 (hcheck version) (htraced version) fun event u hu hlt => ?_))
  refine .after_look (looks_tell _ _) hu.sound (fun _ _ => ?_) (hu.ends_error ·)
  refine maintains_done hu.sound ⟨hu, fun t ht => ?_⟩
  obtain rfl := Except.ok.inj ht
  have hread : written.readings = w.readings + 1 := congrArg (· + 1) hreadings
  exact ⟨written.readings, by omega, Nat.lt_of_succ_lt hlt, (hrecord version _).2⟩

theorem maintains_create (hids : ∀ k, IsHexId (supply.id k)) (hw : Sound w)
    (name description content actor : Value) :
    Maintains supply Sound (Ends supply w) w (create name description content actor) := by
  rw [create_eq]
  simp only
  split
  · exact maintains_done hw (hw.keeps.ends_error _)
  · have hid := hids w.ids
    refine .after goes_newId hw.runFor_newId ?_
    exact (hw.keeps.of_disk rfl : Keeps w w.tookId).maintains_publish rfl
      (fun v time => ⟨⟨hid, rfl, time, rfl⟩, rfl⟩) (fun _ => rfl)
      (fun _ _ _ => isTraced_toValue rfl hid.isId rfl) _

theorem maintains_createVersion (hw : Sound w) (id : String) (content actor : Value) :
    Maintains supply Sound (Ends supply w) w (createVersion id content actor) := by
  rw [createVersion_eq]
  refine .after_look (looks_requireRecord id) hw (fun r hrequired => ?_) (hw.keeps.ends_error ·)
  refine .after_look (looks_loadVersion _ _) hw (fun previous _ => ?_) (hw.keeps.ends_error ·)
  refine .after_look (looks_versions id) hw (fun listed _ => ?_) (hw.keeps.ends_error ·)
  obtain ⟨own, hr⟩ := hw.wellFiled.of_requireRecord hrequired
  have hid : isId id = true := (find?_of_goes_requireRecord hrequired).1
  have hrecord (v : TemplateVersion) (time : String) : IsRecordOf own (nextRecord r (actorOf actor) v time) ∧
      (nextRecord r (actorOf actor) v time).updatedAt = .text time :=
    ⟨⟨hr.isHexId, hr.id_eq, time, rfl⟩, rfl⟩
  exact hw.keeps.maintains_publish rfl hrecord (fun _ => rfl)
    (fun _ _ _ => isTraced_toValue rfl hid rfl) _

theorem maintains_update (hw : Sound w) (id : String) (name description status actor : Value) :
    Maintains supply Sound (Ends supply w) w (update id name description status actor) := by
  refine .after_look (looks_requireRecord id) hw (fun r hrequired => ?_) (hw.keeps.ends_error ·)
  refine .after_look (looks_done (revise r name description status)) hw (fun revised hrevised => ?_)
    (hw.keeps.ends_error ·)
  obtain ⟨own, hr⟩ := hw.wellFiled.of_requireRecord hrequired
  have hid : isId id = true := (find?_of_goes_requireRecord hrequired).1
  have hown : revised.id = .text own := by
    have hrevise : revise r name description status = .ok revised := ((goes_lift _).unique hrevised).2
    exact (revise_eq_ok hrevise).1.trans hr.id_eq
  refine .after goes_now hw.runFor_now ?_
  refine (hw.keeps.of_disk rfl : Keeps w w.readClock).maintains_record
    ⟨hr.isHexId, hown, _, rfl⟩ rfl (fun _ _ => isTraced_toValue rfl hid rfl) fun event u hu hlt => ?_
  refine .after_look (looks_tell _ _) hu.sound (fun _ _ => ?_) (hu.ends_error ·)
  refine .after_look (looks_loadVersion _ _) hu.sound (fun found _ => ?_) (hu.ends_error ·)
  refine maintains_done hu.sound ⟨hu, fun t ht => ?_⟩
  obtain rfl := Except.ok.inj ht
  exact ⟨w.readings, le_rfl, Nat.lt_of_succ_lt hlt, rfl⟩

/-- Every call maintains all this. -/
theorem maintains_call (hids : ∀ k, IsHexId (supply.id k)) (hw : Sound w) (c : Call) :
    Maintains supply Sound (Ends supply w) w c.procedure := by
  unfold Call.procedure
  cases c with
  | create name description content actor => exact maintains_create hids hw name description content actor
  | version id content actor => exact maintains_createVersion hw id content actor
  | update id name description status actor => exact maintains_update hw id name description status actor

theorem Sound.run (hids : ∀ k, IsHexId (supply.id k)) (hw : Sound w) (c : Call) :
    Ends supply w (run supply w c.procedure).2.outcome (run supply w c.procedure).1 :=
  (maintains_call hids hw c).ends _ _ ⟨rfl, rfl⟩

theorem Sound.runCalls (hids : ∀ k, IsHexId (supply.id k)) (hw : Sound w) (calls : List Call) :
    Keeps w (runCalls supply w calls).1 := by
  induction calls generalizing w with
  | nil => exact hw.keeps
  | cons c calls ih =>
    have hcall := hw.run hids c
    have hrest := ih hcall.sound
    exact ⟨hrest.sound, fun n => (hrest.drafts_eq n).trans (hcall.drafts_eq n)⟩

end Pagewright.Store
