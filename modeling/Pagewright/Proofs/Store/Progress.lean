import Pagewright.Proofs.Store.Interruption

/-!
# A further version on its way

Between two accesses of a request for a further version, another request can change the files. `Stage` says
how far a request has come: before it looks for the versions that are there, while it is adding its own
(`Phase.adding`), with a number that was settled when it looked, or after it wrote it. On a template that
stays usable, a request goes on from stage to stage (`Stage.proceeds`) until it succeeds
(`Stage.of_done`).
-/

namespace Pagewright.Store

open Procedure Text

variable {α : Type} {supply : Supply} {w w' : World} {d d' : Disk} {id : String} {content actor : Value}
  {r : TemplateRecord} {v u : TemplateVersion} {vs us : List TemplateVersion} {k : ℕ} {number : ℤ}

/-! ## Files in use -/

/-- A template with versions numbered from one on, and a record that names some number. -/
structure Usable (d : Disk) (id : String) (us : List TemplateVersion) : Prop extends HasVersions d id us where
  isHexId : IsHexId id
  recorded : ∃ (r : TemplateRecord) (n : ℤ), d.find? (recordPath id) = some (.document r.toValue) ∧
    r.id = .text id ∧ r.versionNumber = .int n

theorem Kept.usable (h : Kept d id vs) (hrecord : d.find? (recordPath id) ≠ none) : Usable d id vs where
  toHasVersions := h.toHasVersions
  isHexId := h.isHexId
  recorded := by
    obtain ⟨contents, hfind⟩ := Option.ne_none_iff_exists'.mp hrecord
    obtain ⟨r, v, rfl, -, hnames⟩ := h.named contents hfind
    exact ⟨r, v.number, hfind, hnames.id_eq, hnames.number_eq⟩

theorem Usable.of_files (h : Usable d id us) (hfiles : d'.files = d.files) : Usable d' id us where
  toHasVersions := h.toHasVersions.of_files hfiles
  isHexId := h.isHexId
  recorded := by rw [Disk.find?_congr hfiles]; exact h.recorded

theorem Usable.put_record (h : Usable d id us) (hid : r.id = .text id)
    (hnumber : r.versionNumber = .int number) :
    Usable (d.put (recordPath id) (.document r.toValue)) id us where
  toHasVersions := h.toHasVersions.put_record h.isHexId.isId r.toValue
  isHexId := h.isHexId
  recorded := ⟨r, number, Disk.find?_put_self _ _ _, hid, hnumber⟩

/-- A version with the next number is added as the last one. -/
theorem Usable.add (h : Usable d id us) (hnumber : v.number = us.length + 1)
    (hcontent : contentOf v.content = v.content) :
    Usable (d.put (versionPath id v.number) (.document v.toValue)) id (us ++ [v]) where
  toHasVersions := h.toHasVersions.add hnumber hcontent
  isHexId := h.isHexId
  recorded := by rw [Disk.find?_put_of_ne (recordPath_ne_versionPath _ _ _)]; exact h.recorded

/-- A version with the last number takes the place of the last one. -/
theorem Usable.replace (h : Usable d id (us ++ [u])) (hnumber : v.number = u.number)
    (hcontent : contentOf v.content = v.content) :
    Usable (d.put (versionPath id v.number) (.document v.toValue)) id (us ++ [v]) where
  names_eq := by
    have hthere : d.find? (versionPath id v.number) ≠ none := by
      rw [hnumber, h.find?_eq u (by simp)]
      simp
    rw [Disk.names_put_of_find?_ne_none hthere, h.names_eq]
    simp [hnumber]
  find?_eq x hx := by
    rcases List.mem_append.mp hx with hx | hx
    · have hne : x.number ≠ v.number := by
        have hpairwise := pairwise_of_numbers h.numbers_eq
        rw [List.pairwise_append] at hpairwise
        rw [hnumber]
        exact (hpairwise.2.2 x hx u (by simp)).ne
      rw [Disk.find?_put_of_ne (fun heq => hne (versionPath_inj.mp heq).2)]
      exact h.find?_eq x (by simp [hx])
    · obtain rfl := List.mem_singleton.mp hx
      exact Disk.find?_put_self _ _ _
  numbers_eq := by
    have hnumbers := h.numbers_eq
    simpa [hnumber] using hnumbers
  content_eq x hx := by
    rcases List.mem_append.mp hx with hx | hx
    · exact h.content_eq x (by simp [hx])
    · obtain rfl := List.mem_singleton.mp hx
      exact hcontent
  isHexId := h.isHexId
  recorded := by rw [Disk.find?_put_of_ne (recordPath_ne_versionPath _ _ _)]; exact h.recorded

/-! ## Accesses of a request -/

theorem advance_requireRecord (hid : IsHexId id)
    (h : w.disk.find? (recordPath id) = some (.document r.toValue)) (f : TemplateRecord → Procedure α) :
    advance supply w (requireRecord id >>= f) = ⟨some (.look (recordPath id)), w, f r⟩ := by
  unfold requireRecord loadRecord
  rw [hid.isId, hid.checkName_recordName]
  change Advance.mk _ _ _ = _
  unfold recordPath at h
  rw [h]
  rfl

theorem contentOf_eq_self (h : contentOf v.content = v.content) :
    { v with content := contentOf v.content } = v := by
  rw [h]

theorem advance_loadVersion (h : HasVersions w.disk id us) (number : ℤ)
    (f : Option TemplateVersion → Procedure α) :
    ∃ previous, advance supply w (loadVersion id (.int number) >>= f) =
      ⟨some (.look (versionPath id number)), w, f previous⟩ := by
  unfold loadVersion
  by_cases hfind : w.disk.find? (versionPath id number) = none
  · refine ⟨none, ?_⟩
    unfold versionPath at hfind
    change Advance.mk _ _ _ = _
    rw [hfind]
    rfl
  · obtain ⟨v, hv, rfl⟩ := h.exists_of_find? hfind
    refine ⟨some v, ?_⟩
    have hthere := h.find?_eq v hv
    unfold versionPath at hthere
    change Advance.mk _ _ _ = _
    rw [hthere]
    change Advance.mk _ _ (f (some { v with content := contentOf v.content })) = _
    rw [contentOf_eq_self (h.content_eq v hv)]
    rfl

/-- Versions sorted from the newest. -/
def newestFirst (vs : List TemplateVersion) : List TemplateVersion :=
  vs.foldl (fun sorted v => insertVersion v sorted) []

theorem latest_newestFirst (h : vs.map (·.number) = numbersTo k) : latest (newestFirst vs) = k := by
  have hlength : vs.length = k := by
    have hlengths := congrArg List.length h
    simpa [numbersTo] using hlengths
  subst hlength
  rw [newestFirst, foldl_insertVersion (pairwise_of_numbers h) (by simp), List.append_nil, latest_reverse h]

/-- The versions with some numbers. -/
def readNumbers (id : String) (numbers : List ℤ) : Procedure (List TemplateVersion) :=
  readAll TemplateVersion.ofValue (versionFolder id) (numbers.map fun n => versionName (.int n))

theorem advance_versions (h : Usable w.disk id us) (f : List TemplateVersion → Procedure α) :
    advance supply w (versions id >>= f) = ⟨some (.list (versionFolder id)), w,
      readNumbers id (numbersTo us.length) >>= fun found => f (newestFirst found)⟩ := by
  have hnames : (w.disk.names (versionFolder id)).filter isVersionName =
      (numbersTo us.length).map fun n => versionName (.int n) := by
    rw [h.names_eq, ← h.numbers_eq, List.map_map, List.filter_eq_self.mpr]
    · rfl
    · intro name hname
      obtain ⟨v, -, rfl⟩ := List.mem_map.mp hname
      exact isVersionName_versionName v.number
  unfold versions
  rw [h.isHexId.isId, h.isHexId.checkName_eq]
  change Advance.mk _ _ (readAll _ _ _ >>= _ >>= f) = _
  rw [bind_assoc, hnames]
  rfl

theorem readNumbers_nil (id : String) (f : List TemplateVersion → Procedure α) :
    readNumbers id [] >>= f = f [] := rfl

theorem advance_readNumbers {numbers : List ℤ} (hv : w.disk.find? (versionPath id v.number) =
    some (.document v.toValue)) (hcontent : contentOf v.content = v.content)
    (f : List TemplateVersion → Procedure α) :
    advance supply w (readNumbers id (v.number :: numbers) >>= f) =
      ⟨some (.look (versionPath id v.number)), w, readNumbers id numbers >>= fun more => f (v :: more)⟩ := by
  unfold versionPath at hv
  unfold readNumbers
  rw [List.map_cons, readAll]
  change Advance.mk _ _ _ = _
  rw [hv]
  change Advance.mk _ _ (readAll _ _ _ >>=
    (fun more => pure ({ v with content := contentOf v.content } :: more)) >>= f) = _
  rw [bind_assoc, contentOf_eq_self hcontent]
  rfl

theorem advance_publish (number : ℤ) (content actor : Value)
    (recordOf : TemplateVersion → String → TemplateRecord) (eventOf : TemplateVersion → AuditEvent)
    (text : TemplateVersion → String) (hv : v = versionAt supply w id number content actor) :
    advance supply w (publish id number content actor recordOf eventOf text) =
      ⟨some (.put (versionPath id v.number)), w.tookId.readClock.saved (versionPath id v.number) v.toValue,
        announce recordOf eventOf text v⟩ := by
  subst hv
  have hsave : advance supply w.tookId.readClock (save (versionFolder id) (versionName (.int number))
      (versionAt supply w id number content actor).toValue) = _ := advance_save _ _ _
  have hbind := advance_bind (by rw [hsave]; simp) fun _ : Unit => announce recordOf eventOf text
    (versionAt supply w id number content actor)
  rw [hsave] at hbind
  exact hbind

theorem advance_publishNext {listed : List TemplateVersion} (content actor : Value) (r : TemplateRecord)
    (previous : Option TemplateVersion) (h : latest listed = k) :
    ∃ (v : TemplateVersion) (text : TemplateVersion → String),
      v.number = k + 1 ∧ v.content = contentOf content ∧
      advance supply w (publishNext id content actor r previous listed) =
        ⟨some (.put (versionPath id v.number)), w.tookId.readClock.saved (versionPath id v.number) v.toValue,
          announce (nextRecord r (actorOf actor))
            (nextEvent id previous (contentOf content) (actorOf actor)) text v⟩ :=
  ⟨versionAt supply w id (latest listed + 1) (contentOf content) (actorOf actor), _,
    congrArg (· + 1) h, rfl, advance_publish _ _ _ _ _ _ rfl⟩

theorem advance_announce {recordOf : TemplateVersion → String → TemplateRecord}
    (hid : ∀ time, (recordOf v time).id = .text id) (eventOf : TemplateVersion → AuditEvent)
    (text : TemplateVersion → String) :
    ∃ time, advance supply w (announce recordOf eventOf text v) =
      ⟨some (.put (recordPath id)), w.readClock.saved (recordPath id) (recordOf v time).toValue, do
        let _ ← Procedure.record (eventOf v)
        tell .info (text v)
        return ⟨recordOf v time, some v⟩⟩ := by
  refine ⟨supply.time w.readings, ?_⟩
  have hwrite : advance supply w.readClock (writeRecord (recordOf v (supply.time w.readings))) = _ :=
    advance_save _ _ _
  rw [hid] at hwrite
  have hbind := advance_bind (by rw [hwrite]; simp) fun _ : Unit => (do
    let _ ← Procedure.record (eventOf v)
    tell .info (text v)
    return (⟨recordOf v (supply.time w.readings), some v⟩ : StoredTemplate))
  rw [hwrite] at hbind
  exact hbind

theorem advance_record {e : AuditEvent} (he : e.check = .ok ()) (f : Value → Procedure α) :
    ∃ event, advance supply w (Procedure.record e >>= f) =
      ⟨some .append, w.tookId.readClock.recorded event, f event⟩ := by
  refine ⟨e.toValue (supply.id w.ids) (supply.time w.readings), ?_⟩
  unfold Procedure.record
  rw [he]
  rfl

/-! ## Stages -/

/-- How far a request for a further version has come. -/
inductive Phase where
  /-- It did not yet look for the versions that are there. -/
  | before
  /-- It found `k` versions and did not yet write its own. -/
  | adding (k : ℕ)
  /-- It wrote its version. -/
  | added (v : TemplateVersion)

/-- Whether a request is adding its version. -/
def Phase.isAdding : Phase → Bool
  | adding _ => true
  | before | added _ => false

/-- What is left of a request in a phase. -/
inductive Stage (id : String) (content actor : Value) : Procedure StoredTemplate → Phase → Prop where
  | start : Stage id content actor (createVersion id content actor) .before
  | loaded {r : TemplateRecord} {n : ℤ} (hid : r.id = .text id) (hnumber : r.versionNumber = .int n) :
      Stage id content actor (loadVersion id r.versionNumber >>= fun previous =>
        versions id >>= publishNext id content actor r previous) .before
  | ready {r : TemplateRecord} {previous : Option TemplateVersion} (hid : r.id = .text id) :
      Stage id content actor (versions id >>= publishNext id content actor r previous) .before
  /-- Some of the versions that were found are read. -/
  | reading {r : TemplateRecord} {previous : Option TemplateVersion} {found : List TemplateVersion}
      {numbers : List ℤ} {k : ℕ} (hid : r.id = .text id)
      (hnumbers : found.map (·.number) ++ numbers = numbersTo k) :
      Stage id content actor (readNumbers id numbers >>= fun more =>
        publishNext id content actor r previous (newestFirst (found ++ more))) (.adding k)
  | written {recordOf : TemplateVersion → String → TemplateRecord} {eventOf : TemplateVersion → AuditEvent}
      {text : TemplateVersion → String} {v : TemplateVersion} (hid : ∀ time, (recordOf v time).id = .text id)
      (hnumber : ∀ time, (recordOf v time).versionNumber = .int v.number)
      (hevent : (eventOf v).check = .ok ()) :
      Stage id content actor (announce recordOf eventOf text v) (.added v)
  | named {e : AuditEvent} {text : String} {t : StoredTemplate} {v : TemplateVersion} (he : e.check = .ok ())
      (ht : t.version = some v) :
      Stage id content actor (Procedure.record e >>= fun _ => tell .info text >>= fun _ => pure t) (.added v)
  | noted {text : String} {t : StoredTemplate} {v : TemplateVersion} (ht : t.version = some v) :
      Stage id content actor (tell .info text >>= fun _ => pure t) (.added v)
  | finished {t : StoredTemplate} {v : TemplateVersion} (ht : t.version = some v) :
      Stage id content actor (pure t) (.added v)

/-- Whether a request is adding its version after an access: from when it looks for the versions that are
there until it writes one. -/
def addingAfter (adding : Bool) : Option Access → Bool
  | some (.list _) => true
  | some (.put _) => false
  | some (.look _) | some .lookAtTrail | some .append | none => adding

/-- What the next access of a request does to its phase and to the template. -/
inductive Proceeds (id : String) (content : Value) (d : Disk) (us : List TemplateVersion) :
    Phase → Phase → Option Access → Disk → Prop where
  | quietly {phase : Phase} {access : Option Access} {d' : Disk} (h : Usable d' id us)
      (hadding : addingAfter phase.isAdding access = phase.isAdding)
      (hend : access = none → ∃ v, phase = .added v) : Proceeds id content d us phase phase access d'
  | lists (folder : String) : Proceeds id content d us .before (.adding us.length) (some (.list folder)) d
  | writes {k : ℕ} {v : TemplateVersion} (path : String) (hnumber : v.number = k + 1)
      (hcontent : v.content = contentOf content) : Proceeds id content d us (.adding k) (.added v)
        (some (.put path)) (d.put (versionPath id v.number) (.document v.toValue))

theorem Proceeds.adding_eq {a a' : Phase} {access : Option Access}
    (h : Proceeds id content d us a a' access d') :
    addingAfter a.isAdding access = a'.isAdding := by
  cases h with
  | quietly _ hadding => exact hadding
  | lists => rfl
  | writes => rfl

theorem Proceeds.content_eq {a : Phase} {access : Option Access}
    (h : Proceeds id content d us a (.added v) access d') :
    a = .added v ∨ v.content = contentOf content := by
  cases h with
  | quietly => exact .inl rfl
  | writes _ _ hcontent => exact .inr hcontent

/-- A request goes on to the next stage. -/
theorem Stage.proceeds {t : Procedure StoredTemplate} {phase : Phase} (h : Stage id content actor t phase)
    (hd : Usable w.disk id us) (hfound : ∀ k, phase = .adding k → k ≤ us.length) :
    ∃ phase', Stage id content actor (advance supply w t).rest phase' ∧
      Proceeds id content w.disk us phase phase' (advance supply w t).access
        (advance supply w t).world.disk := by
  cases h with
  | start =>
    obtain ⟨r, n, hrecord, hid, hnumber⟩ := hd.recorded
    rw [createVersion_eq, advance_requireRecord hd.isHexId hrecord]
    exact ⟨_, .loaded hid hnumber, .quietly hd rfl nofun⟩
  | loaded hid hnumber =>
    rw [hnumber]
    obtain ⟨previous, hadvance⟩ := advance_loadVersion hd.toHasVersions _ _
    rw [hadvance]
    exact ⟨_, .ready hid, .quietly hd rfl nofun⟩
  | ready hid =>
    rw [advance_versions hd]
    exact ⟨_, @Stage.reading id content actor _ _ [] _ _ hid rfl, .lists _⟩
  | @reading r previous found numbers k hid hnumbers =>
    cases numbers with
    | nil =>
      rw [List.append_nil] at hnumbers
      rw [readNumbers_nil, List.append_nil]
      obtain ⟨v, text, hnumber, hcontent, hadvance⟩ :=
        advance_publishNext content actor r previous (latest_newestFirst hnumbers)
      rw [hadvance]
      exact ⟨_, .written (fun _ => hid) (fun _ => rfl) rfl, .writes _ hnumber hcontent⟩
    | cons n numbers =>
      obtain ⟨v, hv, rfl⟩ : ∃ v ∈ us, v.number = n := by
        have hmem : n ∈ numbersTo k := hnumbers ▸ List.mem_append_right _ (by simp)
        have hle := hfound k rfl
        rw [mem_numbersTo] at hmem
        have hmem' : n ∈ us.map (·.number) := by
          rw [hd.numbers_eq, mem_numbersTo]
          omega
        exact List.mem_map.mp hmem'
      rw [advance_readNumbers (hd.find?_eq v hv) (hd.content_eq v hv)]
      refine ⟨.adding k, ?_, .quietly hd rfl nofun⟩
      have hreading := @Stage.reading id content actor r previous (found ++ [v]) numbers k hid
        (by simpa using hnumbers)
      simpa only [List.append_assoc, List.singleton_append] using hreading
  | @written recordOf eventOf text v hid hnumber hevent =>
    obtain ⟨time, hadvance⟩ := advance_announce hid eventOf text
    rw [hadvance]
    exact ⟨_, .named hevent rfl, .quietly (hd.put_record (hid time) (hnumber time)) rfl nofun⟩
  | named he ht =>
    obtain ⟨event, hadvance⟩ := advance_record he _
    rw [hadvance]
    exact ⟨_, .noted ht, .quietly (hd.of_files rfl) rfl nofun⟩
  | @noted text t v ht => exact ⟨_, .finished ht, .quietly hd rfl fun _ => ⟨v, rfl⟩⟩
  | @finished t v ht => exact ⟨_, .finished ht, .quietly hd rfl fun _ => ⟨v, rfl⟩⟩

/-- A request that is done has succeeded. -/
theorem Stage.of_done {o : Outcome StoredTemplate} {phase : Phase} (h : Stage id content actor (done o) phase)
    (hd : Usable w.disk id us) (hfound : ∀ k, phase = .adding k → k ≤ us.length) :
    ∃ v t, phase = .added v ∧ o = .ok t ∧ t.version = some v := by
  have supply : Supply := ⟨fun _ => "", fun _ => ""⟩
  have hnone {t : Procedure StoredTemplate} (ht : done o = t) : (advance supply w t).access = none := by
    rw [← ht]
    rfl
  obtain ⟨v, rfl⟩ : ∃ v, phase = .added v := by
    obtain ⟨phase', -, hproceeds⟩ := @Stage.proceeds supply w id content actor us _ phase h hd hfound
    rw [hnone rfl] at hproceeds
    cases hproceeds with
    | quietly _ _ hend => exact hend rfl
  -- After the version is written, what is not done goes on to write the record and the event.
  generalize ht : done o = t at h
  replace hnone := hnone ht
  cases h with
  | written hid hnumber hevent =>
    obtain ⟨time, hadvance⟩ := advance_announce hid _ _
    rw [hadvance] at hnone
    cases hnone
  | named he =>
    obtain ⟨event, hadvance⟩ := advance_record he _
    rw [hadvance] at hnone
    cases hnone
  | noted => cases ht
  | finished hversion => exact ⟨v, _, rfl, Procedure.done.inj ht, hversion⟩

end Pagewright.Store
