import Pagewright.Proofs.Store.History

/-!
# Calls that are cut off

A call on a store may be cut off after any of its accesses. What is found on the store then is still in
order (`interruptions_keep_order`): every record names a version that is there, no version was replaced or
taken away, and a further version gets a number that no version has yet.

A call that is cut off leaves nothing behind, a version, or a version with the record that names it, or a
new record that names the same version (`Left`). Each of these keeps the store in order (`InOrder.of_left`)
and its versions (`Left.find?_version`), so by induction any number of calls does.
-/

namespace Pagewright.Store

open Procedure Text

variable {supply : Supply} {w w' u : World} {d d' : Disk} {id other : String} {content actor : Value}
  {r : TemplateRecord} {v : TemplateVersion} {vs : List TemplateVersion} {n : ℕ}

/-! ## Attempts -/

/-- A call that is cut off after some accesses, if it does not go through. -/
structure Attempt where
  call : Call
  cut : Option ℕ

/-- The world that an attempt leaves behind. -/
def Attempt.world (supply : Supply) (w : World) (a : Attempt) : World :=
  match a.cut with
  | some n => cutOff supply n w a.call.procedure
  | none => (run supply w a.call.procedure).1

/-- The world after attempts one after the other. -/
def runAttempts (supply : Supply) (w : World) (attempts : List Attempt) : World :=
  attempts.foldl (Attempt.world supply) w

theorem Attempt.stopsAt (supply : Supply) (w : World) (a : Attempt) :
    StopsAt supply w a.call.procedure (a.world supply w) := by
  unfold Attempt.world
  cases a.cut with
  | some n => exact ⟨n, rfl⟩
  | none => exact stopsAt_run w _

/-! ## The same files -/

theorem HasVersions.of_files (h : HasVersions d id vs) (hfiles : d'.files = d.files) :
    HasVersions d' id vs where
  names_eq := (Disk.names_congr hfiles _).trans h.names_eq
  find?_eq v hv := (Disk.find?_congr hfiles _).trans (h.find?_eq v hv)
  numbers_eq := h.numbers_eq
  content_eq := h.content_eq

theorem elsewhere_of_files (hfiles : d'.files = d.files) (id : String) : Elsewhere id d d' where
  record_eq _ _ := Disk.find?_congr hfiles _
  names_eq _ _ := Disk.names_congr hfiles _
  version_eq _ _ _ := Disk.find?_congr hfiles _

theorem Kept.of_files (h : Kept d id vs) (hfiles : d'.files = d.files) : Kept d' id vs where
  toHasVersions := h.toHasVersions.of_files hfiles
  isHexId := h.isHexId
  named contents hfind := h.named contents ((Disk.find?_congr hfiles _).symm.trans hfind)

/-! ## Order -/

/-- A template whose record is given and names one of its versions. -/
theorem HasVersions.kept_put_record (h : HasVersions d id vs) (hid : IsHexId id) (hv : v ∈ vs)
    (hnames : Names r id v) : Kept (d.put (recordPath id) (.document r.toValue)) id vs where
  toHasVersions := h.put_record hid.isId r.toValue
  isHexId := hid
  named contents hfind := by
    rw [Disk.find?_put_self] at hfind
    obtain rfl := Option.some.inj hfind
    exact ⟨r, v, rfl, hv, hnames⟩

theorem Kept.add (h : Kept d id vs) (hnumber : v.number = vs.length + 1)
    (hcontent : contentOf v.content = v.content) :
    Kept (d.put (versionPath id v.number) (.document v.toValue)) id (vs ++ [v]) where
  toHasVersions := h.toHasVersions.add hnumber hcontent
  isHexId := h.isHexId
  named contents hfind := by
    rw [Disk.find?_put_of_ne (recordPath_ne_versionPath _ _ _)] at hfind
    obtain ⟨r, u, hr, hu, hnames⟩ := h.named contents hfind
    exact ⟨r, u, hr, List.mem_append_left _ hu, hnames⟩

theorem Kept.of_elsewhere (h : Kept d other vs) (hd : Elsewhere id d d') (hne : other ≠ id) :
    Kept d' other vs where
  names_eq := (hd.names_eq other hne).trans h.names_eq
  find?_eq v hv := (hd.version_eq other v.number hne).trans (h.find?_eq v hv)
  numbers_eq := h.numbers_eq
  content_eq := h.content_eq
  isHexId := h.isHexId
  named contents hfind := h.named contents ((hd.record_eq other hne).symm.trans hfind)

theorem exists_given_of_le {m n : ℕ} (hle : m ≤ n) (h : ∃ k < m, supply.id k = id) :
    ∃ k < n, supply.id k = id :=
  h.imp fun _ hk => hk.imp_left fun hlt => hlt.trans_le hle

/-- What is known of an id: it has no files, or it was given out and its files are kept. -/
inductive Entire (supply : Supply) (w : World) (id : String) : Prop where
  | absent (h : Absent w.disk id)
  | kept {vs : List TemplateVersion} (h : Kept w.disk id vs) (hgiven : ∃ k < w.ids, supply.id k = id)

/-- The files of all templates are kept. -/
def InOrder (supply : Supply) (w : World) : Prop := ∀ id, Entire supply w id

theorem inOrder_empty (supply : Supply) : InOrder supply {} := fun _ =>
  .absent ⟨rfl, rfl, by simp, rfl, by simp⟩

theorem Entire.of_elsewhere (h : Entire supply w other) (hd : Elsewhere id w.disk u.disk) (hne : other ≠ id)
    (hids : w.ids ≤ u.ids) : Entire supply u other := by
  cases h with
  | absent h => exact .absent (h.of_elsewhere hd hne)
  | kept h hgiven => exact .kept (h.of_elsewhere hd hne) (exists_given_of_le hids hgiven)

/-! ## What a call leaves behind -/

/-- What a call leaves behind wherever it is cut off. -/
inductive Left (supply : Supply) (w u : World) : Prop where
  | same (hfiles : u.disk.files = w.disk.files)
  | wrote {id : String} {vs : List TemplateVersion} {v : TemplateVersion} {r : TemplateRecord}
      (hkept : Kept w.disk id vs) (hgiven : ∃ k < u.ids, supply.id k = id)
      (hnumber : v.number = vs.length + 1) (hcontent : contentOf v.content = v.content)
      (hnames : Names r id v) (hwrote : Wrote w.disk id v r u.disk)
  | revised {id : String} {vs : List TemplateVersion} {v : TemplateVersion} {r : TemplateRecord}
      (hkept : Kept w.disk id vs) (hgiven : ∃ k < u.ids, supply.id k = id) (hv : v ∈ vs)
      (hnames : Names r id v)
      (hfiles : u.disk.files = (w.disk.put (recordPath id) (.document r.toValue)).files)

/-- A template that gets new metadata has its old record or the new one. -/
theorem stopsAt_update {name description status : Value} (hkept : Kept w.disk id vs)
    (h : StopsAt supply w (update id name description status actor) u) :
    u.disk.files = w.disk.files ∨ ∃ v ∈ vs, ∃ r, Names r id v ∧
      u.disk.files = (w.disk.put (recordPath id) (.document r.toValue)).files := by
  unfold update at h
  obtain rfl | ⟨old, hrecord, h⟩ := h.bind_of_looks (looks_requireRecord id)
  · exact .inl rfl
  obtain rfl | ⟨revised, hrevised, h⟩ := h.bind_of_looks (looks_done (revise old name description status))
  · exact .inl rfl
  obtain ⟨-, v, hv, hnames⟩ := hkept.of_requireRecord hrecord
  obtain ⟨hid, hversion, hnumber, -⟩ := revise_eq_ok hrevised.outcome
  rcases h.bind_of_goes goes_now with h | h
  · rcases stopsAt_now h with rfl | rfl <;> exact .inl rfl
  refine (?_ : u.disk.files = _ ∨ _).imp_right fun hfiles =>
    ⟨v, hv, { revised with updatedBy := actorOf actor, updatedAt := .text (supply.time w.readings) },
      ⟨hid.trans hnames.id_eq, hnumber.trans hnames.number_eq, hversion.trans hnames.version_eq⟩, hfiles⟩
  rcases h.bind_of_goes (goes_writeRecord (hid.trans hnames.id_eq)) with h | h
  · rw [writeRecord] at h
    rcases stopsAt_save h with rfl | rfl
    · exact .inl rfl
    · rw [hid.trans hnames.id_eq]
      exact .inr rfl
  refine .inr ?_
  rcases h.bind_of_goes (goes_record rfl) with h | h
  · rcases stopsAt_record rfl h with h | ⟨event, h⟩
    · rw [h]
      rfl
    · rw [h]
      rfl
  rcases h.bind_of_looks (looks_tell _ _) with rfl | ⟨_, -, h⟩
  · rfl
  rcases h.bind_of_looks (looks_loadVersion _ _) with rfl | ⟨_, -, h⟩
  · rfl
  · obtain rfl := stopsAt_done h
    rfl

theorem eq_of_stopsAt_absent {α : Type} {f : TemplateRecord → Procedure α} (h : Absent w.disk id)
    (hstops : StopsAt supply w (requireRecord id >>= f) u) : u = w := by
  rcases hstops.bind_of_looks (looks_requireRecord id) with hsame | ⟨r, hgoes, -⟩
  · exact hsame
  · obtain ⟨-, -, contents, hfind⟩ := find?_of_goes_requireRecord hgoes
    rw [h.record_eq] at hfind
    cases hfind

theorem left_of_stopsAt (hfresh : Fresh supply n) (h : InOrder supply w) {c : Call}
    (hstops : StopsAt supply w c.procedure u) (hn : u.ids ≤ n) : Left supply w u := by
  cases c with
  | create name description content actor =>
    change StopsAt supply w (Store.create name description content actor) u at hstops
    rcases stopsAt_create hstops with hdisk | ⟨hids, v, r, hnumber, hcontent, hnames, hwrote⟩
    · exact .same (congrArg Disk.files hdisk)
    have hlt : w.ids < n := hids.trans_le hn
    have hkept : Kept w.disk (supply.id w.ids) [] := by
      cases h (supply.id w.ids) with
      | absent h =>
        refine ⟨h.versions, hfresh.isHexId _ hlt, fun contents hfind => ?_⟩
        rw [h.record_eq] at hfind
        cases hfind
      | kept h hgiven =>
        obtain ⟨k, hk, hid⟩ := hgiven
        have heq := hfresh.inj k (hk.trans hlt) w.ids hlt hid
        omega
    exact .wrote hkept ⟨w.ids, hids, rfl⟩ hnumber (hcontent ▸ contentOf_contentOf content) hnames hwrote
  | version id content actor =>
    change StopsAt supply w (createVersion id content actor) u at hstops
    cases h id with
    | absent h => exact .same (by rw [eq_of_stopsAt_absent h hstops])
    | kept h hgiven =>
      rcases stopsAt_createVersion h hstops with rfl | ⟨v, r, hnumber, hcontent, hnames, hwrote⟩
      · exact .same rfl
      · exact .wrote h (exists_given_of_le hstops.ids_le hgiven) hnumber
          (hcontent ▸ contentOf_contentOf content) hnames hwrote
  | update id name description status actor =>
    change StopsAt supply w (Store.update id name description status actor) u at hstops
    cases h id with
    | absent h => exact .same (by rw [eq_of_stopsAt_absent h hstops])
    | kept h hgiven =>
      rcases stopsAt_update h hstops with hfiles | ⟨v, hv, r, hnames, hfiles⟩
      · exact .same hfiles
      · exact .revised h (exists_given_of_le hstops.ids_le hgiven) hv hnames hfiles

/-! ## One attempt -/

theorem Wrote.kept (h : Wrote d id v r d') (hkept : Kept d id vs) (hnumber : v.number = vs.length + 1)
    (hcontent : contentOf v.content = v.content) (hnames : Names r id v) : ∃ vs, Kept d' id vs := by
  have hadd := hkept.add hnumber hcontent
  cases h with
  | nothing h => exact ⟨vs, hkept.of_files h⟩
  | version h => exact ⟨vs ++ [v], hadd.of_files h⟩
  | record h => exact ⟨vs ++ [v], (hadd.kept_put_record hkept.isHexId (by simp) hnames).of_files h⟩

theorem Wrote.elsewhere (h : Wrote d id v r d') (hid : isId id = true) : Elsewhere id d d' := by
  cases h with
  | nothing h => exact elsewhere_of_files h id
  | version h => exact (elsewhere_put_version id _ d _).trans (elsewhere_of_files h id)
  | record h =>
    exact ((elsewhere_put_version id _ d _).trans (elsewhere_put_record hid _ _)).trans
      (elsewhere_of_files h id)

/-- A store in order is left in order. -/
theorem InOrder.of_left (h : InOrder supply w) (hleft : Left supply w u) (hids : w.ids ≤ u.ids) :
    InOrder supply u := by
  intro other
  cases hleft with
  | same hfiles =>
    cases h other with
    | absent h =>
      exact .absent ⟨(Disk.find?_congr hfiles _).trans h.record_eq, h.versions.of_files hfiles⟩
    | kept h hgiven => exact .kept (h.of_files hfiles) (exists_given_of_le hids hgiven)
  | @wrote id vs v r hkept hgiven hnumber hcontent hnames hwrote =>
    by_cases hother : other = id
    · subst hother
      obtain ⟨vs', hkept'⟩ := hwrote.kept hkept hnumber hcontent hnames
      exact .kept hkept' hgiven
    · exact (h other).of_elsewhere (hwrote.elsewhere hkept.isHexId.isId) hother hids
  | @revised id vs v r hkept hgiven hv hnames hfiles =>
    by_cases hother : other = id
    · subst hother
      exact .kept ((hkept.kept_put_record hkept.isHexId hv hnames).of_files hfiles) hgiven
    · exact (h other).of_elsewhere ((elsewhere_put_record hkept.isHexId.isId _ _).trans
        (elsewhere_of_files hfiles id)) hother hids

/-- A version that is there stays there as it is. -/
theorem Left.find?_version (h : Left supply w u) {number : ℤ} {contents : Contents}
    (hfind : w.disk.find? (versionPath id number) = some contents) :
    u.disk.find? (versionPath id number) = some contents := by
  have hne : w.disk.find? (versionPath id number) ≠ none := by simp [hfind]
  have hrecord (d : Disk) (other : String) (c : Contents) :
      (d.put (recordPath other) c).find? (versionPath id number) = d.find? (versionPath id number) :=
    Disk.find?_put_of_ne (recordPath_ne_versionPath other id number).symm d c
  cases h with
  | same hfiles => exact (Disk.find?_congr hfiles _).trans hfind
  | @wrote other vs v r hkept hgiven hnumber hcontent hnames hwrote =>
    have hversion (c : Contents) : (w.disk.put (versionPath other v.number) c).find? (versionPath id number) =
        some contents := by
      refine (Disk.find?_put_of_ne (fun heq => ?_) _ c).trans hfind
      obtain ⟨rfl, rfl⟩ := versionPath_inj.mp heq
      have hle := hkept.le_of_find? hne
      omega
    cases hwrote with
    | nothing hfiles => exact (Disk.find?_congr hfiles _).trans hfind
    | version hfiles => exact (Disk.find?_congr hfiles _).trans (hversion _)
    | record hfiles => exact (Disk.find?_congr hfiles _).trans ((hrecord _ _ _).trans (hversion _))
  | revised hkept hgiven hv hnames hfiles =>
    exact (Disk.find?_congr hfiles _).trans ((hrecord _ _ _).trans hfind)

/-! ## All attempts -/

theorem ids_le_runAttempts (supply : Supply) (w : World) (attempts : List Attempt) :
    w.ids ≤ (runAttempts supply w attempts).ids := by
  induction attempts generalizing w with
  | nil => exact Nat.le_refl _
  | cons a rest ih => exact (a.stopsAt supply w).ids_le.trans (ih _)

theorem InOrder.runAttempts (hfresh : Fresh supply n) (attempts : List Attempt)
    (hn : (runAttempts supply w attempts).ids ≤ n) (h : InOrder supply w) :
    InOrder supply (runAttempts supply w attempts) ∧
      ∀ id number contents, w.disk.find? (versionPath id number) = some contents →
        (Store.runAttempts supply w attempts).disk.find? (versionPath id number) = some contents := by
  induction attempts generalizing w with
  | nil => exact ⟨h, fun _ _ _ hfind => hfind⟩
  | cons a rest ih =>
    have hstops := a.stopsAt supply w
    have hleft := left_of_stopsAt hfresh h hstops ((ids_le_runAttempts supply _ rest).trans hn)
    obtain ⟨horder, hversions⟩ := ih hn (h.of_left hleft hstops.ids_le)
    exact ⟨horder, fun id number contents hfind => hversions id number contents (hleft.find?_version hfind)⟩

/-- A further version is stored with its content, and its number is greater than those that are there. -/
theorem exists_goes_createVersion (hkept : Kept w.disk id vs) (hrecord : w.disk.find? (recordPath id) ≠ none)
    (content actor : Value) :
    ∃ u t v, Goes supply w (createVersion id content actor) u (.ok t) ∧ t.version = some v ∧
      v.content = contentOf content ∧ u.disk.find? (versionPath id v.number) = some (.document v.toValue) ∧
      ∀ number, w.disk.find? (versionPath id number) ≠ none → number < v.number := by
  obtain ⟨contents, hfind⟩ := Option.ne_none_iff_exists'.mp hrecord
  obtain ⟨r, current, rfl, hcurrent, hnames⟩ := hkept.named contents hfind
  obtain ⟨u, time, eventId, eventTime, hgoes, hdisk⟩ := goes_createVersion_of_names hkept.isHexId
    hkept.toHasVersions hfind hcurrent hnames content actor
    (v := versionAt supply w id (vs.length + 1) (contentOf content) (actorOf actor)) rfl
  refine ⟨u, _, versionAt supply w id (vs.length + 1) (contentOf content) (actorOf actor), hgoes, rfl,
    rfl, ?_, fun number hnumber => Int.lt_add_one_of_le (hkept.le_of_find? hnumber)⟩
  rw [hdisk]
  exact (Disk.find?_put_of_ne (recordPath_ne_versionPath id id _).symm _ _).trans (Disk.find?_put_self _ _ _)

/-- A version that a further version leaves behind, wherever it is cut off, has its content and a number that
is greater than those that are there. -/
theorem Kept.of_new_version (hkept : Kept w.disk id vs) {number : ℤ} {contents : Contents}
    (h : StopsAt supply w (createVersion id content actor) u)
    (hnone : w.disk.find? (versionPath id number) = none)
    (hfind : u.disk.find? (versionPath id number) = some contents) :
    (∃ v : TemplateVersion, contents = .document v.toValue ∧ v.number = number ∧
      v.content = contentOf content) ∧
      ∀ other, w.disk.find? (versionPath id other) ≠ none → other < number := by
  rcases stopsAt_createVersion hkept h with rfl | ⟨v, r, hnumber, hcontent, hnames, hwrote⟩
  · rw [hnone] at hfind
    cases hfind
  have hwritten (hput : (w.disk.put (versionPath id v.number) (.document v.toValue)).find?
      (versionPath id number) = some contents) : contents = .document v.toValue ∧ v.number = number := by
    rw [Disk.find?_put, hnone] at hput
    split at hput
    · next heq => exact ⟨(Option.some.inj hput).symm, (versionPath_inj.mp heq).2.symm⟩
    · cases hput
  obtain ⟨hcontents, rfl⟩ : contents = .document v.toValue ∧ v.number = number := by
    cases hwrote with
    | nothing hfiles =>
      rw [Disk.find?_congr hfiles, hnone] at hfind
      cases hfind
    | version hfiles => exact hwritten ((Disk.find?_congr hfiles _).symm.trans hfind)
    | record hfiles =>
      rw [Disk.find?_congr hfiles,
        Disk.find?_put_of_ne (recordPath_ne_versionPath id id number).symm] at hfind
      exact hwritten hfind
  refine ⟨⟨v, hcontents, rfl, hcontent⟩, fun other hother => ?_⟩
  rw [hnumber]
  exact Int.lt_add_one_of_le (hkept.le_of_find? hother)

/-- After any calls on an empty store, each of which may be cut off after any access, every record names a
version that is there with the id that the record has for it. No version that is there is replaced or taken
away, whatever is attempted later. A further version of a template that has a record is stored with its
content under a number greater than those that are there, and where that call is cut off, a version that it
leaves behind is this one. -/
theorem interruptions_keep_order {supply : Supply} {before later : List Attempt} {w w' : World}
    (hbefore : runAttempts supply {} before = w) (hlater : runAttempts supply w later = w')
    (hfresh : Fresh supply w'.ids) :
    (∀ id contents, w.disk.find? (recordPath id) = some contents → ∃ r v, contents = .document r.toValue ∧
      Names r id v ∧ w.disk.find? (versionPath id v.number) = some (.document v.toValue)) ∧
    (∀ id number contents, w.disk.find? (versionPath id number) = some contents →
      w'.disk.find? (versionPath id number) = some contents) ∧
    (∀ id content actor, w.disk.find? (recordPath id) ≠ none → ∃ u t v,
      Goes supply w (createVersion id content actor) u (.ok t) ∧ t.version = some v ∧
      v.content = contentOf content ∧ u.disk.find? (versionPath id v.number) = some (.document v.toValue) ∧
      ∀ number, w.disk.find? (versionPath id number) ≠ none → number < v.number) ∧
    (∀ id content actor n number contents, w.disk.find? (versionPath id number) = none →
      (cutOff supply n w (createVersion id content actor)).disk.find? (versionPath id number) = some contents →
      (∃ v : TemplateVersion, contents = .document v.toValue ∧ v.number = number ∧
        v.content = contentOf content) ∧
      ∀ other, w.disk.find? (versionPath id other) ≠ none → other < number) := by
  subst hbefore hlater
  have hids := ids_le_runAttempts supply (runAttempts supply {} before) later
  obtain ⟨horder, -⟩ := (inOrder_empty supply).runAttempts hfresh before hids
  obtain ⟨-, hversions⟩ := horder.runAttempts hfresh later (Nat.le_refl _)
  refine ⟨fun id contents hfind => ?_, hversions, fun id content actor hrecord => ?_,
    fun id content actor n number contents hnone hfind => ?_⟩
  · cases horder id with
    | absent h =>
      rw [h.record_eq] at hfind
      cases hfind
    | kept h _ =>
      obtain ⟨r, v, hr, hv, hnames⟩ := h.named contents hfind
      exact ⟨r, v, hr, hnames, h.find?_eq v hv⟩
  · cases horder id with
    | absent h => exact absurd h.record_eq hrecord
    | kept h _ => exact exists_goes_createVersion h hrecord content actor
  · have hstops : StopsAt supply (runAttempts supply {} before) (createVersion id content actor) _ := ⟨n, rfl⟩
    cases horder id with
    | absent h =>
      rw [eq_of_stopsAt_absent h hstops, hnone] at hfind
      cases hfind
    | kept h _ => exact h.of_new_version hstops hnone hfind

/-- A template is created, and a further version of it is cut off before the record names it. -/
def cutShort : List Attempt :=
  [⟨.create (.text "Invoice") .null (.text "first") .null, none⟩,
    ⟨.version (counted.id 0) (.text "second") .null, some 5⟩]

/-- Another version is cut off, and a new name before it is recorded. -/
def cutShortAgain : List Attempt :=
  [⟨.version (counted.id 0) (.text "third") .null, some 5⟩,
    ⟨.update (counted.id 0) (.text "Bill") .null .null .null, some 2⟩]

/-- The version that was cut off stays, and the next one gets a greater number. -/
theorem interruptions_keep_order_cutShort :
    ∃ contents u t v, (runAttempts counted {} cutShort).disk.find? (versionPath (counted.id 0) 2) =
        some contents ∧
      (runAttempts counted (runAttempts counted {} cutShort) cutShortAgain).disk.find?
        (versionPath (counted.id 0) 2) = some contents ∧
      Goes counted (runAttempts counted {} cutShort)
        (createVersion (counted.id 0) (.text "third") .null) u (.ok t) ∧
      t.version = some v ∧ v.content = .text "third" ∧ 2 < v.number ∧
      u.disk.find? (versionPath (counted.id 0) v.number) = some (.document v.toValue) := by
  have hshort : (runAttempts counted (runAttempts counted {} cutShort) cutShortAgain).ids ≤ 8 ∧
      ((runAttempts counted {} cutShort).disk.find? (versionPath (counted.id 0) 2)).isSome = true ∧
      ((runAttempts counted {} cutShort).disk.find? (recordPath (counted.id 0))).isSome = true := by
    decide +kernel
  have horder := interruptions_keep_order rfl rfl (fresh_counted.mono hshort.1)
  have hsecond := Option.isSome_iff_ne_none.mp hshort.2.1
  obtain ⟨contents, hcontents⟩ := Option.isSome_iff_exists.mp hshort.2.1
  obtain ⟨u, t, v, hgoes, hversion, hcontent, hfind, hgreater⟩ :=
    horder.2.2.1 (counted.id 0) (.text "third") .null (Option.isSome_iff_ne_none.mp hshort.2.2)
  exact ⟨contents, u, t, v, hcontents, horder.2.1 _ _ _ hcontents, hgoes, hversion, hcontent,
    hgreater 2 hsecond, hfind⟩

end Pagewright.Store
