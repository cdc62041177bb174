import Pagewright.Proofs.Store.Integrity
import Pagewright.Proofs.Store.Newest
import Pagewright.Proofs.Store.Replay

/-!
# Listing while records are being written

Operations may stop after any of their single steps, and one that stops while it saves a record leaves a
temporary file in the folder of records. The list of templates reads that file too: it fails if the file is
still empty, and shows a template a second time, or one that is not in its place, if the file was written. So
the list shows the records that are in their place, each once, just when there is no temporary file in the
folder (`list_showsInPlace_iff`).
-/

namespace Pagewright.Store

open Procedure Disk

variable {supply : Supply} {w : World} {d : Disk} {id : String} {r : TemplateRecord} {names ids : List String}
  {found rs placed drafts : List TemplateRecord} {numbers : List ℕ}

/-! ## Operations that stop -/

/-- An operation that stops after some of its steps, if it does not go through. -/
structure Trial where
  operation : Operation
  cut : Option ℕ

/-- The world that a procedure leaves behind when it stops after some steps or goes through. -/
def worldAfter {α : Type} (supply : Supply) (w : World) (cut : Option ℕ) (t : Procedure α) : World :=
  match cut with
  | some n => runFor supply n w t
  | none => (run supply w t).1

/-- The world that an operation leaves behind. -/
def Trial.world (supply : Supply) (w : World) (trial : Trial) : World :=
  match trial.operation with
  | .call c => worldAfter supply w trial.cut c.procedure
  | .get id => worldAfter supply w trial.cut (Store.get id)
  | .list => worldAfter supply w trial.cut Store.list
  | .versions id => worldAfter supply w trial.cut (Store.versions id)
  | .audit id limit => worldAfter supply w trial.cut (Store.audit id limit)

/-- The world after operations one after the other. -/
def runTrials (supply : Supply) (w : World) (trials : List Trial) : World :=
  trials.foldl (Trial.world supply) w

theorem worldAfter_of_looks {α : Type} {t : Procedure α} (h : t.Looks) (cut : Option ℕ) :
    worldAfter supply w cut t = w := by
  cases cut with
  | some n => exact h.runFor_eq n
  | none => exact h.reads supply w

/-- An operation is a call, or it leaves the world as it is. -/
theorem Trial.world_eq (supply : Supply) (w : World) (trial : Trial) :
    (∃ c, trial.operation = .call c ∧ trial.world supply w = worldAfter supply w trial.cut c.procedure) ∨
      trial.world supply w = w := by
  obtain ⟨operation, cut⟩ := trial
  cases operation with
  | call c => exact .inl ⟨c, rfl, rfl⟩
  | get id => exact .inr (worldAfter_of_looks (looks_get id) cut)
  | list => exact .inr (worldAfter_of_looks looks_list cut)
  | versions id => exact .inr (worldAfter_of_looks (looks_versions id) cut)
  | audit id limit => exact .inr (worldAfter_of_looks (looks_audit id limit) cut)

theorem Sound.trial (hids : ∀ k, IsHexId (supply.id k)) (hw : Sound w) (trial : Trial) :
    Sound (trial.world supply w) := by
  rcases trial.world_eq supply w with ⟨c, -, hworld⟩ | hworld
  · rw [hworld]
    cases trial.cut with
    | some n => exact (maintains_call hids hw c).through n
    | none => exact (hw.run hids c).sound
  · exact hworld.symm ▸ hw

theorem Sound.runTrials (hids : ∀ k, IsHexId (supply.id k)) (hw : Sound w) (trials : List Trial) :
    Sound (runTrials supply w trials) := by
  induction trials generalizing w with
  | nil => exact hw
  | cons trial trials ih => exact ih (hw.trial hids trial)

/-- An operation that goes through leaves the temporary files of records as they were. -/
theorem Sound.keeps_trial (hids : ∀ k, IsHexId (supply.id k)) (hw : Sound w) (operation : Operation) :
    Keeps w (Trial.world supply w ⟨operation, none⟩) := by
  rcases Trial.world_eq supply w ⟨operation, none⟩ with ⟨c, -, hworld⟩ | hworld
  · exact hworld ▸ (hw.run hids c).toKeeps
  · exact hworld.symm ▸ hw.keeps

/-! ## What is in its place, and what is not -/

/-- A record is in the file of its template. -/
def InPlace (d : Disk) (r : TemplateRecord) : Prop :=
  ∃ id, IsRecordOf id r ∧ d.find? (recordPath id) = some (.document r.toValue)

/-- Records are those that are in their place, one of each template. -/
structure ShowsInPlace (d : Disk) (rs : List TemplateRecord) : Prop where
  mem_iff : ∀ r, r ∈ rs ↔ InPlace d r
  nodup : (rs.map (·.id)).Nodup

theorem ShowsInPlace.nodup_display (h : ShowsInPlace d rs) : (rs.map fun r => r.id.display).Nodup := by
  have hmap : (rs.map fun r => r.id.display) = (rs.map (·.id)).map Value.display := by
    rw [List.map_map]
    rfl
  have htext : ∀ v ∈ rs.map (·.id), v = .text v.display := by
    intro v hv
    obtain ⟨r, hr, rfl⟩ := List.mem_map.mp hv
    obtain ⟨id, hrecord, -⟩ := (h.mem_iff r).mp hr
    rw [hrecord.id_eq]
    rfl
  rw [hmap]
  refine h.nodup.map_on fun v hv v' hv' heq => ?_
  rw [htext v hv, htext v' hv', heq]

/-- Records are those in the temporary files with some numbers, which are all there are. -/
structure ShowsDrafts (d : Disk) (numbers : List ℕ) (rs : List TemplateRecord) : Prop where
  mem_iff : ∀ n, n ∈ numbers ↔ d.find? (draftPath n) ≠ none
  nodup : numbers.Nodup
  read : List.Forall₂ (fun n r => d.find? (draftPath n) = some (.document r.toValue)) numbers rs

/-- Names of files, told apart. -/
structure ToldApart (d : Disk) (names : List String) (found : List TemplateRecord) (ids : List String)
    (numbers : List ℕ) (placed drafts : List TemplateRecord) : Prop where
  names_perm : names.Perm (ids.map recordName ++ numbers.map temporaryName)
  found_perm : found.Perm (placed ++ drafts)
  placed_eq : List.Forall₂
    (fun id r => IsRecordOf id r ∧ d.find? (recordPath id) = some (.document r.toValue)) ids placed
  drafts_eq : List.Forall₂ (fun n r => d.find? (draftPath n) = some (.document r.toValue)) numbers drafts

theorem WellFiled.exists_toldApart (h : WellFiled d) (hnames : ∀ name ∈ names, name ∈ d.names recordFolder)
    (hread : ReadBack d names found) :
    ∃ ids numbers placed drafts, ToldApart d names found ids numbers placed drafts := by
  induction hread with
  | nil => exact ⟨[], [], [], [], .refl _, .refl _, .nil, .nil⟩
  | @cons name r names found hfind hrest ih =>
    obtain ⟨ids, numbers, placed, drafts, hapart⟩ :=
      ih fun name hname => hnames name (List.mem_cons_of_mem _ hname)
    obtain ⟨hslash, -⟩ := mem_names_iff.mp (hnames name List.mem_cons_self)
    have hfiled := h.filed name _ hslash hfind
    generalize hvalue : Contents.document r.toValue = contents at hfiled
    cases hfiled with
    | @record id r' hr =>
      obtain rfl := toValue_injective (Contents.document.inj hvalue)
      exact ⟨id :: ids, numbers, r :: placed, drafts, hapart.names_perm.cons _, hapart.found_perm.cons _,
        .cons ⟨hr, hfind⟩ hapart.placed_eq, hapart.drafts_eq⟩
    | draft n hr =>
      refine ⟨ids, n :: numbers, placed, r :: drafts, ?_, ?_, hapart.placed_eq, .cons hfind hapart.drafts_eq⟩
      · exact (hapart.names_perm.cons _).trans List.perm_middle.symm
      · exact (hapart.found_perm.cons _).trans List.perm_middle.symm
    | empty n => cases hvalue

theorem ToldApart.mem_ids (h : ToldApart d (d.names recordFolder) found ids numbers placed drafts)
    (hr : IsRecordOf id r) (hfind : d.find? (recordPath id) = some (.document r.toValue)) : id ∈ ids := by
  have hname : recordName id ∈ d.names recordFolder :=
    mem_names_of_find?_ne_none (isName_recordName hr.isHexId.isId) (by rw [← recordPath, hfind]; simp)
  rw [h.names_perm.mem_iff, List.mem_append, List.mem_map, List.mem_map] at hname
  rcases hname with ⟨other, hother, heq⟩ | ⟨n, -, heq⟩
  · rw [recordName, recordName, String.append_left_inj] at heq
    exact heq ▸ hother
  · exact absurd heq.symm (recordName_ne_temporaryName hr.isHexId n)

theorem ToldApart.showsInPlace (h : ToldApart d (d.names recordFolder) found ids numbers placed drafts)
    (hd : WellFiled d) : ShowsInPlace d placed where
  mem_iff r := by
    constructor
    · intro hr
      obtain ⟨id, -, hplaced⟩ := exists_of_mem_right h.placed_eq hr
      exact ⟨id, hplaced⟩
    · rintro ⟨id, hr, hfind⟩
      obtain ⟨r', hr', -, hfind'⟩ := exists_of_mem_left h.placed_eq (h.mem_ids hr hfind)
      rw [hfind, Option.some.injEq, Contents.document.injEq] at hfind'
      exact toValue_injective hfind' ▸ hr'
  nodup := by
    have hids : ids.Nodup := by
      have hnodup := h.names_perm.nodup_iff.mp (nodup_names hd.nodup recordFolder)
      exact ((List.nodup_append.mp hnodup).1).of_map
    have hmap : List.Forall₂ Eq (ids.map Value.text) (placed.map (·.id)) := by
      rw [List.forall₂_map_left_iff, List.forall₂_map_right_iff]
      exact h.placed_eq.imp fun _ _ hplaced => hplaced.1.id_eq.symm
    rw [List.forall₂_eq_eq_eq] at hmap
    rw [← hmap]
    exact hids.map fun _ _ h => Value.text.inj h

theorem ToldApart.showsDrafts (h : ToldApart d (d.names recordFolder) found ids numbers placed drafts)
    (hd : WellFiled d) : ShowsDrafts d numbers drafts where
  mem_iff n := by
    constructor
    · intro hn
      obtain ⟨r, -, hfind⟩ := exists_of_mem_left h.drafts_eq hn
      rw [hfind]
      simp
    · intro hfind
      have hname := mem_names_of_find?_ne_none (isName_temporaryName n) hfind
      rw [h.names_perm.mem_iff, List.mem_append, List.mem_map, List.mem_map] at hname
      rcases hname with ⟨id, hid, heq⟩ | ⟨m, hm, heq⟩
      · obtain ⟨r, -, hr, -⟩ := exists_of_mem_left h.placed_eq hid
        exact absurd heq (recordName_ne_temporaryName hr.isHexId n)
      · exact temporaryName_injective heq ▸ hm
  nodup := by
    have hnodup := h.names_perm.nodup_iff.mp (nodup_names hd.nodup recordFolder)
    exact (List.nodup_append.mp hnodup).2.1.of_map
  read := h.drafts_eq

/-! ## The list -/

/-- What is listed is told apart. -/
theorem WellFiled.exists_perm_append (h : WellFiled w.disk) (hgoes : Goes supply w list w (.ok rs)) :
    ∃ placed numbers drafts, rs.Perm (placed ++ drafts) ∧ ShowsInPlace w.disk placed ∧
      ShowsDrafts w.disk numbers drafts := by
  obtain ⟨found, hread, hperm, -⟩ := h.of_goes_list hgoes
  obtain ⟨ids, numbers, placed, drafts, hapart⟩ := h.exists_toldApart (fun _ hname => hname) hread
  exact ⟨placed, numbers, drafts, hperm.trans hapart.found_perm, hapart.showsInPlace h,
    hapart.showsDrafts h⟩

theorem WellFiled.exists_showsInPlace_iff (h : WellFiled w.disk) (supply : Supply) :
    (∃ rs, Goes supply w list w (.ok rs) ∧ ShowsInPlace w.disk rs) ↔
      ∀ n, w.disk.find? (draftPath n) = none := by
  constructor
  · rintro ⟨rs, hgoes, hshows⟩ n
    by_contra hdraft
    obtain ⟨placed, numbers, drafts, hperm, hplaced, hdrafts⟩ := h.exists_perm_append hgoes
    obtain ⟨r, hr, -⟩ := exists_of_mem_left hdrafts.read ((hdrafts.mem_iff n).mpr hdraft)
    -- The draft is listed, so it is the record that is in its place, and listed twice.
    have hlisted : r ∈ rs := hperm.mem_iff.mpr (List.mem_append_right _ hr)
    have hagain : r ∈ placed := (hplaced.mem_iff r).mpr ((hshows.mem_iff r).mp hlisted)
    have hnodup := (hperm.map (·.id)).nodup_iff.mp hshows.nodup
    rw [List.map_append, List.nodup_append] at hnodup
    exact hnodup.2.2 _ (List.mem_map_of_mem hagain) _ (List.mem_map_of_mem hr) rfl
  · intro hnone
    obtain ⟨rs, hgoes⟩ := (h.exists_goes_list_iff supply).mpr fun n => by simp [hnone n]
    obtain ⟨placed, numbers, drafts, hperm, hplaced, hdrafts⟩ := h.exists_perm_append hgoes
    have hnumbers : numbers = [] := List.eq_nil_iff_forall_not_mem.mpr fun n hn =>
      (hdrafts.mem_iff n).mp hn (hnone n)
    have hread := hdrafts.read
    rw [hnumbers, List.forall₂_nil_left_iff] at hread
    rw [hread, List.append_nil] at hperm
    exact ⟨rs, hgoes, fun r => hperm.mem_iff.trans (hplaced.mem_iff r),
      (hperm.map (·.id)).nodup_iff.mpr hplaced.nodup⟩

/-- After any operations on an empty store, each of which may have stopped after any of its steps, the list of
templates is returned just when no temporary file in the folder of records is empty. It has the records that
are in their place, one of each template, and beside them what the temporary files hold. So it has the records
that are in their place, each once and nothing else, just when there is no temporary file in the folder; and an
operation that goes through leaves none behind and takes none away. -/
theorem list_showsInPlace_iff (hids : ∀ k, IsHexId (supply.id k)) (trials : List Trial) :
    ∃ w, w = runTrials supply {} trials ∧
      ((∃ rs, Goes supply w list w (.ok rs)) ↔ ∀ n, w.disk.find? (draftPath n) ≠ some (.text "")) ∧
      (∀ rs, Goes supply w list w (.ok rs) → ∃ placed numbers drafts, rs.Perm (placed ++ drafts) ∧
        ShowsInPlace w.disk placed ∧ ShowsDrafts w.disk numbers drafts) ∧
      ((∃ rs, Goes supply w list w (.ok rs) ∧ ShowsInPlace w.disk rs) ↔
        ∀ n, w.disk.find? (draftPath n) = none) ∧
      ∀ operation n, (Trial.world supply w ⟨operation, none⟩).disk.find? (draftPath n) =
        w.disk.find? (draftPath n) := by
  have hsound := sound_empty.runTrials hids trials
  exact ⟨_, rfl, hsound.wellFiled.exists_goes_list_iff supply, fun _ hgoes => hsound.wellFiled.exists_perm_append hgoes,
    hsound.wellFiled.exists_showsInPlace_iff supply, fun operation => (hsound.keeps_trial hids operation).drafts_eq⟩

/-- Beside an invoice, a letter gets a version and no record, and a further version of the invoice is written
to a temporary file and no more. -/
def halfwayElsewhere : List Trial :=
  [⟨.call (.create (.text "Invoice") .null .null .null), none⟩,
    ⟨.call (.create (.text "Letter") .null .null .null), some 7⟩,
    ⟨.call (.version (counted.id 0) .null .null), some 8⟩, ⟨.list, none⟩]

/-- The list has the invoice, which is in its place, and nothing else. -/
theorem list_showsInPlace_iff_halfwayElsewhere :
    ∃ w rs, w = runTrials counted {} halfwayElsewhere ∧ Goes counted w list w (.ok rs) ∧
      ShowsInPlace w.disk rs ∧ (rs.map fun r => r.id.display) = [counted.id 0] := by
  obtain ⟨hnames, hlisted⟩ : (runTrials counted {} halfwayElsewhere).disk.names recordFolder =
        [recordName (counted.id 0)] ∧
      (run counted (runTrials counted {} halfwayElsewhere) list).2.outcome.toOption.map (fun rs =>
        rs.map fun r => r.id.display) = some [counted.id 0] := by
    decide +kernel
  obtain ⟨w, hw, -, -, hiff, -⟩ := list_showsInPlace_iff isHexId_counted halfwayElsewhere
  rw [← hw] at hnames hlisted
  have hnone (n : ℕ) : w.disk.find? (draftPath n) = none := by
    by_contra hdraft
    have hname := mem_names_of_find?_ne_none (isName_temporaryName n) hdraft
    rw [hnames, List.mem_singleton] at hname
    exact recordName_ne_temporaryName (isHexId_counted 0) n hname.symm
  obtain ⟨rs, hgoes, hshows⟩ := hiff.mpr hnone
  rw [hgoes.outcome] at hlisted
  exact ⟨w, rs, hw, hgoes, hshows, Option.some.inj hlisted⟩

/-- An invoice is renamed, and this stops after some steps. -/
def renamedHalfway (n : ℕ) : List Trial :=
  [⟨.call (.create (.text "Invoice") .null .null .null), none⟩,
    ⟨.call (.update (counted.id 0) (.text "Bill") .null .null .null), some n⟩]

/-- With the temporary file of the new record just made, no list is returned, and once it is written, the
invoice is listed twice. -/
theorem not_list_showsInPlace_renamedHalfway :
    (∃ w, w = runTrials counted {} (renamedHalfway 3) ∧ ∀ rs, ¬Goes counted w list w (.ok rs)) ∧
    ∃ w rs, w = runTrials counted {} (renamedHalfway 4) ∧ Goes counted w list w (.ok rs) ∧
      (rs.map fun r => r.id.display) = [counted.id 0, counted.id 0] ∧ ¬ShowsInPlace w.disk rs := by
  obtain ⟨hfails, hlisted⟩ :
      (run counted (runTrials counted {} (renamedHalfway 3)) list).2.outcome.isOk = false ∧
      (run counted (runTrials counted {} (renamedHalfway 4)) list).2.outcome.toOption.map (fun rs =>
        rs.map fun r => r.id.display) = some [counted.id 0, counted.id 0] := by
    decide +kernel
  generalize runTrials counted {} (renamedHalfway 3) = w at hfails
  generalize runTrials counted {} (renamedHalfway 4) = w' at hlisted
  refine ⟨⟨w, rfl, fun rs hgoes => ?_⟩, ?_⟩
  · rw [hgoes.outcome] at hfails
    cases hfails
  · rcases looks_list.exists_goes counted w' with ⟨rs, hgoes⟩ | ⟨e, hgoes⟩
    · rw [hgoes.outcome] at hlisted
      have hids : (rs.map fun r => r.id.display) = [counted.id 0, counted.id 0] := Option.some.inj hlisted
      refine ⟨w', rs, rfl, hgoes, hids, fun hshows => ?_⟩
      have hnodup := hshows.nodup_display
      rw [hids] at hnodup
      exact absurd hnodup (by simp)
    · rw [hgoes.outcome] at hlisted
      cases hlisted

end Pagewright.Store
