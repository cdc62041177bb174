import Mathlib.Data.Prod.Lex
import Pagewright.Proofs.Outcome
import Pagewright.Proofs.Store.RecordFolder

/-!
# Listing records

The list of templates reads every file that is named like a record (`goes_list`) and sorts what it read
from the newest. Records whose times and ids are texts can always be sorted (`exists_sortNewest`): none is
lost or added, and none comes before a newer one.
-/

namespace Pagewright

namespace TemplateRecord

variable {a b r : TemplateRecord} {records sorted : List TemplateRecord}

/-! ## Order -/

/-- A record whose time and id are texts. -/
structure IsDated (r : TemplateRecord) : Prop where
  time : ∃ time, r.updatedAt = .text time
  id : ∃ id, r.id = .text id

/-- When a record was last changed, and its id. -/
def stamp (r : TemplateRecord) : String ×ₗ String := toLex (r.updatedAt.display, r.id.display)

theorem isOlder_eq (ha : a.IsDated) (hb : b.IsDated) : a.isOlder b = .ok (decide (a.stamp < b.stamp)) := by
  obtain ⟨⟨s, hs⟩, i, hi⟩ := ha
  obtain ⟨⟨t, ht⟩, j, hj⟩ := hb
  have hstamp : a.stamp < b.stamp ↔ s < t ∨ s = t ∧ i < j := by
    rw [stamp, stamp, hs, ht, hi, hj, Prod.Lex.lt_iff]
    rfl
  have hsame (x y : String) : (Value.text x).same (.text y) = (x == y) := rfl
  have holder : decide (a.stamp < b.stamp) = decide (s < t ∨ s = t ∧ i < j) := decide_eq_decide.mpr hstamp
  rw [isOlder, hs, ht, hi, hj, hsame, hsame, holder]
  by_cases htime : s = t
  · by_cases hid : i = j
    · simp [htime, hid]
    · simp [htime, hid, precedes]
  · simp [htime, precedes]

theorem stamp_lt_of_lt {s t : String} (hs : a.updatedAt = .text s) (ht : b.updatedAt = .text t) (h : s < t) :
    a.stamp < b.stamp := by
  rw [stamp, stamp, hs, ht, Prod.Lex.lt_iff]
  exact .inl h

/-- No record comes before a newer one. -/
def FromNewest (records : List TemplateRecord) : Prop := records.Pairwise fun a b => b.stamp ≤ a.stamp

/-- A record is put behind the newer ones. -/
theorem exists_insertNewest (hr : r.IsDated) (hdated : ∀ s ∈ sorted, s.IsDated) (hsorted : FromNewest sorted) :
    ∃ sorted', insertNewest r sorted = .ok sorted' ∧ sorted'.Perm (r :: sorted) ∧ FromNewest sorted' := by
  induction sorted with
  | nil => exact ⟨[r], rfl, .refl _, List.pairwise_singleton _ _⟩
  | cons other rest ih =>
    obtain ⟨hother, hrest⟩ := List.pairwise_cons.mp hsorted
    rw [insertNewest, isOlder_eq (hdated other List.mem_cons_self) hr, Outcome.ok_bind]
    by_cases holder : other.stamp < r.stamp
    · refine ⟨r :: other :: rest, by rw [if_pos (decide_eq_true holder)]; rfl, .refl _,
        List.pairwise_cons.mpr ⟨fun s hs => ?_, hsorted⟩⟩
      rcases List.mem_cons.mp hs with rfl | hs
      · exact holder.le
      · exact (hother s hs).trans holder.le
    · obtain ⟨sorted', hinsert, hperm, hfrom⟩ := ih (fun s hs => hdated s (List.mem_cons_of_mem _ hs)) hrest
      refine ⟨other :: sorted', ?_, (hperm.cons other).trans (.swap _ _ _),
        List.pairwise_cons.mpr ⟨fun s hs => ?_, hfrom⟩⟩
      · rw [if_neg (by simpa using holder), hinsert]
        rfl
      · rcases List.mem_cons.mp (hperm.mem_iff.mp hs) with rfl | hs
        · exact not_lt.mp holder
        · exact hother s hs

/-- Dated records are sorted from the newest. -/
theorem exists_sortNewest (hdated : ∀ r ∈ records, r.IsDated) :
    ∃ sorted, sortNewest records = .ok sorted ∧ sorted.Perm records ∧ FromNewest sorted := by
  suffices ∀ sorted, (∀ s ∈ sorted, s.IsDated) → FromNewest sorted →
      ∃ sorted', records.foldlM (fun sorted r => insertNewest r sorted) sorted = .ok sorted' ∧
        sorted'.Perm (records ++ sorted) ∧ FromNewest sorted' by
    obtain ⟨sorted, hsort, hperm, hfrom⟩ := this [] (by simp) .nil
    exact ⟨sorted, hsort, by simpa using hperm, hfrom⟩
  intro sorted hsorted hfrom
  induction records generalizing sorted with
  | nil => exact ⟨sorted, rfl, .refl _, hfrom⟩
  | cons r records ih =>
    have hr := hdated r List.mem_cons_self
    obtain ⟨inserted, hinsert, hperm, hfrom⟩ := exists_insertNewest hr hsorted hfrom
    obtain ⟨sorted', hfold, hperm', hfrom'⟩ := ih (fun s hs => hdated s (List.mem_cons_of_mem _ hs)) inserted
      (fun s hs => by
        rcases List.mem_cons.mp (hperm.mem_iff.mp hs) with rfl | hs
        · exact hr
        · exact hsorted s hs) hfrom
    refine ⟨sorted', ?_, hperm'.trans ((hperm.append_left records).trans List.perm_middle), hfrom'⟩
    rw [List.foldlM_cons, hinsert]
    exact hfold

end TemplateRecord

namespace Store

open Procedure Disk TemplateRecord

variable {supply : Supply} {w : World} {d : Disk} {name : String} {r : TemplateRecord} {rs : List TemplateRecord}

theorem IsRecordOf.isDated {id : String} (h : IsRecordOf id r) : r.IsDated := ⟨h.dated, id, h.id_eq⟩

/-! ## Reading the folder -/

/-- The records of a folder are read and sorted. -/
theorem goes_list (supply : Supply) (w : World) :
    Goes supply w list w (((w.disk.names recordFolder).filter isRecordName).mapM
      (readIn w.disk TemplateRecord.ofValue recordFolder) >>= sortNewest) := by
  exact Goes.bind (goes_filesIn _) ((goes_readAll_mapM _ _ _).bind_outcome fun _ => goes_lift _)

/-! ## Listing well filed records -/

theorem toValue_injective : Function.Injective TemplateRecord.toValue := fun r r' h =>
  Except.ok.inj ((congrArg ofValue h : ofValue r.toValue = ofValue r'.toValue))

/-- Some names are those of files that hold some records. -/
def ReadBack (d : Disk) (names : List String) (found : List TemplateRecord) : Prop :=
  List.Forall₂ (fun name r => d.find? (inFolder recordFolder name) = some (.document r.toValue)) names found

theorem WellFiled.filed_of_mem (h : WellFiled d) (hname : name ∈ d.names recordFolder) :
    ∃ contents, d.find? (inFolder recordFolder name) = some contents ∧ Filed name contents := by
  obtain ⟨hslash, hfind⟩ := mem_names_iff.mp hname
  obtain ⟨contents, hcontents⟩ := Option.ne_none_iff_exists'.mp hfind
  exact ⟨contents, hcontents, h.filed name contents hslash hcontents⟩

theorem WellFiled.readIn_eq_ok_iff (h : WellFiled d) (hname : name ∈ d.names recordFolder) :
    readIn d ofValue recordFolder name = .ok r ↔
      d.find? (inFolder recordFolder name) = some (.document r.toValue) := by
  have hdocument (r' : TemplateRecord) : ((Contents.document r'.toValue).json >>= ofValue) = .ok r' := rfl
  have hempty : ((Contents.text "").json >>= ofValue) = undefinedOn .notJson := rfl
  obtain ⟨contents, hfind, hfiled⟩ := h.filed_of_mem hname
  rw [readIn, hfind]
  cases hfiled with
  | record hr => simp [hdocument, toValue_injective.eq_iff]
  | draft n hr => simp [hdocument, toValue_injective.eq_iff]
  | empty n => simp [hempty, undefinedOn]

theorem WellFiled.mapM_readIn_eq_ok_iff (h : WellFiled d) {found : List TemplateRecord} :
    (d.names recordFolder).mapM (readIn d ofValue recordFolder) = .ok found ↔
      ReadBack d (d.names recordFolder) found := by
  have hmem : ∀ name ∈ d.names recordFolder, name ∈ d.names recordFolder := fun _ h => h
  rw [Outcome.mapM_eq_ok]
  constructor
  · intro hall
    exact ((List.forall₂_and_left _ _).mpr ⟨hmem, hall⟩).imp fun _ _ hp => (h.readIn_eq_ok_iff hp.1).mp hp.2
  · intro hall
    exact ((List.forall₂_and_left _ _).mpr ⟨hmem, hall⟩).imp fun _ _ hp => (h.readIn_eq_ok_iff hp.1).mpr hp.2

theorem WellFiled.exists_isRecordOf (h : WellFiled d) {found : List TemplateRecord}
    (hread : ReadBack d (d.names recordFolder) found) (hr : r ∈ found) :
    ∃ name id, name ∈ d.names recordFolder ∧ IsRecordOf id r ∧
      d.find? (inFolder recordFolder name) = some (.document r.toValue) := by
  obtain ⟨name, hname, hin⟩ := Outcome.exists_of_mem_of_mapM (h.mapM_readIn_eq_ok_iff.mpr hread) hr
  have hfind := (h.readIn_eq_ok_iff hname).mp hin
  obtain ⟨contents, hcontents, hfiled⟩ := h.filed_of_mem hname
  have hvalue : contents = .document r.toValue := Option.some.inj (hcontents.symm.trans hfind)
  obtain ⟨id, hr⟩ : ∃ id, IsRecordOf id r := by
    cases hfiled with
    | record h => exact ⟨_, toValue_injective (Contents.document.inj hvalue) ▸ h⟩
    | draft n h => exact ⟨_, toValue_injective (Contents.document.inj hvalue) ▸ h⟩
    | empty n => cases hvalue
  exact ⟨name, id, hname, hr, hfind⟩

/-- All files of the folder are read and sorted. -/
theorem WellFiled.goes_list (h : WellFiled w.disk) (supply : Supply) :
    Goes supply w list w ((w.disk.names recordFolder).mapM (readIn w.disk ofValue recordFolder) >>=
      sortNewest) := by
  have hgoes := Store.goes_list supply w
  have hnames : (w.disk.names recordFolder).filter isRecordName = w.disk.names recordFolder := by
    refine List.filter_eq_self.mpr fun name hname => ?_
    obtain ⟨contents, -, hfiled⟩ := h.filed_of_mem hname
    exact hfiled.isRecordName
  rwa [hnames] at hgoes

theorem WellFiled.exists_goes_list (h : WellFiled w.disk) (supply : Supply) {found : List TemplateRecord}
    (hread : ReadBack w.disk (w.disk.names recordFolder) found) :
    ∃ rs, Goes supply w list w (.ok rs) ∧ rs.Perm found ∧ FromNewest rs := by
  have hdated : ∀ r ∈ found, r.IsDated := fun r hr => by
    obtain ⟨name, id, -, hrecord, -⟩ := h.exists_isRecordOf hread hr
    exact hrecord.isDated
  obtain ⟨rs, hsort, hperm, hfrom⟩ := exists_sortNewest hdated
  have hgoes := h.goes_list supply
  rw [h.mapM_readIn_eq_ok_iff.mpr hread, Outcome.ok_bind, hsort] at hgoes
  exact ⟨rs, hgoes, hperm, hfrom⟩

theorem WellFiled.of_goes_list (h : WellFiled w.disk) (hgoes : Goes supply w list w (.ok rs)) :
    ∃ found, ReadBack w.disk (w.disk.names recordFolder) found ∧ rs.Perm found ∧ FromNewest rs := by
  obtain ⟨found, hfound, -⟩ := Outcome.bind_eq_ok.mp (hgoes.unique (h.goes_list supply)).2.symm
  have hread := h.mapM_readIn_eq_ok_iff.mp hfound
  obtain ⟨rs', hgoes', hperm, hfrom⟩ := h.exists_goes_list supply hread
  obtain rfl := Except.ok.inj (hgoes.unique hgoes').2
  exact ⟨found, hread, hperm, hfrom⟩

theorem WellFiled.exists_readBack_iff (h : WellFiled d) :
    (∃ found, ReadBack d (d.names recordFolder) found) ↔ ∀ n, d.find? (draftPath n) ≠ some (.text "") := by
  constructor
  · rintro ⟨found, hread⟩ n hempty
    have hname : temporaryName n ∈ d.names recordFolder :=
      mem_names_of_find?_ne_none (isName_temporaryName n) (by rw [← draftPath, hempty]; simp)
    obtain ⟨r, hr⟩ :=
      Outcome.returns_mapM_iff.mp ⟨found, h.mapM_readIn_eq_ok_iff.mpr hread⟩ (temporaryName n) hname
    have hfind := (h.readIn_eq_ok_iff hname).mp hr
    rw [← draftPath, hempty] at hfind
    cases hfind
  · intro hnone
    have hreturns : ∀ name ∈ d.names recordFolder, Outcome.Returns (readIn d ofValue recordFolder name) := by
      intro name hname
      obtain ⟨contents, hfind, hfiled⟩ := h.filed_of_mem hname
      cases hfiled with
      | record hr => exact ⟨_, (h.readIn_eq_ok_iff hname).mpr hfind⟩
      | draft n hr => exact ⟨_, (h.readIn_eq_ok_iff hname).mpr hfind⟩
      | empty n => exact absurd hfind (hnone n)
    obtain ⟨found, hfound⟩ := Outcome.returns_mapM_iff.mpr hreturns
    exact ⟨found, h.mapM_readIn_eq_ok_iff.mp hfound⟩

theorem WellFiled.exists_goes_list_iff (h : WellFiled w.disk) (supply : Supply) :
    (∃ rs, Goes supply w list w (.ok rs)) ↔ ∀ n, w.disk.find? (draftPath n) ≠ some (.text "") := by
  rw [← h.exists_readBack_iff]
  constructor
  · rintro ⟨rs, hgoes⟩
    obtain ⟨found, hread, -⟩ := h.of_goes_list hgoes
    exact ⟨found, hread⟩
  · rintro ⟨found, hread⟩
    obtain ⟨rs, hgoes, -⟩ := h.exists_goes_list supply hread
    exact ⟨rs, hgoes⟩

end Store

end Pagewright
