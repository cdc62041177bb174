import Pagewright.Proofs.Store.Steps
import Pagewright.Proofs.Store.Templates

/-!
# The folder of records

Beside the records, the folder of records has the temporary files that they are written to, as long as
these have not got the path of the record, and for good if the writing ended on the way. A file of the
folder is a record in its place, a draft under a temporary name, or an empty temporary file (`Filed`), and
whatever is put where it belongs, this stays so (`WellFiled.put`).
-/

namespace Pagewright

namespace Disk

variable {folder name path : String}

theorem isName_temporaryName (n : ℕ) : IsName (temporaryName n) := by
  have hslash : '/' ∉ n.repr.toList := by
    have h := Store.slash_not_mem_repr n
    rwa [Int.repr_eq_if, if_pos (Int.natCast_nonneg n), Int.toNat_natCast] at h
  simpa [IsName, temporaryName] using hslash

theorem exists_temporaryPath (d : Disk) (folder : String) :
    ∃ n, d.temporaryPath folder = inFolder folder (temporaryName n) := by
  unfold temporaryPath
  simp only
  generalize hfound : ((List.range (d.files.length + 1)).map fun n =>
    inFolder folder (temporaryName n)).find? (fun path => (d.find? path).isNone) = found
  cases found with
  | none => exact ⟨0, rfl⟩
  | some path =>
    obtain ⟨n, -, hn⟩ := List.mem_map.mp (List.mem_of_find?_eq_some hfound)
    exact ⟨n, hn.symm⟩

theorem nameIn?_eq_some (h : nameIn? folder path = some name) :
    path = inFolder folder name ∧ IsName name := by
  unfold nameIn? at h
  split at h
  · rename_i rest hahead
    by_cases hslash : rest.contains '/' = true
    · rw [if_pos hslash] at h
      cases h
    · rw [if_neg hslash, Option.some.injEq] at h
      rw [List.isPrefixOf?_eq_some_iff_append_eq] at hahead
      subst h
      refine ⟨?_, by simpa [IsName] using hslash⟩
      rw [← String.toList_inj, ← hahead, inFolder, String.toList_append (s := folder ++ "/"),
        String.toList_ofList]
  · simp at h

theorem mem_names_iff {d : Disk} :
    name ∈ d.names folder ↔ IsName name ∧ d.find? (inFolder folder name) ≠ none := by
  constructor
  · intro h
    rw [names_eq, List.mem_filterMap] at h
    obtain ⟨path, hpath, hname⟩ := h
    obtain ⟨rfl, hslash⟩ := nameIn?_eq_some hname
    exact ⟨hslash, mem_map_fst_iff.mp hpath⟩
  · rintro ⟨hname, hfind⟩
    exact mem_names_of_find?_ne_none hname hfind

theorem nodup_names {d : Disk} (h : (d.files.map Prod.fst).Nodup) (folder : String) :
    (d.names folder).Nodup := by
  rw [names_eq]
  refine h.filterMap fun path path' name hname hname' => ?_
  rw [(nameIn?_eq_some hname).1, (nameIn?_eq_some hname').1]

end Disk

namespace Store

open Procedure Disk

variable {supply : Supply} {w w' : World} {d : Disk} {id name folder : String} {contents : Contents}
  {r : TemplateRecord}

/-! ## What a file can hold -/

/-- The path of a temporary file in the folder of records. -/
def draftPath (n : ℕ) : String := inFolder recordFolder (temporaryName n)

/-- The record of a template under an id that was given out, last changed at some time. -/
structure IsRecordOf (id : String) (r : TemplateRecord) : Prop where
  isHexId : IsHexId id
  id_eq : r.id = .text id
  dated : ∃ time, r.updatedAt = .text time

/-- What a file of the folder of records can be. -/
inductive Filed : String → Contents → Prop where
  | record {id : String} {r : TemplateRecord} (h : IsRecordOf id r) :
      Filed (recordName id) (.document r.toValue)
  | draft (n : ℕ) {id : String} {r : TemplateRecord} (h : IsRecordOf id r) :
      Filed (temporaryName n) (.document r.toValue)
  | empty (n : ℕ) : Filed (temporaryName n) (.text "")

/-- All files have different paths, and those of the folder of records hold what they can hold. -/
structure WellFiled (d : Disk) : Prop where
  nodup : (d.files.map Prod.fst).Nodup
  filed : ∀ name contents, IsName name → d.find? (inFolder recordFolder name) = some contents →
    Filed name contents

theorem toList_temporaryName (n : ℕ) :
    (temporaryName n).toList = 't' :: ("mp" ++ toString n ++ ".json").toList := by
  simp [temporaryName]

theorem recordName_ne_temporaryName (hid : IsHexId id) (n : ℕ) : recordName id ≠ temporaryName n := by
  intro h
  have hlist := congrArg String.toList h
  rw [recordName, String.toList_append, toList_temporaryName] at hlist
  cases hdigits : id.toList with
  | nil =>
    have hlength := hid.length_eq
    rw [← String.length_toList, hdigits] at hlength
    simp at hlength
  | cons c digits =>
    rw [hdigits, List.cons_append] at hlist
    have hhex := hid.isHex c (by rw [hdigits]; exact List.mem_cons_self)
    rw [(List.cons.inj hlist).1] at hhex
    exact absurd hhex (by decide)

theorem recordPath_ne_draftPath (hid : IsHexId id) (n : ℕ) : recordPath id ≠ draftPath n := by
  intro h
  exact recordName_ne_temporaryName hid n
    ((inFolder_inj (isName_recordName hid.isId) (isName_temporaryName n)).mp h).2

theorem isRecordName_append (s : String) : isRecordName (s ++ ".json") = true := by
  rw [isRecordName, String.toList_append, List.isSuffixOf_iff_suffix]
  exact List.suffix_append _ _

theorem Filed.isRecordName (h : Filed name contents) : isRecordName name = true := by
  cases h with
  | record h => exact isRecordName_append _
  | draft n h => exact isRecordName_append _
  | empty n => exact isRecordName_append _

/-! ## Putting files -/

theorem wellFiled_empty : WellFiled {} := ⟨List.nodup_nil, fun _ _ _ h => by simp [find?] at h⟩

/-- A file is put where it belongs. -/
theorem WellFiled.put (h : WellFiled d) (hname : IsName name)
    (hfiled : folder = recordFolder → Filed name contents) :
    WellFiled (d.put (inFolder folder name) contents) where
  nodup := by
    by_cases hfind : d.find? (inFolder folder name) = none
    · rw [files_put_of_find?_eq_none hfind, List.map_append, List.nodup_append]
      refine ⟨h.nodup, List.nodup_singleton _, fun path hpath path' hpath' => ?_⟩
      rintro rfl
      rw [List.map_singleton, List.mem_singleton] at hpath'
      subst hpath'
      exact mem_map_fst_iff.mp hpath hfind
    · rw [Disk.put, map_fst_putFile_of_mem (mem_map_fst_iff.mpr hfind)]
      exact h.nodup
  filed name' contents' hname' hfind := by
    rw [find?_put] at hfind
    by_cases hpath : inFolder recordFolder name' = inFolder folder name
    · obtain ⟨rfl, rfl⟩ := (inFolder_inj hname' hname).mp hpath
      rw [if_pos rfl, Option.some.injEq] at hfind
      exact hfind ▸ hfiled rfl
    · rw [if_neg hpath] at hfind
      exact h.filed name' contents' hname' hfind

theorem WellFiled.of_files {d' : Disk} (h : WellFiled d) (hfiles : d'.files = d.files) : WellFiled d' where
  nodup := hfiles ▸ h.nodup
  filed name contents hname hfind := h.filed name contents hname ((find?_congr hfiles _).symm.trans hfind)

/-- A record that is found belongs to some template, be it read from its place or from a draft. -/
theorem WellFiled.of_requireRecord (h : WellFiled w.disk) (hgoes : Goes supply w (requireRecord id) w' (.ok r)) :
    ∃ own, IsRecordOf own r := by
  obtain ⟨hid, hcheck, contents, hfind⟩ := find?_of_goes_requireRecord hgoes
  have hdocument {own : String} {r' : TemplateRecord} (hr : IsRecordOf own r')
      (hfind : w.disk.find? (recordPath id) = some (.document r'.toValue)) : ∃ own, IsRecordOf own r := by
    have hrequire : Goes supply w (requireRecord id) w (.ok r') :=
      Goes.bind (goes_loadRecord hid hcheck hfind) (goes_pure _)
    obtain rfl := Except.ok.inj (hgoes.unique hrequire).2
    exact ⟨own, hr⟩
  have hfiled := h.filed _ _ (isName_recordName hid) hfind
  generalize recordName id = name at hfiled
  cases hfiled with
  | record hr => exact hdocument hr hfind
  | draft n hr => exact hdocument hr hfind
  | empty n =>
    refine absurd (?_ : Goes supply w (requireRecord id) w (.error (.undefinedOn .notJson))) hgoes.not_error
    unfold requireRecord loadRecord
    rw [hid, hcheck]
    exact Goes.bind_error (Goes.bind (goes_lift _) (Goes.bind_error (goes_document?_error hfind rfl)))

end Store

end Pagewright
