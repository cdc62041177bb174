import Pagewright.Proofs.Store.Access
import Pagewright.Store.Operations

/-!
# Readings of a store

The operations that look at a store do nothing else (`Procedure.Looks`), and so do the parts of other
operations that load a record, a version, or all versions.
-/

namespace Pagewright.Store

open Procedure

theorem looks_document? (path : String) : (document? path).Looks := by
  refine (looks_look path).bind fun contents => ?_
  cases contents with
  | none => exact looks_done _
  | some contents => exact (looks_done contents.json).bind fun _ => looks_done _

theorem looks_loadRecord (id : String) : (loadRecord id).Looks := by
  unfold loadRecord
  by_cases hid : (!isId id) = true
  · rw [if_pos hid]
    exact looks_done _
  · rw [if_neg hid]
    refine (looks_done (checkName (recordName id))).bind fun _ => (looks_document? _).bind fun found => ?_
    cases found with
    | none => exact looks_done _
    | some v => exact (looks_done (TemplateRecord.ofValue v)).bind fun _ => looks_done _

theorem looks_requireRecord (id : String) : (requireRecord id).Looks :=
  (looks_loadRecord id).bind fun found => by cases found <;> exact looks_done _

theorem looks_loadVersion (id : String) (number : Value) : (loadVersion id number).Looks := by
  unfold loadVersion
  by_cases hnull : number.isNull = true
  · rw [if_pos hnull]
    exact looks_done _
  · rw [if_neg hnull]
    refine (looks_document? _).bind fun found => ?_
    cases found with
    | none => exact looks_done _
    | some v => exact (looks_done (TemplateVersion.ofValue v)).bind fun _ => looks_done _

theorem looks_get (id : String) : (get id).Looks := by
  refine (looks_loadRecord id).bind fun found => ?_
  cases found with
  | none => exact looks_done _
  | some r => exact (looks_loadVersion id r.versionNumber).bind fun _ => looks_done _

theorem looks_readAll {α : Type} (read : Value → Outcome α) (folder : String) (names : List String) :
    (readAll read folder names).Looks := by
  induction names with
  | nil => exact looks_done _
  | cons name rest ih =>
    refine (looks_look _).bind fun contents => ?_
    cases contents with
    | none => exact looks_done _
    | some contents =>
      exact (looks_done (contents.json >>= read)).bind fun _ => ih.bind fun _ => looks_done _

theorem looks_list : list.Looks :=
  (looks_filesIn recordFolder).bind fun _ => (looks_readAll _ _ _).bind fun found =>
    looks_done (TemplateRecord.sortNewest found)

theorem looks_versions (id : String) : (versions id).Looks := by
  unfold versions
  by_cases hid : (!isId id) = true
  · rw [if_pos hid]
    exact looks_done _
  · rw [if_neg hid]
    exact (looks_done (checkName id)).bind fun _ => (looks_filesIn _).bind fun _ =>
      (looks_readAll _ _ _).bind fun _ => looks_done _

theorem looks_audit (id : String) (limit : Value) : (audit id limit).Looks :=
  (looks_done (limitOf limit)).bind fun _ => fun trail =>
    (looks_done ((trail.getD {}).events (.text id) .null)).bind fun _ => looks_done _

end Pagewright.Store
