import Pagewright.File.Document
import Pagewright.Proofs.Json.RoundTrip
import Pagewright.Proofs.Outcome
import Pagewright.Proofs.Text.Replace

/-!
# Documents in folders

A document that came from a JSON file is one that a text can hold (`Folder.isData_of_load`), and a document of this
kind is loaded again as it was saved (`Folder.load_of_save`).

A file can be replaced where it is in a folder as a file system has it, with no file that is also a folder
(`Folder.IsTree`): its document is loaded from then on, the other files stay (`Folder.find?_of_write`), and to write
what a file holds changes nothing (`Folder.eq_of_write`).
-/

namespace Pagewright

open Outcome

namespace Text

variable {s : List Char}

theorem unifyBreaks_of_not_mem (h : '\r' ∉ s) : unifyBreaks s = s := by
  have hreturn (rest : List Char) : ¬ '\r' :: rest <:+: s := fun hinside => h (hinside.subset List.mem_cons_self)
  rw [unifyBreaks, replace_eq_self (hreturn _), replace_eq_self (hreturn _)]

end Text

namespace DocumentFormat

variable {v : Value} {standIn : Option Char}

theorem read_write_json (h : v.IsData) : json.read standIn (json.write v) = .ok v := by
  have htext : (json.write v).toList = Json.indentedChars .unicode 0 v ++ ['\n'] := by
    rw [write, Json.indented, String.toList_append, String.toList_ofList]
    rfl
  have hbreaks : '\r' ∉ Json.indentedChars .unicode 0 v ++ ['\n'] := by
    simp [Json.not_mem_indentedChars h]
  rw [read, htext, Text.unifyBreaks_of_not_mem hbreaks, Json.read_indented h (List.forall_mem_singleton.mpr rfl)]
  rfl

theorem isData_of_read_json {text : String} (h : json.read standIn text = .ok v) : v.IsData := by
  unfold read at h
  dsimp only at h
  cases hread : Json.readWith standIn (String.ofList (Text.unifyBreaks text.toList)) with
  | error e =>
    rw [hread] at h
    cases h
  | ok u =>
    rw [hread] at h
    obtain rfl := Except.ok.inj h
    exact Json.isData_of_read hread

end DocumentFormat

namespace Folder

variable {f g : Folder} {path other text : String} {document : Entries}

/-! ## Replacing a file -/

/-- Files as a file system has them: none of them is a folder or in a file. -/
def IsTree (f : Folder) : Prop :=
  ∀ file ∈ f.files, f.isFolder file.1 = false ∧ ∀ p ∈ FilePath.folders file.1, f.find? p = none

instance (f : Folder) : Decidable f.IsTree :=
  inferInstanceAs (Decidable
    (∀ file ∈ f.files, f.isFolder file.1 = false ∧ ∀ p ∈ FilePath.folders file.1, f.find? p = none))

theorem find?_eq_none_iff : f.find? path = none ↔ FilePath.normal path ∉ f.files.map (·.1) := by
  rw [find?, List.lookup_eq_none_iff, List.mem_map]
  constructor
  · rintro h ⟨file, hfile, heq⟩
    exact bne_iff_ne.mp (h file hfile) heq.symm
  · intro h file hfile
    exact bne_iff_ne.mpr fun heq => h ⟨file, hfile, heq.symm⟩

theorem isFolder_eq (f : Folder) (path : String) :
    f.isFolder path = (FilePath.normal path == "." ||
      (f.files.map (·.1)).any fun p => (FilePath.folders p).contains (FilePath.normal path)) := by
  rw [isFolder, List.any_map]
  rfl

theorem isTree_congr (h : f.files.map (·.1) = g.files.map (·.1)) (hf : f.IsTree) : g.IsTree := by
  intro file hfile
  obtain ⟨file', hfile', hpath⟩ := List.mem_map.mp (h ▸ List.mem_map_of_mem hfile : file.1 ∈ f.files.map (·.1))
  obtain ⟨hfolder, hfolders⟩ := hf file' hfile'
  rw [hpath] at hfolder hfolders
  refine ⟨?_, fun p hp => ?_⟩
  · rw [isFolder_eq, ← h, ← isFolder_eq, hfolder]
  · rw [find?_eq_none_iff, ← h, ← find?_eq_none_iff]
    exact hfolders p hp

theorem keys_putFile {files : List (String × String)} (h : path ∈ files.map (·.1)) (text : String) :
    (putFile files path text).map (·.1) = files.map (·.1) := by
  induction files with
  | nil => cases h
  | cons file rest ih =>
    obtain ⟨p, t⟩ := file
    rw [putFile]
    split
    · rfl
    · rename_i hp
      have hne : path ≠ p := fun heq => hp (by simp [heq])
      rw [List.map_cons, List.map_cons, ih ((List.mem_cons.mp h).resolve_left hne)]

theorem lookup_putFile_of_ne (files : List (String × String)) (h : other ≠ path) (text : String) :
    (putFile files path text).lookup other = files.lookup other := by
  have hother : (other == path) = false := beq_eq_false_iff_ne.mpr h
  induction files with
  | nil => rw [putFile, List.lookup_cons, hother]
  | cons file rest ih =>
    obtain ⟨p, t⟩ := file
    rw [putFile]
    split
    · rename_i hp
      obtain rfl := eq_of_beq hp
      rw [List.lookup_cons, List.lookup_cons, hother]
    · rw [List.lookup_cons, List.lookup_cons, ih]

theorem putFile_of_lookup {files : List (String × String)} (h : files.lookup path = some text) :
    putFile files path text = files := by
  induction files with
  | nil => cases h
  | cons file rest ih =>
    obtain ⟨p, t⟩ := file
    rw [putFile]
    split
    · rename_i hp
      obtain rfl := eq_of_beq hp
      rw [List.lookup_cons_self] at h
      rw [Option.some.inj h]
    · rename_i hp
      have hne : (path == p) = false := beq_eq_false_iff_ne.mpr fun heq => hp (by simp [heq])
      rw [List.lookup_cons, hne] at h
      rw [ih h]

theorem putFile_of_write (h : f.write path text = .ok g) : g = ⟨putFile f.files (FilePath.normal path) text⟩ := by
  simp only [write] at h
  split at h
  · cases h
  · exact (Except.ok.inj h).symm

theorem find?_of_write (h : f.write path text = .ok g) (hother : FilePath.normal other ≠ FilePath.normal path) :
    g.find? other = f.find? other := by
  rw [putFile_of_write h]
  exact lookup_putFile_of_ne f.files hother text

theorem eq_of_write (h : f.write path text = .ok g) (hfile : f.find? path = some text) : g = f := by
  rw [putFile_of_write h, putFile_of_lookup hfile]

theorem exists_write (hf : f.IsTree) (hfile : (f.find? path).isSome = true) (text : String) :
    ∃ g, f.write path text = .ok g ∧ g.IsTree := by
  have hmem : FilePath.normal path ∈ f.files.map (·.1) := by
    by_contra h
    rw [find?_eq_none_iff.mpr h] at hfile
    cases hfile
  obtain ⟨file, hin, hpath⟩ := List.mem_map.mp hmem
  obtain ⟨hfolder, hfolders⟩ := hf file hin
  rw [hpath] at hfolder hfolders
  refine ⟨⟨putFile f.files (FilePath.normal path) text⟩, ?_, isTree_congr (keys_putFile hmem text).symm hf⟩
  rw [write, hfolder, Bool.false_or, if_neg]
  simpa using hfolders

/-! ## Loading and saving -/

theorem exists_read_of_load (h : f.load path = .ok document) : ∃ text, f.find? path = some text ∧
    (DocumentFormat.ofPath path).read none text = .ok (.object document) := by
  unfold load loadWith at h
  dsimp only at h
  split at h
  · split at h <;> cases h
  · rename_i text htext
    refine ⟨text, htext, ?_⟩
    split at h
    · cases h
    · cases h
    · rename_i entries hread
      obtain rfl := Except.ok.inj h
      exact hread
    · cases h

theorem isData_of_load (hjson : DocumentFormat.ofPath path = .json) (h : f.load path = .ok document) :
    (f.find? path).isSome = true ∧ (Value.object document).IsData := by
  obtain ⟨text, htext, hread⟩ := exists_read_of_load h
  rw [hjson] at hread
  exact ⟨by rw [htext]; rfl, DocumentFormat.isData_of_read_json hread⟩

theorem loadMarked_of_load (h : f.load path = .ok document) : f.loadMarked path = .ok (document, none) := by
  rw [loadMarked, h]
  rfl

theorem load_of_find? (hjson : DocumentFormat.ofPath path = .json) (hdocument : (Value.object document).IsData)
    (hfile : f.find? path = some (DocumentFormat.json.write (.object document))) : f.load path = .ok document := by
  rw [load, loadWith, hfile]
  dsimp only
  rw [hjson, DocumentFormat.read_write_json hdocument]

theorem load_of_save (hjson : DocumentFormat.ofPath path = .json) (hdocument : (Value.object document).IsData)
    (h : f.save path (.object document) = .ok g) : g.load path = .ok document := by
  have hfile := find?_write h
  rw [hjson] at hfile
  exact load_of_find? hjson hdocument hfile

theorem eq_of_save {v : Value} {g' : Folder} (h : f.save path v = .ok g) (h' : g.save path v = .ok g') : g' = g := by
  unfold save at h h'
  exact eq_of_write h' (find?_write h)

end Folder

end Pagewright
