import Mathlib.Data.List.Infix
import Mathlib.Data.List.Nodup
import Mathlib.Data.List.Perm.Subperm
import Pagewright.Store.Disk
import Std.Data.String.ToNat

/-!
# Files under their paths

Laws of look-up and of the names in a folder for a file that is put under a path (`Disk.find?_put`,
`Disk.names_put`). A path tells the folder and the name of a file, if the name has no slash in it
(`Disk.inFolder_inj`), so files of other folders are not met.

Saving goes by way of a temporary file. Its path is one that no file has (`Disk.find?_temporaryPath`), so
nothing else is lost, and the file is gone afterwards: saving is putting (`Disk.apply_save`).
-/

namespace Pagewright.Disk

variable {d : Disk} {path other folder folder' name name' : String} {contents : Contents}

/-! ## Paths -/

/-- A text that can be the name of a file in a folder. -/
def IsName (name : String) : Prop := '/' ∉ name.toList

theorem toList_inFolder (folder name : String) :
    (inFolder folder name).toList = folder.toList ++ '/' :: name.toList := by
  simp [inFolder]

/-- What stands behind the last slash is the name. -/
theorem append_slash_inj {a b c d : List Char} (hb : '/' ∉ b) (hd : '/' ∉ d)
    (h : a ++ '/' :: b = c ++ '/' :: d) : a = c ∧ b = d := by
  rcases List.append_eq_append_iff.mp h with ⟨e, rfl, he⟩ | ⟨e, rfl, he⟩
  · cases e with
    | nil => simpa using he
    | cons x e =>
      obtain ⟨-, rfl⟩ := List.cons.inj he
      exact absurd (by simp) hb
  · cases e with
    | nil => simpa using he.symm
    | cons x e =>
      obtain ⟨-, rfl⟩ := List.cons.inj he
      exact absurd (by simp) hd

theorem inFolder_inj (hname : IsName name) (hname' : IsName name') :
    inFolder folder name = inFolder folder' name' ↔ folder = folder' ∧ name = name' := by
  constructor
  · intro h
    have hlist := congrArg String.toList h
    rw [toList_inFolder, toList_inFolder] at hlist
    obtain ⟨hfolder, hrest⟩ := append_slash_inj hname hname' hlist
    exact ⟨String.toList_inj.mp hfolder, String.toList_inj.mp hrest⟩
  · rintro ⟨rfl, rfl⟩
    rfl

theorem nameIn?_inFolder (hname : IsName name) :
    nameIn? folder (inFolder folder name) = some name := by
  have hahead : (folder ++ "/").toList.isPrefixOf? (inFolder folder name).toList =
      some name.toList := by
    rw [List.isPrefixOf?_eq_some_iff_append_eq, toList_inFolder]
    simp
  have hslash : name.toList.contains '/' = false := by
    unfold IsName at hname
    simpa using hname
  rw [nameIn?, hahead]
  simp only [hslash, Bool.false_eq_true, if_false, String.ofList_toList]

theorem nameIn?_of_ne (hname : IsName name) (h : folder' ≠ folder) :
    nameIn? folder' (inFolder folder name) = none := by
  unfold nameIn?
  split
  · rename_i rest hahead
    rw [List.isPrefixOf?_eq_some_iff_append_eq] at hahead
    by_cases hslash : '/' ∈ rest
    · simp [hslash]
    · have hpath : folder'.toList ++ '/' :: rest = folder.toList ++ '/' :: name.toList := by
        rw [← toList_inFolder, ← hahead]
        simp
      exact absurd (String.toList_inj.mp (append_slash_inj hslash hname hpath).1) h
  · rfl

/-! ## Looking up -/

theorem lookup_cons_eq (p : String) (c : Contents) (files : List (String × Contents)) (other : String) :
    ((p, c) :: files).lookup other = if other = p then some c else files.lookup other := by
  by_cases h : other = p
  · simp [h]
  · have hne : (other == p) = false := beq_eq_false_iff_ne.mpr h
    rw [List.lookup_cons, hne, if_neg h]

theorem lookup_putFile (files : List (String × Contents)) (path : String) (contents : Contents)
    (other : String) :
    (putFile files path contents).lookup other =
      if other = path then some contents else files.lookup other := by
  induction files with
  | nil => rw [putFile, lookup_cons_eq]
  | cons f files ih =>
    obtain ⟨p, c⟩ := f
    by_cases hp : p = path
    · simp only [putFile, hp, beq_self_eq_true, if_true, lookup_cons_eq]
      split <;> rfl
    · have hne : (p == path) = false := beq_eq_false_iff_ne.mpr hp
      simp only [putFile, hne, Bool.false_eq_true, if_false, lookup_cons_eq, ih]
      by_cases hother : other = p
      · have hpath : other ≠ path := fun heq => hp (hother.symm.trans heq)
        rw [if_pos hother, if_neg hpath, if_pos hother]
      · rw [if_neg hother, if_neg hother]

theorem find?_put (d : Disk) (path : String) (contents : Contents) (other : String) :
    (d.put path contents).find? other = if other = path then some contents else d.find? other :=
  lookup_putFile d.files path contents other

@[simp] theorem find?_put_self (d : Disk) (path : String) (contents : Contents) :
    (d.put path contents).find? path = some contents := by
  rw [find?_put, if_pos rfl]

theorem find?_put_of_ne (h : other ≠ path) (d : Disk) (contents : Contents) :
    (d.put path contents).find? other = d.find? other := by
  rw [find?_put, if_neg h]

theorem find?_eq_none_iff : d.find? path = none ↔ ∀ f ∈ d.files, f.1 ≠ path := by
  unfold find?
  rw [List.lookup_eq_none_iff]
  simp only [bne_iff_ne]
  exact forall₂_congr fun f _ => ne_comm

theorem find?_congr {d' : Disk} (h : d'.files = d.files) (path : String) : d'.find? path = d.find? path :=
  congrArg (List.lookup path) h

theorem names_congr {d' : Disk} (h : d'.files = d.files) (folder : String) :
    d'.names folder = d.names folder :=
  congrArg (List.filterMap fun f : String × Contents => nameIn? folder f.1) h

/-! ## Putting -/

theorem putFile_eq_append {files : List (String × Contents)} (h : ∀ f ∈ files, f.1 ≠ path)
    (contents : Contents) : putFile files path contents = files ++ [(path, contents)] := by
  induction files with
  | nil => rfl
  | cons f files ih =>
    obtain ⟨p, c⟩ := f
    have hne : (p == path) = false := beq_eq_false_iff_ne.mpr (h (p, c) (by simp))
    rw [putFile, hne, if_neg (by simp), ih fun f hf => h f (List.mem_cons_of_mem _ hf)]
    rfl

theorem files_put_of_find?_eq_none (h : d.find? path = none) (contents : Contents) :
    (d.put path contents).files = d.files ++ [(path, contents)] :=
  putFile_eq_append (find?_eq_none_iff.mp h) contents

theorem putFile_putFile (files : List (String × Contents)) (path : String) (old new : Contents) :
    putFile (putFile files path old) path new = putFile files path new := by
  induction files with
  | nil => simp [putFile]
  | cons f files ih =>
    obtain ⟨p, c⟩ := f
    by_cases hp : p = path
    · simp [putFile, hp]
    · simp [putFile, hp, ih]

theorem put_put (d : Disk) (path : String) (old new : Contents) :
    (d.put path old).put path new = d.put path new := by
  rw [put, put, putFile_putFile]
  rfl

theorem map_fst_putFile_of_mem {files : List (String × Contents)} (h : path ∈ files.map Prod.fst)
    (contents : Contents) : (putFile files path contents).map Prod.fst = files.map Prod.fst := by
  induction files with
  | nil => simp at h
  | cons f files ih =>
    obtain ⟨p, c⟩ := f
    by_cases hp : p = path
    · simp [putFile, hp]
    · have hrest : path ∈ files.map Prod.fst := by
        rcases List.mem_cons.mp h with rfl | h
        · exact absurd rfl hp
        · exact h
      simp [putFile, hp, ih hrest]

theorem names_eq (d : Disk) (folder : String) :
    d.names folder = (d.files.map Prod.fst).filterMap (nameIn? folder) := by
  rw [names, List.filterMap_map]
  rfl

theorem mem_map_fst_iff : path ∈ d.files.map Prod.fst ↔ d.find? path ≠ none := by
  rw [Ne, find?_eq_none_iff]
  simp

theorem names_put_of_find?_eq_none (hname : IsName name) (h : d.find? (inFolder folder name) = none)
    (contents : Contents) :
    (d.put (inFolder folder name) contents).names folder = d.names folder ++ [name] := by
  rw [names_eq, files_put_of_find?_eq_none h, List.map_append, List.filterMap_append, ← names_eq]
  simp [nameIn?_inFolder hname]

theorem names_put_of_find?_ne_none (h : d.find? path ≠ none) (contents : Contents) (folder : String) :
    (d.put path contents).names folder = d.names folder := by
  rw [names_eq, put, map_fst_putFile_of_mem (mem_map_fst_iff.mpr h), ← names_eq]

theorem names_put_of_ne (hname : IsName name) (hfolder : folder' ≠ folder) (d : Disk)
    (contents : Contents) : (d.put (inFolder folder name) contents).names folder' = d.names folder' := by
  by_cases h : d.find? (inFolder folder name) = none
  · rw [names_eq, files_put_of_find?_eq_none h, List.map_append, List.filterMap_append, ← names_eq]
    simp [nameIn?_of_ne hname hfolder]
  · exact names_put_of_find?_ne_none h contents folder'

theorem mem_names_of_find?_ne_none (hname : IsName name) (h : d.find? (inFolder folder name) ≠ none) :
    name ∈ d.names folder := by
  rw [names_eq, List.mem_filterMap]
  exact ⟨_, mem_map_fst_iff.mpr h, nameIn?_inFolder hname⟩

/-! ## Saving -/

theorem temporaryName_injective : Function.Injective temporaryName := by
  intro m n h
  have htext : toString m = toString n := by
    simpa only [temporaryName, String.append_left_inj, String.append_right_inj] using h
  exact Nat.repr_inj.mp htext

/-- Of more paths than there are files, one has no file. -/
theorem find?_temporaryPath (d : Disk) (folder : String) : d.find? (d.temporaryPath folder) = none := by
  unfold temporaryPath
  simp only
  generalize hpaths : (List.range (d.files.length + 1)).map
    (fun n => inFolder folder (temporaryName n)) = paths
  have hnodup : paths.Nodup := by
    rw [← hpaths]
    refine List.Nodup.map (fun m n h => temporaryName_injective ?_) List.nodup_range
    simpa only [inFolder, String.append_right_inj] using h
  cases hfound : paths.find? fun path => (d.find? path).isNone with
  | some path =>
    rw [Option.getD_some]
    simpa using List.find?_some hfound
  | none =>
    have hsubset : paths ⊆ d.files.map Prod.fst := by
      intro path hpath
      rw [mem_map_fst_iff]
      simpa using List.find?_eq_none.mp hfound path hpath
    have hle := (List.subperm_of_subset hnodup hsubset).length_le
    rw [← hpaths] at hle
    simp only [List.length_map, List.length_range] at hle
    omega

theorem remove_append_of_find?_eq_none (h : d.find? path = none) (contents : Contents) :
    (d.files ++ [(path, contents)]).filter (fun f => f.1 != path) = d.files := by
  rw [find?_eq_none_iff] at h
  rw [List.filter_append, List.filter_eq_self.mpr fun f hf => by simpa using h f hf]
  simp

/-- A document that is written to a temporary file which then gets its path is put under that path. -/
theorem apply_save (h : d.find? path = none) (target : String) (v : Value) :
    ((d.put path (.text "")).apply (.write path v)).apply (.replace path target) =
      d.put target (.document v) := by
  have hwrite : (d.put path (.text "")).apply (.write path v) = d.put path (.document v) :=
    put_put d path _ _
  rw [hwrite, apply, find?_put_self]
  simp only [remove, files_put_of_find?_eq_none h, remove_append_of_find?_eq_none h]
  rfl

end Pagewright.Disk
