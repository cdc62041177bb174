import Pagewright.Failure
import Pagewright.File.Path

/-!
# Folders of text files

The files below a folder, by the normal forms of their paths. A folder in it exists as soon as a file
is below it. After a write the file holds what was written (`find?_write`).
-/

namespace Pagewright

/-- Files and their texts. -/
structure Folder where
  files : List (String × String) := []
  deriving Repr, Inhabited, DecidableEq

namespace Folder

/-- The text of a file. -/
def find? (f : Folder) (path : String) : Option String := f.files.lookup (FilePath.normal path)

/-- Whether a path is that of a folder. -/
def isFolder (f : Folder) (path : String) : Bool :=
  let path := FilePath.normal path
  path == "." || f.files.any fun file => (FilePath.folders file.1).contains path

/-- Whether there is a file or folder with a path. -/
def has (f : Folder) (path : String) : Bool := (f.find? path).isSome || f.isFolder path

/-- Files with the text of one of them replaced, or with one more at the end. -/
def putFile : List (String × String) → String → String → List (String × String)
  | [], path, text => [(path, text)]
  | (p, t) :: rest, path, text =>
    if p == path then (p, text) :: rest else (p, t) :: putFile rest path text

/-- Write a file, and the folders it is in where there are none. -/
def write (f : Folder) (path text : String) : Outcome Folder :=
  let path := FilePath.normal path
  if f.isFolder path || (FilePath.folders path).any fun p => (f.find? p).isSome then
    undefinedOn (.notAFile path)
  else .ok ⟨putFile f.files path text⟩

theorem lookup_putFile (files : List (String × String)) (path text : String) :
    (putFile files path text).lookup path = some text := by
  induction files with
  | nil => simp [putFile]
  | cons file rest ih =>
    obtain ⟨p, t⟩ := file
    by_cases h : p = path
    · simp [putFile, h]
    · have h' : (path == p) = false := by simpa using fun e => h e.symm
      simp [putFile, h, List.lookup_cons, h', ih]

/-- What a write puts into a file is found there. -/
theorem find?_write {f g : Folder} {path text : String} (h : f.write path text = .ok g) :
    g.find? path = some text := by
  simp only [write] at h
  split at h
  · cases h
  · cases h
    exact lookup_putFile _ _ _

end Folder

end Pagewright
