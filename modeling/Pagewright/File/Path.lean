import Pagewright.Text.Scan

/-!
# Paths of files

A path is a row of names with slashes between them. Empty names and single points say nothing and are
left out of its normal form.
-/

namespace Pagewright.FilePath

open Pagewright

/-- The names that a path consists of. -/
def parts (path : String) : List String :=
  ((Text.splitOn ['/'] path.toList).map String.ofList).filter fun part => part != "" && part != "."

/-- Whether a path starts at the root. -/
def isAbsolute (path : String) : Bool := path.toList.head? == some '/'

/-- A path from its names. -/
def ofParts (absolute : Bool) (names : List String) : String :=
  if absolute then "/" ++ "/".intercalate names
  else if names.isEmpty then "."
  else "/".intercalate names

/-- The normal form of a path. -/
def normal (path : String) : String := ofParts (isAbsolute path) (parts path)

/-- The last name of a path. -/
def name (path : String) : String := (parts path).getLast?.getD ""

/-- The ending of a name from its last point on, unless the point comes first or last. -/
def suffix (path : String) : String :=
  let name := (name path).toList
  let ending := (name.reverse.takeWhile (· != '.')).reverse
  if ending.isEmpty || ending.length + 1 ≥ name.length then "" else String.ofList ('.' :: ending)

/-- The paths of the folders that a path goes through. -/
def folders (path : String) : List String :=
  let names := parts path
  (List.range (names.length - 1)).map fun n => ofParts (isAbsolute path) (names.take (n + 1))

/-- Names without those that lead back up; `kept` are the names so far, last first. -/
def climb (kept : List String) : List String → List String
  | [] => kept.reverse
  | part :: rest => if part == ".." then climb kept.tail rest else climb (part :: kept) rest

/-- The path of a file as seen from a folder. -/
def resolve (folder path : String) : String :=
  let names := if isAbsolute path then parts path else parts folder ++ parts path
  ofParts (isAbsolute folder || isAbsolute path) (climb [] names)

end Pagewright.FilePath
