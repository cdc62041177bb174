import Pagewright.Text.Class
import Pagewright.Text.Table.LowerCase
import Pagewright.Text.Table.UpperCase

/-!
# Case mapping

Full upper and lower case of a text. A character may become several (`ß` is `SS` in upper case), and
a capital sigma is written in its final form at the end of a word.
-/

namespace Pagewright.Text

/-- The shift of the run that holds a code point. -/
def shiftOf? (runs : List (Nat × Nat × Nat × Int)) (n : Nat) : Option Int :=
  (runs.find? fun (first, last, step, _) => first ≤ n && n ≤ last && (n - first) % step == 0).map
    fun (_, _, _, shift) => shift

/-- Mapping by a table of runs and a table of longer images. -/
def mapCase (runs : List (Nat × Nat × Nat × Int)) (long : List (Nat × List Nat)) (c : Char) :
    List Char :=
  match long.lookup c.toNat with
  | some image => image.map Char.ofNat
  | none =>
    match shiftOf? runs c.toNat with
    | some shift => [Char.ofNat (c.toNat + shift).toNat]
    | none => [c]

/-- Upper case of one character. -/
def upperChar (c : Char) : List Char :=
  if c.toNat < 128 then [c.toUpper] else mapCase Table.upperRuns Table.upperLong c

/-- Lower case of one character, a sigma in its medial form. -/
def lowerChar (c : Char) : List Char :=
  if c.toNat < 128 then [c.toLower] else mapCase Table.lowerRuns Table.lowerLong c

/-- Upper case of a text. -/
def upper (s : List Char) : List Char := s.flatMap upperChar

/-- Whether the nearest character that counts, going along `s`, has a case. -/
def meetsCased (s : List Char) : Bool :=
  match s.dropWhile fun c => inRanges Table.caseIgnorable c.toNat with
  | c :: _ => inRanges Table.cased c.toNat
  | [] => false

/-- Lower case of `s`, where `before` holds the characters in front of it, nearest first. -/
def lowerFrom (before : List Char) : List Char → List Char
  | [] => []
  | c :: rest =>
    (if c == 'Σ' then (if meetsCased before && !meetsCased rest then ['ς'] else ['σ'])
     else lowerChar c) ++ lowerFrom (c :: before) rest

/-- Lower case of a text. -/
def lower (s : List Char) : List Char := lowerFrom [] s

/-- Capitalise each letter of `s` that does not follow a word character; `afterWord` tells whether
the character before `s`, capitalised as it now is, was one. -/
def capitalizeFrom (afterWord : Bool) : List Char → List Char
  | [] => []
  | c :: rest =>
    let image := if isLetter c && !afterWord then upperChar c else [c]
    image ++ capitalizeFrom (image.all isAlphanumeric || image == ['_']) rest

/-- Lower case, then a capital at the start of each word. -/
def title (s : List Char) : List Char := capitalizeFrom false (lower s)

end Pagewright.Text
