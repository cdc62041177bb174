import Pagewright.Text.Class

/-!
# Cutting and joining texts

Trimming, splitting at a separator and replacing a fragment, on lists of characters. Matches are
taken from the left and do not overlap.
-/

namespace Pagewright.Text

/-- A text without the blanks at its start. -/
def trimStart (s : List Char) : List Char := s.dropWhile isBlank

/-- A text without the blanks at its end. -/
def trimEnd (s : List Char) : List Char := (s.reverse.dropWhile isBlank).reverse

/-- A text without the blanks at its ends. -/
def trim (s : List Char) : List Char := trimEnd (trimStart s)

/-- The pieces of a text between the occurrences of `sep`; `piece` holds the current piece, last
character first, and `skip` what is left of a separator. -/
def splitFrom (sep : List Char) (piece : List Char) : Nat → List Char → List (List Char)
  | _, [] => [piece.reverse]
  | skip + 1, _ :: rest => splitFrom sep piece skip rest
  | 0, c :: rest =>
    if sep.isPrefixOf (c :: rest) then piece.reverse :: splitFrom sep [] (sep.length - 1) rest
    else splitFrom sep (c :: piece) 0 rest

/-- The pieces of a text between the occurrences of a separator. -/
def splitOn (sep s : List Char) : List (List Char) := splitFrom sep [] 0 s

/-- Replacement of every occurrence of `old`, where `skip` characters belong to one already
replaced. -/
def replaceFrom (old new : List Char) : Nat → List Char → List Char
  | _, [] => []
  | skip + 1, _ :: rest => replaceFrom old new skip rest
  | 0, c :: rest =>
    if old.isPrefixOf (c :: rest) then new ++ replaceFrom old new (old.length - 1) rest
    else c :: replaceFrom old new 0 rest

/-- A text with every occurrence of `old` replaced. -/
def replace (old new s : List Char) : List Char := replaceFrom old new 0 s

/-- Texts with a separator between them. -/
def join (sep : List Char) : List (List Char) → List Char
  | [] => []
  | [s] => s
  | s :: rest => s ++ sep ++ join sep rest

/-- Spaces on the right up to a width. -/
def padRight (width : Nat) (s : List Char) : List Char := s ++ List.replicate (width - s.length) ' '

/-- A text with every line break in its short form. -/
def unifyBreaks (s : List Char) : List Char := replace ['\r'] ['\n'] (replace ['\r', '\n'] ['\n'] s)

/-- A text without the blanks at its ends. -/
def trimmed (s : String) : String := String.ofList (trim s.toList)

/-- Whether a text has nothing but blanks. -/
def isBlankText (s : String) : Bool := s.toList.all isBlank

end Pagewright.Text
