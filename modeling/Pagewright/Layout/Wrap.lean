import Pagewright.Layout.Chunks
import Pagewright.Number.Binary64
import Pagewright.Failure
import Pagewright.Text.Scan

/-!
# Wrapping text

Text is broken into lines of at most a number of characters. Paragraphs, between blank lines, are
wrapped one by one and set apart by an empty line; inside a paragraph, words are set with single spaces,
as many to a line as fit. A word that is too long is cut where it starts a line.
-/

namespace Pagewright.Wrap

open Pagewright.Text

/-- The number of characters in a line break that ends a paragraph, behind its first line break: the
blanks up to and with the last line break among them. -/
def breakLength (rest : List Char) : Nat :=
  let blanks := rest.takeWhile isBlank
  (blanks.reverse.dropWhile (· != '\n')).length

/-- The paragraphs of a text; `read` holds the current one, last character first, and `skip` counts
what is left of a break. -/
def paragraphsFrom (read : List Char) : Nat → List Char → List (List Char)
  | _, [] => [read.reverse]
  | skip + 1, _ :: rest => paragraphsFrom read skip rest
  | 0, c :: rest =>
    if c == '\n' && breakLength rest > 0 then
      read.reverse :: paragraphsFrom [] (breakLength rest) rest
    else paragraphsFrom (c :: read) 0 rest

/-- The paragraphs of a text. -/
def paragraphs (s : List Char) : List (List Char) := paragraphsFrom [] 0 s

/-- The words of a paragraph; `word` holds the current one, last character first. -/
def wordsFrom (word : List Char) : List Char → List (List Char)
  | [] => if word.isEmpty then [] else [word.reverse]
  | c :: rest =>
    if isBlank c then
      if word.isEmpty then wordsFrom [] rest else word.reverse :: wordsFrom [] rest
    else wordsFrom (c :: word) rest

/-- The words of a paragraph. -/
def words (s : List Char) : List (List Char) := wordsFrom [] s

/-- Set words into lines of at most `limit` characters, `line` being the current one. -/
def setWords (limit : Nat) (line : List Char) : List (List Char) → List (List Char)
  | [] => if line.isEmpty then [] else [line]
  | word :: rest =>
    if line.isEmpty then
      if word.length > limit then chunks limit word ++ setWords limit [] rest
      else setWords limit word rest
    else if line.length + word.length + 1 ≤ limit then
      setWords limit (line ++ ' ' :: word) rest
    else line :: setWords limit word rest

/-- The lines of a paragraph. -/
def paragraphLines (limit : Nat) (s : List Char) : List (List Char) := setWords limit [] (words s)

/-- Blocks of lines with an empty line between them. -/
def withGaps : List (List (List Char)) → List (List Char)
  | [] => []
  | [block] => block
  | block :: rest => block ++ [] :: withGaps rest

/-- The lines of a text. -/
def lines (limit : Nat) (s : List Char) : List (List Char) :=
  if s.isEmpty then [] else withGaps ((paragraphs s).map (paragraphLines limit))

/-- The number of characters that a width in characters stands for, at least one. -/
def limitOf (width : Float) : Outcome Nat :=
  match Binary64.floor? width with
  | some n => .ok (max 1 n.toNat)
  | none => undefinedOn .notFinite

/-- The lines of a text in a width. A text without characters has none, whatever the width. -/
def linesIn (width : Float) (text : String) : Outcome (List String) :=
  if text.isEmpty then .ok []
  else do return (lines (← limitOf width) text.toList).map String.ofList

end Pagewright.Wrap
