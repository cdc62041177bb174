import Pagewright.Number.Decimal
import Pagewright.Text.Quoted
import Pagewright.Value

/-!
# Writing JSON

Documents are written on one line (`compact`) or one item a line (`indented`), keys in their order,
characters beyond ASCII as themselves or as escapes. Doubles are written so that they read back
exactly; the non-finite ones as `NaN`, `Infinity` and `-Infinity`.
-/

namespace Pagewright.Json

open Pagewright.Text (hex)

/-- How characters beyond ASCII are written. -/
inductive Charset where
  | ascii
  | unicode
  deriving DecidableEq

/-- A sixteen-bit escape. -/
def unitEscape (n : Nat) : List Char := '\\' :: 'u' :: hex 4 n

/-- A character beyond ASCII as one escape, or as two when it needs a surrogate pair. -/
def wideEscape (n : Nat) : List Char :=
  if n < 0x10000 then unitEscape n
  else
    let m := n - 0x10000
    unitEscape (0xD800 + m / 0x400) ++ unitEscape (0xDC00 + m % 0x400)

/-- One character of a string. -/
def escapedChar (charset : Charset) (c : Char) : List Char :=
  if c == '"' then ['\\', '"']
  else if c == '\\' then ['\\', '\\']
  else if c == '\n' then ['\\', 'n']
  else if c == '\r' then ['\\', 'r']
  else if c == '\t' then ['\\', 't']
  else if c == '\x08' then ['\\', 'b']
  else if c == '\x0c' then ['\\', 'f']
  else if c.toNat < 32 then unitEscape c.toNat
  else if c.toNat < 127 then [c]
  else match charset with
    | .ascii => wideEscape c.toNat
    | .unicode => [c]

/-- A string in double quotes. -/
def stringChars (charset : Charset) (s : String) : List Char :=
  '"' :: s.toList.flatMap (escapedChar charset) ++ ['"']

/-- A double as a number, or as the word for a value that has no numeral. -/
def floatChars (x : Float) : List Char :=
  match Binary64.decode x with
  | .nan => "NaN".toList
  | .infinite negative => (if negative then "-Infinity" else "Infinity").toList
  | .finite _ => (Binary64.text x).toList

/-- A value without items. Dates and moments become strings. -/
def leafChars (charset : Charset) : Value → List Char
  | .null => "null".toList
  | .bool b => (if b then "true" else "false").toList
  | .int n => (toString n).toList
  | .float x => floatChars x
  | .text s => stringChars charset s
  | .date d => stringChars charset d.iso
  | .moment t => stringChars charset (t.isoWith ' ')
  | .list _ => []
  | .object _ => []

mutual

/-- A value on one line, with a space after commas and colons. -/
def compactChars (charset : Charset) : Value → List Char
  | .list items => '[' :: compactItems charset items ++ [']']
  | .object entries => '\x7b' :: compactEntries charset entries ++ ['\x7d']
  | v => leafChars charset v

/-- The items of a list on one line. -/
def compactItems (charset : Charset) : List Value → List Char
  | [] => []
  | [v] => compactChars charset v
  | v :: rest => compactChars charset v ++ ',' :: ' ' :: compactItems charset rest

/-- The entries of an object on one line. -/
def compactEntries (charset : Charset) : List (String × Value) → List Char
  | [] => []
  | [(k, v)] => stringChars charset k ++ ':' :: ' ' :: compactChars charset v
  | (k, v) :: rest =>
    stringChars charset k ++ ':' :: ' ' :: compactChars charset v ++
      ',' :: ' ' :: compactEntries charset rest

end

/-- A new line, indented by two spaces for each level. -/
def newLine (level : Nat) : List Char := '\n' :: List.replicate (2 * level) ' '

mutual

/-- A value with one item a line, nested `level` deep. -/
def indentedChars (charset : Charset) (level : Nat) : Value → List Char
  | .list [] => ['[', ']']
  | .list items => '[' :: indentedItems charset (level + 1) items ++ newLine level ++ [']']
  | .object [] => ['\x7b', '\x7d']
  | .object entries =>
    '\x7b' :: indentedEntries charset (level + 1) entries ++ newLine level ++ ['\x7d']
  | v => leafChars charset v

/-- The items of a list, each on its line. -/
def indentedItems (charset : Charset) (level : Nat) : List Value → List Char
  | [] => []
  | [v] => newLine level ++ indentedChars charset level v
  | v :: rest =>
    newLine level ++ indentedChars charset level v ++ ',' :: indentedItems charset level rest

/-- The entries of an object, each on its line. -/
def indentedEntries (charset : Charset) (level : Nat) : List (String × Value) → List Char
  | [] => []
  | [(k, v)] =>
    newLine level ++ stringChars charset k ++ ':' :: ' ' :: indentedChars charset level v
  | (k, v) :: rest =>
    newLine level ++ stringChars charset k ++ ':' :: ' ' :: indentedChars charset level v ++
      ',' :: indentedEntries charset level rest

end

/-- An item behind what stands in front of it: in one piece with it unless it has pieces of its own. -/
def leadPieces (lead : List Char) (v : Value) (pieces : List (List Char)) : List (List Char) :=
  if v.isContainer then lead :: pieces else [lead ++ pieces.flatten]

mutual

/-- The pieces in which a value is written with one item a line. A string is never divided. -/
def linePieces (charset : Charset) (level : Nat) : Value → List (List Char)
  | .list [] => [['[', ']']]
  | .list items => itemPieces charset (level + 1) '[' items ++ [newLine level, [']']]
  | .object [] => [['\x7b', '\x7d']]
  | .object entries =>
    ['\x7b'] :: entryPieces charset (level + 1) [] entries ++ [newLine level, ['\x7d']]
  | v => [leafChars charset v]

/-- The pieces of the items of a list, the first of which stands behind `mark`. -/
def itemPieces (charset : Charset) (level : Nat) (mark : Char) : List Value → List (List Char)
  | [] => []
  | v :: rest =>
    leadPieces (mark :: newLine level) v (linePieces charset level v) ++ itemPieces charset level ',' rest

/-- The pieces of the entries of an object, the first of which stands behind `lead`. -/
def entryPieces (charset : Charset) (level : Nat) (lead : List Char) : List (String × Value) → List (List Char)
  | [] => []
  | (k, v) :: rest =>
    (lead ++ newLine level) :: stringChars charset k :: [':', ' '] :: linePieces charset level v ++
      entryPieces charset level [','] rest

end

/-- A value on one line, in ASCII. -/
def compact (v : Value) : String := String.ofList (compactChars .ascii v)

/-- A value with one item a line. -/
def indented (charset : Charset) (v : Value) : String := String.ofList (indentedChars charset 0 v)

mutual

/-- Whether a value can stand in a document: dates and moments cannot. -/
def isDocument : Value → Bool
  | .date _ => false
  | .moment _ => false
  | .list items => areDocuments items
  | .object entries => haveDocuments entries
  | _ => true

/-- Whether all items can stand in a document. -/
def areDocuments : List Value → Bool
  | [] => true
  | v :: rest => isDocument v && areDocuments rest

/-- Whether the values of all entries can stand in a document. -/
def haveDocuments : List (String × Value) → Bool
  | [] => true
  | (_, v) :: rest => isDocument v && haveDocuments rest

end

end Pagewright.Json
