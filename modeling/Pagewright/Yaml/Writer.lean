import Pagewright.Text.Quoted
import Pagewright.Yaml.Reader

/-!
# Writing YAML

A value is written as a block of lines: one entry or item a line, mappings in mappings two columns to
the right, sequences in the column of their key. A text is written without quotes where it would be
read back as itself.
-/

namespace Pagewright.Yaml

open Pagewright

/-- A character that may stand in a scalar without an escape. -/
def isPlainChar (c : Char) : Bool := Text.isPrintable c && c != '\uFEFF'

/-- The words that are quoted, though some of them would be read as texts. -/
def guardedWords : List String := ["y", "Y", "n", "N"]

/-- Whether an unquoted scalar is read as its own text. -/
def isOwnText (s : List Char) : Bool :=
  match Plain.value s with
  | .ok (.text _) => !guardedWords.contains (String.ofList s) && (Numeral.float? s).isNone
  | _ => false

/-- Whether a text can stand without quotes. -/
def canStandPlain (s : List Char) : Bool :=
  startsPlain s && s.all isPlainChar && s.take 3 != "---".toList && s.take 3 != "...".toList &&
    plainText false [] s == (s, []) && isOwnText s

/-- A character in double quotes. -/
def escapedChar (c : Char) : List Char :=
  match (escapes.filter fun e => !(e.1 ∈ ['\t', ' ', '/'])).find? fun e => e.2 == c with
  | some (letter, _) => ['\\', letter]
  | none =>
    if isPlainChar c then [c]
    else if c.toNat < 256 then '\\' :: 'x' :: Text.hex 2 c.toNat
    else if c.toNat < 65536 then '\\' :: 'u' :: Text.hex 4 c.toNat
    else '\\' :: 'U' :: Text.hex 8 c.toNat

/-- A text as a scalar. -/
def textScalar (s : List Char) : List Char :=
  if canStandPlain s then s
  else if s.all isPlainChar then
    '\'' :: s.flatMap (fun c => if c == '\'' then ['\'', '\''] else [c]) ++ ['\'']
  else '"' :: s.flatMap escapedChar ++ ['"']

/-- A double as a scalar; one with an exponent has a point too. -/
def floatScalar (x : Float) : List Char :=
  match Binary64.decode x with
  | .nan => ".nan".toList
  | .infinite negative => (if negative then "-.inf" else ".inf").toList
  | .finite _ =>
    let s := (Binary64.text x).toList
    if s.contains '.' then s else Text.replace ['e'] ".0e".toList s

/-- A scalar, or an empty collection. -/
def scalar : Value → List Char
  | .null => "null".toList
  | .bool b => (if b then "true" else "false").toList
  | .int n => (toString n).toList
  | .float x => floatScalar x
  | .text s => textScalar s.toList
  | .list _ => "[]".toList
  | .object _ => "\x7b\x7d".toList
  | .date d => textScalar d.iso.toList
  | .moment t => textScalar (t.isoWith 'T').toList

/-- Lines with a text before the first and as many blanks before the others. -/
def hang (first : List Char) : List (List Char) → List (List Char)
  | [] => [first]
  | l :: rest => (first ++ l) :: rest.map (List.replicate first.length ' ' ++ ·)

/-- Where the value of an entry stands. -/
inductive Place where
  | beside
  | below
  | belowRight
  deriving Repr, DecidableEq

/-- The place of the value of an entry. -/
def placeOf : Value → Place
  | .list (_ :: _) => .below
  | .object (_ :: _) => .belowRight
  | _ => .beside

mutual

/-- The lines of a value. -/
def valueLines : Value → List (List Char)
  | .list (v :: rest) => itemLines (v :: rest)
  | .object (e :: rest) => entryLines (e :: rest)
  | v => [scalar v]

/-- The lines of items. -/
def itemLines : List Value → List (List Char)
  | [] => []
  | v :: rest => hang ['-', ' '] (valueLines v) ++ itemLines rest

/-- The lines of entries. -/
def entryLines : List (String × Value) → List (List Char)
  | [] => []
  | (k, v) :: rest =>
    let key := textScalar k.toList ++ [':']
    let lines := valueLines v
    (match placeOf v with
     | .beside => hang (key ++ [' ']) lines
     | .below => key :: lines
     | .belowRight => key :: lines.map ([' ', ' '] ++ ·)) ++ entryLines rest

end

/-- The text of a document. -/
def write (v : Value) : String := String.ofList ((valueLines v).flatMap (· ++ ['\n']))

end Pagewright.Yaml
