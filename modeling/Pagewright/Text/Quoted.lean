import Pagewright.Number.Decimal
import Pagewright.Text.Class
import Pagewright.Value

/-!
# Displayed and quoted values

`Value.display` is the text of a value in messages; inside lists and objects, and wherever a message
quotes a value, `Value.quoted` is used. A quoted text stands in single quotes, or in double quotes
when it holds a single quote and no double quote; what has no printed form is escaped.
-/

namespace Pagewright

namespace Text

/-- A hexadecimal numeral with zeros in front up to `size` digits. -/
def hex (size n : Nat) : List Char :=
  let ds := Nat.toDigits 16 n
  List.replicate (size - ds.length) '0' ++ ds

/-- One character of a text quoted with `quote`. -/
def quotedChar (quote : Char) (c : Char) : List Char :=
  if c == quote || c == '\\' then ['\\', c]
  else if c == '\n' then ['\\', 'n']
  else if c == '\r' then ['\\', 'r']
  else if c == '\t' then ['\\', 't']
  else if isPrintable c then [c]
  else
    let n := c.toNat
    if n < 256 then '\\' :: 'x' :: hex 2 n
    else if n < 65536 then '\\' :: 'u' :: hex 4 n
    else '\\' :: 'U' :: hex 8 n

/-- The quote that a text is put in. -/
def quoteFor (s : List Char) : Char :=
  if s.contains '\'' && !s.contains '"' then '"' else '\''

/-- A text in quotes. -/
def quotedChars (s : List Char) : List Char :=
  let quote := quoteFor s
  quote :: s.flatMap (quotedChar quote) ++ [quote]

/-- A text in quotes. -/
def quoted (s : String) : String := String.ofList (quotedChars s.toList)

/-- Texts in quotes, as a bracketed list. -/
def quotedList (ss : List String) : String := "[" ++ ", ".intercalate (ss.map quoted) ++ "]"

end Text

namespace DateTime

/-- The parts of a moment, without zero seconds at the end. -/
def quotedParts (t : DateTime) : List Nat :=
  [t.date.year, t.date.month, t.date.day, t.hour, t.minute] ++
    (if t.microsecond ≠ 0 then [t.second, t.microsecond]
     else if t.second ≠ 0 then [t.second] else [])

end DateTime

namespace Value

/-- Parts of a date or moment in round brackets. -/
def call (name : String) (parts : List Nat) : String :=
  name ++ "(" ++ ", ".intercalate (parts.map toString) ++ ")"

mutual

/-- A value as messages quote it. -/
def quoted : Value → String
  | null => "None"
  | bool b => if b then "True" else "False"
  | int n => toString n
  | float x => Binary64.text x
  | text s => Text.quoted s
  | list items => "[" ++ ", ".intercalate (quotedItems items) ++ "]"
  | object entries => "\x7b" ++ ", ".intercalate (quotedEntries entries) ++ "\x7d"
  | date d => call "datetime.date" [d.year, d.month, d.day]
  | moment t => call "datetime.datetime" t.quotedParts

/-- The items of a list, each quoted. -/
def quotedItems : List Value → List String
  | [] => []
  | v :: rest => quoted v :: quotedItems rest

/-- The entries of an object, each quoted as key and value. -/
def quotedEntries : List (String × Value) → List String
  | [] => []
  | (k, v) :: rest => (Text.quoted k ++ ": " ++ quoted v) :: quotedEntries rest

end

/-- A value as messages show it: a text is itself, anything else is quoted. -/
def display : Value → String
  | text s => s
  | date d => d.iso
  | moment t => t.isoWith ' '
  | v => quoted v

end Value

end Pagewright
