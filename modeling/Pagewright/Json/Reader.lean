import Pagewright.Number.Reader
import Pagewright.Value

/-!
# Reading JSON

A text is read into a value or into the first fault with its place. A key that is written twice keeps
its first place and its last value. A number with a point or an exponent is a double, any other a
whole number of up to 4300 digits; `NaN`, `Infinity` and `-Infinity` are read as doubles.

No text has surrogates here, and an escape can stand for half a pair. The reader stops there
(`Fault.unpairedSurrogate`): what is done with the text then is outside the model. To go on all the same
it is given a stand-in (`readWith`).

The reader works on the list of characters still to be read; a place is kept as the number of
characters after it. Each step of a nested value reads a character, so the length of the text bounds
the recursion.
-/

namespace Pagewright.Json

open Pagewright

/-- What is wrong at a place in a text. -/
inductive Fault where
  | value
  | propertyName
  | colon
  | comma
  | extraData
  | openString
  | controlCharacter
  | escape
  | unicodeEscape
  | byteOrderMark
  | longNumber
  | unpairedSurrogate
  deriving Repr, DecidableEq

/-- A fault and the number of characters that follow its place. -/
structure Stop where
  fault : Fault
  after : Nat
  deriving Repr, DecidableEq

/-- A place in a text, counted from zero, and its line and column, counted from one. -/
structure Place where
  offset : Nat
  line : Nat
  column : Nat
  deriving Repr, DecidableEq

/-- A fault and where it is. -/
structure Error where
  fault : Fault
  place : Place
  deriving Repr, DecidableEq

/-- The wording of a fault. -/
def Fault.message : Fault → String
  | value => "Expecting value"
  | propertyName => "Expecting property name enclosed in double quotes"
  | colon => "Expecting ':' delimiter"
  | comma => "Expecting ',' delimiter"
  | extraData => "Extra data"
  | openString => "Unterminated string starting at"
  | controlCharacter => "Invalid control character at"
  | escape => "Invalid \\escape"
  | unicodeEscape => "Invalid \\uXXXX escape"
  | byteOrderMark => "Unexpected UTF-8 BOM (decode using utf-8-sig)"
  | longNumber => "Exceeds the limit (4300 digits) for integer string conversion"
  | unpairedSurrogate => "Unpaired surrogate"

/-- The wording of an error. A number that is too long has no place of its own. -/
def Error.message (e : Error) : String :=
  if e.fault = .longNumber then e.fault.message
  else
    e.fault.message ++ ": line " ++ toString e.place.line ++ " column " ++ toString e.place.column ++
      " (char " ++ toString e.place.offset ++ ")"

/-- The blanks that may stand between tokens. -/
def isSpace (c : Char) : Bool := c == ' ' || c == '\t' || c == '\n' || c == '\r'

/-- A text without the blanks at its start. -/
def skip (s : List Char) : List Char := s.dropWhile isSpace

/-- The rest of a text that starts with a word. -/
def afterWord? (word : String) (s : List Char) : Option (List Char) := word.toList.isPrefixOf? s

/-- The value of a hexadecimal digit. -/
def hexValue? (c : Char) : Option Nat :=
  if c.isDigit then some (c.toNat - 48)
  else if 'a' ≤ c && c ≤ 'f' then some (c.toNat - 87)
  else if 'A' ≤ c && c ≤ 'F' then some (c.toNat - 55)
  else none

/-- Four hexadecimal digits and the rest. -/
def hexUnit? : List Char → Option (Nat × List Char)
  | a :: b :: c :: d :: rest => do
    let a ← hexValue? a
    let b ← hexValue? b
    let c ← hexValue? c
    let d ← hexValue? d
    return (((a * 16 + b) * 16 + c) * 16 + d, rest)
  | _ => none

/-- The character that a one-letter escape stands for. -/
def simpleEscape? (c : Char) : Option Char :=
  if c == '"' || c == '\\' || c == '/' then some c
  else if c == 'n' then some '\n'
  else if c == 'r' then some '\r'
  else if c == 't' then some '\t'
  else if c == 'b' then some '\x08'
  else if c == 'f' then some '\x0c'
  else none

/-- A sixteen-bit escape after its letter, with the second half of a surrogate pair; no character for a
surrogate without its other half. -/
def unicodeEscape? (s : List Char) : Option (Option Char × List Char) := do
  let (high, rest) ← hexUnit? s
  if 0xD800 ≤ high && high < 0xDC00 then
    match rest with
    | '\\' :: 'u' :: rest' =>
      match hexUnit? rest' with
      | some (low, rest'') =>
        if 0xDC00 ≤ low && low < 0xE000 then
          return (some (Char.ofNat (0x10000 + (high - 0xD800) * 0x400 + (low - 0xDC00))), rest'')
        else return (none, rest)
      | none => return (none, rest)
    | _ => return (none, rest)
  else if 0xDC00 ≤ high && high < 0xE000 then return (none, rest)
  else return (some (Char.ofNat high), rest)

/-- The characters of a string up to its closing quote, and the rest. `start` counts the characters
from the opening quote on, `read` holds what was read, last character first, and `standIn` is put in place
of a surrogate without its other half. -/
def readString (standIn : Option Char) (start : Nat) :
    Nat → List Char → List Char → Except Stop (String × List Char)
  | 0, _, _ => .error ⟨.openString, start⟩
  | _ + 1, _, [] => .error ⟨.openString, start⟩
  | fuel + 1, read, c :: rest =>
    if c == '"' then .ok (String.ofList read.reverse, rest)
    else if c == '\\' then
      match rest with
      | [] => .error ⟨.openString, start⟩
      | 'u' :: rest' =>
        match unicodeEscape? rest' with
        | none => .error ⟨.unicodeEscape, rest'.length + 1⟩
        | some (x?, rest'') =>
          match x?.or standIn with
          | some x => readString standIn start fuel (x :: read) rest''
          | none => .error ⟨.unpairedSurrogate, rest'.length + 2⟩
      | e :: rest' =>
        match simpleEscape? e with
        | some x => readString standIn start fuel (x :: read) rest'
        | none => .error ⟨.escape, rest'.length + 2⟩
    else if c.toNat < 32 then .error ⟨.controlCharacter, rest.length + 1⟩
    else readString standIn start fuel (c :: read) rest

/-- Values of ASCII digits. -/
def digitValues (ds : List Char) : List Nat := ds.map fun c => c.toNat - 48

/-- The fraction of a numeral: a point that a digit follows. -/
def fractionOf : List Char → List Char × List Char
  | '.' :: rest =>
    let ds := rest.takeWhile Char.isDigit
    if ds.isEmpty then ([], '.' :: rest) else (ds, rest.drop ds.length)
  | s => ([], s)

/-- The exponent of a numeral: its letter, a sign and at least one digit. -/
def exponentOf (s : List Char) : Option Int × List Char :=
  match s with
  | [] => (none, s)
  | c :: rest =>
    if c == 'e' || c == 'E' then
      let (negative, rest') := Numeral.signOf rest
      let ds := rest'.takeWhile Char.isDigit
      if ds.isEmpty then (none, s)
      else
        let n : Int := Numeral.ofDigits (digitValues ds)
        (some (if negative then -n else n), rest'.drop ds.length)
    else (none, s)

/-- A number and the rest; `none` when the text does not start with one. -/
def readNumber (s : List Char) : Except Stop (Option (Value × List Char)) :=
  let (negative, body) :=
    match s with
    | '-' :: rest => (true, rest)
    | s => (false, s)
  let whole :=
    match body with
    | '0' :: _ => ['0']
    | body => body.takeWhile Char.isDigit
  if whole.isEmpty then .ok none
  else
    let rest := body.drop whole.length
    let (fraction, rest) := fractionOf rest
    let (exponent, rest) := exponentOf rest
    if fraction.isEmpty && exponent.isNone then
      if whole.length > Numeral.digitLimit then .error ⟨.longNumber, s.length⟩
      else
        let n : Int := Numeral.ofDigits (digitValues whole)
        .ok (some (.int (if negative then -n else n), rest))
    else
      .ok (some (.float (Numeral.scaled negative (digitValues (whole ++ fraction))
        (exponent.getD 0 - fraction.length)), rest))

/-- The words that stand for a value. -/
def words : List (String × Value) :=
  [("null", .null), ("true", .bool true), ("false", .bool false), ("NaN", .float Binary64.nan),
   ("Infinity", .float Binary64.infinity), ("-Infinity", .float (-Binary64.infinity))]

/-- A value without items, and the rest. -/
def readLeaf (s : List Char) : Except Stop (Value × List Char) :=
  match words.findSome? fun (word, v) => (afterWord? word s).map fun rest => (v, rest) with
  | some r => .ok r
  | none => do
    match ← readNumber s with
    | some r => .ok r
    | none => .error ⟨.value, s.length⟩

mutual

/-- A value at the start of a text, and the rest. -/
def readValue (standIn : Option Char) : Nat → List Char → Except Stop (Value × List Char)
  | 0, s => .error ⟨.value, s.length⟩
  | fuel + 1, s =>
    match s with
    | '"' :: rest => do
      let (x, rest') ← readString standIn s.length rest.length.succ [] rest
      return (.text x, rest')
    | '[' :: rest =>
      match skip rest with
      | ']' :: rest' => .ok (.list [], rest')
      | rest' => do
        let (items, rest'') ← readItems standIn fuel rest'
        return (.list items, rest'')
    | '\x7b' :: rest =>
      match skip rest with
      | '\x7d' :: rest' => .ok (.object [], rest')
      | rest' => do
        let (entries, rest'') ← readEntries standIn fuel [] rest'
        return (.object entries, rest'')
    | _ => readLeaf s

/-- The items of a list up to its closing bracket. -/
def readItems (standIn : Option Char) : Nat → List Char → Except Stop (List Value × List Char)
  | 0, s => .error ⟨.value, s.length⟩
  | fuel + 1, s => do
    let (v, rest) ← readValue standIn fuel s
    match skip rest with
    | ']' :: rest' => return ([v], rest')
    | ',' :: rest' =>
      let (vs, rest'') ← readItems standIn fuel (skip rest')
      return (v :: vs, rest'')
    | rest' => .error ⟨.comma, rest'.length⟩

/-- The entries of an object up to its closing brace, added to those already read. -/
def readEntries (standIn : Option Char) : Nat → Entries → List Char → Except Stop (Entries × List Char)
  | 0, _, s => .error ⟨.propertyName, s.length⟩
  | fuel + 1, entries, s =>
    match s with
    | '"' :: rest => do
      let (key, rest') ← readString standIn s.length rest.length.succ [] rest
      match skip rest' with
      | ':' :: rest'' =>
        let (v, rest₃) ← readValue standIn fuel (skip rest'')
        let entries := entries.set key v
        match skip rest₃ with
        | '\x7d' :: rest₄ => return (entries, rest₄)
        | ',' :: rest₄ => readEntries standIn fuel entries (skip rest₄)
        | rest₄ => .error ⟨.comma, rest₄.length⟩
      | rest'' => .error ⟨.colon, rest''.length⟩
    | _ => .error ⟨.propertyName, s.length⟩

end

/-- The place before the last `after` characters of a text. -/
def placeOf (s : List Char) (after : Nat) : Place :=
  let read := s.take (s.length - after)
  { offset := read.length
    line := (read.filter (· == '\n')).length + 1
    column := (read.reverse.takeWhile (· != '\n')).length + 1 }

/-- A text that holds one value and blanks around it. -/
def readChars (standIn : Option Char) (s : List Char) : Except Stop Value :=
  match s with
  | '\uFEFF' :: _ => .error ⟨.byteOrderMark, s.length⟩
  | _ => do
    let (v, rest) ← readValue standIn (2 * s.length + 2) (skip s)
    match skip rest with
    | [] => return v
    | rest' => .error ⟨.extraData, rest'.length⟩

/-- The value that a text holds, with a stand-in for every surrogate without its other half. -/
def readWith (standIn : Option Char) (text : String) : Except Error Value :=
  let s := text.toList
  match readChars standIn s with
  | .ok v => .ok v
  | .error stop => .error ⟨stop.fault, placeOf s stop.after⟩

/-- The value that a text holds. Reading stops at a surrogate without its other half. -/
def read (text : String) : Except Error Value := readWith none text

/-- The numbers that stand anywhere in a text as four hexadecimal digits. -/
def hexUnits : List Char → List Nat
  | [] => []
  | c :: rest => ((hexUnit? (c :: rest)).map (·.1)).toList ++ hexUnits rest

/-- A character for private use that a text has neither as itself nor as an escape. -/
def unusedChar (text : String) : Char :=
  let taken := text.toList.map (·.toNat) ++ hexUnits text.toList
  let candidates := (List.range (taken.length + 1)).map (0xE000 + ·)
  (candidates.find? fun n => !taken.contains n).elim '\uFFFD' Char.ofNat

end Pagewright.Json
