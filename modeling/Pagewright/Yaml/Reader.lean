import Pagewright.Json.Reader
import Pagewright.Yaml.Plain

/-!
# Reading YAML

A document is a block of lines. The lines of a mapping or sequence start in one column; what belongs
to an entry stands to the right of that column, and only a sequence may start in the column of the key
it belongs to. Inside brackets and quotes columns do not count, so a scalar or a collection in brackets
is read from characters, a line break being a blank among others. Two equal keys in one mapping are a
fault, and anchors, tags and several documents in one text are not read. Nor is a surrogate, which an
escape may spell and no text has.

The recursion is bounded by the length of the text, since each step reads a character or a line.
-/

namespace Pagewright.Yaml

open Pagewright

/-! ## Scalars -/

/-- A blank between tokens. -/
def isSpace (c : Char) : Bool := c == ' ' || c == '\t' || c == '\n'

/-- What a run of blanks inside a scalar stands for: itself on one line, one blank for one line break,
and the breaks after the first for several. -/
def folded (blanks : List Char) : List Char :=
  match (blanks.filter (· == '\n')).length with
  | 0 => blanks
  | 1 => [' ']
  | n + 2 => List.replicate (n + 1) '\n'

/-- A text without the blanks and comments at its start. A comment follows a blank or a line break;
`after` says that one stands in front. -/
def skip (after : Bool) : List Char → List Char
  | [] => []
  | c :: rest =>
    if isSpace c then skip true rest
    else if c == '#' && after then skipComment rest
    else c :: rest
where
  /-- A text after the end of the line that a comment stands in. -/
  skipComment : List Char → List Char
    | [] => []
    | c :: rest => if c == '\n' then skip true rest else skipComment rest

/-- The number that a run of hexadecimal digits of a given length spells, and the rest. -/
def hexDigits? (size : Nat) (s : List Char) : Option (Nat × List Char) :=
  let ds := s.take size
  if ds.length = size && ds.all (fun c => (Json.hexValue? c).isSome) then
    (Plain.ofBase? 16 ds).map fun n => (n, s.drop size)
  else none

/-- The letters of escapes in double quotes and what they stand for. -/
def escapes : List (Char × Char) :=
  [('0', '\x00'), ('a', '\x07'), ('b', '\x08'), ('t', '\t'), ('\t', '\t'), ('n', '\n'), ('v', '\x0b'),
   ('f', '\x0c'), ('r', '\r'), ('e', '\x1b'), (' ', ' '), ('"', '"'), ('/', '/'), ('\\', '\\'),
   ('N', '\u0085'), ('_', '\u00a0'), ('L', '\u2028'), ('P', '\u2029')]

/-- The letters of escapes that a number of hexadecimal digits follows. -/
def numericEscapes : List (Char × Nat) := [('x', 2), ('u', 4), ('U', 8)]

/-- The text up to the closing quote, and the rest. -/
def quotedText (quote : Char) : Nat → List Char → Except Fault (List Char × List Char)
  | 0, _ => .error .openQuote
  | _ + 1, [] => .error .openQuote
  | fuel + 1, c :: rest =>
    if c == quote then
      match rest with
      | d :: rest' =>
        if quote == '\'' && d == quote then do
          let (text, left) ← quotedText quote fuel rest'
          return (quote :: text, left)
        else .ok ([], rest)
      | [] => .ok ([], [])
    else if isSpace c then do
      let blanks := c :: rest.takeWhile isSpace
      let (text, left) ← quotedText quote fuel (rest.dropWhile isSpace)
      return (folded blanks ++ text, left)
    else if c == '\\' && quote == '"' then
      match rest with
      | [] => .error .openQuote
      | e :: rest' =>
        if e == '\n' then quotedText quote fuel (rest'.dropWhile isSpace)
        else
          match escapes.lookup e, (numericEscapes.lookup e).bind fun n => hexDigits? n rest' with
          | some x, _ => do
            let (text, left) ← quotedText quote fuel rest'
            return (x :: text, left)
          | none, some (n, rest'') =>
            if n.isValidChar then do
              let (text, left) ← quotedText quote fuel rest''
              return (Char.ofNat n :: text, left)
            else .error (if n < 0x110000 then .surrogate else .noCharacter)
          | none, none => .error .escape
    else do
      let (text, left) ← quotedText quote fuel rest
      return (c :: text, left)

/-- The characters that end an unquoted scalar inside brackets. -/
def isFlowMark (c : Char) : Bool := c ∈ [',', '?', '[', ']', '\x7b', '\x7d']

/-- Whether a colon with the given rest separates a key from a value. -/
def endsKey (inFlow : Bool) : List Char → Bool
  | [] => true
  | c :: _ => isSpace c || (inFlow && (c ∈ [',', '[', ']', '\x7b', '\x7d']))

/-- The text of an unquoted scalar and the rest. It ends before a comment, a colon that a blank
follows, a mark inside brackets, or the blanks at the end. `blanks` are those read since the last
other character. -/
def plainText (inFlow : Bool) (blanks : List Char) : List Char → List Char × List Char
  | [] => ([], [])
  | c :: rest =>
    if isSpace c then plainText inFlow (blanks ++ [c]) rest
    else if (c == '#' && !blanks.isEmpty) || (c == ':' && endsKey inFlow rest) ||
        (inFlow && isFlowMark c) then ([], blanks ++ c :: rest)
    else
      let (text, left) := plainText inFlow [] rest
      (folded blanks ++ c :: text, left)

/-- Whether an unquoted scalar can start here. -/
def startsPlain : List Char → Bool
  | [] => false
  | c :: rest =>
    if c ∈ ['-', '?', ':'] then rest.head?.any fun d => !isSpace d
    else !(isSpace c) && !(c ∈ [',', '[', ']', '\x7b', '\x7d', '#', '&', '*', '!', '|', '>', '\'', '"',
      '%', '@', Char.ofNat 96])

/-- The key that a value spells. -/
def keyOf : Value → Except Fault String
  | .text s => .ok s
  | .bool b => .ok (if b then "true" else "false")
  | .int n => .ok (toString n)
  | _ => .error .badKey

/-- Entries with one more, whose key must be new. -/
def addEntry (entries : Entries) (key : String) (v : Value) : Except Fault Entries :=
  if entries.has key then .error (.duplicateKey key) else .ok (entries ++ [(key, v)])

/-! ## Collections in brackets -/

mutual

/-- A value inside brackets, or one that starts with a bracket or a quote, and the rest. -/
def flowValue : Nat → List Char → Except Fault (Value × List Char)
  | 0, _ => .error .unexpected
  | fuel + 1, s =>
    match s with
    | '[' :: rest => do
      let (items, left) ← flowItems fuel (skip true rest)
      return (.list items, left)
    | '\x7b' :: rest => do
      let (entries, left) ← flowEntries fuel [] (skip true rest)
      return (.object entries, left)
    | c :: rest =>
      if c == '"' || c == '\'' then do
        let (text, left) ← quotedText c (rest.length + 1) rest
        return (.text (String.ofList text), left)
      else if startsPlain s then do
        let (text, left) := plainText true [] s
        return (← Plain.value text, left)
      else .error .unexpected
    | [] => .error .unexpected

/-- The value after the colon of an entry; nothing may stand there. -/
def flowAfterColon : Nat → List Char → Except Fault (Value × List Char)
  | 0, _ => .error .unexpected
  | fuel + 1, s =>
    match s with
    | [] => .error .unexpected
    | c :: _ => if c ∈ [',', ']', '\x7d'] then .ok (.null, s) else flowValue fuel s

/-- The items of a sequence up to its closing bracket. An item with a colon is a mapping of one
entry. -/
def flowItems : Nat → List Char → Except Fault (List Value × List Char)
  | 0, _ => .error .unexpected
  | fuel + 1, s =>
    match s with
    | ']' :: rest => .ok ([], rest)
    | s => do
      let (v, left) ← flowValue fuel s
      let (item, left) ← match skip false left with
        | ':' :: rest => do
          let (w, left) ← flowAfterColon fuel (skip false rest)
          pure (Value.object [(← keyOf v, w)], skip false left)
        | left => pure (v, left)
      match left with
      | ',' :: rest => do
        let (items, left) ← flowItems fuel (skip false rest)
        return (item :: items, left)
      | ']' :: rest => return ([item], rest)
      | _ => .error .unexpected

/-- The entries of a mapping up to its closing brace, added to those already read. -/
def flowEntries : Nat → Entries → List Char → Except Fault (Entries × List Char)
  | 0, _, _ => .error .unexpected
  | fuel + 1, entries, s =>
    match s with
    | '\x7d' :: rest => .ok (entries, rest)
    | s => do
      let (k, left) ← flowValue fuel s
      let (v, left) ← match skip false left with
        | ':' :: rest => do
          let (v, left) ← flowAfterColon fuel (skip false rest)
          pure (v, skip false left)
        | left => pure (Value.null, left)
      let entries ← addEntry entries (← keyOf k) v
      match left with
      | ',' :: rest => flowEntries fuel entries (skip false rest)
      | '\x7d' :: rest => return (entries, rest)
      | _ => .error .unexpected

end

/-! ## Blocks of lines -/

/-- A line: the blanks it starts with, and the rest. -/
structure Line where
  indent : Nat
  text : List Char
  deriving Repr, DecidableEq

namespace Line

/-- The line that a text is. -/
def ofText (s : List Char) : Line :=
  let indent := (s.takeWhile (· == ' ')).length
  ⟨indent, s.drop indent⟩

/-- The text of a line. -/
def toText (l : Line) : List Char := List.replicate l.indent ' ' ++ l.text

/-- Whether a line holds blanks only. -/
def isBlank (l : Line) : Bool := l.text.all isSpace

/-- Whether a line holds no part of a value. -/
def isIdle (l : Line) : Bool := l.isBlank || l.text.head? == some '#'

/-- Whether a line starts an item of a sequence. -/
def isItem (l : Line) : Bool :=
  match l.text with
  | '-' :: rest => rest.isEmpty || rest.head?.any isSpace
  | _ => false

end Line

/-- Lines after those that hold no part of a value. -/
def skipLines (lines : List Line) : List Line := lines.dropWhile Line.isIdle

/-- The key that a line starts with and what follows its colon. -/
def splitKey? (s : List Char) : Option (Except Fault (String × List Char)) :=
  let separated (key : Except Fault Value) (left : List Char) :=
    match left.dropWhile isSpace with
    | ':' :: rest =>
      if endsKey false rest then some (do return (← keyOf (← key), rest.dropWhile isSpace)) else none
    | _ => none
  match s with
  | [] => none
  | c :: rest =>
    if c == '"' || c == '\'' then
      match quotedText c (rest.length + 1) rest with
      | .ok (text, left) => separated (.ok (.text (String.ofList text))) left
      | .error _ => none
    else if startsPlain s then
      let (text, left) := plainText false [] s
      separated (Plain.value text) left
    else none

/-- Lines as one text, after the rest of a line before them. -/
def joined (first : List Char) (lines : List Line) : List Char :=
  first ++ lines.flatMap fun l => '\n' :: l.toText

/-- How the breaks at the end of a block scalar are kept. -/
inductive Chomping where
  | strip
  | clip
  | keep
  deriving Repr, DecidableEq

/-- Lines of a folded scalar: a break between two lines that start in the first column becomes a
blank, or is dropped when empty lines follow it. -/
def foldLines : List (List Char) → List Char
  | [] => []
  | [l] => l
  | l :: rest =>
    let empty := rest.takeWhile List.isEmpty
    let starts (l : List Char) := l.head?.any fun c => !isSpace c
    let next := (rest.drop empty.length).head?.getD []
    if starts l && starts next then
      l ++ (if empty.isEmpty then [' '] else []) ++ foldLines rest
    else l ++ '\n' :: foldLines rest

/-- A scalar after `|` or `>`: the lines to the right of a column, with the blanks beyond the first
line's. -/
def blockScalar (least : Nat) (fold : Bool) (header : List Char) (lines : List Line) :
    Except Fault (Value × List Line) :=
  let mark := header.takeWhile fun c => !isSpace c
  let chomping? : Option Chomping :=
    if mark == [] then some .clip
    else if mark == ['-'] then some .strip
    else if mark == ['+'] then some .keep
    else none
  match chomping?, skip true (header.drop mark.length) with
  | some chomping, [] =>
    let (own, rest) := lines.span fun l => l.isBlank || l.indent ≥ least
    let column := ((own.find? fun l => !l.isBlank).map Line.indent).getD 0
    let texts := own.map fun l => if l.isBlank then [] else l.toText.drop column
    let ending := (texts.reverse.takeWhile List.isEmpty).length
    let body := texts.take (texts.length - ending)
    let text := if fold then foldLines body else Text.join ['\n'] body
    let breaks := match chomping with
      | .strip => 0
      | .clip => if body.isEmpty then 0 else 1
      | .keep => if body.isEmpty then ending else ending + 1
    .ok (.text (String.ofList (text ++ List.replicate breaks '\n')), rest)
  | _, _ => .error .unexpected

/-- A value that starts on a line that is no item and has no key. The lines of an unquoted scalar
start in column `least` or to the right of it. -/
def inlineValue (least : Nat) (first : List Char) (lines : List Line) :
    Except Fault (Value × List Line) :=
  match first with
  | '|' :: header => blockScalar least false header lines
  | '>' :: header => blockScalar least true header lines
  | c :: _ =>
    if c ∈ ['"', '\'', '[', '\x7b'] then do
      let all := joined first lines
      let (v, left) ← flowValue (all.length + 1) all
      let line := left.takeWhile (· != '\n')
      if (skip false line).isEmpty then
        return (v, lines.drop (lines.length - (left.filter (· == '\n')).length))
      else .error .badLayout
    else if startsPlain first then do
      let (own, rest) := lines.span fun l => l.isBlank || l.indent ≥ least
      let (text, left) := plainText false [] (joined first own)
      if (skip false left).isEmpty then return (← Plain.value text, rest) else .error .badLayout
    else .error .unexpected
  | [] => .error .unexpected

mutual

/-- The value whose lines start in column `least` or to the right of it, and the lines after it. -/
def block : Nat → Nat → List Line → Except Fault (Value × List Line)
  | 0, _, _ => .error .unexpected
  | fuel + 1, least, lines =>
    match skipLines lines with
    | [] => .ok (.null, [])
    | l :: rest =>
      if l.indent < least then .ok (.null, l :: rest)
      else if l.isItem then do
        let (items, left) ← blockItems fuel l.indent (l :: rest)
        return (.list items, left)
      else
        match splitKey? l.text with
        | some _ => do
          let (entries, left) ← blockEntries fuel l.indent [] (l :: rest)
          return (.object entries, left)
        | none => inlineValue least l.text rest

/-- The items of a sequence in a column. -/
def blockItems : Nat → Nat → List Line → Except Fault (List Value × List Line)
  | 0, _, _ => .error .unexpected
  | fuel + 1, column, lines =>
    match skipLines lines with
    | [] => .ok ([], [])
    | l :: rest =>
      if l.indent < column then .ok ([], l :: rest)
      else if l.indent > column then .error .badLayout
      else if l.isItem then do
        let after := Line.ofText (l.text.drop 1)
        let (v, left) ← block fuel (column + 1)
          ({ after with indent := column + 1 + after.indent } :: rest)
        let (vs, left) ← blockItems fuel column left
        return (v :: vs, left)
      else .ok ([], l :: rest)

/-- The entries of a mapping in a column, added to those already read. -/
def blockEntries : Nat → Nat → Entries → List Line → Except Fault (Entries × List Line)
  | 0, _, _, _ => .error .unexpected
  | fuel + 1, column, entries, lines =>
    match skipLines lines with
    | [] => .ok (entries, [])
    | l :: rest =>
      if l.indent < column then .ok (entries, l :: rest)
      else if l.indent > column || l.isItem then .error .badLayout
      else
        match splitKey? l.text with
        | none => .error .badLayout
        | some entry => do
          let (key, first) ← entry
          let (v, left) ← entryValue fuel column first rest
          blockEntries fuel column (← addEntry entries key v) left

/-- The value of an entry in a column: on the line of its key or below it. -/
def entryValue : Nat → Nat → List Char → List Line → Except Fault (Value × List Line)
  | 0, _, _, _ => .error .unexpected
  | fuel + 1, column, first, lines =>
    if (skip true first).isEmpty then
      match skipLines lines with
      | l :: rest =>
        if l.indent = column && l.isItem then do
          let (items, left) ← blockItems fuel column (l :: rest)
          return (.list items, left)
        else block fuel (column + 1) (l :: rest)
      | [] => .ok (.null, [])
    else inlineValue (column + 1) first lines

end

/-! ## Documents -/

/-- Whether a line starts with a mark of three characters that stands for itself. -/
def isMark (mark : String) (l : Line) : Bool :=
  l.indent == 0 && l.text.take 3 == mark.toList && ((l.text.drop 3).isEmpty ||
    (l.text.drop 3).head?.any isSpace)

/-- The lines of the document between the marks of its start and end. -/
def documentLines (lines : List Line) : Except Fault (List Line) :=
  let lines := match skipLines lines with
    | l :: rest =>
      if isMark "---" l then
        let after := Line.ofText (l.text.drop 3)
        { after with indent := 3 + after.indent } :: rest
      else l :: rest
    | [] => []
  let (own, rest) := lines.span fun l => !isMark "..." l && !isMark "---" l
  if (skipLines (rest.dropWhile (isMark "..."))).isEmpty then .ok own else .error .unexpected

/-- The value of a text. -/
def read (text : String) : Except Fault Value := do
  let s := match text.toList with
    | '\uFEFF' :: rest => rest
    | s => s
  let lines ← documentLines ((Text.splitOn ['\n'] (Text.unifyBreaks s)).map Line.ofText)
  let (v, left) ← block (3 * s.length + 3) 0 lines
  if (skipLines left).isEmpty then return v else .error .badLayout

end Pagewright.Yaml
