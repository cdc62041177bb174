import Pagewright.Record.Display
import Pagewright.Record.Path
import Pagewright.Text.Scan

/-!
# Placeholders

A template text names data with placeholders such as `\x7b\x7b customer.name \x7d\x7d`: two opening
braces, a path without a closing brace, two closing braces. `Piece.ofText` cuts a text into
characters and placeholders; substitution fills each placeholder with the text shown for the value
at its path, once, and turns written-out line breaks and tabs into real ones.
-/

namespace Pagewright

open Pagewright.Text

/-- A part of a template text. -/
inductive Piece where
  | char (c : Char)
  | binding (path : String)
  deriving Repr, DecidableEq

/-- The page a text is shown on. -/
structure PageContext where
  number : Int
  count : Int
  deriving Repr, DecidableEq

namespace Piece

/-- The path of a placeholder at the start of a text, and the length of the placeholder. -/
def placeholder? (s : List Char) : Option (String × Nat) :=
  match s with
  | '\x7b' :: '\x7b' :: rest =>
    let body := rest.takeWhile (· != '\x7d')
    if body.isEmpty then none
    else
      match rest.drop body.length with
      | '\x7d' :: '\x7d' :: _ => some (String.ofList (trim body), body.length + 4)
      | _ => none
  | _ => none

/-- The pieces of a text after its first `skip` characters. -/
def ofCharsFrom : Nat → List Char → List Piece
  | _, [] => []
  | skip + 1, _ :: rest => ofCharsFrom skip rest
  | 0, c :: rest =>
    match placeholder? (c :: rest) with
    | some (path, size) => binding path :: ofCharsFrom (size - 1) rest
    | none => char c :: ofCharsFrom 0 rest

/-- The pieces of a text. -/
def ofText (s : String) : List Piece := ofCharsFrom 0 s.toList

/-- The path of a placeholder. -/
def path? : Piece → Option String
  | char _ => none
  | binding path => some path

end Piece

namespace Binding

/-- The path that stands for the number of the page. -/
def pageNumber : String := "page.number"

/-- The path that stands for the number of pages. -/
def pageCount : String := "page.count"

/-- The paths in the placeholders of a text, in order. -/
def pathsOf (s : String) : List String := (Piece.ofText s).filterMap Piece.path?

/-- A page figure as text; zero counts as one. -/
def figure (n : Int) : String := toString (if n = 0 then 1 else n)

/-- The text that fills a placeholder. -/
def fill (data : Value) (page : PageContext) (path : String) : Outcome String :=
  if path == pageNumber then .ok (figure page.number)
  else if path == pageCount then .ok (figure page.count)
  else do (← data.find path).shown

/-- A piece with its placeholder filled. -/
def fillPiece (data : Value) (page : PageContext) : Piece → Outcome (List Char)
  | .char c => .ok [c]
  | .binding path => do return (← fill data page path).toList

/-- The written-out breaks and tabs with what they stand for, those with doubled backslashes first. -/
def escapes : List (List Char × List Char) :=
  [("\\\\r\\\\n".toList, ['\n']), ("\\\\n".toList, ['\n']), ("\\\\t".toList, ['\t']),
   ("\\r\\n".toList, ['\n']), ("\\n".toList, ['\n']), ("\\t".toList, ['\t'])]

/-- A text with its written-out line breaks and tabs decoded. -/
def decodeEscapes (s : List Char) : List Char :=
  escapes.foldl (fun s (old, new) => replace old new s) s

/-- A template text with its placeholders filled from a data record. -/
def substitute (s : String) (data : Value) (page : PageContext) : Outcome String := do
  let parts ← (Piece.ofText s).mapM (fillPiece data page)
  return String.ofList (decodeEscapes parts.flatten)

/-- The page context of a text that is on no page. -/
def noPage : PageContext := ⟨1, 1⟩

/-- A template value with its placeholders filled; a value that is no text reads as nothing. -/
def substituteValue (v : Value) (data : Value) (page : PageContext) : Outcome String :=
  match v with
  | .text s => substitute s data page
  | _ => .ok ""

/-- The content of a text that is one placeholder with nothing but blanks around it. The closing
braces are the last ones; the content may be any text without a line break that is not blank. -/
def wholePlaceholder? (s : List Char) : Option (List Char) :=
  match trimStart s with
  | '\x7b' :: '\x7b' :: body =>
    match (trimEnd body).reverse with
    | '\x7d' :: '\x7d' :: inner =>
      let inner := inner.reverse
      let core := trim inner
      if inner.any (· != '\n') && !core.contains '\n' then some core else none
    | _ => none
  | _ => none

/-- The path of a field that holds one path, with or without braces around it. -/
def pathOf (v : Value) : String :=
  match v with
  | .text s =>
    if s.isEmpty then ""
    else String.ofList ((wholePlaceholder? s.toList).getD (trim s.toList))
  | _ => ""

/-- Characters that a token of a condition starts with. -/
def isTokenStart (c : Char) : Bool := c.isAlpha || c == '_'

/-- Characters inside a token of a condition. -/
def isTokenChar (c : Char) : Bool := c.isAlphanum || c == '_' || c == '.'

/-- The tokens of a condition, where `token` holds the current one, last character first. -/
def tokensFrom : List Char → List Char → List String
  | [], [] => []
  | token, [] => [String.ofList token.reverse]
  | [], c :: rest => if isTokenStart c then tokensFrom [c] rest else tokensFrom [] rest
  | token, c :: rest =>
    if isTokenChar c then tokensFrom (c :: token) rest
    else String.ofList token.reverse :: tokensFrom [] rest

/-- The words and paths that a condition is made of. -/
def tokens (s : String) : List String := tokensFrom [] s.toList

/-- Tokens that name no data. -/
def reserved : List String := ["true", "false", "exists", "len", pageNumber, pageCount]

/-- The dotted paths that a condition reads; a path of one segment does not count. -/
def conditionPaths (condition : Value) : Outcome (List String) :=
  match condition with
  | .text s => .ok ((tokens s).filter fun t => t.toList.contains '.' && !reserved.contains t)
  | v => if v.isGiven then undefinedOn (.wrongKind v) else .ok []

end Binding

end Pagewright
