import Pagewright.Json.Reader
import Pagewright.Store.Record
import Pagewright.Text.Case

/-!
# Bodies of requests

A body is a JSON object with a fixed set of entries; others are passed over. All entries are checked, and
the places of all that are wrong are given together. Texts are taken as they are; a truth value may be
written as 0, 1 or a word, and a page number as a text or as a double without a fraction.
-/

namespace Pagewright.Service

open Pagewright

/-- A value, or the places in a body that are wrong. -/
abbrev Checked (α : Type) := Except (List String) α

namespace Checked

/-- Two checks, of which each is made. -/
def and (x : Checked α) (y : Checked β) : Checked (α × β) :=
  match x, y with
  | .ok a, .ok b => .ok (a, b)
  | .error p, .error q => .error (p ++ q)
  | .error p, .ok _ => .error p
  | .ok _, .error q => .error q

/-- A wrong place. -/
def wrong (place : String) : Checked α := .error [place]

end Checked

namespace Body

/-- The place of an entry. -/
def placeOf (key : String) : String := "body." ++ key

/-- A text that must be there and not empty. -/
def requiredText (entries : Entries) (key : String) : Checked String :=
  match entries.find? key with
  | some (.text s) => if s.isEmpty then .wrong (placeOf key) else .ok s
  | _ => .wrong (placeOf key)

/-- A text that need not be there, or null. -/
def optionalText (entries : Entries) (key : String) : Checked (Option String) :=
  match entries.find? key with
  | none | some .null => .ok none
  | some (.text s) => .ok (some s)
  | some _ => .wrong (placeOf key)

/-- A text under the first of some keys that is there, and the default where none is. -/
def textUnder (entries : Entries) (keys : List String) (default : String) : Checked String :=
  match keys.find? fun key => entries.has key with
  | none => .ok default
  | some key =>
    match entries.get key with
    | .text s => .ok s
    | _ => .wrong (placeOf key)

/-- An object, empty where it is not there. -/
def object (entries : Entries) (key : String) : Checked Entries :=
  match entries.find? key with
  | none => .ok []
  | some (.object inner) => .ok inner
  | some _ => .wrong (placeOf key)

/-- The words for true and false, in letters of any case. -/
def truthWords : List (String × Bool) :=
  (["1", "on", "t", "true", "y", "yes"].map fun w => (w, true)) ++
  (["0", "off", "f", "false", "n", "no"].map fun w => (w, false))

/-- The truth value that a value stands for. -/
def truth? : Value → Option Bool
  | .bool b => some b
  | .int n => if n = 0 then some false else if n = 1 then some true else none
  | .float x => if x == 0.0 then some false else if x == 1.0 then some true else none
  | .text s => truthWords.lookup (String.ofList (s.toList.map Char.toLower))
  | _ => none

/-- A truth value with a default. -/
def truth (entries : Entries) (key : String) (default : Bool) : Checked Bool :=
  match entries.find? key with
  | none => .ok default
  | some v =>
    match truth? v with
    | some b => .ok b
    | none => .wrong (placeOf key)

/-- Digits in which single underscores may stand between two digits. -/
def digits? (s : List Char) : Option Nat :=
  match Numeral.digitRun false s with
  | (d :: ds, []) => if s.all fun c => c.isDigit || c == '_' then some (Numeral.ofDigits (d :: ds)) else none
  | _ => none

/-- The whole number that a text spells; a fraction may follow if it is made of zeros. -/
def wholeText? (s : List Char) : Option Int := do
  let s := Text.trim s
  if s.length > Numeral.digitLimit then none
  let (negative, body) := Numeral.signOf s
  let whole := body.takeWhile (· != '.')
  let fraction := body.drop whole.length
  if !(fraction.isEmpty || (fraction.length > 1 && fraction.tail.all (· == '0'))) then none
  let n ← digits? whole
  return if negative then -(n : Int) else n

/-- The whole number that a value stands for. -/
def whole? : Value → Option Int
  | .bool b => some (Value.bit b)
  | .int n => some n
  | .float x => do
    let n ← Binary64.integer? x
    if n.natAbs < twoTo 63 then some n else none
  | .text s => wholeText? s.toList
  | _ => none

/-- The whole numbers of a list, from place `i` on. -/
def wholes (key : String) : Nat → List Value → Checked (List Int)
  | _, [] => .ok []
  | i, v :: rest =>
    let first : Checked Int :=
      match whole? v with
      | some n => .ok n
      | none => .wrong (placeOf key ++ "." ++ toString i)
    (first.and (wholes key (i + 1) rest)).map fun (n, ns) => n :: ns

/-- A list of whole numbers that need not be there, or null. -/
def optionalWholes (entries : Entries) (key : String) : Checked (Option (List Int)) :=
  match entries.find? key with
  | none | some .null => .ok none
  | some (.list items) => (wholes key 0 items).map some
  | some _ => .wrong (placeOf key)

/-- The one who asks for a change. -/
def actor (entries : Entries) : Checked String :=
  textUnder entries ["actorId", "actor_id"] defaultActor

end Body

/-- A template to be created. -/
structure TemplateDraft where
  name : String
  description : Option String
  content : Entries
  actor : String
  deriving Repr

/-- A version to be created. -/
structure VersionDraft where
  content : Entries
  actor : String
  deriving Repr

/-- A change of name, description or status; what is not given stays. -/
structure MetadataPatch where
  name : Option String
  description : Option String
  status : Option String
  actor : String
  deriving Repr

/-- A template and a payload to be rendered. -/
structure RenderOrder where
  template : Entries
  data : Entries
  evaluate : Bool
  pages : Option (List Int)
  deriving Repr

open Body Checked

/-- The draft that entries hold. -/
def TemplateDraft.ofEntries (e : Entries) : Checked TemplateDraft :=
  ((requiredText e "name").and ((optionalText e "description").and
    ((object e "content").and (Body.actor e)))).map
    fun (name, description, content, actor) => ⟨name, description, content, actor⟩

/-- The draft that entries hold. -/
def VersionDraft.ofEntries (e : Entries) : Checked VersionDraft :=
  ((object e "content").and (Body.actor e)).map fun (content, actor) => ⟨content, actor⟩

/-- The change that entries ask for. -/
def MetadataPatch.ofEntries (e : Entries) : Checked MetadataPatch :=
  ((optionalText e "name").and ((optionalText e "description").and
    ((optionalText e "status").and (Body.actor e)))).map
    fun (name, description, status, actor) => ⟨name, description, status, actor⟩

/-- The order that entries hold. -/
def RenderOrder.ofEntries (e : Entries) : Checked RenderOrder :=
  ((object e "template").and ((object e "data").and
    ((truth e "evaluate" true).and (optionalWholes e "pages")))).map
    fun (template, data, evaluate, pages) => ⟨template, data, evaluate, pages⟩

end Pagewright.Service
