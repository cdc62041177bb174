import Pagewright.Template.Expansion
import Pagewright.Template.Reader

/-!
# Validating template documents

Collects everything that is wrong with a template document, each issue with its place. Where nothing
else is wrong the document is also read as a template, and the page, the partials and whatever the
reader refuses are reported.
-/

namespace Pagewright

namespace Validation

/-- Sources that a contract field may name. -/
def sources : List String := ["external", "template", "computed"]

/-- Rules for repeating an element. -/
def repeatRules : List String := ["all", "first", "afterFirst", "middle", "last"]

/-- Ways of filling up the last page of a table. -/
def fillModes : List String := ["none", "pad"]

/-- Names of the regions. -/
def regionNames : List String := Region.all.map Region.name

/-- Whether a value is one of some texts. -/
def isOneOf (v : Value) (names : List String) : Bool :=
  match v with
  | .text s => names.contains s
  | _ => false

/-- Whether a value is one of some names, where lists and objects cannot be names. -/
def isName (v : Value) (names : List String) : Outcome Bool :=
  if v.isContainer then undefinedOn (.notAKey v) else .ok (isOneOf v names)

/-- An issue if a condition holds. -/
def issueIf (condition : Bool) (issue : String) : List String := if condition then [issue] else []

/-- Add a value to counts of values, equal values counting as one. -/
def count (v : Value) : List (Value × Nat) → List (Value × Nat)
  | [] => [(v, 1)]
  | (w, n) :: rest => if w.same v then (w, n + 1) :: rest else (w, n) :: count v rest

/-- How often each value occurs, in the order of first occurrence. Lists and objects are not counted. -/
def counts (vs : List Value) : Outcome (List (Value × Nat)) :=
  match vs.find? Value.isContainer with
  | some v => undefinedOn (.notAKey v)
  | none => .ok (vs.foldl (fun cs v => count v cs) [])

/-- Issues about an optional field that has to be one of some names. -/
def checkNamed (raw : Entries) (key : String) (names : List String) (issue : String) : List String :=
  let v := Entries.get raw key
  issueIf (!v.isNull && !isOneOf v names) (issue ++ " " ++ v.quoted)

/-- Issues about one element. -/
def checkElement (partials : Entries) (place : String) (v : Value) : Outcome (List String) :=
  match v with
  | .object raw => do
    let kind := Entries.get raw "type"
    let known ← isName kind elementKinds
    let inclusion ←
      if kind.isText "include" then do
        let ref := Entries.get raw "ref"
        let found ← isName ref (partials.map (·.1))
        pure (issueIf (!found)
          (place ++ ": include references unknown partial " ++ ref.quoted))
      else pure []
    return issueIf (!(Entries.get raw "id").isGiven) (place ++ ": element has no id") ++
      issueIf (!known) (place ++ ": unknown element type " ++ kind.quoted) ++
      checkNamed raw "region" regionNames (place ++ ": invalid region") ++
      checkNamed raw "repeat" repeatRules (place ++ ": invalid repeat policy") ++
      inclusion ++
      (if kind.isText "table" then
        checkNamed raw "fillMode" fillModes (place ++ ": invalid fillMode") ++
        issueIf (!(Entries.get raw "columns").isGiven) (place ++ ": table has no columns")
       else [])
  | _ => .ok [place ++ ": element must be an object"]

/-- Issues about a list of elements that share their ids. -/
def checkScope (partials : Entries) (location : String) (v : Value) : Outcome (List String) :=
  match v with
  | .list items => do
    let ids := items.filterMap fun v =>
      (v.object?.map fun raw => Entries.get raw "id").bind Value.given?
    let repeated := (← counts ids).filterMap fun (v, n) =>
      if n > 1 then
        some (location ++ ": duplicate element id '" ++ v.display ++ "' (" ++ toString n ++ " times)")
      else none
    let issues ← Reading.each (fun i v => checkElement partials (Reading.item location i) v) 0 items
    return repeated ++ issues.flatten
  | _ => .ok [location ++ ": elements must be a list"]

/-- Issues about one field of a contract. -/
def checkField (place : String) (v : Value) : List String :=
  let missing := [place ++ ": field has no path"]
  match v with
  | .object f =>
    if (Entries.get f "path").isGiven then
      let check (key : String) (names : List String) (issue : String) : List String :=
        match Entries.find? f key with
        | some v => issueIf (!isOneOf v names) (place ++ ": " ++ issue ++ " " ++ v.quoted)
        | none => []
      check "source" sources "invalid source" ++
        check "transform" Transform.fieldNames "unknown transform"
    else missing
  | _ => missing

/-- Issues about a contract. -/
def checkContract (v : Value) : Outcome (List String) :=
  match v with
  | .null => .ok []
  | v =>
    match (v.object?.map fun raw => Entries.get raw "fields").bind Value.list? with
    | none => .ok ["dataContract: fields must be a list"]
    | some items => do
      let paths := items.filterMap fun v => v.object?.map fun f => Entries.get f "path"
      let repeated := (← counts paths).filterMap fun (v, n) =>
        if v.isGiven && n > 1 then
          some ("dataContract: duplicate field path '" ++ v.display ++ "'")
        else none
      let place (i : Nat) : String := Reading.item "dataContract.fields" i
      let issues := ((List.range items.length).zip items).flatMap fun (i, v) => checkField (place i) v
      return repeated ++ issues

/-- Whether a value is a number above zero; NaN passes. -/
def isPositive : Value → Bool
  | .int n => 0 < n
  | .float x => !(x ≤ 0)
  | _ => false

/-- Issues about the page. -/
def checkPage (v : Value) : List String :=
  match v with
  | .object page =>
    ["width", "height"].flatMap fun key =>
      issueIf (!isPositive (Entries.get page key)) ("page." ++ key ++ ": must be a positive number")
  | _ => ["page: missing page specification"]

/-- The partials of a document and the issue when they are no object. -/
def partialsOf (v : Value) : Entries × List String :=
  match v.orElse (.object []) with
  | .object ps => (ps, [])
  | _ => ([], ["partials: must be an object"])

/-- Issues that show when the document is read as a template. -/
def checkTemplate (v : Value) : Outcome (List String) :=
  match Template.ofValue v with
  | .error (.malformedTemplate problem location) =>
    .ok [location.getD "(root)" ++ ": " ++ problem]
  | .error e => .error e
  | .ok t => do
    let cycle ← t.findCycle
    return issueIf (t.page.bodyHeight ≤ 0) "page: margins and header/footer leave no body height" ++
      match cycle with
      | some names => ["partials: cyclic partial reference " ++ " -> ".intercalate names]
      | none => []

/-- All issues of a document that is an object. -/
def issuesOf (raw : Entries) : Outcome (List String) := do
  let (partials, partialIssues) := partialsOf (Entries.get raw "partials")
  let top ← checkScope partials "elements" ((Entries.find? raw "elements").getD (.list []))
  let inside ← partials.mapM fun (name, v) =>
    let elements :=
      match v with
      | .object p => (Entries.find? p "elements").getD (.list [])
      | _ => .null
    checkScope partials ("partials." ++ name ++ ".elements") elements
  let contract ← checkContract (Entries.get raw "dataContract")
  let issues := checkPage (Entries.get raw "page") ++ partialIssues ++ top ++ inside.flatten ++ contract
  if issues.isEmpty then checkTemplate (.object raw) else return issues

/-- All issues of a document. A document without issues is valid. -/
def issues (v : Value) : Outcome (List String) :=
  match v with
  | .object raw => issuesOf raw
  | _ => .ok ["(root): template must be an object"]

/-- What the log says about a validated document. -/
def messages (raw : Entries) (issues : List String) : List Message :=
  let name := ((Entries.get raw "name").orElse (Entries.get raw "id")).orElse (.text "template")
  let head := "[template] " ++ name.display ++ ": "
  if issues.isEmpty then [⟨some .success, head ++ "template is valid"⟩]
  else
    ⟨some .warning, head ++ toString issues.length ++ " validation issue(s)"⟩ ::
      issues.map fun issue => ⟨some .debug, "[template]   " ++ issue⟩

/-- All issues of a document, with messages. -/
def issuesLogged (v : Value) : Logged (List String) :=
  match issues v with
  | .ok found => ⟨(v.object?.map fun raw => messages raw found).getD [], .ok found⟩
  | .error e => ⟨[], .error e⟩

end Validation

end Pagewright
