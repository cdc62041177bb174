import Pagewright.CommandLine.Arguments
import Pagewright.Number.Reader
import Pagewright.Store.Record

/-!
# Commands

There are three programs: one renders documents, one checks templates and one manages the store. Each has
commands with arguments of their own. Arguments that fit no command are a usage error.
-/

namespace Pagewright.CommandLine

open Pagewright

/-- The programs. -/
inductive Program where
  | render
  | check
  | manage
  deriving Repr, DecidableEq

/-- A template and the data to fill it with, by their paths. -/
structure Sources where
  template : String
  data : Option String
  deriving Repr, DecidableEq

/-- A command with its arguments. -/
inductive Command where
  /-- Render to markup, into a file or onto the terminal. -/
  | markup (sources : Sources) (output : Option String)
  /-- Render to a finished file. -/
  | file (sources : Sources) (output : String) (verbose : Bool)
  /-- Show what the data contract makes of the data. -/
  | evaluate (sources : Sources) (asJson : Bool)
  /-- Show the boxes of pages. -/
  | layout (sources : Sources) (pages : List Int) (design asJson : Bool)
  /-- Validate templates. -/
  | validate (templates : List String)
  /-- Show the paths that a template uses, and bring its contract into line with them. -/
  | bindings (template : String) (sync : Bool)
  /-- List the templates of the store. -/
  | list
  | create (name : String) (content description : Option String) (actor : String) (force : Bool)
  | show (id : String) (content : Bool)
  | addVersion (id content actor : String) (force : Bool)
  | update (id : String) (name description status : Option String) (actor : String)
  | audit (id : String) (limit : Int)
  deriving Repr

namespace Command

/-- An option with a value. -/
def valued (names : List String) : Flag := ⟨names, true⟩

/-- An option without a value. -/
def plain (names : List String) : Flag := ⟨names, false⟩

/-- The file that a finished document goes to if no other is given. -/
def defaultOutput : String := "outs/document.pdf"

/-- The number of events that are shown if no other is given. -/
def defaultLimit : Int := 20

/-- A template and optional data. -/
def sources? : List String → Option Sources
  | [template] => some ⟨template, none⟩
  | [template, data] => some ⟨template, some data⟩
  | _ => none

/-- The whole number that an argument spells. -/
def whole? (s : String) : Option Int := Numeral.integer? s.toList

/-- The actor of a change. -/
def actorOf (a : Arguments) : String := (a.value? "--actor").getD defaultActor

/-- The options for the actor of a change and for invalid documents. -/
def changeFlags : List Flag := [valued ["--actor", "-a"], plain ["--force", "-f"]]

/-- A command of the program that renders documents. -/
def ofRender (name : String) (args : List String) : Option Command := do
  match name with
  | "html" =>
    let a ← Arguments.read [valued ["--output", "-o"]] args
    return markup (← sources? a.operands) (a.value? "--output")
  | "pdf" =>
    let a ← Arguments.read [valued ["--output", "-o"], plain ["--verbose", "-v"]] args
    return file (← sources? a.operands) ((a.value? "--output").getD defaultOutput) (a.has "--verbose")
  | "evaluate" =>
    let a ← Arguments.read [plain ["--json"]] args
    return evaluate (← sources? a.operands) (a.has "--json")
  | "layout" =>
    let a ← Arguments.read [valued ["--page", "-p"], plain ["--design"], plain ["--json"]] args
    let pages ← (a.values "--page").mapM whole?
    return layout (← sources? a.operands) pages (a.has "--design") (a.has "--json")
  | _ => none

/-- A command of the program that checks templates. -/
def ofCheck (name : String) (args : List String) : Option Command := do
  match name with
  | "check" =>
    let a ← Arguments.read [] args
    if a.operands.isEmpty then none else return validate a.operands
  | "bindings" =>
    let a ← Arguments.read [plain ["--sync", "-s"]] args
    match a.operands with
    | [template] => return bindings template (a.has "--sync")
    | _ => none
  | _ => none

/-- A command of the program that manages the store. -/
def ofManage (name : String) (args : List String) : Option Command := do
  match name with
  | "list" =>
    let a ← Arguments.read [] args
    if a.operands.isEmpty then return list else none
  | "create" =>
    let a ← Arguments.read
      (changeFlags ++ [valued ["--content", "-c"], valued ["--description", "-d"]]) args
    match a.operands with
    | [name] =>
      return create name (a.value? "--content") (a.value? "--description") (actorOf a) (a.has "--force")
    | _ => none
  | "show" =>
    let a ← Arguments.read [plain ["--content", "-c"]] args
    match a.operands with
    | [id] => return .show id (a.has "--content")
    | _ => none
  | "version" =>
    let a ← Arguments.read changeFlags args
    match a.operands with
    | [id, content] => return addVersion id content (actorOf a) (a.has "--force")
    | _ => none
  | "update" =>
    let a ← Arguments.read [valued ["--name", "-n"], valued ["--description", "-d"],
      valued ["--status", "-s"], valued ["--actor", "-a"]] args
    match a.operands with
    | [id] =>
      return update id (a.value? "--name") (a.value? "--description") (a.value? "--status") (actorOf a)
    | _ => none
  | "audit" =>
    let a ← Arguments.read [valued ["--limit", "-l"]] args
    let limit ← match a.value? "--limit" with
      | some s => whole? s
      | none => pure defaultLimit
    match a.operands with
    | [id] => return audit id limit
    | _ => none
  | _ => none

/-- The command that arguments spell, if they fit one. -/
def ofArguments? (program : Program) (args : List String) : Option Command :=
  match program, (if args.head? == some "--" then args.tail else args) with
  | _, [] => none
  | .render, name :: rest => ofRender name rest
  | .check, name :: rest => ofCheck name rest
  | .manage, name :: rest => ofManage name rest

/-- The files that a command reads. -/
def inputs : Command → List String
  | markup s _ | file s _ _ | evaluate s _ | layout s _ _ _ => s.template :: s.data.toList
  | validate templates => templates
  | bindings template _ => [template]
  | create _ content _ _ _ => content.toList
  | addVersion _ content _ _ => [content]
  | list | .show _ _ | update _ _ _ _ _ | audit _ _ => []

end Command

end Pagewright.CommandLine
