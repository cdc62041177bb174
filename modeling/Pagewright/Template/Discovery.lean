import Pagewright.Binding.Placeholder
import Pagewright.Contract.Evaluation
import Pagewright.Log

/-!
# Bindings of a template

Which data a template reads: the paths in the placeholders of its texts, and the dotted paths in its
conditions, in partials as far as inclusions lead to them. `Template.discover` lists them, sorted and
without repetition; `Template.syncContract` makes the contract's fields exactly these.
-/

namespace Pagewright

/-- Put a text into a sorted list without repetition. -/
def insertSorted (s : String) : List String → List String
  | [] => [s]
  | t :: rest => if s < t then s :: t :: rest else if s = t then t :: rest else t :: insertSorted s rest

/-- Texts in order and without repetition. -/
def sortUnique (ss : List String) : List String := ss.foldr insertSorted []

namespace Template

/-- The elements that are read, inclusions of known partials replaced by what is in them, to any depth.
`active` holds the partials on the way down; one that includes itself is not entered again, so `depth`,
the number of partials not on the way, bounds the descent. -/
def readElements (t : Template) (depth : Nat) (active : List String) (elements : List Element) :
    Outcome (List Element) :=
  match elements with
  | [] => .ok []
  | e :: rest => do
    let here ←
      match e.content.inclusion? with
      | none => pure [e]
      | some ref =>
        match ref, ← t.partial? ref, depth with
        | .text name, some children, depth + 1 =>
          if active.contains name then pure []
          else readElements t depth (name :: active) children
        | _, some _, _ => pure []
        | _, none, _ => pure [e]
    return here ++ (← readElements t depth active rest)
termination_by (depth, elements.length)

/-- All elements that are read. -/
def allElements (t : Template) : Outcome (List Element) :=
  t.readElements t.partials.length [] t.elements

/-- The paths in the placeholders of an element. -/
def textPathsOf (e : Element) : List String :=
  e.content.bindingFields.flatMap fun v =>
    match v with
    | .text s => Binding.pathsOf s
    | _ => []

/-- The paths in the placeholders of a template, in order. -/
def textPaths (t : Template) : Outcome (List String) := do
  return (← t.allElements).flatMap textPathsOf

/-- The paths that are figures of the page. -/
def isPageFigure (path : String) : Bool := path == Binding.pageNumber || path == Binding.pageCount

/-- Every data path that a template reads. -/
def discover (t : Template) : Outcome (List String) := do
  let texts ← t.textPaths
  let conditions ← (← t.allElements).mapM fun e => Binding.conditionPaths e.visibleIf
  return sortUnique ((texts ++ conditions.flatten).filter fun p => !isPageFigure p && !p.isEmpty)

/-- The field of a path that no one has declared: read from the payload at the same path, empty where
there is nothing. -/
def defaultField (path : String) : ContractField where
  path := path
  externalPath := .text path
  defaultValue := .text ""
  hasDefault := true

/-- The field declared for a path, the last one if there are several. -/
def declared? (c : Contract) (path : String) : Option ContractField :=
  c.reverse.find? fun f => f.path == path

/-- The contract that declares exactly the given paths. -/
def contractFor (c : Contract) (paths : List String) : Contract :=
  paths.map fun path => (declared? c path).getD (defaultField path)

/-- The template with its contract brought in line with what it reads. -/
def syncContract (t : Template) : Outcome Template := do
  return { t with contract := contractFor t.contract (← t.discover) }

/-- Texts without those that occurred before. -/
def firsts : List String → List String → List String
  | _, [] => []
  | seen, s :: rest => if seen.contains s then firsts seen rest else s :: firsts (s :: seen) rest

/-- What the log says about bringing a contract in line. -/
def syncMessages (t : Template) (paths : List String) : List Message :=
  let name := "[template] " ++ (if t.name.isEmpty then t.id else t.name) ++ ": "
  let old := firsts [] (t.contract.map (·.path))
  let added := paths.filter fun p => !old.contains p
  let removed := old.filter fun p => !paths.contains p
  if added.isEmpty && removed.isEmpty then [⟨some .debug, name ++ "data contract already in sync"⟩]
  else
    (if added.isEmpty then []
     else [⟨some .info, name ++ "contract fields added: " ++ ", ".intercalate added⟩]) ++
    (if removed.isEmpty then []
     else [⟨some .info, name ++ "contract fields removed: " ++ ", ".intercalate removed⟩])

/-- The template with its contract brought in line, with messages. -/
def syncContractLogged (t : Template) : Logged Template :=
  match t.discover with
  | .ok paths => ⟨syncMessages t paths, .ok { t with contract := contractFor t.contract paths }⟩
  | .error e => ⟨[], .error e⟩

/-- The paths in placeholders that have no value in a data record. -/
def missingBindings (t : Template) (data : Value) : Outcome (List String) := do
  let paths := (← t.textPaths).filter fun p => !isPageFigure p
  let missing ← paths.filterM fun p => do return (← data.find p).isNull
  return sortUnique missing

/-- The paths in placeholders that have no value, with a message when there are any. -/
def missingBindingsLogged (t : Template) (data : Value) : Logged (List String) := do
  let missing ← liftM (t.missingBindings data)
  if !missing.isEmpty then
    Logged.say .debug ("[template] " ++ toString missing.length ++
      " binding(s) resolve to nothing: " ++ ", ".intercalate missing)
  return missing

end Template

end Pagewright
