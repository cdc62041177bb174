import Pagewright.Service.Request

/-!
# Endpoints

What a request asks for is decided by its path and method. A slash at the end of a path is passed over.
-/

namespace Pagewright.Service

open Pagewright

/-- What the service can be asked for. -/
inductive Endpoint where
  | health
  | listTemplates
  | createTemplate
  | showTemplate (id : String)
  | updateTemplate (id : String)
  | listVersions (id : String)
  | createVersion (id : String)
  | listEvents (id : String)
  | evaluate
  | render
  | renderFile
  deriving Repr, DecidableEq

/-- Why a request leads nowhere. -/
inductive RoutingProblem where
  | notFound
  | methodNotAllowed
  deriving Repr, DecidableEq

namespace Endpoint

/-- The methods that a path knows and what each asks for. -/
def ofParts (parts : List String) : List (String × Endpoint) :=
  match parts with
  | ["", "health"] => [("GET", health)]
  | ["", "api", "templates"] => [("GET", listTemplates), ("POST", createTemplate)]
  | ["", "api", "templates", id] =>
    if id.isEmpty then [] else [("GET", showTemplate id), ("PATCH", updateTemplate id)]
  | ["", "api", "templates", id, "versions"] =>
    if id.isEmpty then [] else [("GET", listVersions id), ("POST", createVersion id)]
  | ["", "api", "templates", id, "audit"] => if id.isEmpty then [] else [("GET", listEvents id)]
  | ["", "api", "evaluate"] => [("POST", evaluate)]
  | ["", "api", "render"] => [("POST", render)]
  | ["", "api", "render-pdf"] => [("POST", renderFile)]
  | _ => []

/-- The methods that a text of a path knows. -/
def ofPath (path : List Char) : List (String × Endpoint) :=
  ofParts ((Text.splitOn ['/'] path).map String.ofList)

/-- What a request asks for. -/
def ofRequest (r : Request) : Except RoutingProblem Endpoint :=
  let path := r.path.toList
  let methods :=
    match ofPath path with
    | [] => ofPath (path.reverse.dropWhile (· == '/')).reverse
    | methods => methods
  match methods.lookup r.method with
  | some endpoint => .ok endpoint
  | none => .error (if methods.isEmpty then .notFound else .methodNotAllowed)

end Endpoint

end Pagewright.Service
