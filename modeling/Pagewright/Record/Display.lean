import Pagewright.Failure
import Pagewright.Json.Writer

/-!
# Values as document text

How a value of the data record reads where a document shows it: nothing for null, whole doubles
without a point, the items of a list with commas between them, an object as JSON.
-/

namespace Pagewright.Value

mutual

/-- The text that a document shows for a value. -/
def shown : Value → Outcome String
  | null => .ok ""
  | bool b => .ok (if b then "true" else "false")
  | float x =>
    .ok (match Binary64.integer? x with
      | some n => toString n
      | none => Binary64.text x)
  | list items => do return ",".intercalate (← shownItems items)
  | object entries =>
    if Json.isDocument (object entries) then .ok (Json.compact (object entries))
    else undefinedOn .notADocument
  | v => .ok v.display

/-- The texts that a document shows for the items of a list. -/
def shownItems : List Value → Outcome (List String)
  | [] => .ok []
  | v :: rest => do
    let s ← shown v
    return s :: (← shownItems rest)

end

end Pagewright.Value
