import Pagewright.Text.Quoted

/-!
# Failures

What can stop an operation. The first group is about templates, data and the store and is worded for
the people who write them; a `Cause` is a value that an operation is not defined on, such as a
number beyond the range of doubles.
-/

namespace Pagewright

/-- A value outside the domain of an operation. -/
inductive Cause where
  /-- A path segment of digits that are no decimal digits. -/
  | notAnIndex (segment : String)
  /-- A path segment with more digits than a number is read from. -/
  | longIndex (digits : Nat)
  /-- A whole number beyond the range of doubles. -/
  | numberTooLarge
  /-- A value where only one of another kind is understood. -/
  | wrongKind (value : Value)
  /-- A list or object where a key is needed. -/
  | notAKey (value : Value)
  /-- A locale tag that is not a text. -/
  | notATag (value : Value)
  /-- A numeral with more digits than decimal arithmetic keeps. -/
  | tooManyDigits
  /-- A quotient by zero. -/
  | divisionByZero
  /-- The whole part of an infinity or of NaN. -/
  | notFinite
  /-- A value that contains itself, where text would be cut short with `{...}`. -/
  | endlessValue
  /-- A date where only values of documents can stand. -/
  | notADocument
  /-- A stored file without a part that it must have. -/
  | missingPart (key : String)
  /-- A stored file or text that is not JSON. -/
  | notJson
  /-- A document with half a surrogate pair, which no text can hold: what is done with it is outside the
  model. -/
  | unpairedSurrogate
  /-- A file that is not there. -/
  | missingFile (path : String)
  /-- A name that is too long for a file. -/
  | longName (name : String)
  /-- A path that no file can have: that of a folder, or one below a file. -/
  | notAFile (path : String)
  deriving Repr

namespace Cause

/-- The name of a value's kind, as messages about locale tags give it. -/
def kindName : Value → String
  | .null => "null"
  | .bool _ => "bool"
  | .int _ => "int"
  | .float _ => "float"
  | .text _ => "str"
  | .list _ => "list"
  | .object _ => "dict"
  | .date _ => "date"
  | .moment _ => "datetime"

/-- The wording of a cause. -/
def message : Cause → String
  | notAnIndex segment => "invalid literal for int() with base 10: " ++ Text.quoted segment
  | longIndex digits =>
    "Exceeds the limit (4300 digits) for integer string conversion: value has " ++ toString digits ++
      " digits; use sys.set_int_max_str_digits() to increase the limit"
  | numberTooLarge => "int too large to convert to float"
  | wrongKind v => "not defined on the value " ++ v.quoted
  | notAKey v => "not a key: " ++ v.quoted
  | notATag v => "'" ++ kindName v ++ "' object has no attribute 'replace'"
  | tooManyDigits => "[<class 'decimal.InvalidOperation'>]"
  | divisionByZero => "division by zero"
  | notFinite => "no whole number"
  | endlessValue => "a value that contains itself"
  | notADocument => "a date in a document"
  | missingPart key => "missing part " ++ Text.quoted key
  | notJson => "not a JSON document"
  | unpairedSurrogate => "half a surrogate pair in a document"
  | missingFile path => "no such file: " ++ Text.quoted path
  | longName name => "name too long: " ++ Text.quoted name
  | notAFile path => "no file can be at " ++ Text.quoted path

end Cause

/-- What stops an operation. -/
inductive Failure where
  /-- A template document of the wrong shape, with the place in it. -/
  | malformedTemplate (problem : String) (location : Option String)
  /-- Partials that include each other in a circle; the first name is repeated at the end. -/
  | cyclicPartials (cycle : List String)
  /-- Required data without a value. -/
  | missingRequired (paths : List String)
  /-- A condition that compares or tests something other than a data path. -/
  | malformedCondition (value : String)
  /-- A change to a template that is not in the store. -/
  | templateNotFound (id : String)
  /-- A document that cannot be read. -/
  | unreadable (problem : String) (source : String) (reason : Option String)
  /-- A page region that does not exist. -/
  | unknownRegion (region : String)
  /-- A locale that is not known. -/
  | unknownLocale (tag : String)
  /-- A new template without a name. -/
  | nameRequired
  /-- A template renamed to nothing. -/
  | nameEmpty
  /-- An audit action that does not exist. -/
  | unknownAction (action : String)
  /-- A value that an operation is not defined on. -/
  | undefinedOn (cause : Cause)
  deriving Repr

/-- The actions that an audit trail records, in alphabetical order. -/
def auditActions : List String :=
  ["template.created", "template.metadata.updated", "template.version.created"]

namespace Failure

/-- The wording of a failure. -/
def message : Failure → String
  | malformedTemplate problem none => problem
  | malformedTemplate problem (some location) => problem ++ " (at " ++ location ++ ")"
  | cyclicPartials cycle => "Cyclic partial reference: " ++ " -> ".intercalate cycle
  | missingRequired paths => "Missing required fields: " ++ ", ".intercalate paths
  | malformedCondition value => "Not a data path: " ++ Text.quoted value
  | templateNotFound id => "Template not found: " ++ id
  | unreadable problem source reason =>
    problem ++ "\n\nSource: " ++ source ++
      (match reason with
       | some reason => "\n\nOriginal error: " ++ reason
       | none => "")
  | unknownRegion region =>
    "Unknown region: " ++ region ++ ". Must be one of ('header', 'body', 'footer')"
  | unknownLocale tag => "Unknown locale: " ++ tag
  | nameRequired => "Template name is required."
  | nameEmpty => "Template name cannot be empty."
  | unknownAction action =>
    "Unknown audit action: " ++ action ++ ". Expected one of " ++ Text.quotedList auditActions
  | undefinedOn cause => cause.message

end Failure

/-- A result of an operation that can fail. -/
abbrev Outcome := Except Failure

/-- Stop because an operation is not defined on a value. -/
def undefinedOn (cause : Cause) : Outcome α := .error (.undefinedOn cause)

end Pagewright
