import Pagewright.Value

/-!
# Options and operands

The arguments of a command are options, each with or without a value, and operands. A long option takes its
value after `=` or from the next argument; short options without a value can share one dash, and the
value of the last one may follow at once. Options may stand after operands, and after `--` there are
operands only.
-/

namespace Pagewright.CommandLine

open Pagewright

/-- An option that a command knows. The first of its names identifies it. -/
structure Flag where
  names : List String
  takesValue : Bool
  deriving Repr, DecidableEq

namespace Flag

/-- The name that identifies an option. -/
def key (f : Flag) : String := f.names.head?.getD ""

/-- The option with a name. -/
def find? (known : List Flag) (name : String) : Option Flag := known.find? fun f => f.names.contains name

end Flag

/-- Arguments in order: options by their keys, and operands. -/
structure Arguments where
  options : List (String × String) := []
  operands : List String := []
  deriving Repr, DecidableEq

/-- What one argument gives: options, and the option whose value is the next argument. -/
structure Cluster where
  given : List (String × String) := []
  awaiting : Option String := none
  deriving Repr, DecidableEq

namespace Arguments

/-- The options in an argument with one dash, whose letters are given. -/
def shortOptions (known : List Flag) : List Char → Option Cluster
  | [] => some {}
  | c :: rest =>
    match Flag.find? known (String.ofList ['-', c]) with
    | none => none
    | some f =>
      if f.takesValue then
        if rest.isEmpty then some { awaiting := some f.key }
        else some { given := [(f.key, String.ofList rest)] }
      else (shortOptions known rest).map fun more => { more with given := (f.key, "") :: more.given }

/-- The option in an argument with two dashes. -/
def longOption (known : List Flag) (arg : List Char) : Option Cluster :=
  let name := arg.takeWhile (· != '=')
  let explicit := arg.drop name.length
  match Flag.find? known (String.ofList name) with
  | none => none
  | some f =>
    match f.takesValue, explicit with
    | true, [] => some { awaiting := some f.key }
    | true, _ :: value => some { given := [(f.key, String.ofList value)] }
    | false, [] => some { given := [(f.key, "")] }
    | false, _ :: _ => none

/-- The options in an argument that starts with a dash. -/
def optionsOf (known : List Flag) (arg : List Char) : Option Cluster :=
  match arg with
  | '-' :: '-' :: _ => longOption known arg
  | _ => shortOptions known arg.tail

/-- Whether an argument is made of options. -/
def isOptions (arg : List Char) : Bool := arg.head? == some '-' && arg.length > 1

/-- Arguments as options and operands; `none` where an option is not known or lacks its value. -/
def read (known : List Flag) : List String → Option Arguments
  | [] => some {}
  | arg :: rest =>
    if arg == "--" then some { operands := rest }
    else if isOptions arg.toList then
      match optionsOf known arg.toList with
      | none => none
      | some ⟨given, none⟩ =>
        (read known rest).map fun more => { more with options := given ++ more.options }
      | some ⟨given, some key⟩ =>
        match rest with
        | [] => none
        | value :: rest =>
          (read known rest).map fun more =>
            { more with options := given ++ (key, value) :: more.options }
    else (read known rest).map fun more => { more with operands := arg :: more.operands }

/-- All values of an option. -/
def values (a : Arguments) (key : String) : List String :=
  a.options.filterMap fun o => if o.1 == key then some o.2 else none

/-- The value of an option: the last one given. -/
def value? (a : Arguments) (key : String) : Option String := (a.values key).getLast?

/-- Whether an option is given. -/
def has (a : Arguments) (key : String) : Bool := !(a.values key).isEmpty

end Arguments

end Pagewright.CommandLine
