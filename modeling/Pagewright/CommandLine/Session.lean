import Pagewright.File.Document
import Pagewright.Rendering.Rasterizer
import Pagewright.Store.Procedure

/-!
# Sessions of a command

A command works on a folder of files and on a store, prints to the terminal, and ends with an exit code. A
failure that a command does not report itself ends it with code 1; what was printed before stays.
-/

namespace Pagewright.CommandLine

open Pagewright

/-- What a command finds around it. -/
structure Surroundings where
  supply : Supply
  rasterize : Rasterizer
  /-- The path of the folder that the command works in. -/
  folder : String
  /-- The time of its log in the name of the log's folder. -/
  stamp : String
  /-- The time that other times are told relative to. -/
  now : DateTime

/-- The files, what was printed, and the log. -/
structure Session where
  folder : Folder := {}
  store : World := {}
  printed : String := ""
  complaints : String := ""
  messages : List Message := []
  /-- The file that the log goes to. -/
  log : Option String := none
  deriving Inhabited

/-- Part of a command. A thrown number is the exit code. -/
abbrev Act := ReaderT Surroundings (ExceptT Nat (StateM Session))

namespace Act

/-- Print a line. -/
def print (line : String) : Act Unit :=
  modify fun s => { s with printed := s.printed ++ line ++ "\n" }

/-- Print a line about what went wrong. -/
def complain (line : String) : Act Unit :=
  modify fun s => { s with complaints := s.complaints ++ line ++ "\n" }

/-- End with an exit code. -/
def leave (code : Nat) : Act α := throw code

/-- Go on with the outcome of an operation, after its messages. -/
def observe (x : Logged α) : Act (Outcome α) := do
  modify fun s => { s with messages := s.messages ++ x.messages }
  return x.outcome

/-- Go on with a result; a failure ends the command. -/
def require (x : Outcome α) : Act α :=
  match x with
  | .ok a => return a
  | .error _ => leave 1

/-- Go on with the result of an operation, after its messages. -/
def obtain (x : Logged α) : Act α := do require (← observe x)

/-- Go on with the outcome of a procedure on the store. -/
def onStore (t : Procedure α) : Act (Outcome α) := do
  let (w, x) := t.run (← read).supply (← get).store
  modify fun s => { s with store := w }
  observe x

/-- End with a message for a failure that the command expects, and without one for any other. -/
def explain (isExpected : Failure → Bool) (e : Failure) : Act α := do
  if isExpected e then complain ("Error: " ++ e.message ++ "\n")
  leave 1

/-- Save a document in the folder. -/
def save (path : String) (document : Value) : Act Unit := do
  let f ← require ((← get).folder.save path document)
  modify fun s => { s with folder := f }

/-- Write a file in the folder. -/
def write (path text : String) : Act Unit := do
  let f ← require ((← get).folder.write path text)
  modify fun s => { s with folder := f }

/-- Start a log; its folder is named for what the command does. -/
def startLog (kind name : String) : Act String := do
  let path := "outs/logs/" ++ kind ++ "_" ++ (← read).stamp ++ "/" ++ name ++ ".log"
  modify fun s => { s with log := some path }
  return path

/-- Run a command: the exit code and the session then. -/
def run (act : Act Unit) (around : Surroundings) (s : Session) : Nat × Session :=
  match (act around).run s with
  | (.ok (), s) => (0, s)
  | (.error code, s) => (code, s)

end Act

/-- Print each of some lines. -/
def printAll (lines : List String) : Act Unit := lines.forM Act.print

end Pagewright.CommandLine
