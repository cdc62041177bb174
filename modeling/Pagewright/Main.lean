import Pagewright.CommandLine.Run
import Std.Time.DateTime.Timestamp

/-!
# The program

`pagewright render|check|manage COMMAND ...` runs one command in the current folder. The files that the command
reads and the store in `outs/store` are read first, the command is run on them, and the files that it
changed are written. No browser is started from here, so a finished file is always reported as failed.
-/

namespace Pagewright.Program

open Pagewright CommandLine

/-- The folder of the store. -/
def storeFolder : String := "outs/store/"

/-- The path of the audit trail. -/
def auditPath : String := storeFolder ++ "audit.jsonl"

/-- The text of a file, if there is one. -/
def readFile? (path : String) : IO (Option String) := do
  try return some (← IO.FS.readFile path) catch _ => return none

/-- The names of the files in a folder, in order. -/
def namesIn (folder : String) : IO (List String) := do
  try return sortUnique ((← (← IO.FS.realPath folder).readDir).toList.map (·.fileName))
  catch _ => return []

/-- Write a file, and make the folders it is in. -/
def writeFile (path text : String) : IO Unit := do
  match (FilePath.folders path).getLast? with
  | some folder => IO.FS.createDirAll folder
  | none => pure ()
  IO.FS.writeFile path text

/-- The files that a command reads. A folder among them is shown by the names in it. -/
def readInputs (paths : List String) : IO Folder := do
  let mut folder : Folder := {}
  for path in paths do
    match ← readFile? path with
    | some text => folder := ⟨Folder.putFile folder.files (FilePath.normal path) text⟩
    | none =>
      for name in ← namesIn path do
        folder := ⟨Folder.putFile folder.files (FilePath.normal (path ++ "/" ++ name)) ""⟩
  return folder

/-- The files of the store. -/
def readStore : IO Disk := do
  let mut disk : Disk := {}
  let versions ← namesIn (storeFolder ++ "versions")
  for folder in Store.recordFolder :: versions.map Store.versionFolder do
    for name in ← namesIn (storeFolder ++ folder) do
      let path := Disk.inFolder folder name
      match ← readFile? (storeFolder ++ path) with
      | some text => disk := disk.put path (.text text)
      | none => pure ()
  return { disk with audit := (← readFile? auditPath).map AuditTrail.ofText }

/-- Write what has changed in the folder. -/
def writeFolder (before after : Folder) : IO Unit :=
  for (path, text) in after.files do
    if before.find? path != some text then writeFile path text

/-- Write what has changed in the store. -/
def writeStore (before after : Disk) : IO Unit := do
  for (path, contents) in after.files do
    if (before.find? path).map Contents.toText != some contents.toText then
      writeFile (storeFolder ++ path) contents.toText
  for (path, _) in before.files do
    if (after.find? path).isNone then IO.FS.removeFile (storeFolder ++ path)
  let trail (d : Disk) := d.audit.map AuditTrail.text
  match trail after with
  | some text => if trail before != some text then writeFile auditPath text
  | none => pure ()

/-- The current time. -/
def currentTime : IO DateTime := do
  let elapsed := (← Std.Time.Timestamp.now).toNanosecondsSinceUnixEpoch.val.toNat / 1000
  return .ofMicroseconds ((DateTime.mk ⟨1970, 1, 1⟩ 0 0 0 0).microseconds + elapsed)

/-- A fresh id. -/
def freshId : IO String := do
  let bytes ← IO.getRandomBytes 16
  return String.ofList (bytes.toList.flatMap fun byte => Text.hex 2 byte.toNat)

/-- The most ids that a command takes. -/
def idCount : Nat := 8

/-- What a command finds around it. -/
def surroundings : IO Surroundings := do
  let now ← currentTime
  let ids ← (List.range idCount).mapM fun _ => freshId
  let here ← IO.FS.realPath "."
  let digits (t : DateTime) := (t.toSecond.toList.filter fun c => c.isDigit)
  return {
    supply := {
      id := fun n => ids.getD n (String.ofList (Text.hex 32 n))
      time := fun n => (DateTime.ofMicroseconds (now.microseconds + n)).isoWith 'T' }
    rasterize := Browser.rasterizer (fun _ => none) "" 30.0 "document.html"
    folder := here.toString
    stamp := String.ofList ((digits now).take 8 ++ '_' :: (digits now).drop 8)
    now := now }

/-- A message as a line of the log. -/
def logLine (m : Message) : String :=
  match m.level with
  | some level => level.name ++ " " ++ m.text ++ "\n"
  | none => m.text ++ "\n"

/-- Run a command. -/
def perform (command : Command) : IO UInt32 := do
  let folder ← readInputs command.inputs
  let disk ← readStore
  let (code, session) := command.run (← surroundings) folder { disk := disk }
  writeFolder folder session.folder
  writeStore disk session.store.disk
  match session.log with
  | some path => writeFile path (String.join (session.messages.map logLine))
  | none => pure ()
  (← IO.getStdout).putStr session.printed
  (← IO.getStderr).putStr session.complaints
  return UInt32.ofNat code

/-- The program that a name stands for. -/
def named : String → Option CommandLine.Program
  | "render" => some .render
  | "check" => some .check
  | "manage" => some .manage
  | _ => none

end Pagewright.Program

/-- Run the command that the arguments spell. -/
def main (args : List String) : IO UInt32 := do
  let command := do
    let program ← Pagewright.Program.named (← args.head?)
    Pagewright.CommandLine.Command.ofArguments? program args.tail
  match command with
  | some command => Pagewright.Program.perform command
  | none => do
    IO.eprintln "usage: pagewright render|check|manage COMMAND ..."
    return UInt32.ofNat Pagewright.CommandLine.usageError
