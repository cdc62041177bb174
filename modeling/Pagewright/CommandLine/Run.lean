import Pagewright.CommandLine.Manage

/-!
# Running commands

The answer to a command line: nothing for a usage error, otherwise an exit code and the session after the
command.
-/

namespace Pagewright.CommandLine

open Pagewright

/-- The exit code of a usage error. -/
def usageError : Nat := 2

/-- What a command does. -/
def Command.act : Command → Act Unit
  | markup sources output => renderMarkup sources output
  | file sources output verbose => renderFile sources output verbose
  | evaluate sources asJson => CommandLine.evaluate sources asJson
  | layout sources pages design asJson => showLayout sources pages design asJson
  | validate templates => validateAll templates
  | bindings template sync => showBindings template sync
  | list => listTemplates
  | create name content description actor force => createTemplate name content description actor force
  | .show id content => showTemplate id content
  | addVersion id content actor force => createVersion id content actor force
  | update id name description status actor => updateTemplate id name description status actor
  | audit id limit => showEvents id limit

/-- Run a command in a session that has printed nothing yet. -/
def Command.run (c : Command) (around : Surroundings) (folder : Folder) (store : World) : Nat × Session :=
  c.act.run around { folder := folder, store := store }

end Pagewright.CommandLine
