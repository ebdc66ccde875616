import Sequencer.Settings.Worker
import Sequencer.Toml.Document
import Sequencer.Toml.Printer

/-!
Worker settings as documents.

Settings are validated when they are read, but not when they are written.
-/
namespace Sequencer.WorkerSettings

def ofDocument (text : String) : Except SettingsError WorkerSettings := do
  let some settings := Toml.read? text >>= ofValue? | throw .undecodable
  settings.validate
  return settings

def toDocument (settings : WorkerSettings) : Except SettingsError String :=
  match Toml.write? settings.toValue with
  | some text => .ok text
  | none => .error .unencodable

/-- Whether a document is read as the same settings. -/
def isRead (settings : WorkerSettings) (text : String) : Except SettingsError Bool := do
  return (← ofDocument text) == settings

/-- The name of a file up to the last point in it, if there is one behind the first character, and
what follows that point. -/
def splitName (name : String) : String × Option String :=
  match name.toList.reverse.span (· != '.') with
  | (after, '.' :: before) =>
    if before.isEmpty then (name, none)
    else (String.ofList before.reverse, some (String.ofList after.reverse))
  | _ => (name, none)

/-- Documents have the ending `toml`; another ending is replaced. -/
def documentName (name : String) : String :=
  let (stem, ending) := splitName name
  if ending = some "toml" then name else stem ++ ".toml"

/-- The name and the text of a document in a directory without directories in it. -/
def toFile (settings : WorkerSettings) (name : String) : Except SettingsError (String × String) := do
  if name.any (· == '/') then throw .missingFile
  return (documentName name, ← settings.toDocument)

end Sequencer.WorkerSettings
