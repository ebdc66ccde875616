import Sequencer.Board.Config

/-!
What is wrong with settings, or with a run that does not fit them.
-/
namespace Sequencer

inductive SettingsFault where
  | timeouts
  | wrongEntry (entry board : String)
  | invalidBoard (error : BoardError)
  | sameRole (name peer : String) (role : Role)
  | primaryCount (primaries boards : Nat)
  | syncPhase (phase : Word) (board : String) (limit : Nat)
  | foreignStream (worker stream : String)
  | noPrimary (secondary : String)

open Text in
def SettingsFault.message : SettingsFault → String
  | timeouts => "timeouts must be positive"
  | wrongEntry entry board => s!"board table entry {entry} holds board {board}"
  | invalidBoard error => error.message
  | sameRole name peer role => s!"{name} and its peer {peer} are both {role.name}"
  | primaryCount primaries boards => s!"{primaries} primary boards in a table of {boards}"
  | syncPhase phase board limit =>
    s!"sync_phase {hex phase.toNat} of board {board}: each field must be below {limit}"
  | foreignStream worker stream => s!"worker of {worker} got the stream of {stream}"
  | noPrimary secondary => s!"secondary {secondary} has no primary"

inductive SettingsError where
  /-- There is no such file. -/
  | missingFile
  /-- The document cannot be read as settings. -/
  | undecodable
  /-- The settings have no document. -/
  | unencodable
  | invalid (fault : SettingsFault)

def SettingsError.message : SettingsError → String
  | missingFile => "Cannot access settings file: No such file or directory (os error 2)"
  | undecodable => "Cannot parse settings"
  | unencodable => "Cannot write settings"
  | invalid fault => s!"Invalid settings: {fault.message}"

/-- The short name of an error. -/
def SettingsError.kind : SettingsError → String
  | missingFile => "Io"
  | undecodable => "Decode"
  | unencodable => "Encode"
  | invalid _ => "Invalid"

end Sequencer
