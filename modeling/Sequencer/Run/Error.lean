import Sequencer.Barrier.Mailbox
import Sequencer.Link.Error
import Sequencer.Link.Status
import Sequencer.Settings.Error
import Sequencer.Text.Duration

/-!
Why a run failed.
-/
namespace Sequencer

/-- What the board itself says against a run. -/
inductive RunFault where
  | clockNotLocked
  | errorState (status : Word)
  | sampleCount (expected actual : Nat)
  | boardTime (expected actual : Nat)
  | aborted
  /-- The board has not ended within a time in nanoseconds. -/
  | timeout (limit : Nat)
  deriving DecidableEq, Repr

namespace RunFault

def message (board : String) : RunFault → String
  | clockNotLocked => s!"Board {board}: external clock is not locked"
  | errorState status => s!"Board {board} is in error state: {Status.text status}"
  | sampleCount expected actual =>
    s!"Board {board} output {actual} samples, expected {expected}"
  | boardTime expected actual => s!"Board {board} stopped at time {actual}, expected {expected}"
  | aborted => s!"Board {board}: run aborted"
  | timeout limit => s!"Board {board} did not end within {Duration.text limit}"

/-- The short name of a fault. -/
def kind : RunFault → String
  | clockNotLocked => "ClockNotLocked"
  | errorState _ => "BoardInErrorState"
  | sampleCount .. => "SampleCountMismatch"
  | boardTime .. => "BoardTimeMismatch"
  | aborted => "Aborted"
  | timeout _ => "RunTimeout"

end RunFault

inductive WorkerError where
  | compile (error : BoardError)
  | link (board : String) (error : LinkError)
  | run (board : String) (fault : RunFault)
  | barrier (error : BarrierError)
  | settings (error : SettingsError)

namespace WorkerError

def message : WorkerError → String
  | compile error => error.message
  | link board error => s!"Board {board}: {error.message}"
  | run board fault => fault.message board
  | barrier error => error.message
  | settings error => error.message

/-- The name of the part that failed and the short name of its error. -/
def kind : WorkerError → String
  | compile error => s!"Compile.{error.kind}"
  | link _ error => s!"Protocol.{error.kind}"
  | run _ fault => s!"Run.{fault.kind}"
  | barrier error => s!"Coordination.{error.kind}"
  | settings error => s!"Settings.{error.kind}"

/-- How far an error is from a cause: zero for a failure of one's own, one for the failure of a
peer, two for a run that was only told to end. -/
def distance : WorkerError → Nat
  | run _ .aborted => 2
  | barrier (.peerFailed ..) => 1
  | _ => 0

end WorkerError

end Sequencer
