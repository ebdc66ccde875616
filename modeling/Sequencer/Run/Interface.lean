import Sequencer.Link.Client
import Sequencer.Run.Error

/-!
What a worker asks of its surroundings: connections to its board, the mailboxes, the abort flag and
a clock in nanoseconds.
-/
namespace Sequencer

inductive RunCall where
  | link (call : LinkCall)
  /-- Opens a new connection to the board. -/
  | connect
  /-- Hands a message over for a worker; the mailboxes of other processes may be out of reach. -/
  | post (worker : String) (message : Message)
  /-- Waits for a message to come, at most so long. -/
  | wait (worker : String) (awaited : Awaited) (timeout : Nat)
  /-- Takes a message that has come. -/
  | poll (worker : String) (awaited : Awaited)
  | prune (worker : String) (counter : Word)
  | isAborted
  /-- Makes everyone's run end at its next poll. -/
  | abortAll
  | now
  | pause (span : Nat)
  /-- Goes no further. -/
  | stall

def RunCall.Answer : RunCall → Type
  | link call => call.Answer
  | connect => Except LinkError ConnectionId
  | post _ _ => Except BarrierError Unit
  | wait _ _ _ => Except BarrierError Message
  | poll _ _ => Option (Except BarrierError Message)
  | prune _ _ => Nat
  | isAborted => Bool
  | abortAll => Unit
  | now => Nat
  | pause _ => Unit
  | stall => Empty

def runInterface : Interface := ⟨RunCall, RunCall.Answer⟩

/-- A program over connections as a part of a worker's program. -/
def Program.ofLink {α : Type} (p : Program linkInterface α) : Program runInterface α :=
  p.widen (J := runInterface) RunCall.link fun _ answer => answer

end Sequencer
