import Sequencer.Routing.Table

/-!
Options of a run, each of them set or left open.

`merge` lays one set of options over another. Routes are merged by destination, everything else as
a whole.
-/
namespace Sequencer

structure RunOptions where
  /-- The whole control word while running. -/
  control : Option Word := none
  inputs : Option Selection := none
  outputs : Option Selection := none
  externalClock : Option Bool := none
  ignoreClockLoss : Option Bool := none
  syncWait : Option Word := none
  syncPhase : Option Word := none
  strobeDelay : Option Word := none
  /-- How often the stream is repeated; zero repeats it for ever. -/
  cycles : Option Word := none
  simulate : Option Bool := none
  deriving DecidableEq

namespace RunOptions

def unset : RunOptions := {}

def mergeSelection (lower upper : Option Selection) : Option Selection :=
  match lower, upper with
  | some lower, some upper => some (lower.merge upper)
  | lower, upper => upper <|> lower

def merge (lower upper : RunOptions) : RunOptions where
  control := upper.control <|> lower.control
  inputs := mergeSelection lower.inputs upper.inputs
  outputs := mergeSelection lower.outputs upper.outputs
  externalClock := upper.externalClock <|> lower.externalClock
  ignoreClockLoss := upper.ignoreClockLoss <|> lower.ignoreClockLoss
  syncWait := upper.syncWait <|> lower.syncWait
  syncPhase := upper.syncPhase <|> lower.syncPhase
  strobeDelay := upper.strobeDelay <|> lower.strobeDelay
  cycles := upper.cycles <|> lower.cycles
  simulate := upper.simulate <|> lower.simulate

/-- The names of the options that are set. -/
def keys (o : RunOptions) : List String :=
  [("config", o.control.isSome), ("inputs", o.inputs.isSome), ("outputs", o.outputs.isSome),
   ("ext_clock", o.externalClock.isSome), ("ignore_clock_loss", o.ignoreClockLoss.isSome),
   ("sync_wait", o.syncWait.isSome), ("sync_phase", o.syncPhase.isSome),
   ("strb_delay", o.strobeDelay.isSome), ("num_cycles", o.cycles.isSome),
   ("simulate", o.simulate.isSome)].filterMap fun (key, isSet) => if isSet then some key else none

def isEmpty (o : RunOptions) : Bool := o.keys.isEmpty

end RunOptions

end Sequencer
