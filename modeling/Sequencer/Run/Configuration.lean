import Sequencer.Link.Frame
import Sequencer.Routing.Firmware
import Sequencer.Run.Error
import Sequencer.Stream.Basic

/-!
The configuration of a board for the run of a stream.
-/
namespace Sequencer

namespace Stream

private def bitsIf (condition : Bool) (bits : Word) : Word := if condition then bits else 0

def errorPolicy (s : Stream) : ErrorPolicy := ⟨s.options.ignoreClockLoss.getD false⟩

/-- The control word, unless the options set all of it. -/
def controlBits (s : Stream) : Word :=
  let c := s.config
  let isPrimary := c.role = .primary
  let hasPeers := !c.peers.isEmpty
  Control.interruptEnable ||| Control.interruptAtEnd ||| Control.interruptPeriodic
    ||| bitsIf (!s.errorPolicy.ignoreClockLoss) Control.lockErrorEnable
    ||| bitsIf (c.racks = 2) Control.twoRacks
    ||| bitsIf (s.options.externalClock.getD false || !isPrimary) Control.externalClock
    ||| bitsIf hasPeers Control.autoSync
    ||| bitsIf (hasPeers && isPrimary) Control.autoSyncPrimary

/-- The routing registers of a selection; without one every destination has its default. -/
def routes (selection : Option Selection) (direction : Direction) :
    Except WorkerError (Word × Word) :=
  match selection with
  | none => .ok (0, 0)
  | some selection =>
    match (RoutingTable.ofDirection direction).merge ⟨0, 0⟩ selection with
    | .ok r => .ok (r.first, r.second)
    | .error e => .error (.compile (.routing e))

/-- The nearest whole number in 32 bits, a half going up. -/
def rateWord (rate : Float) : Word :=
  let down := rate.toUInt32.toNat
  let nearest := if rate - Float.ofNat down ≥ 0.5 then down + 1 else down
  .ofNat 32 (min nearest (2 ^ 32 - 1))

/-- The configuration of a run. Each half of the phase must be less than a full turn. -/
def runningConfig (s : Stream) : Except WorkerError ConfigFrame := do
  let phase := s.options.syncPhase.getD 0
  if fullPhase ≤ phase.toNat >>> 12 ∨ fullPhase ≤ phase.toNat % 2 ^ 12 then
    throw (.settings (.invalid (.syncPhase phase s.name fullPhase)))
  return { clockRate := rateWord s.config.clockRate
           scanRate := rateWord s.config.busRate
           control := s.options.control.getD s.controlBits
           inputs := ← routes s.options.inputs .input
           outputs := ← routes s.options.outputs .output
           cycles := s.options.cycles.getD 1
           samples := .ofNat 32 s.rows.length
           strobeDelay := s.options.strobeDelay.getD 0
           syncWait := s.options.syncWait.getD 0
           syncPhase := phase }

end Stream

end Sequencer
