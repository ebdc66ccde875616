import Sequencer.Bus.Word
import Sequencer.Text.Layout

/-!
The control and status registers of a board, and what a status word says about the run.
-/
namespace Sequencer

private def bit (n : Nat) : Word := BitVec.twoPow 32 n

namespace Control

def autoSync : Word := bit 5
def autoSyncPrimary : Word := bit 6
/-- Samples of twelve bytes: two racks instead of one. -/
def twoRacks : Word := bit 8
def externalClock : Word := bit 10
/-- A lost clock is an error of the board. -/
def lockErrorEnable : Word := bit 15
def interruptEnable : Word := bit 20
def interruptAtEnd : Word := bit 21
def interruptPeriodic : Word := bit 23

/-- What a secondary clears to be on its own again. -/
def manualMask : Word := externalClock ||| autoSync ||| autoSyncPrimary

end Control

namespace Status

def ready : Word := bit 1
def run : Word := bit 2
def ended : Word := bit 3
def waiting : Word := bit 4
def externalUsed : Word := bit 10
def externalLocked : Word := bit 11
def errorSend : Word := bit 12
def errorReceive : Word := bit 13
def errorTime : Word := bit 14
def errorLock : Word := bit 15
def errorKeep : Word := bit 16 ||| bit 17 ||| bit 18
def interruptEnd : Word := bit 21
def interruptRestart : Word := bit 22

def errors : Word := errorSend ||| errorReceive ||| errorTime ||| errorLock ||| errorKeep

/-- The bits that have a name, from the lowest to the highest. -/
def flags : List (Nat × String) :=
  [(0, "reset"), (1, "ready"), (2, "run"), (3, "end"), (4, "wait"), (5, "auto_sync"),
   (6, "sync_timeout"), (7, "phase_shifting"), (8, "tx_full"), (9, "rx_full"),
   (10, "ext_clock_used"), (11, "ext_clock_locked"), (12, "err_tx"), (13, "err_rx"),
   (14, "err_time"), (15, "err_lock"), (16, "err_tkeep0"), (17, "err_tkeep1"), (18, "err_tkeep2"),
   (20, "irq_error"), (21, "irq_end"), (22, "irq_restart"), (23, "irq_state"), (24, "irq_fpga"),
   (25, "irq_data"), (30, "btn_0"), (31, "btn_1")]

/-- The names of the bits that are set. -/
def names (status : Word) : List String :=
  (flags.filter fun f => status.isSet (bit f.1)).map Prod.snd

def text (status : Word) : String :=
  s!"{Text.hex status.toNat 8} {Text.bracketed (names status)}"

/-- Whether all bits of the mask are set. -/
def contains (status mask : Word) : Bool := status &&& mask == mask

end Status

/-- Which bits of the status fail a run. -/
structure ErrorPolicy where
  /-- A lost clock is reported, but is no error. -/
  ignoreClockLoss : Bool := false
  deriving DecidableEq, Repr

def ErrorPolicy.errorMask (p : ErrorPolicy) : Word :=
  if p.ignoreClockLoss then Status.errors.clear Status.errorLock else Status.errors

inductive RunState where
  /-- Not started. -/
  | idle
  | running
  /-- Halted at a stop marker until the restart trigger. -/
  | waiting
  /-- Running again after a halt. -/
  | restarted
  | ended
  | failed
  deriving DecidableEq, Repr

def RunState.name : RunState → String
  | idle => "Idle"
  | running => "Running"
  | waiting => "Waiting"
  | restarted => "Restart"
  | ended => "End"
  | failed => "Error"

/-- A status word under a policy. -/
structure StatusSummary where
  state : RunState
  flags : Word
  /-- The bits that the policy takes for errors. -/
  errors : Word
  clockLocked : Bool
  clockLostRunning : Bool
  clockLostAtEnd : Bool
  deriving DecidableEq, Repr

namespace StatusSummary

def stateOf (status errors : Word) : RunState :=
  if errors != 0 then .failed
  else if status.isSet Status.ended then .ended
  else if status.isSet Status.waiting then .waiting
  else if status.isSet Status.run && status.isSet Status.interruptRestart then .restarted
  else if status.isSet Status.run then .running
  else .idle

/-- Whether the external clock is wanted but not there. -/
def clockMissing (status : Word) : Bool :=
  status.isSet Status.errorLock
    || (status.isSet Status.externalUsed && !status.isSet Status.externalLocked)

def of (status : Word) (policy : ErrorPolicy) : StatusSummary :=
  let errors := status &&& policy.errorMask
  let state := stateOf status errors
  { state, errors
    flags := status
    clockLocked := status.isSet Status.externalLocked
    clockLostRunning := clockMissing status && state ∈ [.running, .waiting, .restarted]
    clockLostAtEnd := clockMissing status && state = .ended }

def finished (s : StatusSummary) : Bool := s.state ∈ [.ended, .failed]

def clockLost (s : StatusSummary) : Bool := s.clockLostRunning || s.clockLostAtEnd

end StatusSummary

namespace Register

def control : Word := 0x00
def inputs0 : Word := 0x04
def inputs1 : Word := 0x08
def outputs0 : Word := 0x0C
def outputs1 : Word := 0x10
def clockDivider : Word := 0x14
def strobeDelay : Word := 0x18
def syncDelay : Word := 0x1C
def syncPhase : Word := 0x20
def samples : Word := 0x24
def cycles : Word := 0x28
def status : Word := 0x40
def boardTime : Word := 0x44
def boardSamples : Word := 0x48
def boardCycles : Word := 0x4C

end Register

/-- Phase steps of a full turn. -/
def fullPhase : Nat := 1120

/-- The phases of the external clock and of the detector in one word, twelve bits for the latter. -/
def packPhase (external detector : Nat) : Word :=
  BitVec.ofNat 32 ((external % fullPhase) <<< 12 ||| detector % fullPhase)

/-- Start and end of both strobes in clock cycles, the first in the lowest byte. -/
def packStrobeDelay (start0 end0 start1 end1 : Byte) : Word :=
  Word.ofLittleEndian start0 end0 start1 end1

end Sequencer
