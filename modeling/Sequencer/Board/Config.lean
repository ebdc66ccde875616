import Sequencer.Board.Error
import Sequencer.Board.Options

/-!
The description of one board: rates, racks, strobe, and its part in a run of several boards.
-/
namespace Sequencer

/-- The primary starts last and stops the others; a secondary follows its primary. -/
inductive Role where
  | primary | secondary
  deriving DecidableEq, Repr

def Role.name : Role → String
  | primary => "primary"
  | secondary => "secondary"

structure BoardConfig where
  name : String := ""
  endpoint : String := "127.0.0.1:49701"
  /-- Ticks per second on the bus. -/
  busRate : Float := 1e6
  clockRate : Float := 100e6
  racks : Nat := 1
  role : Role := .primary
  /-- The secondaries of a primary, or the primary of a secondary. -/
  peers : List String := []
  /-- Invert the strobe bit in every other row instead of at markers. -/
  autoStrobe : Bool := true
  /-- Decode every written value again while compiling. -/
  checkCodecs : Bool := false
  strobePosition : Nat := Word.defaultStrobe
  initialCounter : Word := 0
  /-- The rate at which ramps are sampled; without one, every tick. -/
  rampRate : Option Float := none
  defaults : RunOptions := {}
  deriving BEq

namespace BoardConfig

/-- The first fault of a configuration. -/
def fault? (c : BoardConfig) : Option SettingFault :=
  if c.name.isEmpty then some .emptyName
  else if c.racks < 1 ∨ 2 < c.racks then some (.rackCount c.racks)
  else if !(c.busRate.isFinite && c.busRate > 0.0) then some (.busRate c.busRate)
  else if !(c.clockRate.isFinite && c.clockRate ≥ c.busRate) then
    some (.clockBelowBus c.clockRate c.busRate)
  else if !Word.strobeMayBe c.strobePosition then some (.strobePosition c.strobePosition)
  else match c.rampRate with
    | some rate =>
      if !(rate.isFinite && rate > 0.0 && rate ≤ c.busRate) then some (.rampRate rate)
      else peersFault
    | none => peersFault
where
  peersFault : Option SettingFault :=
    if c.role = .secondary ∧ c.peers.length ≠ 1 then some (.peerCount c.peers) else none

def validate (c : BoardConfig) : Except BoardError Unit :=
  match c.fault? with
  | some fault => .error (.invalid (.board c.name) fault)
  | none => .ok ()

/-- Ticks between two samples of a ramp, at least one. -/
def rampStep (c : BoardConfig) : Nat :=
  match c.rampRate with
  | some rate => max (c.busRate / rate).round.toUInt64.toNat 1
  | none => 1

end BoardConfig

end Sequencer
