import Sequencer.Bus.Checksum
import Sequencer.Stream.Basic
import Sequencer.Stream.Placement

/-!
The compiler: from a board to its stream.

A row can stand at the first and the last tick, at those of planned changes and at those of markers. It
is kept if it is the first or the last, or if a change or a marker was put in it. A rack without a
change in a row gets a NOP word; in the first row that word already holds the data of the rack's first
change. The strobe is toggled by the rows or, on each rack by itself, by the strobe markers.
-/
namespace Sequencer

def Plan.changeTicks (plans : List Plan) : List Nat := plans.flatMap fun p => p.changes.map Change.tick

namespace Board

def plans (b : Board) : Except BoardError (List Plan) :=
  b.devices.mapM fun d => d.plan b.config.checkCodecs

def markerTicks (b : Board) : List Nat := b.tracks.flatMap MarkerTrack.ticks

/-- The earliest possible stop: after everything that is written, marked or booked. -/
def earliestStop (b : Board) (plans : List Plan) : Nat :=
  let used := plans.filterMap Plan.lastTick ++ b.markerTicks
  ((used.map (· + 1)) ++ [b.endTick, 1]).foldl max 0

/-- The tick of the last row. -/
def stopTick (b : Board) (plans : List Plan) (stopTime : Option Float) :
    Except BoardError Nat := do
  let earliest := b.earliestStop plans
  let stop ← match stopTime with
    | none => pure earliest
    | some time => do
      let what := s!"stop time of board {b.name}"
      let stop ← tickFor what b.config.busRate time
      if stop < earliest then
        throw (.invalidTime what time (.beforeEnd (timeOf b.config.busRate earliest)))
      pure stop
  if maxTick < stop then throw (.tickOverflow b.name stop)
  return stop

/-- The ticks at which there can be a row. -/
def unionTicks (b : Board) (plans : List Plan) (stop : Nat) : List Nat :=
  sortedTicks (0 :: stop :: (Plan.changeTicks plans ++ b.markerTicks))

/-- Whether a row is kept: the first, the last, and those with a change or a marker. -/
def keeps (b : Board) (rows : Nat) (cells : Grid Cell) (row : Nat) : Bool :=
  row == 0 || row + 1 == rows
    || (b.racks.any fun rack => (cells.get? row rack).any Cell.changed)
    || (b.racks.any fun rack => (cells.get? row rack).any Cell.isMarked)

/-- Address and data of the first change of a rack. -/
def preloadOf (rows : Nat) (cells : Grid Cell) (rack : Nat) : Word :=
  (((List.range rows).findSome? fun row => (cells.get? row rack).filter Cell.changed).map
    fun cell => cell.word.payload).getD 0

/-- The rows so far, and whether the strobe of each rack is set. -/
structure Output where
  rows : Array Row
  strobes : List Bool

/-- The strobes after a row. Each changes at a marker of its rack, unless every other row sets them. -/
def toggle (b : Board) (cells : Grid Cell) (row : Nat) (strobes : List Bool) : List Bool :=
  if b.config.autoStrobe then strobes
  else strobes.mapIdx fun rack set => set ^^ ((cells.get? row rack).getD {}).strobe

/-- Adds a row. -/
def emit (b : Board) (ticks : Array Nat) (cells : Grid Cell) (preloads : List Word) (out : Output)
    (row : Nat) : Output :=
  let strobes := b.toggle cells row out.strobes
  let word rack :=
    let idle := if row = 0 then Word.nop ||| preloads.getD rack 0 else Word.nop
    let set := if b.config.autoStrobe then out.rows.size % 2 == 1 else strobes.getD rack false
    ((cells.get? row rack).getD {}).output idle
      (if set then Marker.strobe.mask b.config.strobePosition else 0)
  ⟨out.rows.push ⟨ticks.getD row 0, b.racks.map word⟩, strobes⟩

/-- The rows that are kept, in order. -/
def emitAll (b : Board) (ticks : Array Nat) (cells : Grid Cell) : List Row :=
  let preloads := b.racks.map (preloadOf ticks.size cells)
  let kept := (List.range ticks.size).filter (b.keeps ticks.size cells)
  (kept.foldl (b.emit ticks cells preloads) ⟨#[], b.racks.map fun _ => false⟩).rows.toList

/-- The checksum of a channel: its address and the payload of all words for it on its rack. -/
def channelChecksum (rows : List Row) (c : Channel) : Word :=
  let column := rows.map fun r => r.words.getD c.rack 0
  let own := column.filter (Codec.addressedTo c.place.address)
  Checksum.ofWords (BitVec.ofNat 32 c.place.address :: own.map Word.payload)

def perChannel {α : Type} (b : Board) (f : Channel → α) : Keyed α :=
  Keyed.ofList (b.channels.map fun c => (c.name, f c))

/-- The stream of the rows, with what goes with it. -/
def streamWith (b : Board) (rows : List Row) : Stream :=
  { config := b.config
    rows
    finalValues := b.perChannel Channel.finalValue
    checksums := b.perChannel (channelChecksum rows)
    options := b.config.defaults.merge b.options
    channels := b.perChannel fun c => ⟨c.kind, c.rack, c.place, c.codec⟩ }

/-- Compiles the board into a stream that lasts at least until the stop time. -/
def compile (b : Board) (stopTime : Option Float) : Except BoardError Stream := do
  if b.config.autoStrobe && b.tracks.any MarkerTrack.hasStrobe then
    throw (.strobeModeConflict b.name)
  let plans ← b.plans
  let stop ← b.stopTick plans stopTime
  let ticks := b.unionTicks plans stop
  let row := rowOf ticks.toArray
  let placed := b.placeAll row ticks.length plans
  let conflicts := b.conflictsIn ticks placed
  if !conflicts.isEmpty then
    throw (.timeConflict ⟨b.name, conflicts⟩)
  let cells ← b.setMarkers row placed.cells
  return b.streamWith (b.emitAll ticks.toArray cells)

end Board

end Sequencer
