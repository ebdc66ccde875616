/-!
Cutting a range into chunks.

Positions are counted in 64 bits: near the end of that range the end of a chunk can wrap around.
-/
namespace Sequencer

structure ChunkCounter where
  position : UInt64
  stop : UInt64
  /-- The length of every chunk but the last. -/
  interval : UInt64
  deriving DecidableEq, Repr

namespace ChunkCounter

/-- The range from zero to `stop`; an interval of zero counts as one. -/
def start (stop interval : UInt64) : ChunkCounter := ⟨0, stop, max interval 1⟩

def remaining (c : ChunkCounter) : UInt64 := c.stop - c.position

/-- The next chunk as its two ends. -/
def next? (c : ChunkCounter) : Option ((UInt64 × UInt64) × ChunkCounter) :=
  if c.stop ≤ c.position then none
  else
    let stop := min (c.position + c.interval) c.stop
    some ((c.position, stop), { c with position := stop })

/-- The first chunks, at most so many. -/
def take : Nat → ChunkCounter → List (UInt64 × UInt64)
  | 0, _ => []
  | n + 1, c =>
    match c.next? with
    | some (chunk, c) => chunk :: take n c
    | none => []

end ChunkCounter

/-- A list in pieces of the interval. No piece is empty, so there are at most as many as items. -/
def chunksOf {α : Type} (interval : UInt64) (items : List α) : List (List α) :=
  ((ChunkCounter.start items.length.toUInt64 interval).take items.length).map fun (a, b) =>
    (items.take b.toNat).drop a.toNat

end Sequencer
