import Sequencer.Number.Decimal
import Sequencer.Text.Layout

/-!
Conflicts: two words for the same tick and rack. The report is a table of every change involved.
-/
namespace Sequencer

/-- One change of a channel, as the report lists it. -/
structure ChangeRecord where
  channel : String
  rack : Nat
  address : Nat
  /-- The row of the stream. -/
  row : Nat
  time : Float
  old : Option Float
  new : Option Float

/-- All changes at one tick of one rack. -/
structure Conflict where
  tick : Nat
  time : Float
  rack : Nat
  records : List ChangeRecord

structure ConflictReport where
  board : String
  conflicts : List Conflict

namespace Conflict

/-- The addresses involved, each once and in ascending order. -/
def addresses (c : Conflict) : List Nat :=
  ((c.records.map ChangeRecord.address).mergeSort (· ≤ ·)).eraseReps

def channels (c : Conflict) : List String := c.records.map ChangeRecord.channel

end Conflict

namespace ConflictReport
open Decimal Text

private def columns (channel rack address row time old new : String) : String :=
  s!"    {padRight 24 channel} {padLeft 4 rack} {padLeft 7 address} {padLeft 7 row} {padLeft 14 time} {padLeft 14 old} {padLeft 14 new}\n"

private def valueOrDash (value : Option Float) : String := (value.map plain).getD "-"

private def recordText (r : ChangeRecord) : String :=
  columns r.channel (toString r.rack) (hex r.address) (toString r.row) (plain r.time)
    (valueOrDash r.old) (valueOrDash r.new)

private def conflictText (c : Conflict) : String :=
  let addresses := bracketed (c.addresses.map fun a => hex a 2)
  s!"  time {plain c.time} s (tick {c.tick}), rack {c.rack}, addresses {addresses}\n"
    ++ columns "channel" "rack" "address" "sample" "time" "old" "new"
    ++ String.join (c.records.map recordText)

def text (r : ConflictReport) : String :=
  s!"{r.conflicts.length} time conflict(s) on board {r.board}:\n"
    ++ String.join (r.conflicts.map conflictText)

end ConflictReport

end Sequencer
