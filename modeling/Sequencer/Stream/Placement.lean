import Sequencer.Bisect
import Sequencer.Stream.Plan

/-!
Placement. Each change and each marker of a board is put in the cell of its tick and rack.

Changes come device by device, so that a cell can meet a second one at any time; this is a conflict,
and the cell remembers it. What stands behind the changes is kept apart, in one list of records, from
which a report picks those of the cells in conflict.
-/
namespace Sequencer

/-- Cells by row and column. -/
structure Grid (α : Type) where
  cells : Array (Array α)

namespace Grid
variable {α : Type}

def filled (rows columns : Nat) (cell : α) : Grid α :=
  ⟨Array.replicate rows (Array.replicate columns cell)⟩

def get? (g : Grid α) (row column : Nat) : Option α := g.cells[row]?.bind fun cells => cells[column]?

/-- Changes one cell. -/
def modify (g : Grid α) (row column : Nat) (f : α → α) : Grid α :=
  ⟨g.cells.modify row fun cells => cells.modify column f⟩

theorem get?_filled {rows columns row column : Nat} {cell : α} (inRows : row < rows)
    (inColumns : column < columns) : (filled rows columns cell).get? row column = some cell := by
  simp [filled, get?, inRows, inColumns]

/-- The cell itself is changed, and no other one. -/
theorem get?_modify (g : Grid α) (row column i j : Nat) (f : α → α) :
    (g.modify row column f).get? i j =
      (g.get? i j).map fun cell => if row = i ∧ column = j then f cell else cell := by
  unfold modify get?
  rw [Array.getElem?_modify]
  by_cases sameRow : row = i
  · rw [if_pos sameRow]
    cases g.cells[i]? with
    | none => rfl
    | some cells =>
      simp only [Option.map_some, Option.bind_some, Array.getElem?_modify, sameRow, true_and]
      by_cases sameColumn : column = j <;> simp [sameColumn]
  · simp [sameRow]

end Grid

/-- What is known of one row of one rack. -/
structure Cell where
  word : Word := .nop
  changed : Bool := false
  /-- More than one change has come. -/
  conflict : Bool := false
  /-- The markers, except for the strobe. -/
  bits : Word := 0
  strobe : Bool := false
  deriving DecidableEq, Repr

namespace Cell

/-- Takes a change. -/
def take (c : Cell) (word : Word) : Cell :=
  { c with conflict := c.conflict || c.changed, changed := true, word }

def mark (c : Cell) (strobePosition : Nat) (marker : Marker) : Cell :=
  if marker = .strobe then { c with strobe := true }
  else { c with bits := c.bits ||| marker.mask strobePosition }

def isMarked (c : Cell) : Bool := c.bits != 0 || c.strobe

/-- The word of the row: the change, or what an idle rack shows, with the markers and the strobe. -/
def output (c : Cell) (idle strobe : Word) : Word :=
  (if c.changed then c.word else idle) ||| c.bits ||| strobe

end Cell

/-- The cells, and what is behind the changes in them, in the order in which they came. -/
structure Placement where
  cells : Grid Cell
  records : Array ChangeRecord

/-- The row of a tick among ascending ticks. -/
def rowOf (ticks : Array Nat) (tick : Nat) : Nat := bisect (· < tick) ticks

namespace Board

def racks (b : Board) : List Nat := List.range b.config.racks

def recordsOf (b : Board) (row rack : Nat) (change : Change) : List ChangeRecord :=
  change.sources.map fun (channel, old, new) =>
    { channel, rack, row, old, new
      address := change.word.address
      time := timeOf b.config.busRate change.tick }

/-- Puts a change of a rack in its cell. -/
def place (b : Board) (row : Nat → Nat) (rack : Nat) (p : Placement) (change : Change) : Placement :=
  { cells := p.cells.modify (row change.tick) rack fun cell => cell.take change.word
    records := p.records ++ b.recordsOf (row change.tick) rack change }

/-- Puts all changes in their cells, device by device. -/
def placeAll (b : Board) (row : Nat → Nat) (rows : Nat) (plans : List Plan) : Placement :=
  plans.foldl (fun p plan => plan.changes.foldl (b.place row plan.rack) p)
    ⟨.filled rows b.config.racks {}, #[]⟩

/-- The cells in conflict, by row and rack, each with its records. -/
def conflictsIn (b : Board) (ticks : List Nat) (p : Placement) : List Conflict :=
  ticks.zipIdx.flatMap fun (tick, row) => b.racks.filterMap fun rack =>
    if (p.cells.get? row rack).any Cell.conflict then
      some ⟨tick, timeOf b.config.busRate tick, rack,
        p.records.toList.filter fun r => r.row == row && r.rack == rack⟩
    else none

/-- Sets a marker of a rack in its cell. The first row can have no strobe. -/
def setMarker (b : Board) (row : Nat → Nat) (rack : Nat) (cells : Grid Cell) (marker : Nat × Marker) :
    Except BoardError (Grid Cell) :=
  if marker.2 = .strobe ∧ row marker.1 = 0 then .error (.firstSampleHasStrobe b.name)
  else .ok (cells.modify (row marker.1) rack fun cell => cell.mark b.config.strobePosition marker.2)

/-- Sets all markers, rack by rack. -/
def setMarkers (b : Board) (row : Nat → Nat) (cells : Grid Cell) : Except BoardError (Grid Cell) :=
  b.tracks.zipIdx.foldlM (fun cells (track, rack) => track.marks.foldlM (b.setMarker row rack) cells) cells

end Board

end Sequencer
