import Mathlib.Data.List.Basic
import Sequencer.Proofs.StopTick

/-!
The cells of a board, said place by place.

Changes and markers are put in cells in the order of the devices and racks. What a cell comes to depends
on its own tick and rack alone: it is what the changes of the place make of an empty cell, with the
markers of the place. In the same way the records of a place are those of its changes. Hence the
conflicts that the compiler finds are the places with two changes.
-/
namespace Sequencer

/-! ### The row of a tick -/

/-- A search that tells each of the ticks its row. -/
def FindsRows (row : Nat → Nat) (ticks : List Nat) : Prop :=
  ∀ i tick : Nat, ticks[i]? = some tick → row tick = i

theorem rowOf_findsRows {ticks : List Nat} (order : Ascending id ticks) : FindsRows (rowOf ticks.toArray) ticks := by
  intro i tick found
  obtain ⟨bound, rfl⟩ := List.getElem?_eq_some_iff.mp found
  refine bisectFrom_eq (Nat.zero_le i) (by simpa using Nat.le_of_lt bound) fun j inside => ?_
  rw [Nat.zero_add, List.size_toArray] at inside
  have ascending := List.pairwise_iff_getElem.mp order
  rw [List.getElem?_toArray, List.getElem?_eq_getElem inside, Option.any_some, decide_eq_true_eq]
  constructor
  · intro less
    refine Nat.lt_of_not_le fun from_ => ?_
    rcases Nat.lt_or_eq_of_le from_ with above | same
    · have := ascending i j bound inside above
      simp only [id] at this
      omega
    · simp [same] at less
  · exact fun less => ascending j i inside bound less

theorem FindsRows.eq_iff {row : Nat → Nat} {ticks : List Nat} (finds : FindsRows row ticks) {i tick t : Nat}
    (found : ticks[i]? = some t) (listed : tick ∈ ticks) : row tick = i ↔ tick = t := by
  obtain ⟨j, here⟩ := List.getElem?_of_mem listed
  constructor
  · intro same
    rw [finds j tick here] at same
    rw [same, found] at here
    exact (Option.some.inj here).symm
  · rintro rfl
    exact finds i tick found

/-! ### Changes of a place -/

namespace Plan

/-- All changes for one tick of one rack. -/
def changesAt (plans : List Plan) (tick rack : Nat) : List Change :=
  plans.flatMap fun p => if p.rack = rack then p.changes.filter fun c => c.tick == tick else []

theorem mem_changesAt {plans : List Plan} {tick rack : Nat} {change : Change} :
    change ∈ changesAt plans tick rack ↔
      ∃ p ∈ plans, p.rack = rack ∧ change ∈ p.changes ∧ change.tick = tick := by
  rw [changesAt, List.mem_flatMap]
  constructor
  · rintro ⟨p, listed, member⟩
    split at member
    · rename_i same
      obtain ⟨planned, atTick⟩ := List.mem_filter.mp member
      exact ⟨p, listed, same, planned, by simpa using atTick⟩
    · cases member
  · rintro ⟨p, listed, same, planned, atTick⟩
    refine ⟨p, listed, ?_⟩
    rw [if_pos same]
    exact List.mem_filter.mpr ⟨planned, by simpa using atTick⟩

theorem mem_changeTicks {plans : List Plan} {p : Plan} (listed : p ∈ plans) {change : Change}
    (planned : change ∈ p.changes) : change.tick ∈ changeTicks plans :=
  List.mem_flatMap.mpr ⟨p, listed, List.mem_map_of_mem planned⟩

end Plan

namespace Cell

/-- A cell with further changes. -/
def takeAll (c : Cell) (changes : List Change) : Cell := changes.foldl (fun c change => c.take change.word) c

theorem takeAll_append (c : Cell) (first second : List Change) :
    c.takeAll (first ++ second) = (c.takeAll first).takeAll second := List.foldl_append

/-- Changes are all that comes of changes. -/
theorem takeAll_flags (c : Cell) (changes : List Change) :
    (c.takeAll changes).changed = (c.changed || !changes.isEmpty) ∧
      (c.takeAll changes).conflict =
        (c.conflict || (c.changed && !changes.isEmpty) || decide (2 ≤ changes.length)) ∧
      (c.takeAll changes).bits = c.bits ∧ (c.takeAll changes).strobe = c.strobe := by
  induction changes generalizing c with
  | nil => simp [takeAll]
  | cons change rest ih =>
    obtain ⟨changed, conflict, bits, strobe⟩ := ih (c.take change.word)
    have step : c.takeAll (change :: rest) = (c.take change.word).takeAll rest := rfl
    rw [step, changed, conflict, bits, strobe]
    refine ⟨by simp [take], ?_, rfl, rfl⟩
    cases rest <;> simp [take]

/-- A cell with further markers. -/
def markAll (strobePosition : Nat) (c : Cell) (markers : List Marker) : Cell :=
  markers.foldl (fun c m => c.mark strobePosition m) c

theorem markAll_append (strobePosition : Nat) (c : Cell) (first second : List Marker) :
    c.markAll strobePosition (first ++ second) = (c.markAll strobePosition first).markAll strobePosition second :=
  List.foldl_append

theorem markAll_eq (strobePosition : Nat) (c : Cell) (markers : List Marker) :
    c.markAll strobePosition markers =
      { c with
        bits := (markers.filter (· != .strobe)).foldl (fun w m => w ||| m.mask strobePosition) c.bits
        strobe := c.strobe || decide (.strobe ∈ markers) } := by
  induction markers generalizing c with
  | nil => simp [markAll]
  | cons m rest ih =>
    have step : c.markAll strobePosition (m :: rest) = (c.mark strobePosition m).markAll strobePosition rest := rfl
    rw [step, ih, mark]
    by_cases strobe : m = .strobe
    · simp [strobe]
    · simp [strobe, Ne.symm strobe]

end Cell

namespace Board
variable {b : Board} {plans : List Plan} {row : Nat → Nat} {ticks : List Nat} {i t rack : Nat}

/-! ### Placing the changes -/

theorem get?_placed (finds : FindsRows row ticks) (found : ticks[i]? = some t) (changes : List Change)
    (listed : ∀ c ∈ changes, c.tick ∈ ticks) (own : Nat) (p : Placement) :
    (changes.foldl (b.place row own) p).cells.get? i rack = (p.cells.get? i rack).map fun cell =>
      cell.takeAll (if own = rack then changes.filter fun c => c.tick == t else []) := by
  induction changes generalizing p with
  | nil => simp [Cell.takeAll]
  | cons change rest ih =>
    obtain ⟨here, listed⟩ := List.forall_mem_cons.mp listed
    rw [List.foldl_cons, ih listed, place, Grid.get?_modify, Option.map_map]
    congr 1
    funext cell
    simp only [finds.eq_iff found here, Function.comp_apply]
    by_cases mine : own = rack
    · by_cases now : change.tick = t <;> simp [mine, now, Cell.takeAll]
    · simp [mine]

/-- A cell holds what the changes of its place make of an empty cell. -/
theorem get?_placeAll (finds : FindsRows row ticks) (found : ticks[i]? = some t)
    (listed : ∀ tick ∈ Plan.changeTicks plans, tick ∈ ticks) (inRange : rack < b.config.racks) :
    (b.placeAll row ticks.length plans).cells.get? i rack =
      some (Cell.takeAll {} (Plan.changesAt plans t rack)) := by
  have from_ : ∀ p : Placement, (∀ tick ∈ Plan.changeTicks plans, tick ∈ ticks) →
      (plans.foldl (fun p plan => plan.changes.foldl (b.place row plan.rack) p) p).cells.get? i rack =
        (p.cells.get? i rack).map fun cell => cell.takeAll (Plan.changesAt plans t rack) := by
    clear listed
    induction plans with
    | nil =>
      simp [Plan.changesAt, Cell.takeAll]
    | cons plan rest ih =>
      intro p listed
      have here : ∀ c ∈ plan.changes, c.tick ∈ ticks := fun c planned =>
        listed c.tick (Plan.mem_changeTicks (List.mem_cons_self) planned)
      have later : ∀ tick ∈ Plan.changeTicks rest, tick ∈ ticks := fun tick member =>
        listed tick (List.mem_append_right _ member)
      rw [List.foldl_cons, ih _ later, get?_placed finds found plan.changes here, Option.map_map]
      congr 1
      funext cell
      rw [Function.comp_apply, ← Cell.takeAll_append]
      rfl
  have inRows : i < ticks.length := (List.getElem?_eq_some_iff.mp found).1
  rw [placeAll, from_ _ listed, Grid.get?_filled inRows inRange, Option.map_some]

/-! ### The records -/

theorem records_placeAll (b : Board) (row : Nat → Nat) (rows : Nat) (plans : List Plan) :
    (b.placeAll row rows plans).records.toList =
      plans.flatMap fun p => p.changes.flatMap fun c => b.recordsOf (row c.tick) p.rack c := by
  have changes : ∀ (changes : List Change) (own : Nat) (p : Placement),
      (changes.foldl (b.place row own) p).records.toList =
        p.records.toList ++ changes.flatMap fun c => b.recordsOf (row c.tick) own c := by
    intro changes own
    induction changes with
    | nil => simp
    | cons change rest ih => simp [ih, place]
  have from_ : ∀ p : Placement,
      (plans.foldl (fun p plan => plan.changes.foldl (b.place row plan.rack) p) p).records.toList =
        p.records.toList ++ plans.flatMap fun p => p.changes.flatMap fun c => b.recordsOf (row c.tick) p.rack c := by
    induction plans with
    | nil => simp
    | cons plan rest ih =>
      intro p
      rw [List.foldl_cons, ih, changes, List.flatMap_cons, List.append_assoc]
  rw [placeAll, from_]
  rfl

private theorem flatMap_of_filter {α β : Type} (p : α → Bool) (f : α → List β) (items : List α) :
    (items.filter p).flatMap f = items.flatMap fun x => if p x then f x else [] := by
  induction items with
  | nil => rfl
  | cons x rest ih => by_cases holds : p x <;> simp [holds, ih]

/-- The records of a change are all of one place. -/
theorem filter_recordsOf (b : Board) (i rack i' rack' : Nat) (change : Change) :
    ((b.recordsOf i rack change).filter fun r => r.row == i' && r.rack == rack') =
      if i = i' ∧ rack = rack' then b.recordsOf i' rack' change else [] := by
  unfold recordsOf
  rw [List.filter_map]
  split
  · rename_i same
    rw [same.1, same.2, List.filter_eq_self.mpr fun _ _ => by simp]
  · rename_i other
    rw [List.filter_eq_nil_iff.mpr fun _ _ same => other (by simpa using same), List.map_nil]

/-- The records of a place are those of its changes. -/
theorem records_of_place (finds : FindsRows row ticks) (found : ticks[i]? = some t)
    (listed : ∀ tick ∈ Plan.changeTicks plans, tick ∈ ticks) :
    ((b.placeAll row ticks.length plans).records.toList.filter fun r => r.row == i && r.rack == rack) =
      (Plan.changesAt plans t rack).flatMap (b.recordsOf i rack) := by
  rw [records_placeAll, List.filter_flatMap, Plan.changesAt, List.flatMap_assoc]
  refine List.flatMap_congr fun p inPlans => ?_
  rw [List.filter_flatMap]
  by_cases mine : p.rack = rack
  · rw [if_pos mine, flatMap_of_filter]
    refine List.flatMap_congr fun c planned => ?_
    have here := finds.eq_iff found (listed _ (Plan.mem_changeTicks inPlans planned))
    rw [filter_recordsOf]
    simp [here, mine]
  · rw [if_neg mine, List.flatMap_nil]
    refine List.flatMap_eq_nil_iff.mpr fun c _ => ?_
    rw [filter_recordsOf, if_neg fun same => mine same.2]

/-! ### Conflicts -/

/-- The conflict at a tick of a rack, if there is more than one change. -/
def conflict? (b : Board) (plans : List Plan) (row tick rack : Nat) : Option Conflict :=
  if 2 ≤ (Plan.changesAt plans tick rack).length then
    some ⟨tick, timeOf b.config.busRate tick, rack,
      (Plan.changesAt plans tick rack).flatMap (b.recordsOf row rack)⟩
  else none

/-- All conflicts, in order of tick and rack. -/
def conflicts (b : Board) (plans : List Plan) (ticks : List Nat) : List Conflict :=
  ticks.zipIdx.flatMap fun (tick, row) =>
    b.racks.filterMap fun rack => b.conflict? plans row tick rack

/-- The compiler finds just the places with two changes, and in a cell in conflict all of them. -/
theorem conflictsIn_placeAll (finds : FindsRows row ticks)
    (listed : ∀ tick ∈ Plan.changeTicks plans, tick ∈ ticks) :
    b.conflictsIn ticks (b.placeAll row ticks.length plans) = b.conflicts plans ticks := by
  unfold conflictsIn conflicts
  refine List.flatMap_congr fun place inTicks => List.filterMap_congr fun rack inRacks => ?_
  obtain ⟨tick, i⟩ := place
  have found : ticks[i]? = some tick := List.mem_zipIdx_iff_getElem?.mp inTicks
  have inRange : rack < b.config.racks := List.mem_range.mp inRacks
  simp only [get?_placeAll finds found listed inRange, records_of_place finds found listed, Option.any_some,
    (Cell.takeAll_flags {} _).2.1, conflict?]
  simp

/-- Without a conflict a rack has at most one change at a tick. -/
theorem changesAt_alone (free : b.conflicts plans ticks = []) {tick rack : Nat}
    (listed : tick ∈ ticks) (inRange : rack < b.config.racks) {change : Change}
    (planned : change ∈ Plan.changesAt plans tick rack) :
    Plan.changesAt plans tick rack = [change] := by
  obtain ⟨index, found⟩ := List.getElem?_of_mem listed
  have here := List.flatMap_eq_nil_iff.mp free (tick, index) (List.mem_zipIdx_iff_getElem?.mpr found)
  have none := List.filterMap_eq_nil_iff.mp here rack (List.mem_range.mpr inRange)
  unfold conflict? at none
  split at none
  · cases none
  · rename_i few
    cases changes : Plan.changesAt plans tick rack with
    | nil =>
      rw [changes] at planned
      cases planned
    | cons first rest =>
      cases rest with
      | nil =>
        rw [changes] at planned
        rw [List.mem_singleton.mp planned]
      | cons second rest => simp [changes] at few

/-! ### Setting the markers -/

/-- The markers at a tick, except for the strobe. -/
def markerBits (track : MarkerTrack) (strobePosition tick : Nat) : Word :=
  ((track.at? tick).filter (· != .strobe)).foldl (fun w m => w ||| m.mask strobePosition) 0

/-- The bits of the markers at a tick, except for the strobe. -/
theorem getLsbD_markerBits {strobe : Nat} (legal : Word.strobeMayBe strobe) (t : MarkerTrack)
    (tick i : Nat) :
    (markerBits t strobe tick).getLsbD i ↔
      ∃ m ∈ t.at? tick, m ≠ .strobe ∧ m.position strobe = i := by
  have fold : ∀ (markers : List Marker) (w : Word),
      (markers.foldl (fun w m => w ||| m.mask strobe) w).getLsbD i ↔
        w.getLsbD i ∨ ∃ m ∈ markers, m.position strobe = i := by
    intro markers
    induction markers with
    | nil => simp
    | cons m rest ih =>
      intro w
      rw [List.foldl_cons, ih, BitVec.getLsbD_or, Marker.getLsbD_mask legal]
      simp [or_assoc]
  rw [markerBits, fold]
  simp [and_assoc]

/-- What a cell comes to: the changes of its place, and the markers at its tick. -/
def cellAt (b : Board) (plans : List Plan) (tick rack : Nat) : Cell :=
  { Cell.takeAll {} (Plan.changesAt plans tick rack) with
    bits := markerBits (b.tracks.getD rack .empty) b.config.strobePosition tick
    strobe := decide (b.marked rack tick .strobe) }

/-- A marker in its cell, also where it is refused. -/
def putMarker (b : Board) (row : Nat → Nat) (rack : Nat) (cells : Grid Cell) (marker : Nat × Marker) : Grid Cell :=
  cells.modify (row marker.1) rack fun cell => cell.mark b.config.strobePosition marker.2

def putMarkers (b : Board) (row : Nat → Nat) (cells : Grid Cell) : Grid Cell :=
  b.tracks.zipIdx.foldl (fun cells (track, rack) => track.marks.foldl (b.putMarker row rack) cells) cells

/-- Whether a track has a strobe in the first row. -/
def strobesFirst (row : Nat → Nat) (track : MarkerTrack) : Bool :=
  track.marks.any fun m => m.2 = .strobe ∧ row m.1 = 0

theorem setMarkers_eq (b : Board) (row : Nat → Nat) (cells : Grid Cell) :
    b.setMarkers row cells =
      if b.tracks.any (strobesFirst row) then .error (.firstSampleHasStrobe b.name)
      else .ok (b.putMarkers row cells) := by
  have track : ∀ (cells : Grid Cell) (place : MarkerTrack × Nat),
      place.1.marks.foldlM (b.setMarker row place.2) cells =
        if strobesFirst row place.1 then .error (.firstSampleHasStrobe b.name)
        else .ok (place.1.marks.foldl (b.putMarker row place.2) cells) := by
    intro cells place
    refine foldlM_guard (fun cells m => ?_) place.1.marks cells
    simp [setMarker, putMarker]
  have all : (b.tracks.zipIdx.map Prod.fst).any (strobesFirst row) = b.tracks.any (strobesFirst row) := by
    rw [List.zipIdx_map_fst]
  rw [List.any_map] at all
  rw [← all, setMarkers]
  exact foldlM_guard track b.tracks.zipIdx cells

theorem get?_putTrack (finds : FindsRows row ticks) (found : ticks[i]? = some t) (track : MarkerTrack)
    (listed : ∀ tick ∈ track.ticks, tick ∈ ticks) (own : Nat) (cells : Grid Cell) :
    (track.marks.foldl (b.putMarker row own) cells).get? i rack = (cells.get? i rack).map fun cell =>
      cell.markAll b.config.strobePosition (if own = rack then track.at? t else []) := by
  obtain ⟨marks⟩ := track
  induction marks generalizing cells with
  | nil => simp [MarkerTrack.at?, Cell.markAll]
  | cons m rest ih =>
    obtain ⟨here, listed⟩ := List.forall_mem_cons.mp listed
    rw [List.foldl_cons, ih _ listed, putMarker, Grid.get?_modify, Option.map_map]
    congr 1
    funext cell
    simp only [finds.eq_iff found here, Function.comp_apply]
    by_cases mine : own = rack
    · by_cases now : m.1 = t <;> simp [mine, now, MarkerTrack.at?, Cell.markAll]
    · simp [mine]

-- The induction is on the racks that are still to come, which are numbered from `first` on.
private theorem get?_putTracks (finds : FindsRows row ticks) (found : ticks[i]? = some t)
    (tracks : List MarkerTrack) (listed : ∀ track ∈ tracks, ∀ tick ∈ track.ticks, tick ∈ ticks)
    (first : Nat) (cells : Grid Cell) :
    ((tracks.zipIdx first).foldl
        (fun cells (track, rack) => track.marks.foldl (b.putMarker row rack) cells) cells).get? i rack =
      (cells.get? i rack).map fun cell => cell.markAll b.config.strobePosition
        (if first ≤ rack then (tracks.getD (rack - first) .empty).at? t else []) := by
  induction tracks generalizing first cells with
  | nil => simp [MarkerTrack.at?, MarkerTrack.empty, Cell.markAll]
  | cons track rest ih =>
    obtain ⟨here, listed⟩ := List.forall_mem_cons.mp listed
    rw [List.zipIdx_cons, List.foldl_cons, ih listed, get?_putTrack finds found track here, Option.map_map]
    congr 1
    funext cell
    rw [Function.comp_apply, ← Cell.markAll_append]
    congr 1
    rcases Nat.lt_trichotomy first rack with before | rfl | beyond
    · obtain ⟨n, rfl⟩ := Nat.exists_eq_add_of_lt before
      have next : first + n + 1 - first = n + 1 := by omega
      have rest_ : first + n + 1 - (first + 1) = n := by omega
      rw [if_neg (by omega), if_pos (by omega), if_pos (by omega), next, rest_]
      simp
    · rw [if_pos rfl, if_neg (by omega), if_pos (Nat.le_refl _), Nat.sub_self]
      simp
    · rw [if_neg (by omega), if_neg (by omega), if_neg (by omega)]
      rfl

/-- A cell gets the markers of its tick and rack. -/
theorem get?_putMarkers (finds : FindsRows row ticks) (found : ticks[i]? = some t)
    (listed : ∀ tick ∈ b.markerTicks, tick ∈ ticks) (cells : Grid Cell) :
    (b.putMarkers row cells).get? i rack = (cells.get? i rack).map fun cell =>
      cell.markAll b.config.strobePosition ((b.tracks.getD rack .empty).at? t) := by
  have each : ∀ track ∈ b.tracks, ∀ tick ∈ track.ticks, tick ∈ ticks := fun track member tick inTrack =>
    listed tick (List.mem_flatMap.mpr ⟨track, member, inTrack⟩)
  rw [putMarkers, get?_putTracks finds found b.tracks each]
  simp

/-- The cells of a board when all its changes and markers are set. -/
def Filled (b : Board) (plans : List Plan) (ticks : List Nat) (cells : Grid Cell) : Prop :=
  ∀ i t rack : Nat, ticks[i]? = some t → rack < b.config.racks → cells.get? i rack = some (b.cellAt plans t rack)

/-- Strobes at tick 0 are refused, and otherwise each cell is what its place says. -/
theorem setMarkers_placeAll (finds : FindsRows row ticks) (first : ticks[0]? = some 0)
    (changes : ∀ tick ∈ Plan.changeTicks plans, tick ∈ ticks) (markers : ∀ tick ∈ b.markerTicks, tick ∈ ticks) :
    ∃ cells, b.Filled plans ticks cells ∧
      b.setMarkers row (b.placeAll row ticks.length plans).cells =
        if b.tracks.any fun t => (t.at? 0).contains .strobe then .error (.firstSampleHasStrobe b.name)
        else .ok cells := by
  refine ⟨b.putMarkers row (b.placeAll row ticks.length plans).cells, ?_, ?_⟩
  · intro i t rack found inRange
    rw [get?_putMarkers finds found markers, get?_placeAll finds found changes inRange, Option.map_some,
      Cell.markAll_eq, (Cell.takeAll_flags {} _).2.2.1, (Cell.takeAll_flags {} _).2.2.2]
    simp [cellAt, markerBits, marked]
  · have strobes : b.tracks.any (strobesFirst row) = b.tracks.any fun t => (t.at? 0).contains .strobe := by
      rw [Bool.eq_iff_iff, List.any_eq_true, List.any_eq_true]
      refine exists_congr fun track => and_congr_right fun member => ?_
      rw [strobesFirst, List.any_eq_true, List.contains_iff_mem, MarkerTrack.mem_at?]
      constructor
      · rintro ⟨⟨tick, m⟩, set, bad⟩
        have listed := markers tick (List.mem_flatMap.mpr ⟨track, member, List.mem_map_of_mem set⟩)
        have bad : m = .strobe ∧ row tick = 0 := by simpa using bad
        rw [← (finds.eq_iff first listed).mp bad.2, ← bad.1]
        exact set
      · intro set
        exact ⟨_, set, by simp [finds 0 0 first]⟩
    rw [setMarkers_eq, strobes]

end Board

end Sequencer
