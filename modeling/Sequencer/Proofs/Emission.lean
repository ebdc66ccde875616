import Sequencer.Proofs.Placement

/-!
The rows that the compiler emits, said row by row.

Every tick at which there can be a row has a reason to be kept, so that no row is dropped. The strobe of a
rack is toggled on the way from row to row; since no row with a strobe marker is dropped, it tells whether
the number of such markers so far is odd. With that, each word depends on its row, tick and rack alone.
-/
namespace Sequencer

namespace Board
variable {b : Board} {plans : List Plan} {ticks : List Nat} {cells : Grid Cell} {stopTime : Option Float}
variable {stop i t rack : Nat}

/-! ### The ticks of the rows -/

theorem mem_unionTicks : t ∈ b.unionTicks plans stop ↔
    t = 0 ∨ t = stop ∨ t ∈ Plan.changeTicks plans ∨ t ∈ b.markerTicks := by
  rw [unionTicks, (sortedTicks_spec _).2]
  simp only [List.mem_cons, List.mem_append]

theorem unionTicks_ascending (b : Board) (plans : List Plan) (stop : Nat) : Ascending id (b.unionTicks plans stop) :=
  (sortedTicks_spec _).1

theorem unionTicks_head (plans : List Plan) (stop : Nat) : (b.unionTicks plans stop).head? = some 0 :=
  (b.unionTicks_ascending plans stop).head?_eq (mem_unionTicks.mpr (.inl rfl)) fun _ _ => Nat.zero_le _

theorem unionTicks_getLast (sound : Sound b) (planned : b.plans = .ok plans) (beyond : b.Beyond stop) :
    (b.unionTicks plans stop).getLast? = some stop := by
  refine (b.unionTicks_ascending plans stop).getLast?_eq (mem_unionTicks.mpr (.inr (.inl rfl))) fun t listed => ?_
  rcases mem_unionTicks.mp listed with rfl | rfl | changes | marks
  · exact Nat.zero_le _
  · exact Nat.le_refl _
  · obtain ⟨p, inPlans, inTicks⟩ := List.mem_flatMap.mp changes
    obtain ⟨change, inPlan, rfl⟩ := List.mem_map.mp inTicks
    exact Nat.le_of_lt (beyond.change sound planned inPlans inPlan)
  · obtain ⟨rack, m, marked⟩ := mem_markerTicks.mp marks
    exact Nat.le_of_lt (beyond.marks rack t m marked)

/-! ### No row is dropped -/

theorem changed_cellAt : (b.cellAt plans t rack).changed ↔ Plan.changesAt plans t rack ≠ [] := by
  rw [cellAt, (Cell.takeAll_flags {} _).1]
  simp

/-- A marker of a place shows in its cell. -/
theorem isMarked_cellAt (sound : Sound b) {m : Marker} (marked : b.marked rack t m) :
    (b.cellAt plans t rack).isMarked := by
  rw [Cell.isMarked, Bool.or_eq_true, bne_iff_ne]
  by_cases strobe : m = .strobe
  · subst strobe
    exact .inr (decide_eq_true marked)
  · have bit : (markerBits (b.tracks.getD rack .empty) b.config.strobePosition t).getLsbD
        (m.position b.config.strobePosition) := (getLsbD_markerBits sound.strobe _ _ _).mpr ⟨m, marked, strobe, rfl⟩
    refine .inl fun none => ?_
    have bits : (b.cellAt plans t rack).bits = markerBits (b.tracks.getD rack .empty) b.config.strobePosition t := rfl
    rw [← bits, none] at bit
    simp at bit

theorem rack_lt_of_marked (sound : Sound b) {m : Marker} (marked : b.marked rack t m) : rack < b.config.racks := by
  rw [← sound.tracks]
  refine Nat.lt_of_not_le fun beyond => ?_
  rw [Board.marked, List.getD_eq_getElem?_getD, List.getElem?_eq_none beyond] at marked
  cases marked

theorem keeps_of_filled (sound : Sound b) (planned : b.plans = .ok plans) (beyond : b.Beyond stop)
    (filled : b.Filled plans (b.unionTicks plans stop) cells) (found : (b.unionTicks plans stop)[i]? = some t) :
    b.keeps (b.unionTicks plans stop).length cells i := by
  have order := b.unionTicks_ascending plans stop
  have finds := rowOf_findsRows order
  have inCell : ∀ {rack : Nat} {p : Cell → Bool}, rack < b.config.racks → p (b.cellAt plans t rack) →
      b.racks.any fun rack => (cells.get? i rack).any p := fun {rack p} inRange holds =>
    List.any_eq_true.mpr ⟨rack, List.mem_range.mpr inRange, by
      rw [filled i t rack found inRange, Option.any_some, holds]⟩
  unfold keeps
  simp only [Bool.or_eq_true, beq_iff_eq]
  rcases mem_unionTicks.mp (List.mem_of_getElem? found) with rfl | rfl | changes | marks
  · have first := List.head?_eq_getElem? ▸ unionTicks_head (b := b) plans stop
    exact .inl (.inl (.inl ((finds i 0 found).symm.trans (finds 0 0 first))))
  · have last := List.getLast?_eq_getElem? ▸ unionTicks_getLast sound planned beyond
    have same : i = (b.unionTicks plans t).length - 1 := (finds i t found).symm.trans (finds _ t last)
    have := (List.getElem?_eq_some_iff.mp found).1
    exact .inl (.inl (.inr (by omega)))
  · obtain ⟨p, inPlans, inTicks⟩ := List.mem_flatMap.mp changes
    obtain ⟨change, inPlan, rfl⟩ := List.mem_map.mp inTicks
    obtain ⟨d, member, sameRack, _⟩ := writes_of_planned sound planned inPlans inPlan
    have inRange : p.rack < b.config.racks := sameRack ▸ sound.rack_lt member
    have here : change ∈ Plan.changesAt plans change.tick p.rack :=
      Plan.mem_changesAt.mpr ⟨p, inPlans, rfl, inPlan, rfl⟩
    exact .inl (.inr (inCell inRange (changed_cellAt.mpr (List.ne_nil_of_mem here))))
  · obtain ⟨rack, m, marked⟩ := mem_markerTicks.mp marks
    exact .inr (inCell (rack_lt_of_marked sound marked) (isMarked_cellAt sound marked))

/-- Of the rows at which something can be, all are kept. -/
theorem kept_eq (sound : Sound b) (planned : b.plans = .ok plans) (beyond : b.Beyond stop)
    (filled : b.Filled plans (b.unionTicks plans stop) cells) :
    (List.range (b.unionTicks plans stop).length).filter (b.keeps (b.unionTicks plans stop).length cells) =
      List.range (b.unionTicks plans stop).length := by
  refine List.filter_eq_self.mpr fun i inRange => ?_
  exact keeps_of_filled sound planned beyond filled (List.getElem?_eq_getElem (List.mem_range.mp inRange))

/-! ### The words -/

/-- The number of ticks up to the given one at which a rack has a strobe marker. -/
def strobesUpTo (b : Board) (rack tick : Nat) : Nat :=
  (List.range (tick + 1)).countP fun t => b.marked rack t .strobe

/-- Whether the strobe bit is set: in every other row, or after an odd number of strobe markers. -/
def strobeSet (b : Board) (row tick rack : Nat) : Bool :=
  if b.config.autoStrobe then row % 2 == 1 else b.strobesUpTo rack tick % 2 == 1

/-- Address and data of the first change of a rack. -/
def preload (plans : List Plan) (ticks : List Nat) (rack : Nat) : Word :=
  (ticks.findSome? fun tick =>
    (Plan.changesAt plans tick rack).head?.map fun c => c.word.payload).getD 0

/-- The change of a place, or a NOP with the preload of the first row. -/
def baseWord (plans : List Plan) (ticks : List Nat) (row tick rack : Nat) : Word :=
  match Plan.changesAt plans tick rack with
  | change :: _ => change.word
  | [] => if row = 0 then Word.nop ||| preload plans ticks rack else Word.nop

/-- The word of a rack in one row. -/
def rowWord (b : Board) (plans : List Plan) (ticks : List Nat) (row tick rack : Nat) : Word :=
  baseWord plans ticks row tick rack
    ||| markerBits (b.tracks.getD rack .empty) b.config.strobePosition tick
    ||| if b.strobeSet row tick rack then Marker.strobe.mask b.config.strobePosition else 0

def rows (b : Board) (plans : List Plan) (ticks : List Nat) : List Row :=
  ticks.zipIdx.map fun (tick, row) =>
    ⟨tick, b.racks.map fun rack => b.rowWord plans ticks row tick rack⟩

/-- The word of a cell is its change, if there is no conflict. -/
theorem word_cellAt (free : b.conflicts plans ticks = []) (listed : t ∈ ticks) (inRange : rack < b.config.racks) :
    (if (b.cellAt plans t rack).changed then some (b.cellAt plans t rack).word else none) =
      (Plan.changesAt plans t rack).head?.map Change.word := by
  cases changes : Plan.changesAt plans t rack with
  | nil => simp [cellAt, changes, Cell.takeAll]
  | cons change others =>
    have single : Plan.changesAt plans t rack = [change] :=
      changesAt_alone free listed inRange (by simp [changes])
    rw [single] at changes
    simp [cellAt, single, ← (List.cons.inj changes).2, Cell.takeAll, Cell.take]

/-- The first change of a rack is found in its first changed cell. -/
theorem preloadOf_eq (free : b.conflicts plans ticks = []) (filled : b.Filled plans ticks cells)
    (inRange : rack < b.config.racks) : preloadOf ticks.length cells rack = preload plans ticks rack := by
  have each : ∀ place ∈ ticks.zipIdx,
      ((cells.get? place.2 rack).filter Cell.changed).map (fun cell => cell.word.payload) =
        (Plan.changesAt plans place.1 rack).head?.map fun c => c.word.payload := by
    rintro ⟨t, i⟩ member
    have found := List.mem_zipIdx_iff_getElem?.mp member
    have word := congrArg (Option.map Word.payload) (word_cellAt free (List.mem_of_getElem? found) inRange)
    rw [Option.map_map, Function.comp_def] at word
    rw [filled i t rack found inRange, ← word]
    by_cases changed : (b.cellAt plans t rack).changed <;> simp [changed]
  have rows : List.range ticks.length = ticks.zipIdx.map Prod.snd := by
    rw [List.zipIdx_map_snd, List.range_eq_range']
  have own (f : Nat → Option Word) : ticks.findSome? f = ticks.zipIdx.findSome? (f ∘ Prod.fst) := by
    rw [← List.findSome?_map, List.zipIdx_map_fst]
  rw [preloadOf, preload, List.map_findSome?, rows, List.findSome?_map, own, ← List.head?_filterMap,
    ← List.head?_filterMap]
  congr 2
  exact List.filterMap_congr each

/-! ### From row to row -/

/-- Among the rows up to a tick, those with a strobe marker are as many as the ticks with one. -/
theorem countP_take (listed : ∀ t ∈ b.markerTicks, t ∈ ticks) (order : Ascending id ticks)
    (found : ticks[i]? = some t) :
    ((ticks.take (i + 1)).countP fun t => b.marked rack t .strobe) = b.strobesUpTo rack t := by
  obtain ⟨bound, rfl⟩ := List.getElem?_eq_some_iff.mp found
  have ascending := List.pairwise_iff_getElem.mp order
  have range : Ascending id (List.range (ticks[i] + 1)) := List.pairwise_lt_range
  rw [strobesUpTo, List.countP_eq_length_filter, List.countP_eq_length_filter]
  congr 1
  refine Ascending.eq_of_mem_iff ((order.sublist (List.take_sublist _ _)).filter _) (range.filter _) fun u => ?_
  simp only [List.mem_filter, decide_eq_true_eq, List.mem_range, List.mem_take_iff_getElem]
  refine and_congr_left fun marked => ?_
  constructor
  · rintro ⟨j, inside, rfl⟩
    rcases Nat.lt_or_ge j i with before | from_
    · have := ascending j i (by omega) bound before
      simp only [id] at this
      omega
    · obtain rfl : j = i := by omega
      omega
  · intro upTo
    obtain ⟨j, inside, rfl⟩ := List.getElem_of_mem (listed u (mem_markerTicks.mpr ⟨rack, _, marked⟩))
    refine ⟨j, ?_, rfl⟩
    refine Nat.lt_min.mpr ⟨Nat.lt_of_not_le fun beyond => ?_, inside⟩
    have := ascending i j bound inside beyond
    simp only [id] at this
    omega

/-- A cell without conflict puts out the word of its place. -/
theorem output_cellAt (free : b.conflicts plans ticks = []) (listed : t ∈ ticks) (inRange : rack < b.config.racks)
    (row : Nat) :
    (b.cellAt plans t rack).output (if row = 0 then Word.nop ||| preload plans ticks rack else Word.nop)
      (if b.strobeSet row t rack then Marker.strobe.mask b.config.strobePosition else 0) =
        b.rowWord plans ticks row t rack := by
  have word := word_cellAt free listed inRange
  have base : (if (b.cellAt plans t rack).changed then (b.cellAt plans t rack).word
      else if row = 0 then Word.nop ||| preload plans ticks rack else Word.nop) =
        baseWord plans ticks row t rack := by
    rw [baseWord]
    cases changes : Plan.changesAt plans t rack with
    | nil => rw [if_neg fun changed => changed_cellAt.mp changed changes]
    | cons change others =>
      have changed : (b.cellAt plans t rack).changed = true := changed_cellAt.mpr (by simp [changes])
      rw [if_pos changed, changes] at word
      rw [if_pos changed]
      exact Option.some.inj word
  rw [Cell.output, base]
  rfl

theorem odd_countP_take_succ (found : ticks[i]? = some t) (marked : Nat → Bool) :
    ((ticks.take (i + 1)).countP marked % 2 == 1) = (((ticks.take i).countP marked % 2 == 1) ^^ marked t) := by
  rw [List.take_add_one, found, List.countP_append, Option.toList_some, List.countP_singleton]
  rcases Nat.mod_two_eq_zero_or_one ((ticks.take i).countP marked) with even | odd
  · cases marked t <;> simp [Nat.add_mod, even]
  · cases marked t <;> simp [Nat.add_mod, odd]

/-- The strobes after the first rows, unless every other row sets them. -/
def strobesAfter (b : Board) (ticks : List Nat) (i : Nat) : List Bool :=
  b.racks.map fun rack =>
    !b.config.autoStrobe && ((ticks.take i).countP fun t => b.marked rack t .strobe) % 2 == 1

theorem toggle_strobesAfter (filled : b.Filled plans ticks cells) (found : ticks[i]? = some t) :
    b.toggle cells i (b.strobesAfter ticks i) = b.strobesAfter ticks (i + 1) := by
  unfold toggle strobesAfter
  by_cases auto : b.config.autoStrobe
  · simp [auto]
  · rw [if_neg auto]
    refine List.ext_getElem (by simp) fun rack _ inside => ?_
    have inRange : rack < b.config.racks := by simpa [racks] using inside
    have toggled : ((cells.get? i rack).getD {}).strobe = decide (b.marked rack t .strobe) := by
      rw [filled i t rack found inRange]
      rfl
    rw [List.getElem_mapIdx, toggled]
    simp [racks, auto, odd_countP_take_succ found]

/-- The output after the first rows. -/
def outputUpTo (b : Board) (plans : List Plan) (ticks : List Nat) (i : Nat) : Output :=
  ⟨((b.rows plans ticks).take i).toArray, b.strobesAfter ticks i⟩

/-- The words that a row adds, with the strobes as they are after it. -/
theorem emitted_words (free : b.conflicts plans ticks = []) (filled : b.Filled plans ticks cells)
    (listed : ∀ t ∈ b.markerTicks, t ∈ ticks) (order : Ascending id ticks) (found : ticks[i]? = some t) :
    (b.racks.map fun rack => ((cells.get? i rack).getD {}).output
        (if i = 0 then Word.nop ||| (b.racks.map (preloadOf ticks.length cells)).getD rack 0 else Word.nop)
        (if (if b.config.autoStrobe then i % 2 == 1 else (b.strobesAfter ticks (i + 1)).getD rack false) then
          Marker.strobe.mask b.config.strobePosition else 0)) =
      b.racks.map fun rack => b.rowWord plans ticks i t rack := by
  refine List.map_congr_left fun rack inRacks => ?_
  have inRange : rack < b.config.racks := List.mem_range.mp inRacks
  have preloaded : (b.racks.map (preloadOf ticks.length cells)).getD rack 0 = preload plans ticks rack := by
    rw [← preloadOf_eq free filled inRange]
    simp [racks, inRange]
  have set : (if b.config.autoStrobe then i % 2 == 1 else (b.strobesAfter ticks (i + 1)).getD rack false) =
      b.strobeSet i t rack := by
    rw [strobeSet, ← countP_take listed order found]
    by_cases auto : b.config.autoStrobe <;> simp [strobesAfter, racks, auto, inRange]
  rw [filled i t rack found inRange, Option.getD_some, preloaded, set]
  exact output_cellAt free (List.mem_of_getElem? found) inRange i

/-- Each row adds its words, and turns the strobes that it marks. -/
theorem emit_outputUpTo (free : b.conflicts plans ticks = []) (filled : b.Filled plans ticks cells)
    (listed : ∀ t ∈ b.markerTicks, t ∈ ticks) (order : Ascending id ticks) (inRows : i < ticks.length) :
    b.emit ticks.toArray cells (b.racks.map (preloadOf ticks.length cells)) (b.outputUpTo plans ticks i) i =
      b.outputUpTo plans ticks (i + 1) := by
  have found : ticks[i]? = some ticks[i] := List.getElem?_eq_getElem inRows
  have size : (b.outputUpTo plans ticks i).rows.size = i := by
    simp only [outputUpTo, List.size_toArray, List.length_take, rows, List.length_map, List.length_zipIdx]
    omega
  have words := emitted_words free filled listed order found
  have next : (b.rows plans ticks)[i]? =
      some ⟨ticks[i], b.racks.map fun rack => b.rowWord plans ticks i ticks[i] rack⟩ := by
    simp [rows, found]
  have tick : ticks.toArray.getD i 0 = ticks[i] := by simp [Array.getD, inRows]
  have strobes : b.toggle cells i (b.outputUpTo plans ticks i).strobes = b.strobesAfter ticks (i + 1) :=
    toggle_strobesAfter filled found
  have longer : (b.rows plans ticks).take (i + 1) = (b.rows plans ticks).take i ++
      [⟨ticks[i], b.racks.map fun rack => b.rowWord plans ticks i ticks[i] rack⟩] := by
    rw [List.take_add_one, next, Option.toList_some]
  simp only [emit, size, tick, strobes, words]
  simp only [outputUpTo, longer, List.push_toArray]

/-- Row after row, the compiler emits what the places say. -/
theorem emitAll_eq (sound : Sound b) (planned : b.plans = .ok plans) (beyond : b.Beyond stop)
    (free : b.conflicts plans (b.unionTicks plans stop) = [])
    (filled : b.Filled plans (b.unionTicks plans stop) cells) :
    b.emitAll (b.unionTicks plans stop).toArray cells = b.rows plans (b.unionTicks plans stop) := by
  have order := b.unionTicks_ascending plans stop
  have listed : ∀ t ∈ b.markerTicks, t ∈ b.unionTicks plans stop := fun t member =>
    mem_unionTicks.mpr (.inr (.inr (.inr member)))
  generalize union : b.unionTicks plans stop = ticks at *
  have kept := kept_eq sound planned beyond (by rwa [union])
  have upTo : ∀ n ≤ ticks.length, (List.range n).foldl
      (b.emit ticks.toArray cells (b.racks.map (preloadOf ticks.length cells))) (b.outputUpTo plans ticks 0) =
        b.outputUpTo plans ticks n := by
    intro n inRows
    induction n with
    | zero => rfl
    | succ n ih =>
      rw [List.range_succ, List.foldl_append, ih (by omega)]
      exact emit_outputUpTo free filled listed order (by omega)
  have start : (⟨#[], b.racks.map fun _ => false⟩ : Output) = b.outputUpTo plans ticks 0 := by
    simp [outputUpTo, strobesAfter]
  have all : (b.rows plans ticks).take ticks.length = b.rows plans ticks :=
    List.take_of_length_le (by simp [rows])
  rw [union] at kept
  rw [emitAll, List.size_toArray, kept, start, upTo _ (Nat.le_refl _), outputUpTo, all]

/-! ### The stream -/

/-- What a board compiles to, said by its places. -/
def compiled (b : Board) (stopTime : Option Float) : Except BoardError Stream := do
  if b.config.autoStrobe && b.tracks.any MarkerTrack.hasStrobe then
    throw (.strobeModeConflict b.name)
  let plans ← b.plans
  let stop ← b.stopTick plans stopTime
  let ticks := b.unionTicks plans stop
  let conflicts := b.conflicts plans ticks
  if !conflicts.isEmpty then
    throw (.timeConflict ⟨b.name, conflicts⟩)
  if b.tracks.any fun t => (t.at? 0).contains .strobe then
    throw (.firstSampleHasStrobe b.name)
  return b.streamWith (b.rows plans ticks)

/-- The compiler makes of a board what its places say, be it a stream or an error. -/
theorem compile_eq_compiled (sound : Sound b) : b.compile stopTime = b.compiled stopTime := by
  unfold compile compiled
  split
  · rfl
  · refine bind_congr_ok fun plans planned => bind_congr_ok fun stop stopped => ?_
    have order := b.unionTicks_ascending plans stop
    have beyond := (beyond_earliestStop sound planned).mono (stopTick_success stopped).1
    have finds := rowOf_findsRows order
    have first : (b.unionTicks plans stop)[0]? = some 0 := List.head?_eq_getElem? ▸ unionTicks_head plans stop
    have changes : ∀ t ∈ Plan.changeTicks plans, t ∈ b.unionTicks plans stop := fun t member =>
      mem_unionTicks.mpr (.inr (.inr (.inl member)))
    have markers : ∀ t ∈ b.markerTicks, t ∈ b.unionTicks plans stop := fun t member =>
      mem_unionTicks.mpr (.inr (.inr (.inr member)))
    obtain ⟨cells, filled, set⟩ := setMarkers_placeAll finds first changes markers
    simp only [conflictsIn_placeAll finds changes, set]
    cases free : b.conflicts plans (b.unionTicks plans stop) with
    | cons entry rest => rfl
    | nil =>
      by_cases strobes : b.tracks.any fun t => (t.at? 0).contains .strobe
      · simp only [if_pos strobes]
        rfl
      · simp only [if_neg strobes]
        exact congrArg (fun rows => Except.ok (b.streamWith rows)) (emitAll_eq sound planned beyond free filled)

end Board

end Sequencer
