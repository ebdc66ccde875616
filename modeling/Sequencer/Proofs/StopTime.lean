import Sequencer.Proofs.StreamShape
import Sequencer.Proofs.TickRange
import Sequencer.Proofs.TimeZero

/-!
A stop time moves the end of a stream and nothing else.

The last row has its tick for itself, as everything that is written, marked or booked lies before it. A later stop tick
therefore changes the number of no row, and the words depend on the ticks of the rows only through what lies before the
stop.
-/
namespace Sequencer

/-- The same stream, but for the tick of its last row. -/
structure Stream.MovesEnd (s moved : Stream) (tick : Nat) : Prop where
  length : moved.rows.length = s.rows.length
  words : moved.rows.map Row.words = s.rows.map Row.words
  earlier : moved.ticks.dropLast = s.ticks.dropLast
  last : moved.ticks.getLast? = some tick
  finalValues : moved.finalValues = s.finalValues
  checksums : moved.checksums = s.checksums
  options : moved.options = s.options
  config : moved.config = s.config
  channels : moved.channels = s.channels

namespace Board
variable {b : Board} {plans : List Plan} {ticks ticks' : List Nat} {time : Float} {stop later row tick rack : Nat}

/-! ### The ticks before the stop -/

/-- The ticks of all rows but the last one. -/
def earlierTicks (b : Board) (plans : List Plan) : List Nat :=
  sortedTicks (0 :: (Plan.changeTicks plans ++ b.markerTicks))

theorem lt_of_earlierTicks (sound : Sound b) (planned : b.plans = .ok plans) (beyond : b.Beyond stop)
    (listed : tick ∈ b.earlierTicks plans) : tick < stop := by
  rw [earlierTicks, (sortedTicks_spec _).2, List.mem_cons, List.mem_append, mem_changeTicks sound planned,
    mem_markerTicks] at listed
  rcases listed with rfl | ⟨_, _, d, member, _, writes⟩ | ⟨rack, m, marked⟩
  · exact beyond.positive
  · exact beyond.taken d member tick writes.takes
  · exact beyond.marks rack tick m marked

/-- Only the last row depends on the stop tick. -/
theorem unionTicks_eq_append (sound : Sound b) (planned : b.plans = .ok plans) (beyond : b.Beyond stop) :
    b.unionTicks plans stop = b.earlierTicks plans ++ [stop] := by
  obtain ⟨order, members⟩ := sortedTicks_spec (0 :: (Plan.changeTicks plans ++ b.markerTicks))
  have appended : Ascending id (b.earlierTicks plans ++ [stop]) := by
    refine List.pairwise_append.mpr ⟨order, List.pairwise_singleton _ _, fun x listed y last => ?_⟩
    rw [List.mem_singleton.mp last]
    exact lt_of_earlierTicks sound planned beyond listed
  refine (b.unionTicks_ascending plans stop).eq_of_mem_iff appended fun x => ?_
  rw [mem_unionTicks, List.mem_append, earlierTicks, members, List.mem_singleton, List.mem_cons, List.mem_append]
  exact or_left_comm.trans or_comm

/-! ### What does not see the stop -/

theorem changesAt_of_beyond (sound : Sound b) (planned : b.plans = .ok plans) (beyond : b.Beyond stop) (rack : Nat) :
    Plan.changesAt plans stop rack = [] :=
  (changesAt_eq_nil_iff sound planned).mpr beyond.idle

theorem preload_append_idle (idle : Plan.changesAt plans tick rack = []) :
    preload plans (ticks ++ [tick]) rack = preload plans ticks rack := by
  have silent : (Plan.changesAt plans tick rack).head?.map (fun c => c.word.payload) = none := by rw [idle]; rfl
  rw [preload, List.findSome?_append, List.findSome?_singleton, silent, Option.or_none]
  rfl

theorem conflicts_append_idle (idle : ∀ rack, Plan.changesAt plans tick rack = []) :
    b.conflicts plans (ticks ++ [tick]) = b.conflicts plans ticks := by
  have none (row rack : Nat) : b.conflict? plans row tick rack = none := by simp [conflict?, idle]
  simp [conflicts, List.zipIdx_append, none]

/-- From the stop on all ticks look alike. -/
theorem rowWord_of_beyond (sound : Sound b) (planned : b.plans = .ok plans) (beyond : b.Beyond stop)
    (inOrder : stop ≤ later) : b.rowWord plans ticks row later rack = b.rowWord plans ticks row stop rack := by
  have before : ∀ m ∈ (b.tracks.getD rack .empty).marks, m.1 < stop := fun m set =>
    beyond.marks rack m.1 m.2 (MarkerTrack.mem_at?.mpr set)
  have unmarked : ∀ tick, stop ≤ tick → (b.tracks.getD rack .empty).at? tick = [] := fun tick reached =>
    List.eq_nil_iff_forall_not_mem.mpr fun m here =>
      Nat.not_lt_of_le reached (before _ (MarkerTrack.mem_at?.mp here))
  have bits : markerBits (b.tracks.getD rack .empty) b.config.strobePosition later =
      markerBits (b.tracks.getD rack .empty) b.config.strobePosition stop := by
    rw [markerBits, unmarked later inOrder, markerBits, unmarked stop (Nat.le_refl _)]
  have counted : b.strobesUpTo rack later = b.strobesUpTo rack stop := by
    obtain ⟨n, rfl⟩ := Nat.exists_eq_add_of_le inOrder
    have none : ((List.range n).map (stop + 1 + ·)).countP (fun t => b.marked rack t .strobe) = 0 := by
      refine List.countP_eq_zero.mpr fun t late marked => ?_
      obtain ⟨i, _, rfl⟩ := List.mem_map.mp late
      have := beyond.marks rack _ _ (of_decide_eq_true marked)
      omega
    have longer : stop + n + 1 = stop + 1 + n := by omega
    rw [strobesUpTo, longer, List.range_add, List.countP_append, none]
    rfl
  have strobe : b.strobeSet row later rack = b.strobeSet row stop rack := by
    rw [strobeSet, counted, strobeSet]
  simp only [rowWord, baseWord, changesAt_of_beyond sound planned beyond,
    changesAt_of_beyond sound planned (beyond.mono inOrder), bits, strobe]

theorem rowWord_congr (same : preload plans ticks rack = preload plans ticks' rack) :
    b.rowWord plans ticks row tick rack = b.rowWord plans ticks' row tick rack := by
  simp only [rowWord, baseWord, same]

theorem map_words_rows (b : Board) (plans : List Plan) (ticks : List Nat) : (b.rows plans ticks).map Row.words =
    ticks.zipIdx.map fun (tick, row) => b.racks.map fun rack => b.rowWord plans ticks row tick rack := by
  rw [rows, List.map_map]
  rfl

theorem words_of_later (sound : Sound b) (planned : b.plans = .ok plans) (beyond : b.Beyond stop)
    (inOrder : stop ≤ later) : (b.rows plans (b.unionTicks plans later)).map Row.words =
      (b.rows plans (b.unionTicks plans stop)).map Row.words := by
  have beyond' := beyond.mono inOrder
  have preloads (rack : Nat) : preload plans (b.earlierTicks plans ++ [later]) rack =
      preload plans (b.earlierTicks plans ++ [stop]) rack := by
    rw [preload_append_idle (changesAt_of_beyond sound planned beyond' rack),
      preload_append_idle (changesAt_of_beyond sound planned beyond rack)]
  rw [map_words_rows, map_words_rows, unionTicks_eq_append sound planned beyond,
    unionTicks_eq_append sound planned beyond', List.zipIdx_append, List.zipIdx_append, List.map_append, List.map_append]
  congr 1
  · refine List.map_congr_left fun entry _ => List.map_congr_left fun rack _ => ?_
    exact rowWord_congr (preloads rack)
  · refine congrArg (fun words => [words]) (List.map_congr_left fun rack _ => ?_)
    exact (rowWord_congr (preloads rack)).trans (rowWord_of_beyond sound planned beyond inOrder)

/-- Checksums look at the words of the rows only. -/
theorem channelChecksum_congr {rows rows' : List Row} (same : rows.map Row.words = rows'.map Row.words) :
    channelChecksum rows = channelChecksum rows' := by
  funext c
  have column := congrArg (List.map fun words : List Word => words.getD c.rack 0) same
  simp only [List.map_map, Function.comp_def] at column
  rw [channelChecksum, column, channelChecksum]

theorem streamOf_movesEnd (sound : Sound b) (planned : b.plans = .ok plans) (beyond : b.Beyond stop)
    (inOrder : stop ≤ later) : (b.streamOf plans stop).MovesEnd (b.streamOf plans later) later := by
  have words := words_of_later sound planned beyond inOrder
  have ticks := unionTicks_eq_append sound planned beyond
  have ticks' := unionTicks_eq_append sound planned (beyond.mono inOrder)
  have all : (b.streamOf plans stop).ticks = b.unionTicks plans stop := rows_ticks
  have all' : (b.streamOf plans later).ticks = b.unionTicks plans later := rows_ticks
  constructor
  case length => simpa [streamOf, streamWith] using congrArg List.length words
  case words => exact words
  case earlier => rw [all', all, ticks', ticks, List.dropLast_concat, List.dropLast_concat]
  case last => rw [all', ticks', List.getLast?_concat]
  case finalValues => rfl
  case checksums => exact congrArg b.perChannel (channelChecksum_congr words)
  case options => rfl
  case config => rfl
  case channels => rfl

/-! ### The stop tick of a request -/

theorem stopTick_some (requested : tickOf b.config.busRate time = .ok tick) (late : b.earliestStop plans ≤ tick) :
    b.stopTick plans (some time) = .ok tick := by
  have inRange : ¬ maxTick < tick := Nat.not_lt_of_le (tickOf_le requested)
  simp only [stopTick, tickFor, requested, bind, Except.bind, if_neg (Nat.not_lt_of_le late), pure, Except.pure,
    if_neg inRange]

theorem stopTick_early (requested : tickOf b.config.busRate time = .ok tick) (early : tick < b.earliestStop plans) :
    b.stopTick plans (some time) = .error (.invalidTime s!"stop time of board {b.name}" time
      (.beforeEnd (timeOf b.config.busRate (b.earliestStop plans)))) := by
  simp only [stopTick, tickFor, requested, bind, Except.bind, if_pos early]
  rfl

theorem compile_of_stopTick_error {stopTime : Option Float} {e : BoardError}
    (modes : (b.config.autoStrobe && b.tracks.any MarkerTrack.hasStrobe) = false) (planned : b.plans = .ok plans)
    (refused : b.stopTick plans stopTime = .error e) : b.compile stopTime = .error e := by
  unfold compile
  rw [modes, planned]
  simp only [bind, Except.bind, refused]
  rfl

/-- A requested stop that is late enough gives the same stream with the last row at its tick. An earlier one is
refused. -/
theorem stop_time_moves_end (built : Built b) {s : Stream} (success : b.compile none = .ok s)
    (requested : tickOf b.config.busRate time = .ok tick) :
    (s.stopTick ≤ tick → ∃ moved, b.compile (some time) = .ok moved ∧ s.MovesEnd moved tick) ∧
    (tick < s.stopTick → b.compile (some time) = .error (.invalidTime s!"stop time of board {b.name}" time
      (.beforeEnd (timeOf b.config.busRate s.stopTick)))) := by
  have sound := built.sound
  obtain ⟨modes, first, plans, stop, planned, stopped, free, rfl⟩ := (compile_eq_ok_iff sound).mp success
  obtain ⟨early, short, _⟩ := stopTick_success stopped
  obtain rfl : stop = b.earliestStop plans :=
    Except.ok.inj (stopped.symm.trans (stopTick_none (Nat.le_trans early short)))
  have beyond := beyond_earliestStop sound planned
  have atStop : (b.streamOf plans (b.earliestStop plans)).stopTick = b.earliestStop plans := by
    have ticks : (b.streamOf plans (b.earliestStop plans)).ticks = _ := rows_ticks
    rw [Stream.stopTick, ticks, unionTicks_getLast sound planned beyond, Option.getD_some]
  rw [atStop]
  constructor
  · intro late
    have free' : b.conflicts plans (b.unionTicks plans tick) = [] := by
      rw [unionTicks_eq_append sound planned beyond,
        conflicts_append_idle (changesAt_of_beyond sound planned beyond)] at free
      rw [unionTicks_eq_append sound planned (beyond.mono late),
        conflicts_append_idle (changesAt_of_beyond sound planned (beyond.mono late))]
      exact free
    exact ⟨b.streamOf plans tick, (compile_eq_ok_iff sound).mpr ⟨modes, first, plans, tick, planned,
      stopTick_some requested late, free', rfl⟩, streamOf_movesEnd sound planned beyond late⟩
  · intro tooEarly
    exact compile_of_stopTick_error modes planned (stopTick_early requested tooEarly)

/-- The stream ends at tick 10, before which tick 9 has no row. A stop at time zero is refused; any one from tick 10 on
takes the place of the last tick. -/
theorem mixed_end_moves : ∃ s, mixed.compile none = .ok s ∧ s.stopTick = 10 ∧
    mixed.compile (some 0.0) =
      .error (.invalidTime "stop time of board main" 0.0 (.beforeEnd (timeOf mixed.config.busRate 10))) ∧
    ∀ time tick, tickOf mixed.config.busRate time = .ok tick → 10 ≤ tick →
      ∃ moved, mixed.compile (some time) = .ok moved ∧ moved.rows.map Row.words = s.rows.map Row.words ∧
        moved.ticks = [0, 1, 2, 3, 4, 5, 6, 7, 8, tick] := by
  obtain ⟨s, success⟩ := mixed_compiles
  have ticks := mixed_ticks success
  have atStop : s.stopTick = 10 := by rw [Stream.stopTick, ticks]; rfl
  have refused := (stop_time_moves_end mixed_built success (tickOf_zero mixed.config.busRate)).2
  rw [atStop] at refused
  refine ⟨s, success, atStop, refused (by decide), fun time tick requested late => ?_⟩
  obtain ⟨moved, compiled, same⟩ := (stop_time_moves_end mixed_built success requested).1 (atStop.symm ▸ late)
  refine ⟨moved, compiled, same.words, ?_⟩
  obtain ⟨before, split⟩ := List.getLast?_eq_some_iff.mp same.last
  have kept := same.earlier
  rw [split, List.dropLast_concat, ticks] at kept
  rw [split, kept]
  rfl

end Board

end Sequencer
