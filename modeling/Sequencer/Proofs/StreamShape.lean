import Sequencer.Proofs.RowWords

/-!
The rows of a stream: their ticks ascend from zero to the stop tick, which lies beyond everything that
is written, marked or booked. Hence every rack is idle in the last row.
-/
namespace Sequencer

namespace Board
variable {b : Board} {plans : List Plan} {stopTime : Option Float} {stop tick rack : Nat}

theorem mem_changeTicks (sound : Sound b) (planned : b.plans = .ok plans) :
    tick ∈ Plan.changeTicks plans ↔ ∃ rack word, b.Sends rack tick word := by
  rw [Plan.changeTicks, List.mem_flatMap]
  constructor
  · rintro ⟨p, listed, inTicks⟩
    obtain ⟨change, inPlan, rfl⟩ := List.mem_map.mp inTicks
    exact ⟨p.rack, change.word, (changesAt_iff_writes sound planned).mp
      ⟨change, Plan.mem_changesAt.mpr ⟨p, listed, rfl, inPlan, rfl⟩, rfl⟩⟩
  · rintro ⟨rack, word, sends⟩
    obtain ⟨change, listed, _⟩ := (changesAt_iff_writes sound planned).mpr sends
    obtain ⟨p, inPlans, _, inPlan, rfl⟩ := Plan.mem_changesAt.mp listed
    exact ⟨p, inPlans, List.mem_map_of_mem inPlan⟩

theorem Beyond.idle (beyond : b.Beyond stop) : b.Idle rack stop := by
  rintro word ⟨d, member, _, writes⟩
  exact Nat.lt_irrefl _ (beyond.taken d member stop writes.takes)

/-! ### The rows -/

/-- Where there can be a row, said by what the devices send. -/
theorem mem_unionTicks_iff_sends (sound : Sound b) (planned : b.plans = .ok plans) :
    tick ∈ b.unionTicks plans stop ↔ tick = 0 ∨ tick = stop ∨
      (∃ rack word, b.Sends rack tick word) ∨ ∃ rack m, b.marked rack tick m := by
  rw [mem_unionTicks, mem_changeTicks sound planned, mem_markerTicks]

/-- A word without change, data and marker. Only the strobe, which is a level and no mark of its tick,
may be set. -/
structure Blank (b : Board) (w : Word) : Prop where
  nop : w.isNop
  payload : w.payload = 0
  markers : ∀ m : Marker, m ≠ .nop → m ≠ .strobe → ¬ w.isSet (m.mask b.config.strobePosition)

/-- After the first row an idle rack without markers shows nothing. -/
theorem Prescribes.blank_of_idle {row : Nat} {w : Word} (prescribed : b.Prescribes row tick rack w)
    (later : row ≠ 0) (idle : b.Idle rack tick) (unmarked : ∀ m, ¬ b.marked rack tick m) :
    b.Blank w where
  nop := prescribed.nop.mpr (.inl idle)
  payload := prescribed.blank idle (.inl later)
  markers m notNop notStrobe set := unmarked m ((prescribed.markers m notNop notStrobe).mp set)

theorem last_row_blank (sound : Sound b) (planned : b.plans = .ok plans)
    (free : b.conflicts plans (b.unionTicks plans stop) = []) (beyond : b.Beyond stop) :
    ∃ row, (b.rows plans (b.unionTicks plans stop)).getLast? = some row ∧
      row.words.length = b.config.racks ∧ ∀ w ∈ row.words, b.Blank w := by
  have lastTick := unionTicks_getLast sound planned beyond
  rw [← @rows_ticks b plans (b.unionTicks plans stop), List.getLast?_map] at lastTick
  obtain ⟨row, last, atStop⟩ := Option.map_eq_some_iff.mp lastTick
  have found := last
  rw [List.getLast?_eq_getElem?] at found
  obtain ⟨listed, words⟩ := getElem?_rows.mp found
  have later : (b.rows plans (b.unionTicks plans stop)).length - 1 ≠ 0 := by
    intro first
    rw [first, ← List.head?_eq_getElem?, unionTicks_head] at listed
    have := beyond.positive
    have := Option.some.inj listed
    omega
  refine ⟨row, last, by rw [words, List.length_map, racks, List.length_range], fun w member => ?_⟩
  rw [words] at member
  obtain ⟨rack, inRacks, rfl⟩ := List.mem_map.mp member
  rw [atStop]
  exact (prescribes_rowWord sound _ stop planned free).blank_of_idle later
    beyond.idle fun m marked => Nat.lt_irrefl _ (beyond.marks rack stop m marked)

/-- The ticks of a stream ascend from zero to the stop tick and fit in 32 bits. They are those two and
the ticks of changes and markers. The stop tick is beyond everything, so that the last row shows nothing
on any rack. -/
theorem stream_runs_to_its_stop (built : Built b) {s : Stream}
    (success : b.compile stopTime = .ok s) :
    Ascending id s.ticks ∧ s.ticks.head? = some 0 ∧ s.ticks.getLast? = some s.stopTick ∧
    (∃ plans, b.plans = .ok plans ∧ b.stopTick plans stopTime = .ok s.stopTick) ∧
    (∀ time, stopTime = some time → tickOf b.config.busRate time = .ok s.stopTick) ∧
    (∀ tick ∈ s.ticks, tick < 2 ^ 32 ∧ (BitVec.ofNat 32 tick).toNat = tick) ∧
    (∀ tick, tick ∈ s.ticks ↔ tick = 0 ∨ tick = s.stopTick ∨
      (∃ rack word, b.Sends rack tick word) ∨ ∃ rack m, b.marked rack tick m) ∧
    b.Beyond s.stopTick ∧
    ∃ row, s.rows.getLast? = some row ∧ row.words.length = b.config.racks ∧
      ∀ w ∈ row.words, b.Blank w := by
  have sound := built.sound
  obtain ⟨_, _, plans, stop, planned, stopped, free, rfl⟩ := (compile_eq_ok_iff sound).mp success
  obtain ⟨late, inRange, requested⟩ := stopTick_success stopped
  have beyond := (beyond_earliestStop sound planned).mono late
  have ticks : (b.streamOf plans stop).ticks = b.unionTicks plans stop := rows_ticks
  have order := b.unionTicks_ascending plans stop
  have last := unionTicks_getLast sound planned beyond
  have atStop : (b.streamOf plans stop).stopTick = stop := by
    rw [Stream.stopTick, ticks, last, Option.getD_some]
  rw [ticks, atStop]
  refine ⟨order, unionTicks_head plans stop, last, ⟨plans, planned, stopped⟩, requested, ?_,
    fun tick => mem_unionTicks_iff_sends sound planned, beyond, last_row_blank sound planned free beyond⟩
  intro tick listed
  have upTo : tick ≤ stop := order.le_getLast last listed
  have small : tick < 2 ^ 32 := by
    unfold maxTick at inRange
    omega
  exact ⟨small, by rw [BitVec.toNat_ofNat, Nat.mod_eq_of_lt small]⟩

def mixedOutput : Device := mixed.devices.get ⟨2, by decide +kernel⟩

theorem mixedOutput_takes : mixedOutput.Takes 9 := by
  let c := mixedOutput.channels.get ⟨0, by decide +kernel⟩
  rw [Device.Takes, if_neg (by decide +kernel)]
  exact ⟨c, List.get_mem _ _, c.samples.get ⟨1, by decide +kernel⟩, List.get_mem _ _,
    by decide +kernel, by decide +kernel⟩

/-- The output takes tick 9 with a value that does not change it: there is no row at tick 9, but the
stream lasts until tick 10. The last word of the frequency has its row at tick 8. -/
theorem mixed_runs_to_ten : ∃ s, mixed.compile none = .ok s ∧
    mixedOutput.Takes 9 ∧ 9 ∉ s.ticks ∧ 9 < s.stopTick ∧
    (∃ word, mixed.Sends 0 8 word) ∧ 8 ∈ s.ticks ∧ s.ticks.getLast? = some 10 ∧
    ∃ row, s.rows.getLast? = some row ∧ row.words.length = 2 ∧ ∀ w ∈ row.words, mixed.Blank w := by
  obtain ⟨s, success⟩ := mixed_compiles
  obtain ⟨_, _, _, _, _, _, members, beyond, row, found, width, blank⟩ :=
    stream_runs_to_its_stop mixed_built success
  have ticks := mixed_ticks success
  have sends : ∃ word, mixed.Sends 0 8 word := by
    have busy : ¬ mixed.Idle 0 8 := by
      rw [← changesAt_eq_nil_iff mixed_built.sound mixed_planned]
      decide +kernel
    exact Classical.not_forall_not.mp busy
  have racks : mixed.config.racks = 2 := by decide +kernel
  rw [racks] at width
  exact ⟨s, success, mixedOutput_takes, by rw [ticks]; decide,
    beyond.taken mixedOutput (List.get_mem _ _) 9 mixedOutput_takes, sends,
    (members 8).mpr (.inr (.inr (.inl ⟨0, sends⟩))), by rw [ticks]; rfl, row, found, width, blank⟩

end Board

end Sequencer
