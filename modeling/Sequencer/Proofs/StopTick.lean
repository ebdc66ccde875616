import Sequencer.Proofs.PlannedWords
import Sequencer.Stream.Compile

/-!
The stop tick of a board. It lies beyond every tick that a device takes, beyond every marker, and not
before the end of any instruction.
-/
namespace Sequencer

theorem le_foldl_max {ticks : List Nat} {tick : Nat} (member : tick ∈ ticks) (start : Nat) :
    tick ≤ ticks.foldl max start := by
  rw [List.foldl_max]
  exact Nat.le_trans (List.le_max?_getD_of_mem member) (Nat.le_max_right _ _)

theorem MarkerTrack.mem_at? {t : MarkerTrack} {tick : Nat} {m : Marker} :
    m ∈ t.at? tick ↔ (tick, m) ∈ t.marks := by
  simp [at?]

namespace Channel

theorem stop_le_endTick {c : Channel} (apart : Apart c.bookings) {booking : Booking}
    (member : booking ∈ c.bookings) : booking.stop ≤ c.endTick := by
  unfold endTick
  cases last : c.bookings.getLast? with
  | none =>
    rw [List.getLast?_eq_none_iff.mp last] at member
    cases member
  | some b =>
    rcases Nat.lt_or_eq_of_le (apart.ascending.le_getLast last member) with earlier | same
    · have := apart.stop_le member (List.mem_of_getLast? last) earlier
      have := b.start_lt_stop
      simp only [Option.map_some, Option.getD_some]
      omega
    · rw [apart.ascending.eq_of_tick member (List.mem_of_getLast? last) same]
      exact Nat.le_refl _

end Channel

namespace Device

/-- A written value takes the tick, whether or not its words differ from those before it. -/
def Takes (d : Device) (tick : Nat) : Prop :=
  if d.sharesAddress then tick ∈ d.writtenTicks
  else ∃ c ∈ d.channels, ∃ s ∈ c.samples, s.1 ≤ tick ∧ tick < s.1 + c.codec.wordsPerValue

theorem Writes.takes {d : Device} {tick : Nat} {word : Word} (writes : d.Writes tick word) :
    d.Takes tick := by
  unfold Writes at writes
  unfold Takes
  split
  · rename_i shares
    rw [if_pos shares] at writes
    exact writes.1
  · rename_i alone
    rw [if_neg alone] at writes
    obtain ⟨c, member, start, value, j, written, _, found, rfl⟩ := writes
    obtain ⟨bound, _⟩ := List.getElem?_eq_some_iff.mp found
    rw [c.length_words] at bound
    exact ⟨c, member, (start, value), written, by simp, by simpa using bound⟩

/-- The last tick of a plan is not before any tick that its device takes. -/
theorem Takes.le_lastTick {d : Device} (sound : d.Sound) {tick : Nat} (takes : d.Takes tick) :
    ∃ last, d.planned.lastTick = some last ∧ tick ≤ last := by
  unfold Takes at takes
  unfold planned
  split at takes
  · rename_i shares
    rw [if_pos shares]
    obtain ⟨last, found⟩ := Option.isSome_iff_exists.mp (List.getLast?_isSome.mpr
      (List.ne_nil_of_mem takes))
    exact ⟨last, found, d.writtenTicks_ascending.le_getLast found takes⟩
  · rename_i alone
    rw [if_neg alone]
    obtain ⟨c, member, s, written, start, stop⟩ := takes
    obtain ⟨latest, found⟩ := Option.isSome_iff_exists.mp (List.getLast?_isSome.mpr
      (List.ne_nil_of_mem written))
    have upTo := (Channel.samples_ascending (sound.apart c member)).le_getLast found written
    have lastTick : c.lastTick = some (latest.1 + c.codec.wordsPerValue - 1) := by
      rw [Channel.lastTick, found, Option.map_some]
    have listed : latest.1 + c.codec.wordsPerValue - 1 ∈ d.channels.filterMap Channel.lastTick :=
      List.mem_filterMap.mpr ⟨c, member, lastTick⟩
    obtain ⟨last, greatest⟩ := Option.isSome_iff_exists.mp (List.isSome_max?_of_mem listed)
    have := (List.max?_eq_some_iff.mp greatest).2 _ listed
    exact ⟨last, greatest, by omega⟩

end Device

namespace Board
variable {b : Board} {plans : List Plan} {stopTime : Option Float} {stop tick rack : Nat}

/-! ### Plans -/

theorem plans_eq (success : b.plans = .ok plans) : plans = b.devices.map Device.planned :=
  mapM_success_map (fun _ _ => Device.plan_eq) success

theorem plans_unchecked (unchecked : b.config.checkCodecs = false) :
    b.plans = .ok (b.devices.map Device.planned) := by
  unfold plans
  rw [unchecked]
  exact mapM_total Device.plan_unchecked b.devices

/-- A planned word is one that its device writes. -/
theorem writes_of_planned (sound : Sound b) (success : b.plans = .ok plans) {p : Plan} (listed : p ∈ plans)
    {change : Change} (planned : change ∈ p.changes) :
    ∃ d ∈ b.devices, d.rack = p.rack ∧ d.Writes change.tick change.word := by
  rw [plans_eq success] at listed
  obtain ⟨d, member, rfl⟩ := List.mem_map.mp listed
  have good := sound.devices d (sound.mem_devices.mp member)
  exact ⟨d, member, d.planned_rack.symm, (Device.mem_planned good).mp (List.mem_map.mpr ⟨change, planned, rfl⟩)⟩

theorem Sound.rack_lt (sound : Sound b) {d : Device} (member : d ∈ b.devices) :
    d.rack < b.config.racks :=
  (sound.slots d (sound.mem_devices.mp member)).2

/-! ### Markers -/

/-- A marker that is set at a tick of a rack. -/
def marked (b : Board) (rack tick : Nat) (marker : Marker) : Prop :=
  marker ∈ (b.tracks.getD rack .empty).at? tick

instance {marker : Marker} : Decidable (b.marked rack tick marker) :=
  inferInstanceAs (Decidable (marker ∈ _))

theorem exists_track_of_marked {m : Marker} (marked : b.marked rack tick m) :
    ∃ track ∈ b.tracks, m ∈ track.at? tick := by
  unfold Board.marked at marked
  rw [List.getD_eq_getElem?_getD] at marked
  cases found : b.tracks[rack]? with
  | none =>
    rw [found] at marked
    cases marked
  | some track =>
    rw [found] at marked
    exact ⟨track, List.mem_of_getElem? found, marked⟩

/-- What the earliest stop is after. -/
theorem lt_earliestStop {used : Nat}
    (listed : used ∈ plans.filterMap Plan.lastTick ++ b.markerTicks) :
    used < b.earliestStop plans := by
  refine le_foldl_max (List.mem_append_left _ ?_) 0
  exact List.mem_map.mpr ⟨used, listed, rfl⟩

theorem stop_le_endTick (sound : Sound b) {d : Device} (member : d ∈ b.devices) {c : Channel}
    (onDevice : c ∈ d.channels) {booking : Booking} (booked : booking ∈ c.bookings) :
    booking.stop ≤ b.endTick := by
  have good := sound.devices d (sound.mem_devices.mp member)
  calc booking.stop ≤ c.endTick := Channel.stop_le_endTick (good.apart c onDevice) booked
    _ ≤ d.endTick := le_foldl_max (List.mem_map_of_mem onDevice) 0
    _ ≤ b.endTick := le_foldl_max (List.mem_append_left _ (List.mem_map_of_mem member)) 0

theorem tickFor_success {what : String} {rate time : Float} (success : tickFor what rate time = .ok tick) :
    tickOf rate time = .ok tick := by
  unfold tickFor at success
  split at success
  · rename_i found
    rw [found, Except.ok.inj success]
  · cases success

theorem stopTick_success (success : b.stopTick plans stopTime = .ok stop) :
    b.earliestStop plans ≤ stop ∧ stop ≤ maxTick ∧
      ∀ time, stopTime = some time → tickOf b.config.busRate time = .ok stop := by
  unfold stopTick at success
  cases stopTime with
  | none =>
    obtain ⟨_, chosen, success⟩ := bind_success success
    cases chosen
    obtain ⟨inRange, success⟩ := guard_success success
    cases success
    exact ⟨Nat.le_refl _, Nat.le_of_not_lt inRange, fun time given => by cases given⟩
  | some time =>
    obtain ⟨requested, found, success⟩ := bind_success success
    obtain ⟨late, success⟩ := guard_success success
    obtain ⟨_, chosen, success⟩ := bind_success success
    cases chosen
    obtain ⟨inRange, success⟩ := guard_success success
    cases success
    refine ⟨Nat.le_of_not_lt late, Nat.le_of_not_lt inRange, ?_⟩
    rintro _ ⟨⟩
    exact tickFor_success found

theorem mem_markerTicks : tick ∈ b.markerTicks ↔ ∃ rack m, b.marked rack tick m := by
  rw [markerTicks, List.mem_flatMap]
  constructor
  · rintro ⟨track, member, listed⟩
    obtain ⟨⟨_, m⟩, set, rfl⟩ := List.mem_map.mp listed
    obtain ⟨rack, found⟩ := List.getElem?_of_mem member
    refine ⟨rack, m, ?_⟩
    rw [marked, List.getD_eq_getElem?_getD, found]
    exact MarkerTrack.mem_at?.mpr set
  · rintro ⟨rack, m, marked⟩
    obtain ⟨track, member, here⟩ := exists_track_of_marked marked
    exact ⟨track, member, List.mem_map.mpr ⟨_, MarkerTrack.mem_at?.mp here, rfl⟩⟩

/-- Without a stop time a board stops as early as it can. -/
theorem stopTick_none (short : b.earliestStop plans ≤ maxTick) :
    b.stopTick plans none = .ok (b.earliestStop plans) := by
  have inRange : ¬ maxTick < b.earliestStop plans := by omega
  unfold stopTick
  simp only [pure_bind, if_neg inRange]
  rfl

/-- What a stop tick is beyond. -/
structure Beyond (b : Board) (stop : Nat) : Prop where
  positive : 0 < stop
  taken : ∀ d ∈ b.devices, ∀ tick, d.Takes tick → tick < stop
  marks : ∀ rack tick m, b.marked rack tick m → tick < stop
  booked : ∀ c ∈ b.channels, ∀ booking ∈ c.bookings, booking.stop ≤ stop

theorem beyond_earliestStop (sound : Sound b) (planned : b.plans = .ok plans) :
    b.Beyond (b.earliestStop plans) := by
  refine ⟨le_foldl_max (by simp) 0, ?_, ?_, ?_⟩
  · intro d member tick takes
    obtain ⟨last, found, upTo⟩ := takes.le_lastTick (sound.devices d (sound.mem_devices.mp member))
    have inPlans : d.planned ∈ plans := by
      rw [plans_eq planned]
      exact List.mem_map_of_mem member
    have := lt_earliestStop (b := b) (List.mem_append_left _
      (List.mem_filterMap.mpr ⟨d.planned, inPlans, found⟩))
    omega
  · intro rack tick m marked
    exact lt_earliestStop (List.mem_append_right _ (mem_markerTicks.mpr ⟨rack, m, marked⟩))
  · intro c onBoard booking booked
    obtain ⟨d, member, onDevice⟩ := List.mem_flatMap.mp onBoard
    exact Nat.le_trans (stop_le_endTick sound member onDevice booked) (le_foldl_max (by simp) 0)

theorem Beyond.mono {later : Nat} (beyond : b.Beyond stop) (inOrder : stop ≤ later) :
    b.Beyond later where
  positive := Nat.lt_of_lt_of_le beyond.positive inOrder
  taken d member tick takes := Nat.lt_of_lt_of_le (beyond.taken d member tick takes) inOrder
  marks rack tick m marked := Nat.lt_of_lt_of_le (beyond.marks rack tick m marked) inOrder
  booked c member booking listed := Nat.le_trans (beyond.booked c member booking listed) inOrder

/-- The row of the stop tick comes after those of all changes. -/
theorem Beyond.change (beyond : b.Beyond stop) (sound : Sound b) (success : b.plans = .ok plans) {p : Plan}
    (listed : p ∈ plans) {change : Change} (planned : change ∈ p.changes) : change.tick < stop := by
  obtain ⟨d, member, _, writes⟩ := writes_of_planned sound success listed planned
  exact beyond.taken d member change.tick writes.takes

end Board

end Sequencer
