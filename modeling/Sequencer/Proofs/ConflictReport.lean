import Sequencer.Proofs.StreamRows

/-!
Conflicts. A board that passes all earlier checks is refused exactly if two words are planned for one
tick of one rack, wherever they come from, and the report lists exactly these places, each with all
its sources.
-/
namespace Sequencer

/-- The order of a report: by tick, and by rack within a tick. -/
def Conflict.Before (x y : Conflict) : Prop := x.tick < y.tick ∨ x.tick = y.tick ∧ x.rack < y.rack

/-- The channel of a record, with its value before and after. -/
def ChangeRecord.source (r : ChangeRecord) : String × Option Float × Option Float :=
  (r.channel, r.old, r.new)

theorem Conflict.addresses_ascending (c : Conflict) : Ascending id c.addresses :=
  (sortedTicks_spec _).1

theorem Conflict.mem_addresses {c : Conflict} {a : Nat} :
    a ∈ c.addresses ↔ ∃ r ∈ c.records, r.address = a := by
  have listed := (sortedTicks_spec (c.records.map ChangeRecord.address)).2 a
  rw [List.mem_map] at listed
  exact listed

namespace Board
variable {b : Board} {plans : List Plan} {ticks : List Nat} {stopTime : Option Float} {stop : Nat}

/-- The words that are planned for a tick of a rack, from all devices. -/
def plannedAt (b : Board) (rack tick : Nat) : List Change :=
  b.devices.flatMap fun d =>
    if d.rack = rack then d.plannedWords.filter fun planned => planned.tick == tick else []

theorem changesAt_eq (sound : Sound b) (success : b.plans = .ok plans) (rack tick : Nat) :
    Plan.changesAt plans tick rack = b.plannedAt rack tick := by
  rw [plans_eq success, Plan.changesAt, plannedAt, List.flatMap_map, List.flatMap_def,
    List.flatMap_def]
  congr 1
  refine List.map_congr_left fun d member => ?_
  rw [Device.planned_rack, Device.planned_changes (sound.devices d (sound.mem_devices.mp member))]

theorem mem_plannedAt {rack tick : Nat} {planned : Change} :
    planned ∈ b.plannedAt rack tick ↔
      ∃ d ∈ b.devices, d.rack = rack ∧ planned ∈ d.plannedWords ∧ planned.tick = tick := by
  rw [plannedAt, List.mem_flatMap]
  constructor
  · rintro ⟨d, member, inside⟩
    split at inside
    · rename_i same
      obtain ⟨listed, atTick⟩ := List.mem_filter.mp inside
      exact ⟨d, member, same, listed, by simpa using atTick⟩
    · cases inside
  · rintro ⟨d, member, same, listed, atTick⟩
    refine ⟨d, member, ?_⟩
    rw [if_pos same]
    exact List.mem_filter.mpr ⟨listed, by simpa using atTick⟩

/-! ### Two words for one place -/

theorem mem_conflicts {entry : Conflict} :
    entry ∈ b.conflicts plans ticks ↔ ∃ row, ticks[row]? = some entry.tick ∧
      entry.rack < b.config.racks ∧ 2 ≤ (Plan.changesAt plans entry.tick entry.rack).length ∧
      entry.time = timeOf b.config.busRate entry.tick ∧
      entry.records =
        (Plan.changesAt plans entry.tick entry.rack).flatMap (b.recordsOf row entry.rack) := by
  obtain ⟨tick, time, rack, records⟩ := entry
  simp only [conflicts, racks, List.mem_flatMap, List.mem_filterMap, List.mem_range, Prod.exists,
    List.mem_zipIdx_iff_getElem?, conflict?]
  constructor
  · rintro ⟨tick', row, listed, rack', inRange, found⟩
    split at found
    · rename_i many
      cases found
      exact ⟨row, listed, inRange, many, rfl, rfl⟩
    · cases found
  · rintro ⟨row, listed, inRange, many, rfl, rfl⟩
    exact ⟨tick, row, listed, rack, inRange, if_pos many⟩

theorem conflict?_place {row tick rack : Nat} {entry : Conflict}
    (found : b.conflict? plans row tick rack = some entry) : entry.tick = tick ∧ entry.rack = rack := by
  unfold conflict? at found
  split at found
  · cases found
    exact ⟨rfl, rfl⟩
  · cases found

theorem conflicts_inOrder (order : Ascending id ticks) :
    (b.conflicts plans ticks).Pairwise Conflict.Before := by
  have rows : ticks.zipIdx.Pairwise fun x y => x.1 < y.1 := by
    rw [← List.zipIdx_map_fst 0 ticks] at order
    exact List.pairwise_map.mp order
  rw [conflicts, List.pairwise_flatMap]
  constructor
  · rintro ⟨tick, row⟩ _
    refine List.pairwise_filterMap.mpr (List.pairwise_lt_range.imp ?_)
    intro rack rack' less x found y found'
    obtain ⟨xTick, xRack⟩ := conflict?_place found
    obtain ⟨yTick, yRack⟩ := conflict?_place found'
    exact .inr ⟨by rw [xTick, yTick], by rw [xRack, yRack]; exact less⟩
  · refine rows.imp ?_
    intro i j less x inX y inY
    obtain ⟨_, _, found⟩ := List.mem_filterMap.mp inX
    obtain ⟨_, _, found'⟩ := List.mem_filterMap.mp inY
    left
    rw [(conflict?_place found).1, (conflict?_place found').1]
    exact less

/-- A place with two words has its row and its rack. -/
theorem mem_conflicts_iff (sound : Sound b) (success : b.plans = .ok plans) {rack tick : Nat} :
    (∃ entry ∈ b.conflicts plans (b.unionTicks plans stop), entry.rack = rack ∧ entry.tick = tick) ↔
      2 ≤ (b.plannedAt rack tick).length := by
  rw [← changesAt_eq sound success]
  constructor
  · rintro ⟨entry, listed, rfl, rfl⟩
    obtain ⟨_, _, _, many, _⟩ := mem_conflicts.mp listed
    exact many
  · intro many
    obtain ⟨planned, first⟩ := List.exists_mem_of_length_pos (Nat.lt_of_lt_of_le Nat.zero_lt_two many)
    have inRange : rack < b.config.racks := by
      rw [changesAt_eq sound success] at first
      obtain ⟨d, member, rfl, _⟩ := mem_plannedAt.mp first
      exact sound.rack_lt member
    have inTicks : tick ∈ b.unionTicks plans stop := mem_unionTicks_of_change first
    obtain ⟨row, found⟩ := List.getElem?_of_mem inTicks
    let entry : Conflict := ⟨tick, timeOf b.config.busRate tick, rack,
      (Plan.changesAt plans tick rack).flatMap (b.recordsOf row rack)⟩
    exact ⟨entry, mem_conflicts.mpr ⟨row, found, inRange, many, rfl, rfl⟩, rfl, rfl⟩

/-! ### The report -/

/-- When a board is refused for its conflicts, if nothing else was wrong before. -/
theorem compile_eq_timeConflict_iff (sound : Sound b)
    (modes : (b.config.autoStrobe && b.tracks.any MarkerTrack.hasStrobe) = false)
    (planned : b.plans = .ok plans) (stopped : b.stopTick plans stopTime = .ok stop)
    {report : ConflictReport} :
    b.compile stopTime = .error (.timeConflict report) ↔
      b.conflicts plans (b.unionTicks plans stop) ≠ [] ∧
        report = ⟨b.name, b.conflicts plans (b.unionTicks plans stop)⟩ := by
  rw [compile_eq_compiled sound]
  unfold compiled
  rw [modes, planned]
  simp only [bind, Except.bind, stopped, Bool.false_eq_true, if_false, pure, Except.pure, throw,
    throwThe, MonadExceptOf.throw]
  cases found : b.conflicts plans (b.unionTicks plans stop) with
  | nil =>
    simp only [List.isEmpty_nil, Bool.not_true, Bool.false_eq_true, if_false]
    split <;> simp
  | cons entry rest => simp [eq_comm]

theorem records_source (row rack : Nat) (planned : List Change) :
    (planned.flatMap (b.recordsOf row rack)).map ChangeRecord.source =
      planned.flatMap Change.sources := by
  rw [List.map_flatMap]
  congr 1
  funext change
  rw [recordsOf, List.map_map]
  exact List.map_id _

theorem mem_records_address (row rack : Nat) {planned : List Change}
    (sourced : ∀ change ∈ planned, change.sources ≠ []) {a : Nat} :
    (∃ r ∈ planned.flatMap (b.recordsOf row rack), r.address = a) ↔
      ∃ change ∈ planned, change.word.address = a := by
  constructor
  · rintro ⟨r, inRecords, rfl⟩
    obtain ⟨change, listed, inChange⟩ := List.mem_flatMap.mp inRecords
    obtain ⟨source, _, rfl⟩ := List.mem_map.mp inChange
    exact ⟨change, listed, rfl⟩
  · rintro ⟨change, listed, rfl⟩
    obtain ⟨source, first⟩ := List.exists_mem_of_ne_nil _ (sourced change listed)
    exact ⟨_, List.mem_flatMap.mpr ⟨change, listed, List.mem_map_of_mem first⟩, rfl⟩

/-- A board that passes the checks of strobe mode, codecs, stop time and ticks has a time conflict
exactly if two words are planned for one tick of one rack. The report has an entry for each such
place and no other, in order, with the sources and the addresses of all words planned there. An
unchanged value plans no word: not on a channel with words of its own, and not on a bank whose lines
all keep theirs. -/
theorem conflicts_are_exact (built : Built b)
    (modes : (b.config.autoStrobe && b.tracks.any MarkerTrack.hasStrobe) = false)
    (planned : b.plans = .ok plans) (stopped : b.stopTick plans stopTime = .ok stop) :
    ((∃ report, b.compile stopTime = .error (.timeConflict report)) ↔
      ∃ rack tick, 2 ≤ (b.plannedAt rack tick).length) ∧
    (∀ report, b.compile stopTime = .error (.timeConflict report) →
      report.board = b.name ∧ report.conflicts.Pairwise Conflict.Before ∧
      (∀ rack tick, (∃ entry ∈ report.conflicts, entry.rack = rack ∧ entry.tick = tick) ↔
        2 ≤ (b.plannedAt rack tick).length) ∧
      ∀ entry ∈ report.conflicts,
        entry.records.map ChangeRecord.source =
          (b.plannedAt entry.rack entry.tick).flatMap Change.sources ∧
        entry.addresses ≠ [] ∧ Ascending id entry.addresses ∧
        ∀ a, a ∈ entry.addresses ↔
          ∃ word ∈ b.plannedAt entry.rack entry.tick, word.word.address = a) ∧
    (∀ d ∈ b.devices, ¬ d.sharesAddress → ∀ c ∈ d.channels, ∀ word ∈ c.plannedWords,
      ∀ source ∈ word.sources, source.2.1.map c.words ≠ source.2.2.map c.words) ∧
    ∀ d ∈ b.devices, d.sharesAddress → ∀ tick, d.Repeats tick → (∃ earlier ∈ d.writtenTicks, earlier < tick) →
      ∀ word ∈ d.plannedWords, word.tick ≠ tick := by
  have sound := built.sound
  have refused := @compile_eq_timeConflict_iff b plans stopTime stop sound modes planned stopped
  have places := fun rack tick => @mem_conflicts_iff b plans stop sound planned rack tick
  refine ⟨?_, ?_, fun d _ _ c _ word listed source behind => Channel.sources_changed listed behind,
    fun d member shares tick repeats later =>
      repeats.silent (sound.devices d (sound.mem_devices.mp member)) shares later⟩
  · constructor
    · rintro ⟨report, failed⟩
      obtain ⟨entry, listed⟩ := List.exists_mem_of_ne_nil _ (refused.mp failed).1
      exact ⟨entry.rack, entry.tick, (places _ _).mp ⟨entry, listed, rfl, rfl⟩⟩
    · rintro ⟨rack, tick, many⟩
      obtain ⟨entry, listed, _⟩ := (places rack tick).mpr many
      exact ⟨_, refused.mpr ⟨List.ne_nil_of_mem listed, rfl⟩⟩
  · intro report failed
    obtain ⟨_, rfl⟩ := refused.mp failed
    refine ⟨rfl, conflicts_inOrder (b.unionTicks_ascending plans stop), places, fun entry listed => ?_⟩
    obtain ⟨row, _, _, many, _, records⟩ := mem_conflicts.mp listed
    rw [changesAt_eq sound planned] at many records
    have sourced : ∀ word ∈ b.plannedAt entry.rack entry.tick, word.sources ≠ [] := by
      intro word inPlace
      obtain ⟨d, _, _, inDevice, _⟩ := mem_plannedAt.mp inPlace
      exact Device.sources_ne_nil inDevice
    have addresses : ∀ a, a ∈ entry.addresses ↔
        ∃ word ∈ b.plannedAt entry.rack entry.tick, word.word.address = a := by
      intro a
      rw [Conflict.mem_addresses, records]
      exact mem_records_address row entry.rack sourced
    obtain ⟨word, first⟩ := List.exists_mem_of_length_pos (Nat.lt_of_lt_of_le Nat.zero_lt_two many)
    refine ⟨?_, List.ne_nil_of_mem ((addresses _).mpr ⟨word, first, rfl⟩),
      entry.addresses_ascending, addresses⟩
    rw [records]
    exact records_source row entry.rack _

/-- A frequency takes ticks 1 to 3, and the next one already begins at tick 3. An output is set at
tick 2, and once more to the same value at tick 4. -/
def crowdedScript : Except BoardError Board := do
  let b ← Board.new { name := "main" }
  let b ← b.addPseudoClock "pc"
  let b ← b.addClockLine "pc" "cl"
  let b ← b.addSynthesizer "cl" "dds0" 0 0x20 0.0 0.0 0.0
  let b ← b.addAnalogOutput "cl" "ao0" 0 0x10 "DAC712" 0.0
  let b ← b.editChannel "dds0_freq" fun c => c.book (.held 1 1e8)
  let b ← b.editChannel "dds0_freq" fun c => c.book (.held 3 2e8)
  let b ← b.editChannel "ao0" fun c => c.book (.held 2 5.0)
  b.editChannel "ao0" fun c => c.book (.held 4 5.0)

theorem crowdedScript_succeeds : crowdedScript.toOption.isSome := by decide +kernel

def crowded : Board := crowdedScript.toOption.get crowdedScript_succeeds

theorem crowdedScript_builds : Builds crowdedScript :=
  .bind (.new _) fun _ h => .bind (.edit h fun _ => .pseudoClock _) fun _ h =>
  .bind (.edit h fun _ => .clockLine _ _) fun _ h =>
  .bind (.edit h fun _ => .synthesizer _ _ _ _ _ _ _) fun _ h =>
  .bind (.edit h fun _ => .analogOutput _ _ _ _ _ _) fun _ h =>
  .bind (.book h _ _) fun _ h => .bind (.book h _ _) fun _ h =>
  .bind (.book h _ _) fun _ h => .book h _ _

theorem crowded_built : Built crowded := crowdedScript_builds _ (eq_ok_get crowdedScript_succeeds)

/-- The frequency stands in the way of the output at tick 2 and of the next frequency at tick 3. Setting
the output again at tick 4 is no conflict. -/
theorem crowded_conflicts : ∃ report, crowded.compile none = .error (.timeConflict report) ∧
    (∃ entry ∈ report.conflicts, (entry.rack = 0 ∧ entry.tick = 2) ∧
      0x10 ∈ entry.addresses ∧ 0x20 ∈ entry.addresses) ∧
    (∃ entry ∈ report.conflicts, entry.rack = 0 ∧ entry.tick = 3) ∧
    ¬ ∃ entry ∈ report.conflicts, entry.rack = 0 ∧ entry.tick = 4 := by
  have planned : crowded.plans = .ok (crowded.devices.map Device.planned) :=
    plans_unchecked (by decide +kernel)
  have stopped : crowded.stopTick (crowded.devices.map Device.planned) none = _ :=
    stopTick_none (by decide +kernel)
  obtain ⟨exact_, each, _⟩ := conflicts_are_exact crowded_built (by decide +kernel) planned stopped
  obtain ⟨report, failed⟩ := exact_.mpr ⟨0, 2, by decide +kernel⟩
  obtain ⟨_, _, places, entries⟩ := each report failed
  refine ⟨report, failed, ?_, (places 0 3).mpr (by decide +kernel),
    fun listed => absurd ((places 0 4).mp listed) (by decide +kernel)⟩
  obtain ⟨entry, listed, rack, tick⟩ := (places 0 2).mpr (by decide +kernel)
  obtain ⟨_, _, _, addresses⟩ := entries entry listed
  rw [rack, tick] at addresses
  have both : ∀ a ∈ [0x10, 0x20], ∃ word ∈ crowded.plannedAt 0 2, word.word.address = a := by
    decide +kernel
  exact ⟨entry, listed, ⟨rack, tick⟩, (addresses _).mpr (both _ (by simp)),
    (addresses _).mpr (both _ (by simp))⟩

end Board

end Sequencer
