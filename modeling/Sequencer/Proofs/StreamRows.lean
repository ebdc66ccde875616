import Sequencer.Proofs.Emission

/-!
The rows of a compiled stream. Each planned word is the payload of the word of its rack in the row of
its tick. Markers are laid over it: they leave the payload alone, but a NOP marker turns the word
into a NOP.
-/
namespace Sequencer

/-- A value set at a tick and kept from then on. -/
def Booking.held (tick : Nat) (value : Float) : Booking :=
  ⟨tick, tick + 1, 1, true, .ofConstant value, Nat.lt_succ_self tick, Nat.one_pos⟩

namespace Board
variable {b : Board} {plans : List Plan} {ticks : List Nat} {stopTime : Option Float} {s : Stream}

/-- The stream of given plans and stop tick. -/
def streamOf (b : Board) (plans : List Plan) (stop : Nat) : Stream :=
  b.streamWith (b.rows plans (b.unionTicks plans stop))

/-- When a board compiles, and to what. -/
theorem compile_eq_ok_iff (sound : Sound b) : b.compile stopTime = .ok s ↔
    (b.config.autoStrobe && b.tracks.any MarkerTrack.hasStrobe) = false ∧
    (b.tracks.any fun t => (t.at? 0).contains .strobe) = false ∧
    ∃ plans stop, b.plans = .ok plans ∧ b.stopTick plans stopTime = .ok stop ∧
      b.conflicts plans (b.unionTicks plans stop) = [] ∧ s = b.streamOf plans stop := by
  rw [compile_eq_compiled sound]
  constructor
  · intro success
    unfold compiled at success
    obtain ⟨modes, success⟩ := guard_success success
    obtain ⟨plans, planned, success⟩ := bind_success success
    obtain ⟨stop, stopped, success⟩ := bind_success success
    obtain ⟨free, success⟩ := guard_success success
    obtain ⟨first, success⟩ := guard_success success
    cases success
    exact ⟨by simpa using modes, by simpa using first, plans, stop, planned, stopped,
      by simpa using free, rfl⟩
  · rintro ⟨modes, first, plans, stop, planned, stopped, free, rfl⟩
    unfold compiled
    rw [modes, planned]
    simp only [bind, Except.bind, stopped, free, first]
    rfl

/-- Whatever the rows are, all else in a stream is told by them and the board. -/
theorem eq_streamWith (success : b.compile stopTime = .ok s) : s = b.streamWith s.rows := by
  unfold compile at success
  obtain ⟨_, success⟩ := guard_success success
  obtain ⟨plans, _, success⟩ := bind_success success
  obtain ⟨stop, _, success⟩ := bind_success success
  obtain ⟨_, success⟩ := guard_success success
  obtain ⟨cells, _, success⟩ := bind_success success
  cases success
  rfl

theorem compile_config (success : b.compile stopTime = .ok s) : s.config = b.config := by
  rw [eq_streamWith success]
  rfl

/-! ### The words of a row -/

/-- Markers and the strobe are laid over the word of a place. -/
theorem getLsbD_rowWord (sound : Sound b) (row tick rack i : Nat) :
    (b.rowWord plans ticks row tick rack).getLsbD i ↔
      (baseWord plans ticks row tick rack).getLsbD i ∨
      (∃ m, b.marked rack tick m ∧ m ≠ .strobe ∧ m.position b.config.strobePosition = i) ∨
      b.strobeSet row tick rack ∧ b.config.strobePosition = i := by
  rw [rowWord, BitVec.getLsbD_or, BitVec.getLsbD_or, Bool.or_eq_true, Bool.or_eq_true, or_assoc,
    getLsbD_markerBits sound.strobe]
  refine or_congr_right (or_congr_right ?_)
  cases b.strobeSet row tick rack with
  | false => simp
  | true =>
    rw [if_pos rfl, Marker.getLsbD_mask sound.strobe, decide_eq_true_eq]
    exact (and_iff_right rfl).symm

/-- Neither markers nor the strobe reach into the payload. -/
theorem payload_rowWord (sound : Sound b) (row tick rack : Nat) :
    (b.rowWord plans ticks row tick rack).payload =
      (baseWord plans ticks row tick rack).payload := by
  apply BitVec.eq_of_getLsbD_eq
  intro i _
  rw [Word.getLsbD_payload, Word.getLsbD_payload]
  by_cases low : i < 23
  · have noMarker : ∀ m : Marker, m.position b.config.strobePosition ≠ i := fun m same => by
      have := (Marker.position_range sound.strobe m).1
      omega
    have same := @getLsbD_rowWord b plans ticks sound row tick rack i
    have noStrobe : b.config.strobePosition ≠ i := noMarker .strobe
    simp only [noMarker, noStrobe, and_false, exists_false, or_false] at same
    rw [Bool.eq_iff_iff.mpr same]
  · simp [low]

/-- A marker other than the strobe shows where it is set, or where the word has its bit already. -/
theorem isSet_rowWord (sound : Sound b) (row tick rack : Nat) {m : Marker}
    (notStrobe : m ≠ .strobe) :
    (b.rowWord plans ticks row tick rack).isSet (m.mask b.config.strobePosition) ↔
      (baseWord plans ticks row tick rack).isSet (m.mask b.config.strobePosition) ∨
        b.marked rack tick m := by
  have own : ∀ n : Marker,
      n.position b.config.strobePosition = m.position b.config.strobePosition ↔ n = m := fun n =>
    ⟨fun same => Marker.position_injective sound.strobe same, fun same => by rw [same]⟩
  have other : b.config.strobePosition ≠ m.position b.config.strobePosition := fun same =>
    notStrobe ((own .strobe).mp same).symm
  rw [Marker.isSet_mask sound.strobe, Marker.isSet_mask sound.strobe, getLsbD_rowWord sound]
  simp only [other, and_false, or_false, own]
  refine or_congr_right ⟨?_, fun marked => ⟨m, marked, notStrobe, rfl⟩⟩
  rintro ⟨_, marked, _, rfl⟩
  exact marked

/-- Only a NOP marker turns a word into a NOP. -/
theorem isNop_rowWord (sound : Sound b) (row tick rack : Nat) :
    (b.rowWord plans ticks row tick rack).isNop ↔
      (baseWord plans ticks row tick rack).isNop ∨ b.marked rack tick .nop :=
  isSet_rowWord sound row tick rack (m := .nop) (by decide)

theorem rowWord_of_change (sound : Sound b) (ticks : List Nat) (row : Nat) {tick rack : Nat}
    {change : Change}
    {others : List Change} (planned : Plan.changesAt plans tick rack = change :: others) :
    (b.rowWord plans ticks row tick rack).payload = change.word.payload ∧
      ((b.rowWord plans ticks row tick rack).isNop ↔
        change.word.isNop ∨ b.marked rack tick .nop) := by
  have base : baseWord plans ticks row tick rack = change.word := by
    rw [baseWord, planned]
  rw [payload_rowWord sound, isNop_rowWord sound, base]
  exact ⟨rfl, Iff.rfl⟩

/-- Without a change the word is a NOP, also in the first row. -/
theorem isNop_baseWord (ticks : List Nat) (row : Nat) {tick rack : Nat}
    (idle : Plan.changesAt plans tick rack = []) : (baseWord plans ticks row tick rack).isNop := by
  have nop : Word.isNop Word.nop = true := by decide
  rw [baseWord, idle]
  simp only
  split
  · rw [Word.isNop_or, nop]
    rfl
  · exact nop

theorem rowWord_of_none (sound : Sound b) (ticks : List Nat) (row : Nat) {tick rack : Nat}
    (idle : Plan.changesAt plans tick rack = []) :
    (b.rowWord plans ticks row tick rack).isNop :=
  (isNop_rowWord sound row tick rack).mpr (.inl (isNop_baseWord ticks row idle))

/-! ### Rows -/

theorem getElem?_rows {row : Row} {index : Nat} : (b.rows plans ticks)[index]? = some row ↔
    ticks[index]? = some row.tick ∧
      row.words = b.racks.map fun rack => b.rowWord plans ticks index row.tick rack := by
  obtain ⟨tick, words⟩ := row
  simp only [rows, List.getElem?_map, List.getElem?_zipIdx, Option.map_map, Option.map_eq_some_iff,
    Function.comp_apply, Nat.zero_add, Row.mk.injEq]
  constructor
  · rintro ⟨_, listed, rfl, rfl⟩
    exact ⟨listed, rfl⟩
  · rintro ⟨listed, rfl⟩
    exact ⟨tick, listed, rfl, rfl⟩

theorem mem_rows {row : Row} : row ∈ b.rows plans ticks ↔ ∃ index, ticks[index]? = some row.tick ∧
    row.words = b.racks.map fun rack => b.rowWord plans ticks index row.tick rack := by
  rw [List.mem_iff_getElem?]
  exact exists_congr fun index => getElem?_rows

theorem rows_ticks : (b.rows plans ticks).map Row.tick = ticks := by
  rw [rows, List.map_map]
  exact List.zipIdx_map_fst 0 ticks

theorem rows_ascending (order : Ascending id ticks) : Ascending Row.tick (b.rows plans ticks) := by
  rw [← @rows_ticks b plans ticks] at order
  exact List.pairwise_map.mp order

/-! ### What the devices write is what the rows carry -/

theorem changesAt_iff_writes (sound : Sound b) (success : b.plans = .ok plans) {tick rack : Nat}
    {word : Word} :
    (∃ change ∈ Plan.changesAt plans tick rack, change.word = word) ↔
      ∃ d ∈ b.devices, d.rack = rack ∧ d.Writes tick word := by
  rw [plans_eq success]
  simp only [Plan.mem_changesAt, List.mem_map]
  constructor
  · rintro ⟨change, ⟨_, ⟨d, inBoard, rfl⟩, rack, inPlan, rfl⟩, rfl⟩
    have good := sound.devices d (sound.mem_devices.mp inBoard)
    rw [Device.planned_rack] at rack
    exact ⟨d, inBoard, rack, (Device.mem_planned good).mp (List.mem_map.mpr ⟨change, inPlan, rfl⟩)⟩
  · rintro ⟨d, inBoard, rack, writes⟩
    have good := sound.devices d (sound.mem_devices.mp inBoard)
    obtain ⟨change, inPlan, entry⟩ := List.mem_map.mp ((Device.mem_planned good).mpr writes)
    cases entry
    exact ⟨change, ⟨_, ⟨d, inBoard, rfl⟩, d.planned_rack.trans rack, inPlan, rfl⟩, rfl⟩

theorem mem_unionTicks_of_change {stop tick rack : Nat} {change : Change}
    (planned : change ∈ Plan.changesAt plans tick rack) : tick ∈ b.unionTicks plans stop := by
  obtain ⟨p, listed, _, inPlan, rfl⟩ := Plan.mem_changesAt.mp planned
  exact mem_unionTicks.mpr (.inr (.inr (.inl
    (List.mem_flatMap.mpr ⟨p, listed, List.mem_map.mpr ⟨change, inPlan, rfl⟩⟩))))

theorem stream_ascending (sound : Sound b) (success : b.compile stopTime = .ok s) : Ascending Row.tick s.rows := by
  obtain ⟨_, _, plans, stop, _, _, _, rfl⟩ := (compile_eq_ok_iff sound).mp success
  exact rows_ascending (b.unionTicks_ascending plans stop)

/-- A written word is the payload of its rack in its row, and a NOP marker is all that turns that
word into a NOP. -/
theorem word_of_writes (sound : Sound b) (success : b.compile stopTime = .ok s) {d : Device}
    (member : d ∈ b.devices) {tick : Nat} {word : Word} (writes : d.Writes tick word) :
    ∃ row ∈ s.rows, row.tick = tick ∧ ∃ w, row.words[d.rack]? = some w ∧ w.payload = word ∧
      (w.isNop ↔ b.marked d.rack tick .nop) := by
  obtain ⟨_, _, plans, stop, planned, _, free, rfl⟩ := (compile_eq_ok_iff sound).mp success
  obtain ⟨change, listed, rfl⟩ :=
    (changesAt_iff_writes sound planned).mpr ⟨d, member, rfl, writes⟩
  have inTicks : tick ∈ b.unionTicks plans stop := mem_unionTicks_of_change listed
  obtain ⟨index, found⟩ := List.getElem?_of_mem inTicks
  have inRange := sound.rack_lt member
  obtain ⟨payload, isNop⟩ := rowWord_of_change sound (b.unionTicks plans stop) index
    (changesAt_alone free inTicks inRange listed)
  obtain ⟨address, _, data, packed⟩ :=
    writes.packed (sound.devices d (sound.mem_devices.mp member))
  refine ⟨⟨tick, b.racks.map fun rack => b.rowWord plans (b.unionTicks plans stop) index tick rack⟩,
    mem_rows.mpr ⟨index, found, rfl⟩, rfl, _, ?_, ?_, isNop.trans ?_⟩
  · rw [racks, List.getElem?_map, List.getElem?_range inRange]
    rfl
  · rw [payload, packed, Word.payload_pack]
  · rw [packed, Word.isNop_pack]
    simp

/-- Where nothing is written the word is a NOP. -/
theorem word_of_silence (sound : Sound b) (success : b.compile stopTime = .ok s) {row : Row}
    (member : row ∈ s.rows) {rack : Nat} (inRange : rack < b.config.racks)
    (silent : ∀ d ∈ b.devices, d.rack = rack → ∀ word, ¬ d.Writes row.tick word) :
    ∃ w, row.words[rack]? = some w ∧ w.isNop := by
  obtain ⟨_, _, plans, stop, planned, _, _, rfl⟩ := (compile_eq_ok_iff sound).mp success
  obtain ⟨index, found, words⟩ := mem_rows.mp member
  have idle : Plan.changesAt plans row.tick rack = [] := by
    refine List.eq_nil_iff_forall_not_mem.mpr fun change listed => ?_
    obtain ⟨d, inBoard, same, writes⟩ :=
      (changesAt_iff_writes sound planned).mp ⟨change, listed, rfl⟩
    exact silent d inBoard same _ writes
  refine ⟨_, ?_, rowWord_of_none sound (b.unionTicks plans stop) index idle⟩
  rw [words, racks, List.getElem?_map, List.getElem?_range inRange]
  rfl

/-! ### A small board -/

/-- The ticks of the rows, sorted by insertion. -/
def insertedTicks (b : Board) (plans : List Plan) (stop : Nat) : List Nat :=
  (0 :: stop :: (Plan.changeTicks plans ++ b.markerTicks)).foldr insertTick []

theorem unionTicks_eq (b : Board) (plans : List Plan) (stop : Nat) :
    b.unionTicks plans stop = b.insertedTicks plans stop := sortedTicks_eq _

/-- Without codec checks a board compiles unless it breaks a rule of strobes, runs out of ticks or has
a conflict. -/
theorem compiles (sound : Sound b) (unchecked : b.config.checkCodecs = false)
    (modes : (b.config.autoStrobe && b.tracks.any MarkerTrack.hasStrobe) = false)
    (first : (b.tracks.any fun t => (t.at? 0).contains .strobe) = false)
    (short : b.earliestStop (b.devices.map Device.planned) ≤ maxTick)
    (free : (b.conflicts (b.devices.map Device.planned) (b.insertedTicks (b.devices.map Device.planned)
      (b.earliestStop (b.devices.map Device.planned)))).isEmpty) :
    ∃ s, b.compile none = .ok s := by
  rw [← unionTicks_eq] at free
  exact ⟨_, (compile_eq_ok_iff sound).mpr ⟨modes, first, _, _, plans_unchecked unchecked, stopTick_none short,
    List.isEmpty_iff.mp free, rfl⟩⟩

/-- A line that goes high at tick 1 and an output that is set at tick 2. -/
def sampleScript : Except BoardError Board := do
  let b ← Board.new { name := "main" }
  let b ← b.addPseudoClock "pc"
  let b ← b.addClockLine "pc" "cl"
  let b ← b.addDigitalBank "cl" "bank0" 0 5
  let b ← b.addDigitalLine "bank0" "do0" 3 false
  let b ← b.addAnalogOutput "cl" "ao0" 0 0x10 "DAC712" 0.0
  let b ← b.editChannel "do0" fun c => c.book (.held 1 1.0)
  b.editChannel "ao0" fun c => c.book (.held 2 5.0)

theorem sampleScript_succeeds : sampleScript.toOption.isSome := by decide +kernel

def sample : Board := sampleScript.toOption.get sampleScript_succeeds

theorem sampleScript_builds : Builds sampleScript :=
  .bind (.new _) fun _ h => .bind (.edit h fun _ => .pseudoClock _) fun _ h =>
  .bind (.edit h fun _ => .clockLine _ _) fun _ h =>
  .bind (.edit h fun _ => .digitalBank _ _ _ _) fun _ h =>
  .bind (.edit h fun _ => .digitalLine _ _ _ _) fun _ h =>
  .bind (.edit h fun _ => .analogOutput _ _ _ _ _ _) fun _ h =>
  .bind (.book h _ _) fun _ h => .book h _ _

theorem sample_built : Built sample := sampleScript_builds _ (eq_ok_get sampleScript_succeeds)

theorem sample_compiles : ∃ s, sample.compile none = .ok s :=
  compiles sample_built.sound (by decide +kernel) (by decide +kernel) (by decide +kernel) (by decide +kernel)
    (by decide +kernel)

def sampleBank : Device := sample.devices.get ⟨0, by decide +kernel⟩

theorem sampleBank_writes : sampleBank.Writes 1 (Word.pack 5 8) := by
  have member : sampleBank ∈ sample.devices := List.get_mem _ _
  have good := sample_built.sound.devices _ (sample_built.sound.mem_devices.mp member)
  exact (Device.mem_planned good).mp (by decide +kernel)

/-! ### No change is lost -/

/-- Each word that a device writes is in the row of its tick, with its address and data. It is a NOP
only where the script says so with a marker. -/
theorem every_change_reaches_its_row (built : Built b) (success : b.compile stopTime = .ok s)
    {d : Device} (member : d ∈ b.devices) {tick : Nat} {word : Word} (writes : d.Writes tick word) :
    ∃ row ∈ s.rows, row.tick = tick ∧ ∃ w, row.words[d.rack]? = some w ∧
      w.address = word.address ∧ w.data = word.data ∧ (w.isNop ↔ b.marked d.rack tick .nop) := by
  obtain ⟨row, inRows, sameTick, w, found, payload, nop⟩ :=
    word_of_writes built.sound success member writes
  refine ⟨row, inRows, sameTick, w, found, ?_, ?_, nop⟩
  · rw [← payload, Word.address_payload]
  · rw [← payload, Word.data_payload]

theorem sample_change_reaches_its_row : ∃ s, sample.compile none = .ok s ∧
    sampleBank.Writes 1 (Word.pack 5 8) ∧
    ∃ row ∈ s.rows, row.tick = 1 ∧ ∃ w, row.words[0]? = some w ∧ w.address = 5 ∧ w.data = 8 ∧
      ¬ w.isNop := by
  obtain ⟨s, success⟩ := sample_compiles
  obtain ⟨row, inRows, sameTick, w, found, address, data, nop⟩ :=
    every_change_reaches_its_row sample_built success (List.get_mem _ _) sampleBank_writes
  have unmarked : ¬ sample.marked 0 1 .nop := by
    unfold marked
    decide +kernel
  exact ⟨s, success, sampleBank_writes, row, inRows, sameTick, w, found, address, data,
    fun isNop => unmarked (nop.mp isNop)⟩

/-- The same board with a NOP marker on the change of the line. -/
def maskedSample : Board :=
  { sample with tracks := sample.tracks.modify 0 fun t => t.mark 1 .nop }

theorem maskedSample_built : Built maskedSample := .edit sample_built (.marker 0 1 .nop (by decide +kernel))

theorem maskedSample_compiles : ∃ s, maskedSample.compile none = .ok s :=
  compiles maskedSample_built.sound (by decide +kernel) (by decide +kernel) (by decide +kernel) (by decide +kernel)
    (by decide +kernel)

/-- Without regard to NOP markers the promise would be too strong: markers are laid over the words of
changes, too. -/
theorem nop_marker_covers_change : ¬ ∀ (b : Board) (stopTime : Option Float) (s : Stream), Built b →
    b.compile stopTime = .ok s → ∀ d ∈ b.devices, ∀ tick word, d.Writes tick word →
      ∃ row ∈ s.rows, row.tick = tick ∧ ∃ w, row.words[d.rack]? = some w ∧
        w.address = word.address ∧ w.data = word.data ∧ ¬ w.isNop := by
  intro promise
  obtain ⟨s, success⟩ := maskedSample_compiles
  have member : sampleBank ∈ maskedSample.devices := List.get_mem _ _
  obtain ⟨row, inRows, sameTick, w, found, _, _, awake⟩ :=
    promise maskedSample none s maskedSample_built success sampleBank member 1 _ sampleBank_writes
  obtain ⟨row', inRows', sameTick', w', found', _, nop⟩ :=
    word_of_writes maskedSample_built.sound success member sampleBank_writes
  obtain rfl := (stream_ascending maskedSample_built.sound success).eq_of_tick inRows inRows' (sameTick.trans sameTick'.symm)
  obtain rfl := Option.some.inj (found.symm.trans found')
  have marked : maskedSample.marked 0 1 .nop := by
    unfold Board.marked
    decide +kernel
  exact awake (nop.mpr marked)

end Board

end Sequencer
