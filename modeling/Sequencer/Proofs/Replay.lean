import Sequencer.Proofs.StreamRows

/-!
Replaying a stream. A latch for every address of every rack takes the data of each word for it. What
it holds at a tick is what the channels hold in the edited timeline, although words that change
nothing are left out.
-/
namespace Sequencer

/-- The data of the last word for an address of a rack, up to and including a tick. -/
def Stream.latched (s : Stream) (rack address tick : Nat) : Option Nat :=
  (lastUpTo Row.tick tick (s.rows.filter fun row =>
    Codec.addressedTo address (row.words.getD rack 0))).map fun row => (row.words.getD rack 0).data

/-- Codes stay within their bits, and a single bit in a shared word is the whole code. -/
structure Codec.Fits (c : Codec) : Prop where
  bounded : ∀ value, c.toRaw value < 2 ^ c.rawBits
  oneBit : c.packing = .sharedBit → c.rawBits = 1

theorem Codec.digitalLine_fits : Codec.digitalLine.Fits := by
  refine ⟨fun value => ?_, fun _ => rfl⟩
  simp only [digitalLine]
  split <;> decide

theorem Converter.codec_fits (d : Converter Float) (positive : 0 < d.bits) (tag : String)
    (vectors : List (Float × Nat)) : (d.codec tag vectors).Fits := by
  refine ⟨fun value => ?_, fun shared => by cases shared⟩
  have offset : d.offset value < 2 ^ d.bits := by
    have upper : d.offset value ≤ 2 ^ d.bits - 1 := by
      rw [← twoPow_eq]
      exact Nat.min_le_right _ _
    have := Nat.two_pow_pos d.bits
    omega
  exact d.code_lt positive offset

/-- The bits of the values that the lines of a bank hold, defaults included. -/
def Device.bankData (d : Device) (tick : Nat) : Nat :=
  (d.channels.map fun c =>
    c.codec.toRaw ((heldAt c.samples tick).getD c.default) * 2 ^ c.place.bit).foldl (· ||| ·) 0

namespace Board
variable {b : Board} {stopTime : Option Float} {s : Stream}

/-- No word that a device writes is covered by a NOP marker. -/
def Unmasked (b : Board) : Prop :=
  ∀ d ∈ b.devices, ∀ tick word, d.Writes tick word → ¬ b.marked d.rack tick .nop

/-- A word for an address of a device was written by that device. -/
theorem writes_of_addressed (sound : Sound b) (success : b.compile stopTime = .ok s) {d : Device}
    (member : d ∈ b.devices) {address : Nat} (own : address ∈ d.addresses) {row : Row}
    (inRows : row ∈ s.rows) (addressed : Codec.addressedTo address (row.words.getD d.rack 0)) :
    d.Writes row.tick (row.words.getD d.rack 0).payload := by
  obtain ⟨awake, sameAddress⟩ :
      (row.words.getD d.rack 0).isNop = false ∧ (row.words.getD d.rack 0).address = address := by
    simpa [Codec.addressedTo] using addressed
  by_cases silent : ∀ e ∈ b.devices, e.rack = d.rack → ∀ word, ¬ e.Writes row.tick word
  · obtain ⟨w, found, nop⟩ := word_of_silence sound success inRows (sound.rack_lt member) silent
    rw [List.getD_eq_getElem?_getD, found, Option.getD_some, nop] at awake
    cases awake
  · simp only [Classical.not_forall, Classical.not_not] at silent
    obtain ⟨e, inBoard, sameRack, word, writes⟩ := silent
    obtain ⟨row', inRows', sameTick, w, found, payload, _⟩ := word_of_writes sound success inBoard writes
    obtain rfl := (stream_ascending sound success).eq_of_tick inRows' inRows sameTick
    rw [sameRack] at found
    rw [List.getD_eq_getElem?_getD, found, Option.getD_some] at sameAddress ⊢
    obtain ⟨a, ownE, data, packed⟩ := writes.packed (sound.devices e (sound.mem_devices.mp inBoard))
    have legal := (sound.devices e (sound.mem_devices.mp inBoard)).addressed a ownE
    have : a = address := by
      rw [← sameAddress, ← Word.address_payload, payload, packed, Word.address_pack legal]
    subst this
    obtain rfl := sound.addresses e (sound.mem_devices.mp inBoard) d (sound.mem_devices.mp member)
      sameRack a ownE own
    rw [payload]
    exact writes

/-- The words for an address in the column of its rack, without markers, are those that its device
writes for it. -/
theorem column_eq (sound : Sound b) (success : b.compile stopTime = .ok s) (unmasked : b.Unmasked)
    {d : Device} (member : d ∈ b.devices) {address : Nat} (own : address ∈ d.addresses)
    {entries : List (Nat × Word)} (order : Ascending Prod.fst entries)
    (listed : ∀ tick word, (tick, word) ∈ entries ↔ d.Writes tick word ∧ word.address = address) :
    ((s.rows.filter fun row => Codec.addressedTo address (row.words.getD d.rack 0)).map
      fun row => (row.tick, (row.words.getD d.rack 0).payload)) = entries := by
  have sorted : Ascending Prod.fst
      ((s.rows.filter fun row => Codec.addressedTo address (row.words.getD d.rack 0)).map
        fun row => (row.tick, (row.words.getD d.rack 0).payload)) :=
    List.pairwise_map.mpr ((stream_ascending sound success).filter _)
  refine sorted.eq_of_mem_iff order fun ⟨tick, word⟩ => ?_
  rw [listed, List.mem_map]
  constructor
  · rintro ⟨row, kept, entry⟩
    cases entry
    obtain ⟨inRows, addressed⟩ := List.mem_filter.mp kept
    refine ⟨writes_of_addressed sound success member own inRows addressed, ?_⟩
    rw [Word.address_payload]
    simp only [Codec.addressedTo, Bool.and_eq_true, beq_iff_eq] at addressed
    exact addressed.2
  · rintro ⟨writes, rfl⟩
    obtain ⟨row, inRows, rfl, w, found, rfl, nop⟩ := word_of_writes sound success member writes
    have awake : w.isNop = false := by
      have := unmasked d member _ _ writes
      rw [← nop] at this
      simpa using this
    have here : row.words.getD d.rack 0 = w := by
      rw [List.getD_eq_getElem?_getD, found, Option.getD_some]
    refine ⟨row, List.mem_filter.mpr ⟨inRows, ?_⟩, by rw [here]⟩
    rw [here, Codec.addressedTo, awake, Word.address_payload]
    simp

/-- A latch follows the words that its device writes for it. -/
theorem latched_eq (sound : Sound b) (success : b.compile stopTime = .ok s) (unmasked : b.Unmasked)
    {d : Device} (member : d ∈ b.devices) {address : Nat} (own : address ∈ d.addresses)
    {entries : List (Nat × Word)} (order : Ascending Prod.fst entries)
    (listed : ∀ tick word, (tick, word) ∈ entries ↔ d.Writes tick word ∧ word.address = address)
    (tick : Nat) :
    s.latched d.rack address tick = (lastUpTo Prod.fst tick entries).map fun e => e.2.data := by
  rw [← column_eq sound success unmasked member own order listed, lastUpTo_map, Option.map_map,
    Stream.latched]
  congr 1
  funext row
  exact (Word.data_payload _).symm

end Board

/-! ### Channels with an address of their own -/

namespace Channel
variable {c : Channel}

theorem words_eq (fits : c.codec.Fits) (one : c.codec.wordsPerValue = 1) (unshifted : c.place.bit = 0)
    (value : Float) :
    c.words value = [Word.pack c.place.address (c.codec.toRaw value)] ∧
      c.codec.toRaw value < 2 ^ 16 := by
  have bounded := fits.bounded value
  have narrow : c.codec.rawBits ≤ 16 := by
    unfold Codec.wordsPerValue at one
    omega
  have small : c.codec.toRaw value < 2 ^ 16 :=
    Nat.lt_of_lt_of_le bounded (Nat.pow_le_pow_right (by decide) narrow)
  refine ⟨?_, small⟩
  unfold words Codec.valueWords Codec.split
  cases packing : c.codec.packing with
  | chunks =>
    simp only [one, Codec.chunksOf, Nat.mod_eq_of_lt small]
    rfl
  | sharedBit =>
    rw [fits.oneBit packing] at bounded
    have bit : c.codec.toRaw value % 2 = c.codec.toRaw value := Nat.mod_eq_of_lt bounded
    simp only [unshifted, bit, Nat.pow_zero, Nat.mul_one]
    rfl

/-- With one word for each value the planned words are those of the changed values. -/
theorem entries_of_single
    (one : ∀ value, c.words value = [Word.pack c.place.address (c.codec.toRaw value)]) :
    c.plannedWords.map Change.entry =
      c.changedValues.map fun s => (s.1, Word.pack c.place.address (c.codec.toRaw s.2)) := by
  rw [plannedWords, List.map_flatMap, List.map_eq_flatMap]
  congr 1
  funext s
  rw [wordsOf, one]
  rfl

end Channel

namespace Board
variable {b : Board} {stopTime : Option Float} {s : Stream}

theorem latched_channel (sound : Sound b) (success : b.compile stopTime = .ok s)
    (unmasked : b.Unmasked) {d : Device} (member : d ∈ b.devices) (alone : ¬ d.sharesAddress)
    {c : Channel} (onDevice : c ∈ d.channels) (fits : c.codec.Fits)
    (one : c.codec.wordsPerValue = 1) (tick : Nat) :
    s.latched d.rack c.place.address tick = (heldAt c.samples tick).map c.codec.toRaw := by
  have good := sound.devices d (sound.mem_devices.mp member)
  have own := (good.placed c onDevice).2
  have single := Channel.words_eq fits one (good.unshifted alone c onDevice)
  have ascending := Channel.samples_ascending (good.apart c onDevice)
  have entries := Channel.entries_of_single fun value => (single value).1
  have order : Ascending Prod.fst (c.plannedWords.map Change.entry) := by
    rw [entries]
    exact List.pairwise_map.mpr (ascending.filter _)
  have listed : ∀ tick word, (tick, word) ∈ c.plannedWords.map Change.entry ↔
      d.Writes tick word ∧ word.address = c.place.address := fun tick word =>
    Channel.mem_plannedWords.trans (good.writes_own_iff alone onDevice).symm
  rw [latched_eq sound success unmasked member own order listed tick, entries, lastUpTo_map,
    Channel.changedValues_eq (good.apart c onDevice), heldAt, Option.map_map, Option.map_map]
  have codes : ∀ x y : Nat × Float, c.words x.2 = c.words y.2 →
      c.codec.toRaw x.2 = c.codec.toRaw y.2 := by
    intro x y same
    rw [(single x.2).1, (single y.2).1] at same
    have data := congrArg Word.data (List.cons.inj same).1
    rwa [Word.data_pack, Word.data_pack, Nat.mod_eq_of_lt (single x.2).2,
      Nat.mod_eq_of_lt (single y.2).2] at data
  have dropped := lastUpTo_changed_map ascending tick
    (fun x => c.codec.toRaw x.2) codes
  rw [Function.comp_def, Function.comp_def, ← dropped]
  congr 1
  funext sample
  rw [Word.data_pack, Nat.mod_eq_of_lt (single sample.2).2]

end Board

/-! ### Banks -/

namespace Device
variable {d : Device}

private theorem foldl_or_lt (bits : List Nat) (width start : Nat) (first : start < 2 ^ width)
    (rest : ∀ x ∈ bits, x < 2 ^ width) : bits.foldl (· ||| ·) start < 2 ^ width := by
  induction bits generalizing start with
  | nil => exact first
  | cons x rest' ih =>
    exact ih (start ||| x) (Nat.or_lt_two_pow first (rest x (by simp)))
      fun y member => rest y (by simp [member])

theorem data_wordAt (sound : d.Sound) (shares : d.sharesAddress)
    (lines : ∀ c ∈ d.channels, c.codec = Codec.digitalLine) (tick : Nat) :
    (d.wordAt tick).data = d.bankData tick := by
  have lineData : ∀ c ∈ d.channels, ∀ value,
      c.lineData value = c.codec.toRaw value * 2 ^ c.place.bit ∧ c.lineData value < 2 ^ 16 := by
    intro c member value
    have low := (sound.lines shares c member).2
    have bit : c.codec.toRaw value < 2 := by
      rw [lines c member]
      exact Codec.digitalLine_fits.bounded value
    have small : c.codec.toRaw value * 2 ^ c.place.bit < 2 ^ 16 := by
      have bound : 2 ^ c.place.bit ≤ 2 ^ 15 := Nat.pow_le_pow_right (by decide) (by omega)
      have : c.codec.toRaw value * 2 ^ c.place.bit ≤ 1 * 2 ^ c.place.bit :=
        Nat.mul_le_mul_right _ (by omega)
      omega
    have word : c.lineData value = c.codec.toRaw value % 2 * 2 ^ c.place.bit % 2 ^ 16 := by
      have packing : c.codec.packing = .sharedBit := by
        rw [lines c member]
        rfl
      simp only [Channel.lineData, Channel.words, Codec.valueWords, Codec.split, packing]
      exact Word.data_pack _ _
    rw [word, Nat.mod_eq_of_lt bit, Nat.mod_eq_of_lt small]
    exact ⟨rfl, small⟩
  have values : (d.channels.map fun c => c.lineData ((heldAt c.samples tick).getD c.default)) =
      d.channels.map fun c => c.codec.toRaw ((heldAt c.samples tick).getD c.default) * 2 ^ c.place.bit :=
    List.map_congr_left fun c member => (lineData c member _).1
  have small : d.bankData tick < 2 ^ 16 := by
    refine foldl_or_lt _ 16 0 (by decide) fun x inside => ?_
    obtain ⟨c, member, rfl⟩ := List.mem_map.mp inside
    have spec := lineData c member ((heldAt c.samples tick).getD c.default)
    rw [← spec.1]
    exact spec.2
  rw [wordAt, Word.data_pack, values]
  exact Nat.mod_eq_of_lt small

end Device

namespace Board
variable {b : Board} {stopTime : Option Float} {s : Stream}

theorem latched_bank (sound : Sound b) (success : b.compile stopTime = .ok s)
    (unmasked : b.Unmasked) {d : Device} (member : d ∈ b.devices) (shares : d.sharesAddress)
    (lines : ∀ c ∈ d.channels, c.codec = Codec.digitalLine) (tick : Nat) :
    s.latched d.rack d.address tick =
      (lastUpTo id tick d.writtenTicks).map fun _ => d.bankData tick := by
  have good := sound.devices d (sound.mem_devices.mp member)
  have own := Device.address_mem shares
  have ascending : Ascending id d.writtenTicks := (sortedTicks_spec _).1
  have entries : d.plannedWords.map Change.entry =
      d.changedTicks.map fun t => (t, d.wordAt t) := by
    rw [Device.plannedWords, if_pos shares, List.map_map]
    rfl
  have order : Ascending Prod.fst (d.plannedWords.map Change.entry) := by
    rw [entries]
    exact List.pairwise_map.mpr (ascending.filter _)
  have listed : ∀ tick word, (tick, word) ∈ d.plannedWords.map Change.entry ↔
      d.Writes tick word ∧ word.address = d.address := fun tick word =>
    Device.mem_plannedWords.trans (good.writes_bank_iff shares).symm
  rw [latched_eq sound success unmasked member own order listed tick, entries, lastUpTo_map,
    Device.changedTicks_eq, Option.map_map]
  have dropped := lastUpTo_changed_map ascending tick (fun t => (d.wordAt t).data)
    fun t t' (same : d.wordAt t = d.wordAt t') => by rw [same]
  refine Eq.trans dropped ?_
  cases found : lastUpTo id tick d.writtenTicks with
  | none => rfl
  | some last =>
    obtain ⟨_, upTo, greatest⟩ := ascending.lastUpTo_eq_some_iff.mp found
    have held : d.wordAt last = d.wordAt tick := Device.wordAt_congr upTo greatest
    rw [Option.map_some, Option.map_some, held, Device.data_wordAt good shares lines]

/-- Replaying a stream gives back the edited values: each address that a channel has for itself holds
the code of the channel, and that of a bank the bits of all its lines as soon as one is written. -/
theorem replay_restores_values (built : Built b) (codecs : ∀ c ∈ b.channels, c.codec.Fits)
    (lines : ∀ d ∈ b.devices, d.sharesAddress → ∀ c ∈ d.channels, c.codec = Codec.digitalLine)
    (unmasked : b.Unmasked) (success : b.compile stopTime = .ok s) (tick : Nat) :
    (∀ d ∈ b.devices, ¬ d.sharesAddress → ∀ c ∈ d.channels, c.codec.wordsPerValue = 1 →
      s.latched d.rack c.place.address tick = (heldAt c.samples tick).map c.codec.toRaw) ∧
    (∀ d ∈ b.devices, d.sharesAddress → s.latched d.rack d.address tick =
      if ∃ c ∈ d.channels, ∃ sample ∈ c.samples, sample.1 ≤ tick then some (d.bankData tick)
      else none) := by
  have sound := built.sound
  constructor
  · intro d member alone c onDevice one
    have fits := codecs c (List.mem_flatMap.mpr ⟨d, member, onDevice⟩)
    exact latched_channel sound success unmasked member alone onDevice fits one tick
  · intro d member shares
    rw [latched_bank sound success unmasked member shares (lines d member shares) tick]
    cases found : lastUpTo id tick d.writtenTicks with
    | none =>
      refine (if_neg ?_).symm
      rintro ⟨c, onDevice, sample, written, upTo⟩
      have := lastUpTo_eq_none_iff.mp found sample.1
        (Device.mem_writtenTicks.mpr ⟨c, onDevice, sample, written, rfl⟩)
      simp only [id] at this
      omega
    | some last =>
      obtain ⟨written, upTo⟩ := mem_of_lastUpTo found
      obtain ⟨c, onDevice, sample, inside, rfl⟩ := Device.mem_writtenTicks.mp written
      exact (if_pos ⟨c, onDevice, sample, inside, upTo⟩).symm

theorem sample_codecs : sample.devices.map (fun d => (d.sharesAddress, d.channels.map Channel.codec)) =
    [(true, [Codec.digitalLine]), (false, [Converter.dac712Codec])] := rfl

theorem sample_unmarked (rack tick : Nat) (marker : Marker) : ¬ sample.marked rack tick marker := by
  have tracks : sample.tracks = [.empty] := by decide +kernel
  unfold marked
  rw [tracks]
  cases rack <;> simp [MarkerTrack.at?, MarkerTrack.empty]

/-- The line holds its bit from tick 1 on, and the output its code from tick 2 on. -/
theorem sample_replays : ∃ s, sample.compile none = .ok s ∧ s.latched 0 5 0 = none ∧
    s.latched 0 5 1 = some 8 ∧ s.latched 0 16 1 = none ∧ s.latched 0 16 2 = some 0x4000 := by
  obtain ⟨s, success⟩ := sample_compiles
  have kinds : ∀ d ∈ sample.devices, (d.sharesAddress, d.channels.map Channel.codec) ∈
      [(true, [Codec.digitalLine]), (false, [Converter.dac712Codec])] := fun d member => by
    rw [← sample_codecs]
    exact List.mem_map_of_mem member
  have codecs : ∀ c ∈ sample.channels, c.codec.Fits := by
    intro c member
    obtain ⟨d, inBoard, onDevice⟩ := List.mem_flatMap.mp member
    have inCodecs : c.codec ∈ d.channels.map Channel.codec := List.mem_map_of_mem onDevice
    have kind := kinds d inBoard
    simp only [List.mem_cons, Prod.mk.injEq, List.not_mem_nil, or_false] at kind
    rcases kind with ⟨_, only⟩ | ⟨_, only⟩
    · rw [only, List.mem_singleton] at inCodecs
      rw [inCodecs]
      exact Codec.digitalLine_fits
    · rw [only, List.mem_singleton] at inCodecs
      rw [inCodecs]
      exact Converter.codec_fits _ (by decide) _ _
  have lines : ∀ d ∈ sample.devices, d.sharesAddress → ∀ c ∈ d.channels,
      c.codec = Codec.digitalLine := by
    intro d inBoard shares c onDevice
    have inCodecs : c.codec ∈ d.channels.map Channel.codec := List.mem_map_of_mem onDevice
    have kind := kinds d inBoard
    simp only [List.mem_cons, Prod.mk.injEq, List.not_mem_nil, or_false, shares] at kind
    rcases kind with ⟨_, only⟩ | ⟨impossible, _⟩
    · rw [only, List.mem_singleton] at inCodecs
      exact inCodecs
    · cases impossible
  have replay := replay_restores_values sample_built codecs lines
    (fun d _ tick _ _ => sample_unmarked d.rack tick .nop) success
  have bank : ∀ tick, s.latched 0 5 tick = _ := fun tick =>
    (replay tick).2 sampleBank (List.get_mem _ _) (by decide +kernel)
  let output := sample.devices.get ⟨1, by decide +kernel⟩
  let channel := output.channels.get ⟨0, by decide +kernel⟩
  have analog : ∀ tick, s.latched 0 16 tick = _ := fun tick =>
    (replay tick).1 output (List.get_mem _ _) (by decide +kernel) channel (List.get_mem _ _)
      (by decide +kernel)
  refine ⟨s, success, ?_, ?_, ?_, ?_⟩
  · rw [bank]
    decide +kernel
  · rw [bank]
    decide +kernel
  · rw [analog]
    decide +kernel
  · rw [analog]
    decide +kernel

end Board

end Sequencer
