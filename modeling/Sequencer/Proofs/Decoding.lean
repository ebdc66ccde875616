import Sequencer.Proofs.ConflictReport
import Sequencer.Proofs.Replay
import Sequencer.Proofs.RowWords

/-!
Reading values back from a stream. The words for an address stand in the column of their rack in order,
and those of one value have no word of another value between them, as the next value starts after the
last of them. Hence groups of the right size are the planned values. A line of a bank is one bit of each
word of the bank.
-/
namespace Sequencer

/-! ### Groups of words -/

namespace Codec
variable {α β : Type}

theorem groupsOf_map (g : α → β) (n : Nat) (xs : List α) :
    groupsOf n (xs.map g) = (groupsOf n xs).map (List.map g) := by
  fun_induction groupsOf n xs with
  | case1 xs enough ih =>
    rw [groupsOf, dif_pos ⟨enough.1, by simpa using enough.2⟩, ← List.map_take, ← List.map_drop, ih]
    rfl
  | case2 xs few =>
    rw [groupsOf, dif_neg (by simpa using few)]
    rfl

theorem groupsOf_append {n : Nat} (positive : 0 < n) {block : List α} (size : block.length = n) (rest : List α) :
    groupsOf n (block ++ rest) = block :: groupsOf n rest := by
  have enough : 0 < n ∧ n ≤ (block ++ rest).length := ⟨positive, by simp [size]⟩
  rw [groupsOf, dif_pos enough, List.take_left' size, List.drop_left' size]

/-- Blocks of the size of a group are the groups. -/
theorem groupsOf_flatMap {n : Nat} (positive : 0 < n) (f : α → List β) (xs : List α)
    (blocks : ∀ x ∈ xs, (f x).length = n) : groupsOf n (xs.flatMap f) = xs.map f := by
  induction xs with
  | nil =>
    rw [List.flatMap_nil, groupsOf, dif_neg fun enough => Nat.not_le_of_lt positive enough.2]
    rfl
  | cons x rest ih =>
    rw [List.flatMap_cons, groupsOf_append positive (blocks x (by simp)),
      ih fun y member => blocks y (by simp [member])]
    rfl

/-- Decoding looks only at the ticks and the data of the words for the address. -/
theorem decode_eq (c : Codec) (place : Place) (words : List (Nat × Word)) :
    c.decode place words = (groupsOf c.wordsPerValue
      ((words.filter fun w => addressedTo place.address w.2).map fun w => (w.1, w.2.data))).filterMap
        fun group => group.head?.map fun first =>
          (first.1, c.fromRaw (c.join place.bit (group.map Prod.snd))) := by
  rw [decode, groupsOf_map, List.filterMap_map]
  congr 1
  funext group
  cases group with
  | nil => rfl
  | cons first rest => simp [Function.comp_def]

/-! ### Codes -/

theorem ofChunks_chunksOf (n raw : Nat) : ofChunks (chunksOf n raw) = raw % 2 ^ (16 * n) := by
  induction n generalizing raw with
  | zero => simp [chunksOf, ofChunks, Nat.mod_one]
  | succ n ih =>
    have width : 16 * (n + 1) = 16 + 16 * n := by omega
    rw [chunksOf, ofChunks, ih, Nat.mod_mod, width, Nat.pow_add, Nat.mod_mul]

theorem ofChunks_data (chunks : List Nat) :
    ofChunks (chunks.map fun chunk => chunk % 2 ^ 16) = ofChunks chunks := by
  induction chunks with
  | nil => rfl
  | cons chunk rest ih => rw [List.map_cons, ofChunks, ofChunks, ih, Nat.mod_mod]

/-- The data of the words of a value give its code back. -/
theorem join_split {c : Codec} (fits : c.Fits) (value : Float) :
    c.join 0 ((c.split 0 (c.toRaw value)).map fun chunk => chunk % 2 ^ 16) = c.toRaw value := by
  have bounded := fits.bounded value
  unfold join split
  cases packing : c.packing with
  | chunks =>
    have wide : 2 ^ c.rawBits ≤ 2 ^ (16 * c.wordsPerValue) :=
      Nat.pow_le_pow_right (by decide) (by unfold wordsPerValue; omega)
    simp only [ofChunks_data, ofChunks_chunksOf]
    exact Nat.mod_eq_of_lt (Nat.lt_of_lt_of_le bounded wide)
  | sharedBit =>
    rw [c.oneBit packing] at bounded
    simp only [List.map_cons, List.map_nil, Nat.pow_zero, Nat.mul_one, Nat.div_one]
    omega

end Codec

theorem FrequencyScale.codec_fits (s : FrequencyScale Float) (tag : String) : (s.codec tag).Fits := by
  refine ⟨fun value => ?_, fun shared => by cases shared⟩
  have upper : s.toRaw value ≤ 2 ^ s.bits - 1 := by
    rw [← twoPow_eq]
    exact Nat.min_le_right _ _
  have := Nat.two_pow_pos s.bits
  simp only [codec]
  omega

/-! ### Planned values -/

namespace Channel

/-- The values that put words on the bus. -/
def plannedValues (c : Channel) : List (Nat × Float) :=
  c.changedValues.filter fun s => !(c.words s.2).isEmpty

/-- What decoding sees of the words of a value. -/
theorem wordsOf_data (c : Channel) (s : Nat × Float) :
    (c.wordsOf s).map (fun planned => (planned.tick, planned.word.data)) =
      (c.words s.2).mapIdx fun j word => (s.1 + j, word.data) := by
  apply List.ext_getElem
  · simp [wordsOf]
  · simp [wordsOf]

theorem wordsOf_ascending (c : Channel) (s : Nat × Float) : Ascending Change.tick (c.wordsOf s) := by
  refine List.pairwise_iff_getElem.mpr fun i j _ _ less => ?_
  simpa [wordsOf] using less

theorem data_words {c : Channel} (unshifted : c.place.bit = 0) (value : Float) :
    (c.words value).map Word.data =
      (c.codec.split 0 (c.codec.toRaw value)).map fun chunk => chunk % 2 ^ 16 := by
  rw [words, Codec.valueWords, unshifted, List.map_map]
  exact List.map_congr_left fun chunk _ => Word.data_pack _ _

/-- Values with distinct ticks for all words come one after the other. -/
theorem plannedWords_ascending {c : Channel} (apart : Apart c.bookings)
    (distinct : c.plannedWords.Pairwise fun x y => x.tick ≠ y.tick) :
    Ascending Change.tick c.plannedWords := by
  have order : Ascending Prod.fst c.changedValues := (samples_ascending apart).filter _
  refine List.pairwise_flatMap.mpr ⟨fun s _ => c.wordsOf_ascending s, ?_⟩
  refine (order.and (List.pairwise_flatMap.mp distinct).2).imp ?_
  rintro s next ⟨later, differ⟩ x inS y inNext
  obtain ⟨i, xWord, xTick, _⟩ := mem_wordsOf.mp inS
  obtain ⟨j, yWord, yTick, _⟩ := mem_wordsOf.mp inNext
  apply Nat.lt_of_not_le
  intro crossed
  -- the first word of the next value would meet a word of this one
  have inside : next.1 - s.1 < (c.words s.2).length := by
    have := (List.getElem?_eq_some_iff.mp xWord).1
    omega
  have some_ : 0 < (c.words next.2).length := by
    have := (List.getElem?_eq_some_iff.mp yWord).1
    omega
  refine differ ⟨s.1 + (next.1 - s.1), _, _⟩
    (mem_wordsOf.mpr ⟨next.1 - s.1, List.getElem?_eq_getElem inside, rfl, rfl⟩)
    ⟨next.1 + 0, _, _⟩ (mem_wordsOf.mpr ⟨0, List.getElem?_eq_getElem some_, rfl, rfl⟩) ?_
  simp only at later ⊢
  omega

/-- The group of a value that has words gives its tick and its code back. -/
theorem decode_group {c : Channel} (fits : c.codec.Fits) (unshifted : c.place.bit = 0)
    (some_ : 0 < c.codec.wordsPerValue) (s : Nat × Float) :
    (((c.wordsOf s).map fun planned => (planned.tick, planned.word.data)).head?.map fun first =>
      (first.1, c.codec.fromRaw (c.codec.join c.place.bit
        (((c.wordsOf s).map fun planned => (planned.tick, planned.word.data)).map Prod.snd)))) =
      some (s.1, c.codec.fromRaw (c.codec.toRaw s.2)) := by
  have data : ((c.words s.2).mapIdx fun j word => (s.1 + j, word.data)).map Prod.snd =
      (c.codec.split 0 (c.codec.toRaw s.2)).map fun chunk => chunk % 2 ^ 16 := by
    rw [← data_words unshifted]
    apply List.ext_getElem
    · simp
    · simp
  have nonempty : c.words s.2 ≠ [] := by
    rw [← List.length_pos_iff, c.length_words]
    exact some_
  obtain ⟨first, rest, split⟩ := List.exists_cons_of_ne_nil nonempty
  rw [wordsOf_data, data, unshifted, Codec.join_split fits, List.head?_mapIdx, split]
  rfl

/-- Grouping the planned words by the size of a value gives the planned values with their codes. -/
theorem groups_planned {c : Channel} (fits : c.codec.Fits) (unshifted : c.place.bit = 0) :
    (Codec.groupsOf c.codec.wordsPerValue
      (c.plannedWords.map fun planned => (planned.tick, planned.word.data))).filterMap
        (fun group => group.head?.map fun first =>
          (first.1, c.codec.fromRaw (c.codec.join c.place.bit (group.map Prod.snd)))) =
      c.plannedValues.map fun s => (s.1, c.codec.fromRaw (c.codec.toRaw s.2)) := by
  rcases Nat.eq_zero_or_pos c.codec.wordsPerValue with none | some_
  · have empty : ∀ value, c.words value = [] := fun value =>
      List.eq_nil_of_length_eq_zero (c.length_words value ▸ none)
    have noValues : c.plannedValues = [] := List.filter_eq_nil_iff.mpr fun s _ => by simp [empty]
    rw [noValues, Codec.groupsOf, dif_neg fun enough => by omega]
    rfl
  · have all : c.plannedValues = c.changedValues := List.filter_eq_self.mpr fun s _ => by
      have nonempty : c.words s.2 ≠ [] := by
        rw [← List.length_pos_iff, c.length_words]
        exact some_
      simpa using nonempty
    have size : ∀ s ∈ c.changedValues,
        ((c.wordsOf s).map fun planned => (planned.tick, planned.word.data)).length =
          c.codec.wordsPerValue := fun s _ => by
      rw [List.length_map, wordsOf, List.length_mapIdx, c.length_words]
    rw [all, plannedWords, List.map_flatMap, Codec.groupsOf_flatMap some_ _ _ size,
      List.filterMap_map]
    have each := funext fun s => decode_group fits unshifted some_ s
    exact (congrArg (fun f => c.changedValues.filterMap f) each).trans
      (congrFun List.filterMap_eq_map' _)

end Channel

namespace Board
variable {b : Board} {stopTime : Option Float} {s : Stream}

/-! ### What a stream knows of a channel -/

/-- No later channel of the board has the name. -/
def LastNamed (b : Board) (c : Channel) : Prop :=
  (b.channels.filter fun other => other.name == c.name).getLast? = some c

/-- Of the channels of a name, what a table of channels keeps is that of the last one. -/
theorem LastNamed.get?_perChannel {c : Channel} (last : b.LastNamed c) {α : Type} (f : Channel → α) :
    (b.perChannel f).get? c.name = some (f c) := by
  have named : (fun e : String × α => e.1 == c.name) ∘ (fun c : Channel => (c.name, f c)) =
      fun other => other.name == c.name := rfl
  have entries := Keyed.get?_ofList (b.channels.map fun c => (c.name, f c)) c.name
  rw [List.filter_map, named, List.getLast?_map, last] at entries
  exact entries

theorem decodeChannel_eq (success : b.compile stopTime = .ok s) {c : Channel} (last : b.LastNamed c) :
    s.decodeChannel c.name = .ok ((c.codec.decode c.place
      (s.rows.map fun row => (row.tick, row.words.getD c.rack 0))).map fun v =>
        (timeOf b.config.busRate v.1, v.2)) := by
  have found : s.channels.get? c.name = some ⟨c.kind, c.rack, c.place, c.codec⟩ := by
    rw [eq_streamWith success]
    exact last.get?_perChannel _
  rw [Stream.decodeChannel, found]
  simp only [Stream.ticks, Stream.rackWords, List.zip_map', compile_config success]

/-- Without a conflict one word at most is planned for a tick of a rack. -/
theorem plannedAt_alone (sound : Sound b) (success : b.compile stopTime = .ok s) (rack tick : Nat) :
    (b.plannedAt rack tick).length ≤ 1 := by
  obtain ⟨_, _, plans, stop, planned, _, free, _⟩ := (compile_eq_ok_iff sound).mp success
  apply Nat.le_of_not_lt
  intro many
  obtain ⟨entry, listed, _⟩ := (@mem_conflicts_iff b plans stop sound planned rack tick).mpr many
  rw [free] at listed
  cases listed

/-- The words of a device are planned for distinct ticks. -/
theorem deviceWords_distinct (sound : Sound b) (success : b.compile stopTime = .ok s) {d : Device}
    (member : d ∈ b.devices) : d.plannedWords.Pairwise fun x y => x.tick ≠ y.tick := by
  refine pairwise_ne_of_alone fun tick => ?_
  have onBoard : (d.plannedWords.filter fun planned => planned.tick == tick).Sublist
      (b.plannedAt d.rack tick) := by
    have here := List.mem_map_of_mem (f := fun e : Device => if e.rack = d.rack then
      e.plannedWords.filter fun planned => planned.tick == tick else []) member
    rw [if_pos rfl] at here
    rw [plannedAt, List.flatMap_def]
    exact List.sublist_flatten_of_mem here
  exact Nat.le_trans onBoard.length_le (plannedAt_alone sound success _ _)

theorem plannedWords_distinct (sound : Sound b) (success : b.compile stopTime = .ok s) {d : Device}
    (member : d ∈ b.devices) (alone : ¬ d.sharesAddress) {c : Channel} (onDevice : c ∈ d.channels) :
    c.plannedWords.Pairwise fun x y => x.tick ≠ y.tick := by
  have inDevice : c.plannedWords.Sublist d.plannedWords := by
    rw [Device.plannedWords, if_neg alone, List.flatMap_def]
    exact List.sublist_flatten_of_mem (List.mem_map_of_mem onDevice)
  exact (deviceWords_distinct sound success member).sublist inDevice

/-- What decoding sees of the column of an address. -/
theorem column_data (sound : Sound b) (success : b.compile stopTime = .ok s) (unmasked : b.Unmasked)
    {d : Device} (member : d ∈ b.devices) {address : Nat} (own : address ∈ d.addresses)
    {planned : List Change} (order : Ascending Change.tick planned)
    (listed : ∀ tick word, (tick, word) ∈ planned.map Change.entry ↔
      d.Writes tick word ∧ word.address = address) :
    (((s.rows.map fun row => (row.tick, row.words.getD d.rack 0)).filter fun w =>
      Codec.addressedTo address w.2).map fun w => (w.1, w.2.data)) =
      planned.map fun change => (change.tick, change.word.data) := by
  have sorted : Ascending Prod.fst (planned.map Change.entry) := List.pairwise_map.mpr order
  have column := column_eq sound success unmasked member own sorted listed
  have data := congrArg (List.map fun e => (e.1, e.2.data)) column
  rw [List.map_map, List.map_map] at data
  rw [List.filter_map, List.map_map]
  refine Eq.trans (List.map_congr_left fun row _ => ?_) data
  exact Prod.ext rfl (Word.data_payload _).symm

theorem decode_own (sound : Sound b) (success : b.compile stopTime = .ok s) (unmasked : b.Unmasked)
    {d : Device} (member : d ∈ b.devices) (alone : ¬ d.sharesAddress) {c : Channel}
    (onDevice : c ∈ d.channels) (fits : c.codec.Fits) :
    c.codec.decode c.place (s.rows.map fun row => (row.tick, row.words.getD c.rack 0)) =
      c.plannedValues.map fun v => (v.1, c.codec.fromRaw (c.codec.toRaw v.2)) := by
  have good := sound.devices d (sound.mem_devices.mp member)
  have apart := good.apart c onDevice
  obtain ⟨rack, own⟩ := good.placed c onDevice
  have order := Channel.plannedWords_ascending apart
    (plannedWords_distinct sound success member alone onDevice)
  have listed : ∀ tick word, (tick, word) ∈ c.plannedWords.map Change.entry ↔
      d.Writes tick word ∧ word.address = c.place.address := fun tick word =>
    Channel.mem_plannedWords.trans (good.writes_own_iff alone onDevice).symm
  rw [Codec.decode_eq, rack, column_data sound success unmasked member own order listed]
  exact Channel.groups_planned fits (good.unshifted alone c onDevice)

end Board

/-! ### Lines of a bank -/

theorem testBit_foldl_or (bits : List Nat) (i start : Nat) :
    (bits.foldl (· ||| ·) start).testBit i ↔ start.testBit i ∨ ∃ x ∈ bits, x.testBit i := by
  induction bits generalizing start with
  | nil => simp
  | cons x rest ih =>
    rw [List.foldl_cons, ih, Nat.testBit_or]
    simp [or_assoc]

theorem testBit_level {level : Nat} (single : level < 2) (own i : Nat) :
    (level * 2 ^ own).testBit i ↔ level = 1 ∧ own = i := by
  have either : level = 0 ∨ level = 1 := by omega
  rcases either with rfl | rfl
  · simp
  · simp [Nat.testBit_two_pow]

namespace Device
variable {d : Device}

/-- Each line has its bit in the data of the bank. -/
theorem bit_bankData (good : d.Sound) (shares : d.sharesAddress)
    (lines : ∀ c ∈ d.channels, c.codec = Codec.digitalLine) {c : Channel} (onDevice : c ∈ d.channels)
    (tick : Nat) : d.bankData tick / 2 ^ c.place.bit % 2 =
      c.codec.toRaw ((heldAt c.samples tick).getD c.default) := by
  have level : ∀ other ∈ d.channels, ∀ value, other.codec.toRaw value < 2 := fun other member value => by
    rw [lines other member]
    exact Codec.digitalLine_fits.bounded value
  have bit : (d.bankData tick).testBit c.place.bit ↔
      c.codec.toRaw ((heldAt c.samples tick).getD c.default) = 1 := by
    rw [bankData, testBit_foldl_or]
    simp only [Nat.zero_testBit, Bool.false_eq_true, false_or, List.mem_map]
    constructor
    · rintro ⟨_, ⟨other, member, rfl⟩, set⟩
      obtain ⟨high, same⟩ := (testBit_level (level other member _) _ _).mp set
      rw [good.bits shares c onDevice other member same.symm]
      exact high
    · intro high
      exact ⟨_, ⟨c, onDevice, rfl⟩, (testBit_level (level c onDevice _) _ _).mpr ⟨high, rfl⟩⟩
  have own := level c onDevice ((heldAt c.samples tick).getD c.default)
  rw [Nat.testBit_eq_decide_div_mod_eq, decide_eq_true_eq] at bit
  have other := Nat.mod_lt (d.bankData tick / 2 ^ c.place.bit) (by decide : 0 < 2)
  omega

/-- Where all lines are levels, the bit of a line in a planned word is what the line holds. -/
theorem level_planned (good : d.Sound) (shares : d.sharesAddress)
    (lines : ∀ c ∈ d.channels, c.codec = Codec.digitalLine) {c : Channel} (onDevice : c ∈ d.channels)
    {planned : Change} (listed : planned ∈ d.plannedWords) :
    Float.ofNat (planned.word.data / 2 ^ c.place.bit % 2) =
      if c.codec.toRaw ((heldAt c.samples planned.tick).getD c.default) = 1 then 1.0 else 0.0 := by
  rw [plannedWords, if_pos shares] at listed
  obtain ⟨tick, _, rfl⟩ := List.mem_map.mp listed
  have data : (d.bankWordOf tick).word.data = d.bankData tick := data_wordAt good shares lines tick
  have single : c.codec.toRaw ((heldAt c.samples tick).getD c.default) < 2 := by
    rw [lines c onDevice]
    exact Codec.digitalLine_fits.bounded _
  rw [data, bit_bankData good shares lines onDevice tick]
  have atTick : (d.bankWordOf tick).tick = tick := rfl
  rw [atTick]
  split
  · rename_i high
    rw [high]
    decide +kernel
  · have low : c.codec.toRaw ((heldAt c.samples tick).getD c.default) = 0 := by omega
    rw [low]
    decide +kernel

end Device

namespace Board
variable {b : Board} {stopTime : Option Float} {s : Stream}

/-- A line reads its bit in each planned word of its bank. -/
theorem decode_line (sound : Sound b) (success : b.compile stopTime = .ok s) (unmasked : b.Unmasked)
    {d : Device} (member : d ∈ b.devices) (shares : d.sharesAddress) {c : Channel}
    (onDevice : c ∈ d.channels) (level : c.codec = Codec.digitalLine) :
    c.codec.decode c.place (s.rows.map fun row => (row.tick, row.words.getD c.rack 0)) =
      d.plannedWords.map fun planned =>
        (planned.tick, Float.ofNat (planned.word.data / 2 ^ c.place.bit % 2)) := by
  have good := sound.devices d (sound.mem_devices.mp member)
  have order : Ascending Change.tick d.plannedWords := by
    rw [Device.plannedWords, if_pos shares]
    exact List.pairwise_map.mpr d.changedTicks_ascending
  have listed : ∀ tick word, (tick, word) ∈ d.plannedWords.map Change.entry ↔
      d.Writes tick word ∧ word.address = c.place.address := fun tick word => by
    rw [(good.lines shares c onDevice).1, good.writes_bank_iff shares]
    exact Device.mem_plannedWords
  have own : c.place.address ∈ d.addresses := (good.placed c onDevice).2
  have single : c.codec.wordsPerValue = 1 := by
    rw [level]
    rfl
  rw [Codec.decode_eq, (good.placed c onDevice).1,
    column_data sound success unmasked member own order listed, single, List.map_eq_flatMap,
    Codec.groupsOf_flatMap Nat.one_pos _ _ fun _ _ => rfl, List.filterMap_map]
  have bit : ∀ data, c.codec.fromRaw (c.codec.join c.place.bit [data]) =
      Float.ofNat (data / 2 ^ c.place.bit % 2) := fun data => by
    have decoded : c.codec.fromRaw (c.codec.join c.place.bit [data]) =
        Float.ofNat (data / 2 ^ c.place.bit % 2 % 2) := by
      rw [level]
      rfl
    rw [decoded, Nat.mod_mod]
  have each := funext fun planned : Change =>
    congrArg (fun value => some (planned.tick, value)) (bit planned.word.data)
  exact (congrArg (fun f => d.plannedWords.filterMap f) each).trans
    (congrFun List.filterMap_eq_map' _)

/-- What is read for a line, whatever the codecs of the other lines of its bank are. -/
theorem decodeChannel_line (sound : Sound b) (success : b.compile stopTime = .ok s)
    (unmasked : b.Unmasked) {d : Device} (member : d ∈ b.devices) (shares : d.sharesAddress)
    {c : Channel} (onDevice : c ∈ d.channels) (level : c.codec = Codec.digitalLine)
    (last : b.LastNamed c) :
    s.decodeChannel c.name = .ok (d.plannedWords.map fun planned =>
      (timeOf b.config.busRate planned.tick,
        Float.ofNat (planned.word.data / 2 ^ c.place.bit % 2))) := by
  rw [decodeChannel_eq success last, decode_line sound success unmasked member shares onDevice level,
    List.map_map]
  rfl

/-- Reading a stream back gives the values of the timeline: for each planned value of a channel with an
address of its own one entry, with its tick and its code; for a line one entry for each planned word of
its bank, with the level that the line holds. A name stands for the last channel that has it, and all
lines of the bank have to be levels. -/
theorem decoding_gives_values_back (built : Built b) (success : b.compile stopTime = .ok s)
    (unmasked : b.Unmasked) :
    (∀ d ∈ b.devices, ¬ d.sharesAddress → ∀ c ∈ d.channels, b.LastNamed c → c.codec.Fits →
      s.decodeChannel c.name = .ok (c.plannedValues.map fun v =>
        (timeOf b.config.busRate v.1, c.codec.fromRaw (c.codec.toRaw v.2)))) ∧
    (∀ d ∈ b.devices, d.sharesAddress → (∀ c ∈ d.channels, c.codec = Codec.digitalLine) →
      ∀ c ∈ d.channels, b.LastNamed c →
        s.decodeChannel c.name = .ok (d.plannedWords.map fun planned =>
          (timeOf b.config.busRate planned.tick,
            if c.codec.toRaw ((heldAt c.samples planned.tick).getD c.default) = 1 then 1.0 else 0.0))) := by
  have sound := built.sound
  refine ⟨fun d member alone c onDevice last fits => ?_,
    fun d member shares lines c onDevice last => ?_⟩
  · rw [decodeChannel_eq success last, decode_own sound success unmasked member alone onDevice fits,
      List.map_map]
    rfl
  · have good := sound.devices d (sound.mem_devices.mp member)
    rw [decodeChannel_line sound success unmasked member shares onDevice (lines c onDevice) last]
    congr 1
    refine List.map_congr_left fun planned listed => ?_
    exact congrArg _ (Device.level_planned good shares lines onDevice listed)

theorem unmasked_of_unmarked (unmarked : (b.tracks.any fun t => t.marks.any fun m => m.2 == .nop) = false) :
    b.Unmasked := by
  intro d _ tick _ _ marked
  obtain ⟨track, member, here⟩ := exists_track_of_marked marked
  have none := List.any_eq_false.mp unmarked track member
  exact none (List.any_eq_true.mpr ⟨_, MarkerTrack.mem_at?.mp here, rfl⟩)

theorem mixed_unmasked : mixed.Unmasked := unmasked_of_unmarked (by decide +kernel)

def mixedSynthesizer : Device := mixed.devices.get ⟨1, by decide +kernel⟩

def mixedFrequency : Channel := mixedSynthesizer.channels.get ⟨0, by decide +kernel⟩

def mixedBank : Device := mixed.devices.get ⟨0, by decide +kernel⟩

def mixedLine : Channel := mixedBank.channels.get ⟨1, by decide +kernel⟩

/-- Both frequencies are read back, rounded to their codes, although their words stand among those of the
bank. The line that is never written reads its default at the only word of the bank. -/
theorem mixed_decodes : ∃ s, mixed.compile none = .ok s ∧
    s.decodeChannel "dds0_freq" = .ok [(3e-6, 100000000.00000142), (6e-6, 199999999.99999928)] ∧
    s.decodeChannel "do1" = .ok [(2e-6, 1.0)] := by
  obtain ⟨s, success⟩ := mixed_compiles
  obtain ⟨own, line⟩ := decoding_gives_values_back mixed_built success mixed_unmasked
  have frequencies := own mixedSynthesizer (List.get_mem _ _) (by decide +kernel) mixedFrequency
    (List.get_mem _ _) rfl (FrequencyScale.codec_fits FrequencyScale.standard "DDS_FREQ")
  have codecs : mixedBank.channels.map Channel.codec = [Codec.digitalLine, Codec.digitalLine] := rfl
  have lines : ∀ c ∈ mixedBank.channels, c.codec = Codec.digitalLine := fun c member => by
    have listed : c.codec ∈ mixedBank.channels.map Channel.codec := List.mem_map_of_mem member
    rw [codecs] at listed
    simpa using listed
  have levels := line mixedBank (List.get_mem _ _) (by decide +kernel) lines mixedLine
    (List.get_mem _ _) rfl
  refine ⟨s, success, frequencies.trans (congrArg _ ?_), levels.trans (congrArg _ ?_)⟩
  · decide +kernel
  · decide +kernel

/-! ### Two ways to read something else -/

/-- A line of a bank that was added with the name of an output. -/
def sharedNameScript : Except BoardError Board := do
  let b ← Board.new { name := "main" }
  let b ← b.addPseudoClock "pc"
  let b ← b.addClockLine "pc" "cl"
  let b ← b.addAnalogOutput "cl" "ao0" 0 0x10 "DAC712" 0.0
  let b ← b.addDigitalBank "cl" "bank0" 0 5
  let b ← b.addLine "bank0" "ao0" 0 Codec.digitalLine 0.0
  b.editChannel "ao0" fun c => c.book (.held 1 5.0)

theorem sharedNameScript_succeeds : sharedNameScript.toOption.isSome := by decide +kernel

def sharedName : Board := sharedNameScript.toOption.get sharedNameScript_succeeds

theorem sharedNameScript_builds : Builds sharedNameScript :=
  .bind (.new _) fun _ h => .bind (.edit h fun _ => .pseudoClock _) fun _ h =>
  .bind (.edit h fun _ => .clockLine _ _) fun _ h =>
  .bind (.edit h fun _ => .analogOutput _ _ _ _ _ _) fun _ h =>
  .bind (.edit h fun _ => .digitalBank _ _ _ _) fun _ h =>
  .bind (.edit h fun _ => .line _ _ _ _ _) fun _ h => .book h _ _

theorem sharedName_built : Built sharedName :=
  sharedNameScript_builds _ (eq_ok_get sharedNameScript_succeeds)

theorem sharedName_compiles : ∃ s, sharedName.compile none = .ok s :=
  compiles sharedName_built.sound (by decide +kernel) (by decide +kernel) (by decide +kernel) (by decide +kernel)
    (by decide +kernel)

/-- A converter from zero to one, under the tag of the codec of lines. -/
def foreignCodec : Codec :=
  (⟨16, 0.0, 1.0, .fullScale, .offsetBinary⟩ : Converter Float).codec "DigitalOut" []

/-- The codec is registered between two lines of a bank. -/
def foreignLineScript : Except BoardError Board := do
  let b ← Board.new { name := "main" }
  let b ← b.addPseudoClock "pc"
  let b ← b.addClockLine "pc" "cl"
  let b ← b.addDigitalBank "cl" "bank0" 0 5
  let b ← b.addDigitalLine "bank0" "do0" 0 false
  let b ← (b.registerCodec foreignCodec).addDigitalLine "bank0" "do1" 1 false
  b.editChannel "do1" fun c => c.book (.held 1 1.0)

theorem foreignLineScript_succeeds : foreignLineScript.toOption.isSome := by decide +kernel

def foreignLine : Board := foreignLineScript.toOption.get foreignLineScript_succeeds

theorem foreignLineScript_builds : Builds foreignLineScript :=
  .bind (.new _) fun _ h => .bind (.edit h fun _ => .pseudoClock _) fun _ h =>
  .bind (.edit h fun _ => .clockLine _ _) fun _ h =>
  .bind (.edit h fun _ => .digitalBank _ _ _ _) fun _ h =>
  .bind (.edit h fun _ => .digitalLine _ _ _ _) fun _ h =>
  .bind (.edit (.edit h (.codec _)) fun _ => .digitalLine _ _ _ _) fun _ h => .book h _ _

theorem foreignLine_built : Built foreignLine :=
  foreignLineScript_builds _ (eq_ok_get foreignLineScript_succeeds)

theorem foreignLine_compiles : ∃ s, foreignLine.compile none = .ok s :=
  compiles foreignLine_built.sound (by decide +kernel) (by decide +kernel) (by decide +kernel) (by decide +kernel)
    (by decide +kernel)

/-- The output has a name that a line took after it: the stream reads the line in its place. -/
theorem sharedName_reads_line {s : Stream} (success : sharedName.compile none = .ok s) :
    s.decodeChannel "ao0" = .ok [] := by
  let bank := sharedName.devices.get ⟨1, by decide +kernel⟩
  let line := bank.channels.get ⟨0, by decide +kernel⟩
  have idle : bank.plannedWords = [] := by decide +kernel
  have read := decodeChannel_line sharedName_built.sound success
    (unmasked_of_unmarked (by decide +kernel)) (List.get_mem _ _ : bank ∈ sharedName.devices)
    (by decide +kernel) (List.get_mem _ _ : line ∈ bank.channels) rfl rfl
  rw [idle] at read
  exact read

/-- The low line of the bank reads the lowest bit of the code of its neighbour. -/
theorem foreignLine_reads_neighbour {s : Stream} (success : foreignLine.compile none = .ok s) :
    s.decodeChannel "do0" = .ok [(1e-6, 1.0)] := by
  let bank := foreignLine.devices.get ⟨0, by decide +kernel⟩
  let line := bank.channels.get ⟨0, by decide +kernel⟩
  have read := decodeChannel_line foreignLine_built.sound success
    (unmasked_of_unmarked (by decide +kernel)) (List.get_mem _ _ : bank ∈ foreignLine.devices)
    (by decide +kernel) (List.get_mem _ _ : line ∈ bank.channels) rfl rfl
  refine read.trans (congrArg _ ?_)
  decide +kernel

/-- Without regard to repeated names, or to other codecs in a bank, the promise would be too strong. -/
theorem names_and_codecs_matter :
    (¬ ∀ (b : Board) (stopTime : Option Float) (s : Stream), Built b → b.compile stopTime = .ok s →
      b.Unmasked → ∀ d ∈ b.devices, ¬ d.sharesAddress → ∀ c ∈ d.channels, c.codec.Fits →
        s.decodeChannel c.name = .ok (c.plannedValues.map fun v =>
          (timeOf b.config.busRate v.1, c.codec.fromRaw (c.codec.toRaw v.2)))) ∧
    ¬ ∀ (b : Board) (stopTime : Option Float) (s : Stream), Built b → b.compile stopTime = .ok s →
      b.Unmasked → ∀ d ∈ b.devices, d.sharesAddress → ∀ c ∈ d.channels,
        c.codec = Codec.digitalLine → b.LastNamed c →
          s.decodeChannel c.name = .ok (d.plannedWords.map fun planned =>
            (timeOf b.config.busRate planned.tick,
              if c.codec.toRaw ((heldAt c.samples planned.tick).getD c.default) = 1 then 1.0
              else 0.0)) := by
  constructor
  · intro promise
    obtain ⟨s, success⟩ := sharedName_compiles
    let output := sharedName.devices.get ⟨0, by decide +kernel⟩
    let channel := output.channels.get ⟨0, by decide +kernel⟩
    have promised := promise sharedName none s sharedName_built success
      (unmasked_of_unmarked (by decide +kernel)) output (List.get_mem _ _) (by decide +kernel) channel
      (List.get_mem _ _) (Converter.codec_fits Converter.dac712 (by decide) _ _)
    have read := (sharedName_reads_line success).symm.trans promised
    have lengths : 0 = (channel.plannedValues).length := by
      simpa using congrArg List.length (Except.ok.inj read)
    exact absurd lengths (by decide +kernel)
  · intro promise
    obtain ⟨s, success⟩ := foreignLine_compiles
    let bank := foreignLine.devices.get ⟨0, by decide +kernel⟩
    let line := bank.channels.get ⟨0, by decide +kernel⟩
    have promised := promise foreignLine none s foreignLine_built success
      (unmasked_of_unmarked (by decide +kernel)) bank (List.get_mem _ _) (by decide +kernel) line
      (List.get_mem _ _) rfl rfl
    have read := (foreignLine_reads_neighbour success).symm.trans promised
    have levels := congrArg (List.map Prod.snd) (Except.ok.inj read)
    exact absurd levels (by decide +kernel)

end Board

end Sequencer
