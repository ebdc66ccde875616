import Mathlib.Data.List.Nodup
import Sequencer.Proofs.Decoding

/-!
The streams of several channels on one bus.

Decoding for an address looks at the words for the address only, so it reads from the bus what it reads from the stream
of the channel alone. That stream consists of blocks of one size, each the words of a value or as many NOP words.
-/
namespace Sequencer

/-- A word with no bit of an address or of data, and not a NOP. -/
def Word.MarkersOnly (w : Word) : Prop := ∀ i < 32, w.getLsbD i → 23 ≤ i ∧ i ≤ 30

instance (w : Word) : Decidable w.MarkersOnly :=
  inferInstanceAs (Decidable (∀ i < 32, w.getLsbD i → 23 ≤ i ∧ i ≤ 30))

/-- Streams of words with their times, merged into one. Each keeps its order, and its words may get markers; any number
of foreign words come in between. -/
inductive Interleaved (foreign : Word → Prop) : List (List (Nat × Word)) → List (Nat × Word) → Prop where
  | done {streams : List (List (Nat × Word))} (spent : ∀ stream ∈ streams, stream = []) : Interleaved foreign streams []
  | own {streams : List (List (Nat × Word))} {time : Nat} {word : Word} {rest bus : List (Nat × Word)} (k : Nat)
      (next : streams[k]? = some ((time, word) :: rest)) (markers : Word) (only : markers.MarkersOnly)
      (more : Interleaved foreign (streams.set k rest) bus) :
      Interleaved foreign streams ((time, word ||| markers) :: bus)
  | other {streams : List (List (Nat × Word))} {bus : List (Nat × Word)} (time : Nat) (word : Word)
      (stray : foreign word) (more : Interleaved foreign streams bus) :
      Interleaved foreign streams ((time, word) :: bus)

/-- A codec that makes one or more whole words of each value. -/
structure Codec.Plain (c : Codec) : Prop where
  chunked : c.packing = .chunks
  wide : 0 < c.rawBits
  bounded : ∀ value, c.toRaw value < 2 ^ c.rawBits

/-- A channel, the samples for it and the times of the words that they make. -/
structure Feed where
  codec : Codec
  place : Place
  samples : List (Option Float)
  times : List Nat

namespace Feed

def address (f : Feed) : Nat := f.place.address

/-- The words of the samples with their times. -/
def stream (f : Feed) : List (Nat × Word) := f.times.zip (f.codec.encode f.place f.samples)

/-- The address fits into a word, and each word has a time. -/
structure Ready (f : Feed) : Prop where
  plain : f.codec.Plain
  addressed : f.address ≤ Word.maxAddress
  timed : f.times.length = (f.codec.encode f.place f.samples).length

/-- Each written value as its code stands for it, with the time of its first word. -/
def readings (f : Feed) : List (Nat × Float) :=
  f.samples.zipIdx.filterMap fun (sample, j) => sample.map fun value =>
    (f.times.getD (j * f.codec.wordsPerValue) 0, f.codec.fromRaw (f.codec.toRaw value))

end Feed

/-- A word that concerns none of the feeds. -/
def Foreign (feeds : List Feed) (w : Word) : Prop := w.isNop ∨ ∀ f ∈ feeds, w.address ≠ f.address

/-! ### Words with markers -/

namespace Word
variable {w markers : Word}

theorem MarkersOnly.payload (only : markers.MarkersOnly) : markers.payload = 0 := by
  apply BitVec.eq_of_getLsbD_eq
  intro i bound
  rw [getLsbD_payload]
  cases set : markers.getLsbD i with
  | false => simp
  | true =>
    have high := (only i bound set).1
    simp [Nat.not_lt.mpr high]

theorem payload_markers (only : markers.MarkersOnly) : (w ||| markers).payload = w.payload := by
  rw [payload_or, only.payload]
  exact BitVec.or_zero

theorem address_markers (only : markers.MarkersOnly) : (w ||| markers).address = w.address := by
  rw [← address_payload, payload_markers only, address_payload]

theorem data_markers (only : markers.MarkersOnly) : (w ||| markers).data = w.data := by
  rw [← data_payload, payload_markers only, data_payload]

theorem isNop_markers (only : markers.MarkersOnly) : (w ||| markers).isNop = w.isNop := by
  have clear : markers.isNop = false := by
    rw [isNop_eq]
    cases set : markers.getLsbD 31 with
    | false => rfl
    | true =>
      have low := (only 31 (by decide) set).2
      omega
  rw [isNop_or, clear, Bool.or_false]

end Word

namespace Codec
variable {c : Codec} {place : Place} {a : Nat} {t : Nat} {w : Word} {words : List (Nat × Word)}

/-- What decoding looks at: the times and the data of the words for an address. -/
def seen (a : Nat) (words : List (Nat × Word)) : List (Nat × Nat) :=
  (words.filter fun w => addressedTo a w.2).map fun w => (w.1, w.2.data)

theorem decode_of_seen {words' : List (Nat × Word)} (same : seen place.address words = seen place.address words') :
    c.decode place words = c.decode place words' := by
  rw [decode_eq, decode_eq]
  unfold seen at same
  rw [same]

theorem addressedTo_eq_false_iff : addressedTo a w = false ↔ w.isNop ∨ w.address ≠ a := by
  cases nop : w.isNop <;> simp [addressedTo, nop]

theorem seen_own (own : addressedTo a w) : seen a ((t, w) :: words) = (t, w.data) :: seen a words := by
  simp [seen, own]

theorem seen_other (other : addressedTo a w = false) : seen a ((t, w) :: words) = seen a words := by
  simp [seen, other]

theorem seen_eq_nil_iff : seen a words = [] ↔ ∀ w ∈ words, addressedTo a w.2 = false := by
  simp [seen]

/-- Markers are not seen. -/
theorem seen_markers {markers : Word} (only : markers.MarkersOnly) :
    seen a ((t, w ||| markers) :: words) = seen a ((t, w) :: words) := by
  have same : addressedTo a (w ||| markers) = addressedTo a w := by
    rw [addressedTo, addressedTo, Word.isNop_markers only, Word.address_markers only]
  cases own : addressedTo a w with
  | true => rw [seen_own (same.trans own), seen_own own, Word.data_markers only]
  | false => rw [seen_other (same.trans own), seen_other own]

end Codec

open Codec

/-- Of all that is on the bus only one stream is seen, if no other stream and no foreign word has the address. -/
theorem Interleaved.seen_eq {foreign : Word → Prop} {streams : List (List (Nat × Word))} {bus : List (Nat × Word)}
    (mixed : Interleaved foreign streams bus) {a k : Nat} {stream : List (Nat × Word)}
    (here : streams[k]? = some stream)
    (others : ∀ j other, j ≠ k → streams[j]? = some other → seen a other = [])
    (clear : ∀ w, foreign w → addressedTo a w = false) : seen a bus = seen a stream := by
  induction mixed generalizing stream with
  | done spent => rw [spent stream (List.mem_of_getElem? here)]
  | @own streams time word rest bus j next markers only more ih =>
    rw [seen_markers only]
    have inside : j < streams.length := (List.getElem?_eq_some_iff.mp next).1
    by_cases same : j = k
    · subst same
      obtain rfl := Option.some.inj (here.symm.trans next)
      have later : seen a bus = seen a rest := ih (List.getElem?_set_self inside) fun i other differs found =>
        others i other differs (by rwa [List.getElem?_set_ne differs.symm] at found)
      cases own : addressedTo a word with
      | true => rw [seen_own own, seen_own own, later]
      | false => rw [seen_other own, seen_other own, later]
    · -- neither the word of another stream nor what is left of that stream is seen
      have unseen := seen_eq_nil_iff.mp (others j _ same next)
      rw [List.forall_mem_cons] at unseen
      rw [seen_other unseen.1]
      refine ih (by rwa [List.getElem?_set_ne same]) fun i other differs found => ?_
      by_cases taken : j = i
      · subst taken
        rw [List.getElem?_set_self inside] at found
        obtain rfl := Option.some.inj found
        exact seen_eq_nil_iff.mpr unseen.2
      · rw [List.getElem?_set_ne taken] at found
        exact others i other differs found
  | other time word stray more ih => rw [seen_other (clear word stray), ih here others]

/-! ### The stream of one channel -/

namespace Codec
variable {c : Codec} {place : Place} {block rest : List (Nat × Word)}

/-- Words for nobody are passed over. -/
theorem decode_pass (unseen : ∀ w ∈ block, addressedTo place.address w.2 = false) (rest : List (Nat × Word)) :
    c.decode place (block ++ rest) = c.decode place rest := by
  have none : block.filter (fun w => addressedTo place.address w.2) = [] := by simpa using unseen
  rw [decode, List.filter_append, none, List.nil_append]
  rfl

/-- As many words as a value has are read as a value. -/
theorem decode_value (positive : 0 < c.wordsPerValue) (size : block.length = c.wordsPerValue)
    (own : ∀ w ∈ block, addressedTo place.address w.2) (rest : List (Nat × Word)) :
    c.decode place (block ++ rest) =
      ((block.map Prod.fst).getD 0 0, c.fromRaw (c.join place.bit (block.map fun w => w.2.data))) ::
        c.decode place rest := by
  have all : block.filter (fun w => addressedTo place.address w.2) = block := List.filter_eq_self.mpr own
  rw [decode, List.filter_append, all, groupsOf_append positive size]
  cases block with
  | nil => simp at size; omega
  | cons first others => rfl

theorem Plain.positive (plain : c.Plain) : 0 < c.wordsPerValue := by
  have wide := plain.wide
  unfold wordsPerValue
  omega

theorem Plain.fits (plain : c.Plain) : c.Fits :=
  ⟨plain.bounded, fun shared => by cases plain.chunked.symm.trans shared⟩

/-- The words of one sample. -/
def sampleWords (c : Codec) (place : Place) : Option Float → List Word
  | some value => c.valueWords place value
  | none => List.replicate c.wordsPerValue Word.nop

theorem length_sampleWords (c : Codec) (place : Place) (sample : Option Float) :
    (c.sampleWords place sample).length = c.wordsPerValue := by
  cases sample with
  | none => exact List.length_replicate
  | some value => exact c.length_valueWords place value

theorem encode_cons (sample : Option Float) (samples : List (Option Float)) :
    c.encode place (sample :: samples) = c.sampleWords place sample ++ c.encode place samples := by
  cases sample <;> rfl

theorem length_encode (c : Codec) (place : Place) (samples : List (Option Float)) :
    (c.encode place samples).length = samples.length * c.wordsPerValue := by
  induction samples with
  | nil => simp [encode]
  | cons sample rest ih =>
    rw [encode_cons, List.length_append, length_sampleWords, ih, List.length_cons, Nat.succ_mul, Nat.add_comm]

/-- The data of the words of a value are its code, at whatever bit the channel sits. -/
theorem Plain.join_valueWords (plain : c.Plain) (value : Float) :
    c.join place.bit ((c.valueWords place value).map Word.data) = c.toRaw value := by
  have anywhere := join_split plain.fits value
  simp only [join, split, plain.chunked] at anywhere ⊢
  simpa [valueWords, split, plain.chunked, Function.comp_def, Word.data_pack] using anywhere

/-- A word of a channel is a NOP or has its address. -/
theorem addressed_of_encode (legal : place.address ≤ Word.maxAddress) {samples : List (Option Float)} {w : Word}
    (member : w ∈ c.encode place samples) : w.isNop ∨ w.address = place.address := by
  obtain ⟨sample, _, inWords⟩ := List.mem_flatMap.mp member
  cases sample with
  | none =>
    obtain rfl := List.eq_of_mem_replicate inWords
    exact .inl (by decide)
  | some value =>
    obtain ⟨chunk, _, rfl⟩ := List.mem_map.mp inWords
    exact .inr (Word.address_pack legal chunk)

/-- The words of one sample are read as its value, if it was written. -/
theorem Plain.decode_sample (plain : c.Plain) (legal : place.address ≤ Word.maxAddress) {times : List Nat}
    (timed : times.length = c.wordsPerValue) (sample : Option Float) (rest : List (Nat × Word)) :
    c.decode place (times.zip (c.sampleWords place sample) ++ rest) =
      (sample.map fun value => (times.getD 0 0, c.fromRaw (c.toRaw value))).toList ++ c.decode place rest := by
  cases sample with
  | none =>
    refine decode_pass (fun w member => ?_) rest
    have nop : w.2 = Word.nop := List.eq_of_mem_replicate (List.of_mem_zip member).2
    rw [nop]
    exact addressedTo_eq_false_iff.mpr (.inl (by decide))
  | some value =>
    have size : times.length = (c.valueWords place value).length := timed.trans (c.length_valueWords place value).symm
    have block : (times.zip (c.valueWords place value)).length = c.wordsPerValue := by
      rw [List.length_zip, ← size, Nat.min_self, timed]
    have own : ∀ w ∈ times.zip (c.valueWords place value), addressedTo place.address w.2 := fun w member => by
      obtain ⟨chunk, _, packed⟩ := List.mem_map.mp (List.of_mem_zip member).2
      simp [addressedTo, ← packed, Word.isNop_pack, Word.address_pack legal]
    have data : (times.zip (c.valueWords place value)).map (fun w => w.2.data) =
        (c.valueWords place value).map Word.data := calc
      _ = ((times.zip (c.valueWords place value)).map Prod.snd).map Word.data := (List.map_map).symm
      _ = _ := by rw [List.map_snd_zip (Nat.le_of_eq size.symm)]
    rw [sampleWords, decode_value plain.positive block own, data, plain.join_valueWords,
      List.map_fst_zip (Nat.le_of_eq size)]
    rfl

/-- The words of samples are read block by block, from any sample on. -/
theorem Plain.decode_from (plain : c.Plain) (legal : place.address ≤ Word.maxAddress) (times : List Nat)
    (samples : List (Option Float)) (start : Nat)
    (timed : times.length = (start + samples.length) * c.wordsPerValue) :
    c.decode place ((times.drop (start * c.wordsPerValue)).zip (c.encode place samples)) =
      (samples.zipIdx start).filterMap fun (sample, j) => sample.map fun value =>
        (times.getD (j * c.wordsPerValue) 0, c.fromRaw (c.toRaw value)) := by
  have positive := plain.positive
  induction samples generalizing start with
  | nil =>
    rw [encode, List.flatMap_nil, List.zip_nil_right, decode, List.filter_nil, groupsOf, dif_neg (by simp; omega)]
    rfl
  | cons sample rest ih =>
    rw [List.length_cons, ← Nat.add_assoc, Nat.add_right_comm] at timed
    have later := ih (start + 1) timed
    have enough : c.wordsPerValue ≤ (times.drop (start * c.wordsPerValue)).length := by
      rw [List.length_drop, timed, Nat.add_right_comm, Nat.add_mul, Nat.add_mul]
      omega
    have first : ((times.drop (start * c.wordsPerValue)).take c.wordsPerValue).length = c.wordsPerValue := by
      rw [List.length_take, Nat.min_eq_left enough]
    have time : ((times.drop (start * c.wordsPerValue)).take c.wordsPerValue).getD 0 0 =
        times.getD (start * c.wordsPerValue) 0 := by
      simp [List.getD_eq_getElem?_getD, positive]
    -- the words of the next sample stand in front of those of all later ones
    have cut : (times.drop (start * c.wordsPerValue)).zip (c.encode place (sample :: rest)) =
        ((times.drop (start * c.wordsPerValue)).take c.wordsPerValue).zip (c.sampleWords place sample) ++
          (times.drop ((start + 1) * c.wordsPerValue)).zip (c.encode place rest) := by
      rw [Nat.succ_mul, ← List.drop_drop, ← List.zip_append (by rw [first, length_sampleWords]),
        List.take_append_drop, encode_cons]
    rw [cut, plain.decode_sample legal first, later, time, List.zipIdx_cons, List.filterMap_cons]
    cases sample <;> rfl

end Codec

namespace Feed
variable {f : Feed}

theorem decode_stream (ready : f.Ready) : f.codec.decode f.place f.stream = f.readings := by
  have timed := ready.timed
  rw [length_encode] at timed
  simpa [stream, readings] using ready.plain.decode_from ready.addressed f.times f.samples 0 (by simpa using timed)

/-- Decoding for another address passes a stream over. -/
theorem seen_stream (ready : f.Ready) {a : Nat} (other : f.address ≠ a) : seen a f.stream = [] := by
  rw [seen_eq_nil_iff]
  intro w member
  rcases addressed_of_encode ready.addressed (List.of_mem_zip member).2 with nop | own
  · exact addressedTo_eq_false_iff.mpr (.inl nop)
  · exact addressedTo_eq_false_iff.mpr (.inr (own ▸ other))

end Feed

/-- Whatever the order in which several channels put their words on the bus, each of them is read back as if it were
alone. -/
theorem streams_can_be_interleaved {feeds : List Feed} {bus : List (Nat × Word)} (ready : ∀ f ∈ feeds, f.Ready)
    (distinct : (feeds.map Feed.address).Nodup) (mixed : Interleaved (Foreign feeds) (feeds.map Feed.stream) bus) :
    ∀ f ∈ feeds, f.codec.decode f.place bus = f.readings := by
  intro f member
  obtain ⟨k, inside, rfl⟩ := List.getElem_of_mem member
  have here : (feeds.map Feed.stream)[k]? = some feeds[k].stream := by
    rw [List.getElem?_map, List.getElem?_eq_getElem inside, Option.map_some]
  have others : ∀ j other, j ≠ k → (feeds.map Feed.stream)[j]? = some other → seen feeds[k].address other = [] := by
    intro j other differs found
    rw [List.getElem?_map, Option.map_eq_some_iff] at found
    obtain ⟨g, listed, rfl⟩ := found
    obtain ⟨bound, rfl⟩ := List.getElem?_eq_some_iff.mp listed
    refine Feed.seen_stream (ready _ (List.getElem_mem bound)) fun same => differs ?_
    have equal := List.inj_on_of_nodup_map distinct (List.getElem_mem bound) member same
    exact (List.Nodup.getElem_inj_iff distinct.of_map).mp equal
  have clear : ∀ w, Foreign feeds w → addressedTo feeds[k].address w = false := by
    intro w stray
    exact addressedTo_eq_false_iff.mpr (stray.imp_right fun elsewhere => elsewhere _ member)
  rw [decode_of_seen (mixed.seen_eq here others clear)]
  exact Feed.decode_stream (ready _ member)

/-- A converter that is written twice, and a frequency in three words. -/
def mixedFeeds : List Feed :=
  [⟨Converter.dac712Codec, ⟨0x10, 0⟩, [some (-10.0), none, some 5.0], [1, 3, 6]⟩,
    ⟨FrequencyScale.standard.codec "DDS_FREQ", ⟨0x20, 0⟩, [some 1e8], [0, 4, 7]⟩]

/-- Their words, some with an interrupt, a stop or a strobe, and two foreign ones. -/
def mixedBus : List (Nat × Word) :=
  [(0, 0x0020999A ||| 0), (1, 0x00108000 ||| 0x20000000), (2, 0x0021FFFF), (3, 0x80000000 ||| 0x10000000),
    (4, 0x00209999 ||| 0x00800000), (5, 0x80101234), (6, 0x00104000 ||| 0), (7, 0x00201999 ||| 0x08000000)]

theorem mixedBus_interleaved : Interleaved (Foreign mixedFeeds) (mixedFeeds.map Feed.stream) mixedBus := by
  have streams : mixedFeeds.map Feed.stream =
      [[(1, 0x00108000), (3, 0x80000000), (6, 0x00104000)], [(0, 0x0020999A), (4, 0x00209999), (7, 0x00201999)]] := by
    decide +kernel
  have elsewhere : Foreign mixedFeeds 0x0021FFFF := .inr (by decide +kernel)
  have masked : Foreign mixedFeeds 0x80101234 := .inl (by decide)
  rw [streams]
  exact .own 1 rfl 0 (by decide) (.own 0 rfl 0x20000000 (by decide) (.other 2 _ elsewhere
    (.own 0 rfl 0x10000000 (by decide) (.own 1 rfl 0x00800000 (by decide) (.other 5 _ masked
      (.own 0 rfl 0 (by decide) (.own 1 rfl 0x08000000 (by decide) (.done (by decide)))))))))

theorem mixedFeeds_read : Converter.dac712Codec.decode ⟨0x10, 0⟩ mixedBus =
      [(1, Converter.dac712Codec.fromRaw 0x8000), (6, Converter.dac712Codec.fromRaw 0x4000)] ∧
    (FrequencyScale.standard.codec "DDS_FREQ").decode ⟨0x20, 0⟩ mixedBus =
      [(0, (FrequencyScale.standard.codec "DDS_FREQ").fromRaw 0x19999999999A)] := by
  have converter : Converter.dac712Codec.Plain :=
    ⟨rfl, by decide, (Converter.codec_fits Converter.dac712 (by decide) _ _).bounded⟩
  have synthesizer : (FrequencyScale.standard.codec "DDS_FREQ").Plain :=
    ⟨rfl, by decide, (FrequencyScale.codec_fits FrequencyScale.standard "DDS_FREQ").bounded⟩
  have ready : ∀ f ∈ mixedFeeds, f.Ready := by
    rw [mixedFeeds, List.forall_mem_cons, List.forall_mem_singleton]
    exact ⟨⟨converter, by decide, by decide +kernel⟩, ⟨synthesizer, by decide, by decide +kernel⟩⟩
  have read := streams_can_be_interleaved ready (by decide) mixedBus_interleaved
  have low : Converter.dac712Codec.toRaw (-10.0) = 0x8000 := by decide +kernel
  have high : Converter.dac712Codec.toRaw 5.0 = 0x4000 := by decide +kernel
  have tuned : (FrequencyScale.standard.codec "DDS_FREQ").toRaw 1e8 = 0x19999999999A := by decide +kernel
  rw [mixedFeeds, List.forall_mem_cons, List.forall_mem_singleton] at read
  refine ⟨read.1.trans ?_, read.2.trans ?_⟩
  · rw [← low, ← high]
    rfl
  · rw [← tuned]
    rfl

end Sequencer
