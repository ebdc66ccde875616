import Mathlib.Data.Nat.Find
import Sequencer.Proofs.StreamRows

/-!
Every bit of every word of a stream.

A word is made of three layers: the planned change or a NOP, the markers at its tick, and the strobe.
They meet in no bit but that of NOP. `Prescribes` says what the edits ask of a word; there is one
word of which it holds, and that word is in the stream.
-/
namespace Sequencer

namespace Board
variable {b : Board} {plans : List Plan} {ticks : List Nat} {stopTime : Option Float} {stop : Nat}
variable {row tick rack : Nat}

/-- A word that some device of a rack writes at a tick. -/
def Sends (b : Board) (rack tick : Nat) (word : Word) : Prop :=
  ∃ d ∈ b.devices, d.rack = rack ∧ d.Writes tick word

/-- No device of the rack writes at the tick. -/
def Idle (b : Board) (rack tick : Nat) : Prop := ∀ word, ¬ b.Sends rack tick word

/-- What the edits ask of the word of a rack in a row. -/
structure Prescribes (b : Board) (row tick rack : Nat) (w : Word) : Prop where
  change : ∀ word, b.Sends rack tick word → w.payload = word
  /-- An idle rack shows its first change in the first row. -/
  preload : row = 0 → b.Idle rack tick → ∀ start word, b.Sends rack start word →
    (∀ earlier < start, b.Idle rack earlier) → w.payload = word
  blank : b.Idle rack tick → (row ≠ 0 ∨ ∀ t, b.Idle rack t) → w.payload = 0
  nop : w.isNop ↔ b.Idle rack tick ∨ b.marked rack tick .nop
  markers : ∀ m, m ≠ .nop → m ≠ .strobe →
    (w.isSet (m.mask b.config.strobePosition) ↔ b.marked rack tick m)
  strobe : w.isSet (Marker.strobe.mask b.config.strobePosition) ↔
    if b.config.autoStrobe then row % 2 = 1 else b.strobesUpTo rack tick % 2 = 1
  unused : ∀ i, 23 ≤ i → i < 28 → i ≠ b.config.strobePosition → w.getLsbD i = false

/-! ### There is one such word -/

/-- A rack that is not always idle has a first tick at which it is not. -/
theorem exists_first_sends (busy : ¬ ∀ t, b.Idle rack t) :
    ∃ start word, b.Sends rack start word ∧ ∀ earlier < start, b.Idle rack earlier := by
  classical
  have some_ := Classical.not_forall.mp busy
  obtain ⟨word, sends⟩ := Classical.not_forall_not.mp (Nat.find_spec some_)
  exact ⟨_, word, sends, fun earlier less => Classical.not_not.mp (Nat.find_min some_ less)⟩

theorem Prescribes.payload_unique {v w : Word} (hv : b.Prescribes row tick rack v)
    (hw : b.Prescribes row tick rack w) : v.payload = w.payload := by
  by_cases idle : b.Idle rack tick
  · by_cases blank : row ≠ 0 ∨ ∀ t, b.Idle rack t
    · rw [hv.blank idle blank, hw.blank idle blank]
    · obtain ⟨first, busy⟩ := not_or.mp blank
      have first : row = 0 := Classical.not_not.mp first
      obtain ⟨start, word, sends, least⟩ := exists_first_sends busy
      rw [hv.preload first idle start word sends least, hw.preload first idle start word sends least]
  · obtain ⟨word, sends⟩ := Classical.not_forall_not.mp idle
    rw [hv.change word sends, hw.change word sends]

/-- The edits leave no choice in any bit. -/
theorem Prescribes.unique (legal : Word.strobeMayBe b.config.strobePosition) {v w : Word}
    (hv : b.Prescribes row tick rack v) (hw : b.Prescribes row tick rack w) : v = w := by
  have marked : ∀ m : Marker, v.getLsbD (m.position b.config.strobePosition) =
      w.getLsbD (m.position b.config.strobePosition) := by
    intro m
    rw [← Marker.isSet_mask legal, ← Marker.isSet_mask legal, Bool.eq_iff_iff]
    by_cases nop : m = .nop
    · subst nop
      exact hv.nop.trans hw.nop.symm
    · by_cases strobe : m = .strobe
      · subst strobe
        exact hv.strobe.trans hw.strobe.symm
      · exact (hv.markers m nop strobe).trans (hw.markers m nop strobe).symm
  apply BitVec.eq_of_getLsbD_eq
  intro i bound
  by_cases low : i < 23
  · have bit := congrArg (BitVec.getLsbD · i) (hv.payload_unique hw)
    simpa [Word.getLsbD_payload, low] using bit
  · by_cases strobe : i = b.config.strobePosition
    · rw [strobe]
      exact marked .strobe
    · by_cases unused : i < 28
      · rw [hv.unused i (by omega) unused strobe, hw.unused i (by omega) unused strobe]
      · have top : i = 28 ∨ i = 29 ∨ i = 30 ∨ i = 31 := by omega
        rcases top with rfl | rfl | rfl | rfl
        · exact marked .stop
        · exact marked .interrupt
        · exact marked .timeReset
        · exact marked .nop

/-! ### The word of a place -/

theorem Sends.payload_eq (sound : Sound b) {word : Word} (sends : b.Sends rack tick word) :
    word.payload = word := by
  obtain ⟨d, member, _, writes⟩ := sends
  obtain ⟨_, _, _, rfl⟩ := writes.packed (sound.devices d (sound.mem_devices.mp member))
  exact Word.payload_pack _ _

theorem Sends.rack_lt (sound : Sound b) {word : Word} (sends : b.Sends rack tick word) :
    rack < b.config.racks := by
  obtain ⟨d, member, rfl, _⟩ := sends
  exact sound.rack_lt member

theorem changesAt_eq_nil_iff (sound : Sound b) (planned : b.plans = .ok plans) :
    Plan.changesAt plans tick rack = [] ↔ b.Idle rack tick := by
  rw [List.eq_nil_iff_forall_not_mem]
  constructor
  · intro none word sends
    obtain ⟨change, listed, _⟩ := (changesAt_iff_writes sound planned).mpr sends
    exact none change listed
  · intro idle change listed
    exact idle _ ((changesAt_iff_writes sound planned).mp ⟨change, listed, rfl⟩)

/-- Without conflicts a word that is sent is the only change of its place. -/
theorem changesAt_of_sends (sound : Sound b) (planned : b.plans = .ok plans)
    (free : b.conflicts plans (b.unionTicks plans stop) = []) {word : Word}
    (sends : b.Sends rack tick word) :
    tick ∈ b.unionTicks plans stop ∧
      ∃ change, Plan.changesAt plans tick rack = [change] ∧ change.word = word := by
  obtain ⟨change, listed, same⟩ := (changesAt_iff_writes sound planned).mpr sends
  have inTicks : tick ∈ b.unionTicks plans stop := mem_unionTicks_of_change listed
  exact ⟨inTicks, change, changesAt_alone free inTicks (sends.rack_lt sound) listed, same⟩

/-- The first row shows the first change of a rack. -/
theorem preload_of_first (sound : Sound b) (planned : b.plans = .ok plans)
    (free : b.conflicts plans (b.unionTicks plans stop) = []) {word : Word}
    (sends : b.Sends rack tick word) (first : ∀ earlier < tick, b.Idle rack earlier) :
    preload plans (b.unionTicks plans stop) rack = word := by
  obtain ⟨inTicks, change, alone, rfl⟩ := changesAt_of_sends sound planned free sends
  have order := b.unionTicks_ascending plans stop
  obtain ⟨before, after, split⟩ := List.append_of_mem inTicks
  have skipped : ∀ t ∈ before, (Plan.changesAt plans t rack).head?.map
      (fun c => c.word.payload) = none := by
    intro t member
    rw [split] at order
    have earlier : t < tick := (List.pairwise_append.mp order).2.2 t member tick (by simp)
    rw [(changesAt_eq_nil_iff sound planned).mpr (first t earlier)]
    rfl
  have found := List.findSome?_eq_some_iff.mpr
    ⟨before, tick, after, split, by rw [alone]; rfl, skipped⟩
  rw [preload, found, Option.getD_some]
  exact sends.payload_eq sound

theorem preload_of_never (sound : Sound b) (planned : b.plans = .ok plans)
    (never : ∀ t, b.Idle rack t) : preload plans ticks rack = 0 := by
  have none : (ticks.findSome? fun t =>
      (Plan.changesAt plans t rack).head?.map fun c => c.word.payload) = none :=
    List.findSome?_eq_none_iff.mpr fun t _ => by
      rw [(changesAt_eq_nil_iff sound planned).mpr (never t)]
      rfl
  rw [preload, none]
  rfl

theorem preload_payload (plans : List Plan) (ticks : List Nat) (rack : Nat) :
    (preload plans ticks rack).payload = preload plans ticks rack := by
  unfold preload
  cases found : ticks.findSome? fun tick =>
      (Plan.changesAt plans tick rack).head?.map fun c => c.word.payload with
  | none => decide
  | some w =>
    obtain ⟨t, _, here⟩ := List.exists_of_findSome?_eq_some found
    obtain ⟨c, _, rfl⟩ := Option.map_eq_some_iff.mp here
    exact Word.payload_payload _

/-- Above its payload the word of a place has at most the NOP bit. -/
theorem getLsbD_baseWord (sound : Sound b) (planned : b.plans = .ok plans) {i : Nat} (high : 23 ≤ i) :
    (baseWord plans ticks row tick rack).getLsbD i ↔ i = 31 ∧ b.Idle rack tick := by
  rw [← changesAt_eq_nil_iff sound planned, baseWord]
  cases changes : Plan.changesAt plans tick rack with
  | cons change others =>
    have sends : b.Sends rack tick change.word :=
      (changesAt_iff_writes sound planned).mp ⟨change, by rw [changes]; simp, rfl⟩
    simp [Word.getLsbD_of_payload (sends.payload_eq sound) high]
  | nil =>
    have nop : Word.nop.getLsbD i = decide (i = 31) := by
      rw [Word.nop, BitVec.getLsbD_twoPow]
      simp [eq_comm]
    have none := Word.getLsbD_of_payload (preload_payload plans ticks rack) high
    simp only
    split
    · rw [BitVec.getLsbD_or, nop, none]
      simp
    · rw [nop]
      simp

/-! ### The strobe -/

theorem strobeSet_iff : b.strobeSet row tick rack ↔
    if b.config.autoStrobe then row % 2 = 1 else b.strobesUpTo rack tick % 2 = 1 := by
  unfold strobeSet
  split
  · exact beq_iff_eq
  · exact beq_iff_eq

/-! ### The word of a row -/

theorem prescribes_rowWord (sound : Sound b) (row tick : Nat) (planned : b.plans = .ok plans)
    (free : b.conflicts plans (b.unionTicks plans stop) = []) :
    b.Prescribes row tick rack (b.rowWord plans (b.unionTicks plans stop) row tick rack) := by
  have legal := sound.strobe
  have base := fun {i : Nat} => @getLsbD_baseWord b plans (b.unionTicks plans stop) row tick rack sound
    planned i
  have bits := @getLsbD_rowWord b plans (b.unionTicks plans stop) sound row tick rack
  have idleBase : b.Idle rack tick → (b.rowWord plans (b.unionTicks plans stop) row tick rack).payload =
      if row = 0 then preload plans (b.unionTicks plans stop) rack else 0 := by
    intro idle
    rw [payload_rowWord sound, baseWord, (changesAt_eq_nil_iff sound planned).mpr idle]
    simp only
    split
    · rw [Word.payload_or, Word.payload_nop, preload_payload]
      exact BitVec.zero_or
    · exact Word.payload_nop
  constructor
  case change =>
    intro word sends
    obtain ⟨_, change, alone, rfl⟩ := changesAt_of_sends sound planned free sends
    rw [payload_rowWord sound, baseWord, alone]
    exact sends.payload_eq sound
  case preload =>
    intro first idle start word sends least
    rw [idleBase idle, if_pos first]
    exact preload_of_first sound planned free sends least
  case blank =>
    intro idle late
    rw [idleBase idle]
    split
    · rename_i first
      exact preload_of_never sound planned (late.resolve_left fun other => other first)
    · rfl
  case nop =>
    rw [isNop_rowWord sound, Word.isNop_eq, base (by omega)]
    simp
  case markers =>
    intro m notNop notStrobe
    have notTop : m.position b.config.strobePosition ≠ 31 := fun same =>
      notNop (Marker.position_injective legal (n := .nop) same)
    rw [isSet_rowWord sound row tick rack notStrobe, Marker.isSet_mask legal,
      base (Marker.position_range legal m).1]
    simp [notTop]
  case strobe =>
    rw [Marker.isSet_mask legal, bits, base (Marker.position_range legal .strobe).1,
      ← strobeSet_iff]
    constructor
    · rintro (⟨top, _⟩ | ⟨m, _, other, same⟩ | ⟨set, _⟩)
      · exact absurd (Marker.position_injective legal (m := .strobe) (n := .nop) top) (by decide)
      · exact absurd (Marker.position_injective legal same) other
      · exact set
    · intro set
      exact .inr (.inr ⟨set, rfl⟩)
  case unused =>
    intro i high low other
    rw [← Bool.not_eq_true, bits, base high]
    rintro (⟨top, _⟩ | ⟨m, _, notStrobe, same⟩ | ⟨_, same⟩)
    · omega
    · have := Marker.position_fixed b.config.strobePosition notStrobe
      omega
    · exact other same.symm

/-! ### The words of a stream -/

theorem not_marked_first (first : (b.tracks.any fun t => (t.at? 0).contains .strobe) = false) :
    ¬ b.marked rack 0 .strobe := by
  intro marked
  obtain ⟨track, member, here⟩ := exists_track_of_marked marked
  have := List.any_eq_false.mp first track member
  exact this (List.contains_iff_mem.mpr here)

/-- The rows of a stream, from the plans of the devices. -/
theorem ticks_of_compile (sound : Sound b) {s : Stream} (success : b.compile stopTime = .ok s) :
    ∃ stop, b.stopTick (b.devices.map Device.planned) stopTime = .ok stop ∧
      s.ticks = b.unionTicks (b.devices.map Device.planned) stop := by
  obtain ⟨_, _, plans, stop, planned, stopped, _, rfl⟩ := (compile_eq_ok_iff sound).mp success
  obtain rfl := plans_eq planned
  exact ⟨stop, stopped, rows_ticks⟩

/-- Which stream a board compiles to, word for word: each rack has the word that the edits prescribe,
and no other, in every row. The strobe is never set in the first row. Strobe markers are refused
where the board makes the strobe itself, and at the first tick. -/
theorem words_are_prescribed (built : Built b) :
    (∀ s, b.compile stopTime = .ok s → ∀ row r, s.rows[row]? = some r →
      r.words.length = b.config.racks ∧ ∀ rack < b.config.racks,
        (∀ w, r.words[rack]? = some w ↔ b.Prescribes row r.tick rack w) ∧
        (row = 0 → ∀ w, r.words[rack]? = some w →
          ¬ w.isSet (Marker.strobe.mask b.config.strobePosition))) ∧
    (b.config.autoStrobe → (∃ rack tick, b.marked rack tick .strobe) →
      b.compile stopTime = .error (.strobeModeConflict b.name)) ∧
    ((∃ rack, b.marked rack 0 .strobe) → ∀ s, b.compile stopTime ≠ .ok s) := by
  have sound := built.sound
  refine ⟨?_, ?_, ?_⟩
  · intro s success row r found
    obtain ⟨_, first, plans, stop, planned, _, free, rfl⟩ := (compile_eq_ok_iff sound).mp success
    obtain ⟨listed, words⟩ := getElem?_rows.mp found
    refine ⟨by rw [words, racks, List.length_map, List.length_range], fun rack inRange => ?_⟩
    have here : r.words[rack]? = some (b.rowWord plans (b.unionTicks plans stop) row r.tick rack) := by
      rw [words, racks, List.getElem?_map, List.getElem?_range inRange]
      rfl
    have prescribed : b.Prescribes row r.tick rack _ := prescribes_rowWord sound row r.tick planned free
    have exact_ : ∀ w, r.words[rack]? = some w ↔ b.Prescribes row r.tick rack w := by
      intro w
      rw [here, Option.some_inj]
      exact ⟨fun same => same ▸ prescribed, fun other => prescribed.unique sound.strobe other⟩
    refine ⟨exact_, ?_⟩
    rintro rfl w isWord
    have start : r.tick = 0 := by
      rw [← List.head?_eq_getElem?, unionTicks_head] at listed
      exact (Option.some.inj listed).symm
    rw [((exact_ w).mp isWord).strobe, start]
    split
    · decide
    · have none : ¬ b.marked rack 0 .strobe := not_marked_first first
      simp [strobesUpTo, none]
  · rintro auto ⟨rack, tick, marked⟩
    obtain ⟨track, member, here⟩ := exists_track_of_marked marked
    have strobes : b.tracks.any MarkerTrack.hasStrobe = true :=
      List.any_eq_true.mpr ⟨track, member, List.any_eq_true.mpr
        ⟨_, MarkerTrack.mem_at?.mp here, beq_self_eq_true _⟩⟩
    unfold compile
    rw [auto, strobes]
    rfl
  · rintro ⟨rack, marked⟩ s success
    exact not_marked_first ((compile_eq_ok_iff sound).mp success).2.1 marked

/-- Two racks. On rack 0 a bank and a synthesizer, whose frequency takes ticks 3 to 5 and then 6 to 8; on
rack 1 an output that is set at tick 4 and, to the same value, at tick 9. -/
def mixedScript : Except BoardError Board := do
  let b ← Board.new { name := "main", racks := 2, autoStrobe := false }
  let b ← b.addPseudoClock "pc"
  let b ← b.addClockLine "pc" "cl"
  let b ← b.addDigitalBank "cl" "bank0" 0 5
  let b ← b.addDigitalLine "bank0" "do0" 3 false
  let b ← b.addDigitalLine "bank0" "do1" 0 true
  let b ← b.addSynthesizer "cl" "dds0" 0 0x20 0.0 0.0 0.0
  let b ← b.addAnalogOutput "cl" "ao0" 1 0x10 "DAC712" 0.0
  let b ← b.editChannel "do0" fun c => c.book (.held 2 1.0)
  let b ← b.editChannel "dds0_freq" fun c => c.book (.held 3 1e8)
  let b ← b.editChannel "dds0_freq" fun c => c.book (.held 6 2e8)
  let b ← b.editChannel "ao0" fun c => c.book (.held 4 5.0)
  b.editChannel "ao0" fun c => c.book (.held 9 5.0)

theorem mixedScript_builds : Builds mixedScript :=
  .bind (.new _) fun _ h => .bind (.edit h fun _ => .pseudoClock _) fun _ h =>
  .bind (.edit h fun _ => .clockLine _ _) fun _ h =>
  .bind (.edit h fun _ => .digitalBank _ _ _ _) fun _ h =>
  .bind (.edit h fun _ => .digitalLine _ _ _ _) fun _ h =>
  .bind (.edit h fun _ => .digitalLine _ _ _ _) fun _ h =>
  .bind (.edit h fun _ => .synthesizer _ _ _ _ _ _ _) fun _ h =>
  .bind (.edit h fun _ => .analogOutput _ _ _ _ _ _) fun _ h =>
  .bind (.book h _ _) fun _ h => .bind (.book h _ _) fun _ h => .bind (.book h _ _) fun _ h =>
  .bind (.book h _ _) fun _ h => .book h _ _

theorem mixedScript_succeeds : mixedScript.toOption.isSome := by decide +kernel

/-- With strobe markers at ticks 1 and 4 of rack 0, and an interrupt at tick 4 of rack 1. -/
def mixed : Board :=
  let b := mixedScript.toOption.get mixedScript_succeeds
  { b with tracks := ((b.tracks.modify 0 fun t => t.mark 1 .strobe).modify 0
      fun t => t.mark 4 .strobe).modify 1 fun t => t.mark 4 .interrupt }

theorem mixed_built : Built mixed := by
  have built := mixedScript_builds _ (eq_ok_get mixedScript_succeeds)
  have first := Built.edit built (.marker 0 1 .strobe (by decide +kernel))
  have second := Built.edit first (.marker 0 4 .strobe (by decide +kernel))
  exact .edit second (.marker 1 4 .interrupt (by decide +kernel))

theorem mixed_compiles : ∃ s, mixed.compile none = .ok s :=
  compiles mixed_built.sound (by decide +kernel) (by decide +kernel) (by decide +kernel) (by decide +kernel)
    (by decide +kernel)

theorem mixed_planned : mixed.plans = .ok (mixed.devices.map Device.planned) :=
  plans_unchecked (by decide +kernel)

theorem mixed_ticks {s : Stream} (success : mixed.compile none = .ok s) :
    s.ticks = [0, 1, 2, 3, 4, 5, 6, 7, 8, 10] := by
  obtain ⟨stop, stopped, ticks⟩ := ticks_of_compile mixed_built.sound success
  rw [stopTick_none (by decide +kernel)] at stopped
  cases stopped
  rw [ticks, unionTicks_eq]
  decide +kernel

/-- The strobe of rack 0 is still set at tick 3, over a change, and no longer at tick 4, where rack 1 has
its interrupt over a change. A strobe marker at tick 0 is refused, and so is one beside an automatic
strobe. -/
theorem mixed_words : ∃ s, mixed.compile none = .ok s ∧
    (∃ r w, s.rows[3]? = some r ∧ r.words[0]? = some w ∧
      w.isSet (Marker.strobe.mask 23) ∧ ¬ w.isNop) ∧
    (∃ r w, s.rows[4]? = some r ∧ r.words[0]? = some w ∧ ¬ w.isSet (Marker.strobe.mask 23)) ∧
    (∃ r w, s.rows[4]? = some r ∧ r.words[1]? = some w ∧ w.isSet (Marker.interrupt.mask 23) ∧
      w.payload = Word.pack 0x10 0x4000) ∧
    Board.compile { mixed with tracks := mixed.tracks.modify 1 fun t => t.mark 0 .strobe } none ≠
      .ok s ∧
    Board.compile { sample with tracks := sample.tracks.modify 0 fun t => t.mark 1 .strobe } none =
      .error (.strobeModeConflict "main") := by
  obtain ⟨s, success⟩ := mixed_compiles
  have prescribed : ∀ row tick rack, (s.ticks[row]? = some tick) → rack < 2 →
      ∃ r w, s.rows[row]? = some r ∧ r.words[rack]? = some w ∧
        mixed.Prescribes row tick rack w := by
    intro row tick rack listed inRange
    rw [Stream.ticks, List.getElem?_map] at listed
    obtain ⟨r, found, rfl⟩ := Option.map_eq_some_iff.mp listed
    obtain ⟨width, words⟩ := (words_are_prescribed mixed_built).1 s success row r found
    have racks : mixed.config.racks = 2 := by decide +kernel
    rw [racks] at width words
    have here : r.words[rack]? = some r.words[rack] := List.getElem?_eq_getElem (by omega)
    exact ⟨r, _, found, here, ((words rack inRange).1 _).mp here⟩
  have ticks := mixed_ticks success
  obtain ⟨r3, w3, found3, word3, prescribed3⟩ := prescribed 3 3 0 (by rw [ticks]; rfl) (by decide)
  obtain ⟨r4, w4, found4, word4, prescribed4⟩ := prescribed 4 4 0 (by rw [ticks]; rfl) (by decide)
  obtain ⟨r4', w4', found4', word4', prescribed4'⟩ := prescribed 4 4 1 (by rw [ticks]; rfl) (by decide)
  have busy : ¬ mixed.Idle 0 3 := by
    rw [← changesAt_eq_nil_iff mixed_built.sound mixed_planned]
    decide +kernel
  have sends : mixed.Sends 1 4 (Word.pack 0x10 0x4000) :=
    (changesAt_iff_writes mixed_built.sound mixed_planned).mp (by decide +kernel)
  have unmarked : ¬ mixed.marked 0 3 .nop := by decide +kernel
  refine ⟨s, success, ⟨r3, w3, found3, word3, prescribed3.strobe.mpr (by decide +kernel), ?_⟩,
    ⟨r4, w4, found4, word4, fun set => absurd (prescribed4.strobe.mp set) (by decide +kernel)⟩,
    ⟨r4', w4', found4', word4', ?_, prescribed4'.change _ sends⟩, ?_, ?_⟩
  · rw [prescribed3.nop]
    exact not_or.mpr ⟨busy, unmarked⟩
  · exact (prescribed4'.markers .interrupt (by decide) (by decide)).mpr (by decide +kernel)
  · have built := Built.edit mixed_built (.marker 1 0 .strobe (by decide +kernel))
    exact (words_are_prescribed built).2.2 ⟨1, by decide +kernel⟩ s
  · have built := Built.edit sample_built (.marker 0 1 .strobe (by decide +kernel))
    exact (words_are_prescribed built).2.1 (by decide +kernel) ⟨0, 1, by decide +kernel⟩

end Board

end Sequencer
