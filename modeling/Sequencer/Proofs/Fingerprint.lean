import Sequencer.Proofs.Decoding

/-!
What the checksum of a channel depends on: the words that its own device plans for its address, and nothing else on
the board. The words are found again in the rows of the stream, among those of other devices, NOP words that are
preloaded, markers and strobes. So a checksum stays when only other devices are edited, or markers, the strobe or the
stop time are changed.
-/
namespace Sequencer

/-- The planned words for one address. -/
def Plan.changesFor (p : Plan) (address : Nat) : List Change :=
  p.changes.filter fun change => change.word.address == address

/-- The checksum of an address and the words that a plan has for it. -/
def Plan.fingerprint (p : Plan) (address : Nat) : Word :=
  Checksum.ofWords (BitVec.ofNat 32 address :: (p.changesFor address).map Change.word)

/-! ### The words of a device for an address -/

namespace Device
variable {d : Device}

theorem mem_changesFor (good : d.Sound) {address tick : Nat} {word : Word} :
    (tick, word) ∈ (d.planned.changesFor address).map Change.entry ↔ d.Writes tick word ∧ word.address = address := by
  rw [← mem_planned good]
  simp only [Plan.changesFor, List.mem_map, List.mem_filter, beq_iff_eq]
  constructor
  · rintro ⟨change, ⟨planned, here⟩, entry⟩
    cases entry
    exact ⟨⟨change, planned, rfl⟩, here⟩
  · rintro ⟨⟨change, planned, entry⟩, here⟩
    cases entry
    exact ⟨change, ⟨planned, here⟩, rfl⟩

theorem changesFor_ascending (good : d.Sound) (distinct : d.plannedWords.Pairwise fun x y => x.tick ≠ y.tick)
    {c : Channel} (onDevice : c ∈ d.channels) : Ascending Change.tick (d.planned.changesFor c.place.address) := by
  rw [Plan.changesFor, planned_changes good]
  by_cases shares : d.sharesAddress
  · have order : Ascending Change.tick (d.changedTicks.map d.bankWordOf) :=
      List.pairwise_map.mpr d.changedTicks_ascending
    rw [plannedWords, if_pos shares]
    exact order.filter _
  · rw [plannedWords, if_neg shares] at distinct ⊢
    obtain ⟨within, between⟩ := List.pairwise_flatMap.mp distinct
    rw [List.filter_flatMap]
    refine List.pairwise_flatMap.mpr ⟨fun other member => ?_, ?_⟩
    · exact (Channel.plannedWords_ascending (good.apart other member) (within other member)).filter _
    · -- two channels with words for the address would be the same one, whose words would be planned twice
      have owner : ∀ other ∈ d.channels, ∀ x ∈ other.plannedWords.filter fun change =>
          change.word.address == c.place.address, other = c := by
        intro other member x listed
        obtain ⟨planned, here⟩ := List.mem_filter.mp listed
        have writes : other.Writes x.tick x.word := Channel.mem_plannedWords.mp (List.mem_map_of_mem planned)
        have address := ((good.writes_own_iff shares member).mpr writes).2
        exact good.separate shares other member c onDevice (address.symm.trans (beq_iff_eq.mp here))
      refine between.imp_of_mem fun {one other} first second apart x inOne y inOther => ?_
      obtain rfl := owner one first x inOne
      obtain rfl := owner other second y inOther
      exact absurd rfl (apart x (List.mem_filter.mp inOne).1 x (List.mem_filter.mp inOne).1)

end Device

namespace Board
variable {b b' : Board} {stopTime : Option Float} {s : Stream} {d : Device} {c : Channel}

theorem channelChecksum_eq (sound : Sound b) (success : b.compile stopTime = .ok s) (unmasked : b.Unmasked)
    (member : d ∈ b.devices) (onDevice : c ∈ d.channels) :
    Ascending Change.tick (d.planned.changesFor c.place.address) ∧
      channelChecksum s.rows c = d.planned.fingerprint c.place.address := by
  have good := sound.devices d (sound.mem_devices.mp member)
  obtain ⟨rack, own⟩ := good.placed c onDevice
  have order := Device.changesFor_ascending good (deviceWords_distinct sound success member) onDevice
  have sorted : Ascending Prod.fst ((d.planned.changesFor c.place.address).map Change.entry) :=
    List.pairwise_map.mpr order
  have column := column_eq sound success unmasked member own sorted fun _ _ => Device.mem_changesFor good
  have words := congrArg (List.map Prod.snd) column
  rw [List.map_map, List.map_map] at words
  refine ⟨order, ?_⟩
  rw [channelChecksum, Plan.fingerprint, List.filter_map, List.map_map, rack]
  exact congrArg (fun own => Checksum.ofWords (BitVec.ofNat 32 c.place.address :: own)) words

theorem get?_checksums (sound : Sound b) (success : b.compile stopTime = .ok s) (unmasked : b.Unmasked)
    (member : d ∈ b.devices) (onDevice : c ∈ d.channels) (last : b.LastNamed c) :
    s.checksums.get? c.name = some (d.planned.fingerprint c.place.address) := by
  have checksum := (channelChecksum_eq sound success unmasked member onDevice).2
  rw [eq_streamWith success]
  exact (last.get?_perChannel _).trans (congrArg some checksum)

/-! ### Boards that differ elsewhere -/

/-- What is left of a board without its instructions, markers and options, and without its strobe settings. -/
def frame (b : Board) : Board :=
  { b.clear with config := { b.config with autoStrobe := true, strobePosition := Word.defaultStrobe } }

theorem channels_clear (b : Board) : b.clear.channels = b.channels.map Channel.clear := by
  have onLine : ∀ line, b.clear.devicesOn line = (b.devicesOn line).map Device.clear := fun line => by
    simp only [devicesOn, clear, List.filter_map]
    rfl
  have lines : b.clear.clockLines = b.clockLines := rfl
  simp only [channels, devices, lines, onLine, List.flatMap_assoc, List.flatMap_map, List.map_flatMap]
  rfl

theorem Sound.channel_unique (sound : Sound b) (member : d ∈ b.devices) (onDevice : c ∈ d.channels) {other : Channel}
    (listed : other ∈ b.channels) (rack : other.rack = c.rack) (place : other.place = c.place) : other = c := by
  obtain ⟨e, inBoard, inside⟩ := List.mem_flatMap.mp listed
  have good := sound.devices d (sound.mem_devices.mp member)
  have placed := good.placed c onDevice
  have placed' := (sound.devices e (sound.mem_devices.mp inBoard)).placed other inside
  have same : e.rack = d.rack := (placed'.1.symm.trans rack).trans placed.1
  obtain rfl := sound.addresses e (sound.mem_devices.mp inBoard) d (sound.mem_devices.mp member) same c.place.address
    (place ▸ placed'.2) placed.2
  by_cases shares : e.sharesAddress
  · exact good.bits shares other inside c onDevice (congrArg Place.bit place)
  · exact good.separate shares other inside c onDevice (congrArg Place.address place)

/-- Where a channel stands on the board is no matter of edits. -/
theorem LastNamed.of_frame (last : b.LastNamed c) (sound : Sound b') (same : b'.frame = b.frame)
    (member : d ∈ b'.devices) (onDevice : c ∈ d.channels) : b'.LastNamed c := by
  have cleared : b'.channels.map Channel.clear = b.channels.map Channel.clear := by
    rw [← channels_clear, ← channels_clear]
    show b'.frame.channels = b.frame.channels
    rw [same]
  have names : (fun other : Channel => other.name == c.name) ∘ Channel.clear = fun other => other.name == c.name := rfl
  have lastClear : ((b'.channels.filter fun other => other.name == c.name).getLast?).map Channel.clear =
      some c.clear := by
    rw [← List.getLast?_map, ← names, ← List.filter_map, cleared, List.filter_map, List.getLast?_map, names, last]
    rfl
  obtain ⟨other, found, like⟩ := Option.map_eq_some_iff.mp lastClear
  have listed := (List.mem_filter.mp (List.mem_of_getLast? found)).1
  have rack := congrArg Channel.rack like
  have place := congrArg Channel.place like
  rw [LastNamed, found, sound.channel_unique member onDevice listed rack place]

/-- The checksum of a channel is that of its address and of the words that its own device plans for it, in the order
of their ticks. It is the same on every board with that device that differs in the instructions of other devices, in
markers, in the strobe or in the stop time. A name stands for the last channel that has it. -/
theorem fingerprint_is_of_own_words (built : Built b) (success : b.compile stopTime = .ok s) (unmasked : b.Unmasked) :
    ∀ d ∈ b.devices, ∀ c ∈ d.channels, b.LastNamed c →
      (∃ p, d.plan b.config.checkCodecs = .ok p ∧ Ascending Change.tick (p.changesFor c.place.address) ∧
        s.checksums.get? c.name = some (p.fingerprint c.place.address)) ∧
      ∀ (b' : Board) (stopTime' : Option Float) (s' : Stream), Built b' → b'.compile stopTime' = .ok s' →
        b'.Unmasked → b'.frame = b.frame → d ∈ b'.devices →
          s'.checksums.get? c.name = s.checksums.get? c.name := by
  intro d member c onDevice last
  have checksum := get?_checksums built.sound success unmasked member onDevice last
  constructor
  · obtain ⟨_, _, plans, _, planned, _⟩ := (compile_eq_ok_iff built.sound).mp success
    obtain ⟨p, _, made⟩ := (mapM_success planned).2 d member
    obtain rfl := Device.plan_eq made
    exact ⟨d.planned, made, (channelChecksum_eq built.sound success unmasked member onDevice).1, checksum⟩
  · intro b' stopTime' s' built' success' unmasked' same member'
    have last' := last.of_frame built'.sound same member' onDevice
    rw [get?_checksums built'.sound success' unmasked' member' onDevice last', checksum]

/-- The devices of the mixed board and the same frequencies, with other edits of the bank and none of the output, and
with an automatic strobe at another position. -/
def mixedElsewhereScript : Except BoardError Board := do
  let b ← Board.new { name := "main", racks := 2, autoStrobe := true, strobePosition := 25 }
  let b ← b.addPseudoClock "pc"
  let b ← b.addClockLine "pc" "cl"
  let b ← b.addDigitalBank "cl" "bank0" 0 5
  let b ← b.addDigitalLine "bank0" "do0" 3 false
  let b ← b.addDigitalLine "bank0" "do1" 0 true
  let b ← b.addSynthesizer "cl" "dds0" 0 0x20 0.0 0.0 0.0
  let b ← b.addAnalogOutput "cl" "ao0" 1 0x10 "DAC712" 0.0
  let b ← b.editChannel "do1" fun c => c.book (.held 0 0.0)
  let b ← b.editChannel "dds0_freq" fun c => c.book (.held 3 1e8)
  b.editChannel "dds0_freq" fun c => c.book (.held 6 2e8)

theorem mixedElsewhereScript_builds : Builds mixedElsewhereScript :=
  .bind (.new _) fun _ h => .bind (.edit h fun _ => .pseudoClock _) fun _ h =>
  .bind (.edit h fun _ => .clockLine _ _) fun _ h =>
  .bind (.edit h fun _ => .digitalBank _ _ _ _) fun _ h =>
  .bind (.edit h fun _ => .digitalLine _ _ _ _) fun _ h =>
  .bind (.edit h fun _ => .digitalLine _ _ _ _) fun _ h =>
  .bind (.edit h fun _ => .synthesizer _ _ _ _ _ _ _) fun _ h =>
  .bind (.edit h fun _ => .analogOutput _ _ _ _ _ _) fun _ h =>
  .bind (.book h _ _) fun _ h => .bind (.book h _ _) fun _ h => .book h _ _

/-- With a stop marker at tick 4 of rack 0, over a word of the first frequency. -/
def mixedElsewhere : Board :=
  let b := mixedElsewhereScript.toOption.get (by decide +kernel)
  { b with tracks := b.tracks.modify 0 fun t => t.mark 4 .stop }

theorem mixedElsewhere_built : Built mixedElsewhere :=
  .edit (mixedElsewhereScript_builds _ (eq_ok_get (by decide +kernel)))
    (.marker 0 4 .stop (by decide +kernel))

theorem mixedElsewhere_compiles : ∃ s, mixedElsewhere.compile none = .ok s :=
  compiles mixedElsewhere_built.sound (by decide +kernel) (by decide +kernel) (by decide +kernel) (by decide +kernel)
    (by decide +kernel)

theorem mixedElsewhere_unmasked : mixedElsewhere.Unmasked := unmasked_of_unmarked (by decide +kernel)

/-- The frequency of the synthesizer has one checksum on both boards, although another line of the bank is written, at
another tick, the output is left alone, and markers and strobes are not the same. -/
theorem mixed_fingerprint : ∃ s s', mixed.compile none = .ok s ∧ mixedElsewhere.compile none = .ok s' ∧
    s.checksums.get? "dds0_freq" = some 1234570220 ∧ s'.checksums.get? "dds0_freq" = some 1234570220 := by
  obtain ⟨s, success⟩ := mixed_compiles
  obtain ⟨s', success'⟩ := mixedElsewhere_compiles
  have listed : mixedSynthesizer ∈ mixedElsewhere.devices :=
    (List.get_mem _ _ : mixedElsewhere.devices.get ⟨1, by decide +kernel⟩ ∈ mixedElsewhere.devices)
  obtain ⟨⟨p, made, _, checksum⟩, elsewhere⟩ := fingerprint_is_of_own_words mixed_built success mixed_unmasked
    mixedSynthesizer (List.get_mem _ _) mixedFrequency (List.get_mem _ _) rfl
  obtain rfl := Device.plan_eq made
  have value : mixedSynthesizer.planned.fingerprint mixedFrequency.place.address = 1234570220 := by decide +kernel
  rw [value] at checksum
  exact ⟨s, s', success, success', checksum,
    (elsewhere mixedElsewhere none s' mixedElsewhere_built success' mixedElsewhere_unmasked rfl listed).trans checksum⟩

/-- Where two channels have one name, the checksum of the name is that of the last one. -/
theorem shared_name_hides_words : ¬ ∀ (b : Board) (stopTime : Option Float) (s : Stream), Built b →
    b.compile stopTime = .ok s → b.Unmasked → ∀ d ∈ b.devices, ∀ c ∈ d.channels,
      ∃ p, d.plan b.config.checkCodecs = .ok p ∧
        s.checksums.get? c.name = some (p.fingerprint c.place.address) := by
  intro promise
  obtain ⟨s, success⟩ := sharedName_compiles
  have unmasked : sharedName.Unmasked := unmasked_of_unmarked (by decide +kernel)
  let output := sharedName.devices.get ⟨0, by decide +kernel⟩
  let channel := output.channels.get ⟨0, by decide +kernel⟩
  let bank := sharedName.devices.get ⟨1, by decide +kernel⟩
  let line := bank.channels.get ⟨0, by decide +kernel⟩
  obtain ⟨p, made, promised⟩ := promise sharedName none s sharedName_built success unmasked output (List.get_mem _ _)
    channel (List.get_mem _ _)
  obtain rfl := Device.plan_eq made
  have held : s.checksums.get? "ao0" = some (bank.planned.fingerprint 5) :=
    get?_checksums sharedName_built.sound success unmasked (List.get_mem _ _ : bank ∈ sharedName.devices)
      (List.get_mem _ _ : line ∈ bank.channels) rfl
  have same : bank.planned.fingerprint 5 = output.planned.fingerprint 0x10 :=
    Option.some.inj (held.symm.trans promised)
  exact absurd same (by decide +kernel)

end Board

end Sequencer
