import Sequencer.Proofs.Bookings
import Sequencer.Proofs.Success

/-!
Boards as they can be built: from an empty board by adding parts and instructions and by setting
markers and options. Every such board is sound. In particular an address of a rack belongs to one
device, and the bookings of every channel are apart.
-/
namespace Sequencer

structure Device.Sound (d : Device) : Prop where
  addressed : ∀ a ∈ d.addresses, a ≤ Word.maxAddress
  placed : ∀ c ∈ d.channels, c.rack = d.rack ∧ c.place.address ∈ d.addresses
  apart : ∀ c ∈ d.channels, Channel.Apart c.bookings
  lines : d.sharesAddress → ∀ c ∈ d.channels, c.place.address = d.address ∧ c.place.bit < 16
  unshifted : ¬ d.sharesAddress → ∀ c ∈ d.channels, c.place.bit = 0
  separate : ¬ d.sharesAddress → ∀ c ∈ d.channels, ∀ other ∈ d.channels,
    c.place.address = other.place.address → c = other
  bits : d.sharesAddress → ∀ c ∈ d.channels, ∀ other ∈ d.channels,
    c.place.bit = other.place.bit → c = other

namespace Board

structure Sound (b : Board) : Prop where
  strobe : Word.strobeMayBe b.config.strobePosition
  tracks : b.tracks.length = b.config.racks
  devices : ∀ d ∈ b.placed, d.Sound
  slots : ∀ d ∈ b.placed, d.slot.clockLine ∈ b.clockLines ∧ d.rack < b.config.racks
  names : ∀ d ∈ b.placed, ∀ other ∈ b.placed, d.name = other.name → d = other
  addresses : ∀ d ∈ b.placed, ∀ other ∈ b.placed, d.rack = other.rack →
    ∀ a ∈ d.addresses, a ∈ other.addresses → d = other
  marks : ∀ track ∈ b.tracks, track.marks.Nodup

/-- One edit. Instructions enter as the bookings that they make, and markers at their ticks. -/
inductive Edit (b : Board) : Board → Prop where
  | pseudoClock {b' : Board} (name : String) (success : b.addPseudoClock name = .ok b') : Edit b b'
  | clockLine {b' : Board} (pseudoClock name : String)
      (success : b.addClockLine pseudoClock name = .ok b') : Edit b b'
  | digitalBank {b' : Board} (clockLine name : String) (rack address : Nat)
      (success : b.addDigitalBank clockLine name rack address = .ok b') : Edit b b'
  | digitalLine {b' : Board} (bank name : String) (bit : Nat) (default : Bool)
      (success : b.addDigitalLine bank name bit default = .ok b') : Edit b b'
  | line {b' : Board} (device name : String) (bit : Nat) (codec : Codec) (default : Float)
      (success : b.addLine device name bit codec default = .ok b') : Edit b b'
  | analogOutput {b' : Board} (clockLine name : String) (rack address : Nat) (tag : String)
      (default : Float) (success : b.addAnalogOutput clockLine name rack address tag default = .ok b') :
      Edit b b'
  | synthesizer {b' : Board} (clockLine name : String) (rack address : Nat)
      (frequency amplitude phase : Float)
      (success : b.addSynthesizer clockLine name rack address frequency amplitude phase = .ok b') :
      Edit b b'
  | codec (codec : Codec) : Edit b (b.registerCodec codec)
  | instruction {b' : Board} (channel : String) (edit : Channel → Except BoardError Channel)
      (books : ∀ c c', edit c = .ok c' → ∃ booking, c.book booking = .ok c')
      (success : b.editChannel channel edit = .ok b') : Edit b b'
  | marker (rack tick : Nat) (marker : Marker) (exists_ : rack < b.tracks.length) :
      Edit b { b with tracks := b.tracks.modify rack fun t => t.mark tick marker }
  | options (options : RunOptions) : Edit b (b.setOptions options)
  | clear : Edit b b.clear

/-- A board that came from a new one by any sequence of edits. -/
inductive Built : Board → Prop where
  | new {config : BoardConfig} {b : Board} (success : Board.new config = .ok b) : Built b
  | edit {b b' : Board} (built : Built b) (edit : Edit b b') : Built b'

variable {b b' : Board} {d : Device}

/-- A script that ends in a built board unless it fails. -/
def Builds (script : Except BoardError Board) : Prop := ∀ b, script = .ok b → Built b

theorem Builds.new (config : BoardConfig) : Builds (Board.new config) := fun _ success => .new success

theorem Builds.edit {step : Except BoardError Board} (built : Built b)
    (edits : ∀ b', step = .ok b' → Edit b b') : Builds step :=
  fun b' success => .edit built (edits b' success)

theorem Builds.bind {script : Except BoardError Board} {next : Board → Except BoardError Board}
    (first : Builds script) (rest : ∀ b, Built b → Builds (next b)) : Builds (script >>= next) := by
  intro b success
  obtain ⟨b', made, success⟩ := bind_success success
  exact rest b' (first b' made) b success

/-- A booking is one of the edits. -/
theorem Builds.book (built : Built b) (channel : String) (booking : Booking) :
    Builds (b.editChannel channel fun c => c.book booking) :=
  .edit built fun _ => .instruction _ _ fun _ _ booked => ⟨booking, booked⟩

/-! ### Looking devices up -/

theorem mem_devices : d ∈ b.devices ↔ d ∈ b.placed ∧ d.slot.clockLine ∈ b.clockLines := by
  simp only [devices, devicesOn, List.mem_flatMap, List.mem_filter, beq_iff_eq]
  constructor
  · rintro ⟨line, known, placed, rfl⟩
    exact ⟨placed, known⟩
  · rintro ⟨placed, known⟩
    exact ⟨_, known, placed, rfl⟩

theorem Sound.mem_devices (sound : Sound b) : d ∈ b.devices ↔ d ∈ b.placed := by
  rw [Board.mem_devices]
  exact and_iff_left_of_imp fun placed => (sound.slots d placed).1

theorem device_found {name : String} (success : b.device name = .ok d) : d ∈ b.devices := by
  unfold device device? at success
  split at success
  · rename_i found
    cases success
    exact List.mem_of_find?_eq_some found
  · cases success

/-! ### What edits keep -/

/-- Devices may change as long as name, kind and slot stay. -/
theorem Sound.mapPlaced (sound : Sound b) (f : Device → Device)
    (kept : ∀ d ∈ b.placed, (f d).name = d.name ∧ (f d).kind = d.kind ∧ (f d).slot = d.slot ∧
      (f d).Sound) : Sound { b with placed := b.placed.map f } := by
  have rack : ∀ d ∈ b.placed, (f d).rack = d.rack := by
    intro d member
    rw [Device.rack, (kept d member).2.2.1]
    rfl
  have addresses : ∀ d ∈ b.placed, (f d).addresses = d.addresses := by
    intro d member
    rw [Device.addresses, Device.address, (kept d member).2.1, (kept d member).2.2.1]
    rfl
  refine ⟨sound.strobe, sound.tracks, ?_, ?_, ?_, ?_, sound.marks⟩
  · intro e member
    obtain ⟨d, placed, rfl⟩ := List.mem_map.mp member
    exact (kept d placed).2.2.2
  · intro e member
    obtain ⟨d, placed, rfl⟩ := List.mem_map.mp member
    rw [rack d placed, (kept d placed).2.2.1]
    exact sound.slots d placed
  · intro e member other otherMember same
    obtain ⟨d, placed, rfl⟩ := List.mem_map.mp member
    obtain ⟨d', placed', rfl⟩ := List.mem_map.mp otherMember
    rw [(kept d placed).1, (kept d' placed').1] at same
    rw [sound.names d placed d' placed' same]
  · intro e member other otherMember same a own others
    obtain ⟨d, placed, rfl⟩ := List.mem_map.mp member
    obtain ⟨d', placed', rfl⟩ := List.mem_map.mp otherMember
    rw [rack d placed, rack d' placed'] at same
    rw [addresses d placed] at own
    rw [addresses d' placed'] at others
    rw [sound.addresses d placed d' placed' same a own others]

theorem Sound.replaceDevice (sound : Sound b) (placed : d ∈ b.placed) {d' : Device}
    (name : d'.name = d.name) (kind : d'.kind = d.kind) (slot : d'.slot = d.slot)
    (good : d'.Sound) : Sound (b.replaceDevice d') := by
  refine sound.mapPlaced _ fun other member => ?_
  by_cases same : other.name = d'.name
  · obtain rfl := sound.names other member d placed (same.trans name)
    rw [if_pos same]
    exact ⟨name, kind, slot, good⟩
  · rw [if_neg same]
    exact ⟨rfl, rfl, rfl, sound.devices other member⟩

theorem find_collision (free : b.collision? d = none) {other : Device}
    (member : other ∈ b.devices) (rack : other.rack = d.rack) {a : Nat} (own : a ∈ d.addresses) :
    a ∉ other.addresses := by
  intro shared
  have here := List.findSome?_eq_none_iff.mp free other (by simp [member, rack])
  have unused := List.find?_eq_none.mp (Option.map_eq_none_iff.mp here) a own
  simp [shared] at unused

/-- If only equal members are related and nothing is related to a new one, the same holds with it. -/
private theorem alone_append {α : Type} {related : α → α → Prop} {members : List α} {new : α}
    (alone : ∀ x ∈ members, ∀ y ∈ members, related x y → x = y)
    (swap : ∀ x y, related x y → related y x) (fresh : ∀ x ∈ members, ¬ related x new) :
    ∀ x ∈ members ++ [new], ∀ y ∈ members ++ [new], related x y → x = y := by
  intro x hx y hy both
  rcases List.mem_append.mp hx with xOld | xNew
  · rcases List.mem_append.mp hy with yOld | yNew
    · exact alone x xOld y yOld both
    · rw [List.mem_singleton.mp yNew] at both
      exact absurd both (fresh x xOld)
  · rcases List.mem_append.mp hy with yOld | yNew
    · rw [List.mem_singleton.mp xNew] at both
      exact absurd (swap _ _ both) (fresh y yOld)
    · rw [List.mem_singleton.mp xNew, List.mem_singleton.mp yNew]

theorem addDevice_success (success : b.addDevice d = .ok b') :
    ¬b.nameTaken d ∧ b.collision? d = none ∧ b' = { b with placed := b.placed ++ [d] } := by
  unfold addDevice at success
  split at success
  · cases success
  · rename_i untaken
    split at success
    · cases success
    · rename_i free
      cases success
      exact ⟨untaken, free, rfl⟩

theorem Sound.fresh_name (sound : Sound b) (untaken : ¬b.nameTaken d) :
    ∀ other ∈ b.placed, other.name ≠ d.name := by
  intro other member same
  have absent : b.device? d.name = none := by
    simp only [nameTaken, Bool.or_eq_true, not_or] at untaken
    simpa using untaken.1
  have := List.find?_eq_none.mp absent other (sound.mem_devices.mpr member)
  simp [same] at this

theorem Sound.addDevice (sound : Sound b) (success : b.addDevice d = .ok b') (good : d.Sound)
    (line : d.slot.clockLine ∈ b.clockLines) (rack : d.rack < b.config.racks) : Sound b' := by
  obtain ⟨untaken, free, rfl⟩ := addDevice_success success
  have newAddress : ∀ other ∈ b.placed, other.rack = d.rack → ∀ a ∈ d.addresses,
      a ∉ other.addresses := fun other member same a own =>
    find_collision free (sound.mem_devices.mpr member) same own
  refine ⟨sound.strobe, sound.tracks, ?_, ?_, ?_, ?_, sound.marks⟩
  · intro e member
    rcases List.mem_append.mp member with old | new
    · exact sound.devices e old
    · rw [List.mem_singleton.mp new]
      exact good
  · intro e member
    rcases List.mem_append.mp member with old | new
    · exact sound.slots e old
    · rw [List.mem_singleton.mp new]
      exact ⟨line, rack⟩
  · exact alone_append sound.names (fun _ _ same => same.symm) (sound.fresh_name untaken)
  · intro e member other otherMember same a own others
    let shared (d e : Device) : Prop := d.rack = e.rack ∧ ∃ a ∈ d.addresses, a ∈ e.addresses
    have old : ∀ d ∈ b.placed, ∀ e ∈ b.placed, shared d e → d = e :=
      fun d hd e he ⟨same, a, own, others⟩ => sound.addresses d hd e he same a own others
    have swap : ∀ d e, shared d e → shared e d :=
      fun d e ⟨same, a, own, others⟩ => ⟨same.symm, a, others, own⟩
    have fresh : ∀ e ∈ b.placed, ¬ shared e d :=
      fun e he ⟨same, a, own, others⟩ => newAddress e he same a others own
    exact alone_append old swap fresh e member other otherMember ⟨same, a, own, others⟩

theorem slot_known {clockLine : String} {rack address : Nat} {slot : Slot}
    (success : b.slot clockLine rack address = .ok slot) :
    slot.clockLine ∈ b.clockLines ∧ slot.rack < b.config.racks := by
  unfold Board.slot at success
  split at success
  · cases success
  · rename_i known
    split at success
    · cases success
    · rename_i inRange
      cases success
      exact ⟨by simpa using known, by simpa using inRange⟩

end Board

/-! ### Devices as they are made -/

namespace Device

theorem addresses_le {name : String} {kind : DeviceKind} {slot : Slot} {channels : List Channel}
    (legal : checkAddress name kind slot = .ok ()) :
    ∀ a ∈ addresses ⟨name, kind, slot, channels⟩, a ≤ Word.maxAddress := by
  intro a member
  obtain ⟨i, inSpan, rfl⟩ := List.mem_map.mp member
  have bound := List.mem_range.mp inSpan
  simp only [checkAddress] at legal
  split at legal
  · cases legal
  · simp only [address] at *
    omega

theorem address_mem {d : Device} (shares : d.sharesAddress) : d.address ∈ d.addresses := by
  have bank : d.kind = .digitalBank := by simpa [sharesAddress] using shares
  simp [addresses, bank, DeviceKind.span]

theorem digitalBank_sound {name : String} {slot : Slot} {d : Device}
    (success : digitalBank name slot = .ok d) : d.slot = slot ∧ d.Sound := by
  obtain ⟨⟨⟩, legal, success⟩ := bind_success success
  cases success
  exact ⟨rfl, addresses_le legal, by simp, by simp, by simp, by simp, by simp, by simp⟩

theorem analogOutput_sound {name : String} {slot : Slot} {codec : Codec} {default : Float}
    {d : Device} (success : analogOutput name slot codec default = .ok d) :
    d.slot = slot ∧ d.Sound := by
  obtain ⟨⟨⟩, legal, success⟩ := bind_success success
  cases success
  refine ⟨rfl, addresses_le legal, ?_, ?_, ?_, ?_, ?_, ?_⟩
  · intro c member
    rw [List.mem_singleton.mp member]
    exact ⟨rfl, by simp [channelAt, addresses, address, DeviceKind.span]⟩
  · intro c member
    rw [List.mem_singleton.mp member]
    exact List.Pairwise.nil
  · intro shares
    cases shares
  · intro _ c member
    rw [List.mem_singleton.mp member]
    rfl
  · intro _ c member other otherMember _
    rw [List.mem_singleton.mp member, List.mem_singleton.mp otherMember]
  · intro shares
    cases shares

/-- The name of a channel of a synthesizer and where it sits, whatever codec is found for it. -/
private theorem subchannel_at {found : Except CodecError Codec} {slot : Slot} {name : String}
    {kind : ChannelKind} {offset : Nat} {default : Float} {c : Channel}
    (success : (match found with
      | .ok codec => Except.ok (channelAt slot name kind offset 0 codec default)
      | .error e => .error (BoardError.codec e)) = .ok c) :
    c.name = name ∧ c.rack = slot.rack ∧ c.place = ⟨slot.address + offset, 0⟩ ∧ c.bookings = [] := by
  cases found with
  | error e => cases success
  | ok codec =>
    cases success
    exact ⟨rfl, rfl, rfl, rfl⟩

theorem synthesizer_success {name : String} {slot : Slot} {registry : Registry}
    {frequency amplitude phase : Float} {d : Device}
    (success : synthesizer name slot registry frequency amplitude phase = .ok d) :
    slot.address % 4 = 0 ∧ checkAddress name .synthesizer slot = .ok () ∧
      ∃ c0 c1 c2, d = ⟨name, .synthesizer, slot, [c0, c1, c2]⟩ ∧
        (c0.rack = slot.rack ∧ c0.place = ⟨slot.address + 0, 0⟩ ∧ c0.bookings = []) ∧
        (c1.rack = slot.rack ∧ c1.place = ⟨slot.address + 1, 0⟩ ∧ c1.bookings = []) ∧
        c2.rack = slot.rack ∧ c2.place = ⟨slot.address + 2, 0⟩ ∧ c2.bookings = [] := by
  unfold synthesizer at success
  split at success
  · cases success
  · rename_i aligned
    obtain ⟨⟨⟩, legal, success⟩ := bind_success success
    obtain ⟨c0, found0, success⟩ := bind_success success
    obtain ⟨c1, found1, success⟩ := bind_success success
    obtain ⟨c2, found2, success⟩ := bind_success success
    cases success
    exact ⟨Decidable.not_not.mp aligned, legal, c0, c1, c2, rfl, (subchannel_at found0).2, (subchannel_at found1).2,
      (subchannel_at found2).2⟩

theorem synthesizer_names {name : String} {slot : Slot} {registry : Registry} {frequency amplitude phase : Float}
    {d : Device} (success : synthesizer name slot registry frequency amplitude phase = .ok d) :
    d.name = name ∧ d.channels.map Channel.name = ["freq", "amp", "phase"].map fun suffix => s!"{name}_{suffix}" := by
  unfold synthesizer at success
  obtain ⟨_, success⟩ := guard_success success
  obtain ⟨⟨⟩, _, success⟩ := bind_success success
  obtain ⟨c0, found0, success⟩ := bind_success success
  obtain ⟨c1, found1, success⟩ := bind_success success
  obtain ⟨c2, found2, success⟩ := bind_success success
  cases success
  refine ⟨rfl, ?_⟩
  simp only [List.map_cons, List.map_nil, (subchannel_at found0).1, (subchannel_at found1).1, (subchannel_at found2).1]

theorem synthesizer_sound {name : String} {slot : Slot} {registry : Registry}
    {frequency amplitude phase : Float} {d : Device}
    (success : synthesizer name slot registry frequency amplitude phase = .ok d) :
    d.slot = slot ∧ d.Sound := by
  obtain ⟨_, legal, c0, c1, c2, rfl, at0, at1, at2⟩ := synthesizer_success success
  refine ⟨rfl, addresses_le legal, ?_, ?_, ?_, ?_, ?_, ?_⟩
  · intro c member
    simp only [addresses, address, rack, DeviceKind.span, List.mem_map, List.mem_range]
    simp only [List.mem_cons, List.not_mem_nil, or_false] at member
    rcases member with rfl | rfl | rfl
    · exact ⟨at0.1, 0, by decide, by rw [at0.2.1]⟩
    · exact ⟨at1.1, 1, by decide, by rw [at1.2.1]⟩
    · exact ⟨at2.1, 2, by decide, by rw [at2.2.1]⟩
  · intro c member
    simp only [List.mem_cons, List.not_mem_nil, or_false] at member
    rcases member with rfl | rfl | rfl <;> simp [Channel.Apart, at0.2.2, at1.2.2, at2.2.2]
  · intro shares
    cases shares
  · intro _ c member
    simp only [List.mem_cons, List.not_mem_nil, or_false] at member
    rcases member with rfl | rfl | rfl <;> simp [at0.2.1, at1.2.1, at2.2.1]
  · intro _ c member other otherMember same
    simp only [List.mem_cons, List.not_mem_nil, or_false] at member otherMember
    rcases member with rfl | rfl | rfl <;> rcases otherMember with rfl | rfl | rfl <;>
      simp [at0.2.1, at1.2.1, at2.2.1] at same <;> rfl
  · intro shares
    cases shares

theorem addLine_success {d d' : Device} {name : String} {bit : Nat} {codec : Codec} {default : Float}
    (success : d.addLine name bit codec default = .ok d') : d.kind = .digitalBank ∧ bit < 16 ∧
      (∀ c ∈ d.channels, c.place.bit ≠ bit) ∧
      d' = { d with channels := d.channels ++ [channelAt d.slot name .digital 0 bit codec default] } := by
  unfold addLine at success
  simp only at success
  split at success
  · cases success
  · rename_i bank
    split at success
    · cases success
    · rename_i low
      split at success
      · cases success
      · split at success
        · cases success
        · rename_i unused
          split at success
          · cases success
          · cases success
            refine ⟨Decidable.not_not.mp bank, Nat.not_le.mp low, fun c member same => ?_, rfl⟩
            have := List.find?_eq_none.mp unused c member
            simp [same] at this

theorem addLine_sound {d d' : Device} {name : String} {bit : Nat} {codec : Codec} {default : Float}
    (success : d.addLine name bit codec default = .ok d') (sound : d.Sound) :
    d'.name = d.name ∧ d'.kind = d.kind ∧ d'.slot = d.slot ∧ d'.Sound := by
  obtain ⟨bank, low, newBit, rfl⟩ := addLine_success success
  have shares : d.sharesAddress := by simpa [sharesAddress] using bank
  have own := address_mem shares
  refine ⟨rfl, rfl, rfl, sound.addressed, ?_, ?_, ?_, ?_, ?_, ?_⟩
  · intro c member
    rcases List.mem_append.mp member with old | new
    · exact sound.placed c old
    · rw [List.mem_singleton.mp new]
      exact ⟨rfl, own⟩
  · intro c member
    rcases List.mem_append.mp member with old | new
    · exact sound.apart c old
    · rw [List.mem_singleton.mp new]
      exact List.Pairwise.nil
  · intro _ c member
    rcases List.mem_append.mp member with old | new
    · exact sound.lines shares c old
    · rw [List.mem_singleton.mp new]
      exact ⟨rfl, low⟩
  · intro separate
    exact absurd shares separate
  · intro separate
    exact absurd shares separate
  · intro _
    exact Board.alone_append (sound.bits shares) (fun _ _ same => same.symm) newBit

/-- Editing the channels of a device keeps it sound if each keeps its place and its bookings
apart. -/
theorem Sound.mapChannels {d : Device} (sound : d.Sound) {edit : Channel → Except BoardError Channel}
    {channels : List Channel} (success : d.channels.mapM edit = .ok channels)
    (kept : ∀ c ∈ d.channels, ∀ c', edit c = .ok c' → c'.rack = c.rack ∧ c'.place = c.place ∧
      Channel.Apart c'.bookings) : Sound { d with channels } := by
  obtain ⟨origin, _⟩ := mapM_success success
  refine ⟨sound.addressed, ?_, ?_, ?_, ?_, ?_, ?_⟩
  · intro c' member
    obtain ⟨c, inside, edited⟩ := origin c' member
    obtain ⟨rack, place, _⟩ := kept c inside c' edited
    rw [rack, place]
    exact sound.placed c inside
  · intro c' member
    obtain ⟨c, inside, edited⟩ := origin c' member
    exact (kept c inside c' edited).2.2
  · intro shares c' member
    obtain ⟨c, inside, edited⟩ := origin c' member
    rw [(kept c inside c' edited).2.1]
    exact sound.lines shares c inside
  · intro apart c' member
    obtain ⟨c, inside, edited⟩ := origin c' member
    rw [(kept c inside c' edited).2.1]
    exact sound.unshifted apart c inside
  · intro apart c' member other' otherMember same
    obtain ⟨c, inside, edited⟩ := origin c' member
    obtain ⟨other, otherInside, otherEdited⟩ := origin other' otherMember
    rw [(kept c inside c' edited).2.1, (kept other otherInside other' otherEdited).2.1] at same
    obtain rfl := sound.separate apart c inside other otherInside same
    rw [edited] at otherEdited
    exact Except.ok.inj otherEdited
  · intro shares c' member other' otherMember same
    obtain ⟨c, inside, edited⟩ := origin c' member
    obtain ⟨other, otherInside, otherEdited⟩ := origin other' otherMember
    rw [(kept c inside c' edited).2.1, (kept other otherInside other' otherEdited).2.1] at same
    obtain rfl := sound.bits shares c inside other otherInside same
    rw [edited] at otherEdited
    exact Except.ok.inj otherEdited

end Device

/-! ### Every edit keeps a board sound -/

namespace Board
variable {b b' : Board}

/-- More clock lines do no harm. -/
theorem Sound.extendClocks (sound : Sound b) {clocks : List PseudoClock}
    (more : ∀ line ∈ b.clockLines, line ∈ clocks.flatMap PseudoClock.clockLines) :
    Sound { b with pseudoClocks := clocks } :=
  ⟨sound.strobe, sound.tracks, sound.devices,
    fun d placed => ⟨more _ (sound.slots d placed).1, (sound.slots d placed).2⟩,
    sound.names, sound.addresses, sound.marks⟩

theorem addPseudoClock_success {name : String} (success : b.addPseudoClock name = .ok b') :
    name ∉ b.pseudoClocks.map PseudoClock.name ∧
      b' = { b with pseudoClocks := b.pseudoClocks ++ [⟨name, []⟩] } := by
  unfold addPseudoClock at success
  split at success
  · cases success
  · rename_i unused
    cases success
    exact ⟨by simpa using unused, rfl⟩

theorem Sound.addPseudoClock (sound : Sound b) {name : String}
    (success : b.addPseudoClock name = .ok b') : Sound b' := by
  obtain ⟨_, rfl⟩ := addPseudoClock_success success
  exact sound.extendClocks fun line known => by
    rw [List.flatMap_append]
    exact List.mem_append_left _ known

theorem addClockLine_success {pseudoClock name : String} (success : b.addClockLine pseudoClock name = .ok b') :
    name ∉ b.clockLines ∧ pseudoClock ∈ b.pseudoClocks.map PseudoClock.name ∧
      b' = { b with pseudoClocks := b.pseudoClocks.map fun p =>
              if p.name = pseudoClock then { p with clockLines := p.clockLines ++ [name] } else p } := by
  unfold addClockLine at success
  split at success
  · cases success
  · rename_i unused
    split at success
    · rename_i known
      cases success
      exact ⟨unused, by simpa using known, rfl⟩
    · cases success

theorem Sound.addClockLine (sound : Sound b) {pseudoClock name : String}
    (success : b.addClockLine pseudoClock name = .ok b') : Sound b' := by
  obtain ⟨_, _, rfl⟩ := addClockLine_success success
  refine sound.extendClocks fun line known => ?_
  obtain ⟨p, listed, onClock⟩ := List.mem_flatMap.mp known
  refine List.mem_flatMap.mpr ⟨_, List.mem_map.mpr ⟨p, listed, rfl⟩, ?_⟩
  split
  · exact List.mem_append_left _ onClock
  · exact onClock

theorem Sound.addDigitalBank (sound : Sound b) {clockLine name : String} {rack address : Nat}
    (success : b.addDigitalBank clockLine name rack address = .ok b') : Sound b' := by
  obtain ⟨slot, known, success⟩ := bind_success success
  obtain ⟨d, made, added⟩ := bind_success success
  obtain ⟨rfl, good⟩ := Device.digitalBank_sound made
  exact sound.addDevice added good (slot_known known).1 (slot_known known).2

theorem Sound.addAnalogOutput (sound : Sound b) {clockLine name tag : String} {rack address : Nat}
    {default : Float} (success : b.addAnalogOutput clockLine name rack address tag default = .ok b') :
    Sound b' := by
  obtain ⟨slot, known, success⟩ := bind_success success
  obtain ⟨codec, _, success⟩ := bind_success success
  obtain ⟨d, made, added⟩ := bind_success success
  obtain ⟨rfl, good⟩ := Device.analogOutput_sound made
  exact sound.addDevice added good (slot_known known).1 (slot_known known).2

theorem Sound.addSynthesizer (sound : Sound b) {clockLine name : String} {rack address : Nat}
    {frequency amplitude phase : Float}
    (success : b.addSynthesizer clockLine name rack address frequency amplitude phase = .ok b') :
    Sound b' := by
  obtain ⟨slot, known, success⟩ := bind_success success
  obtain ⟨d, made, added⟩ := bind_success success
  obtain ⟨rfl, good⟩ := Device.synthesizer_sound made
  exact sound.addDevice added good (slot_known known).1 (slot_known known).2

theorem addLine_success {device name : String} {bit : Nat} {codec : Codec} {default : Float}
    (success : b.addLine device name bit codec default = .ok b') :
    ∃ d d', d ∈ b.devices ∧ d.addLine name bit codec default = .ok d' ∧ b' = b.replaceDevice d' := by
  obtain ⟨d, found, success⟩ := bind_success success
  obtain ⟨d', added, success⟩ := bind_success success
  cases success
  exact ⟨d, d', device_found found, added, rfl⟩

theorem Sound.addLine (sound : Sound b) {device name : String} {bit : Nat} {codec : Codec}
    {default : Float} (success : b.addLine device name bit codec default = .ok b') : Sound b' := by
  obtain ⟨d, d', found, added, rfl⟩ := addLine_success success
  have placed := sound.mem_devices.mp found
  obtain ⟨sameName, kind, slot, good⟩ := Device.addLine_sound added (sound.devices d placed)
  exact sound.replaceDevice placed sameName kind slot good

theorem addDigitalLine_success {bank name : String} {bit : Nat} {default : Bool}
    (success : b.addDigitalLine bank name bit default = .ok b') :
    ∃ codec value, b.addLine bank name bit codec value = .ok b' := by
  unfold Board.addDigitalLine at success
  cases default <;> simp only [Bool.false_eq_true, ↓reduceIte] at success
  all_goals
    split at success
    · cases success
    · obtain ⟨codec, _, added⟩ := bind_success success
      exact ⟨codec, _, added⟩

theorem Sound.addDigitalLine (sound : Sound b) {bank name : String} {bit : Nat} {default : Bool}
    (success : b.addDigitalLine bank name bit default = .ok b') : Sound b' := by
  obtain ⟨codec, value, added⟩ := addDigitalLine_success success
  exact sound.addLine added

theorem Sound.editChannel (sound : Sound b) {name : String}
    {edit : Channel → Except BoardError Channel}
    (books : ∀ c c', edit c = .ok c' → ∃ booking, c.book booking = .ok c')
    (success : b.editChannel name edit = .ok b') : Sound b' := by
  unfold Board.editChannel at success
  split at success
  · cases success
  · rename_i d found
    obtain ⟨channels, edited, success⟩ := bind_success success
    cases success
    have placed := sound.mem_devices.mp (List.mem_of_find?_eq_some found)
    have good := sound.devices d placed
    refine sound.replaceDevice placed rfl rfl rfl (good.mapChannels edited fun c inside c' result => ?_)
    have apart := good.apart c inside
    split at result
    · obtain ⟨booking, booked⟩ := books c c' result
      have apart' := Channel.book_apart booked apart
      rw [Channel.book_eq booked]
      exact ⟨rfl, rfl, apart'⟩
    · cases result
      exact ⟨rfl, rfl, apart⟩

theorem Sound.clear (sound : Sound b) : Sound b.clear := by
  have cleared := sound.mapPlaced Device.clear fun d placed => by
    refine ⟨rfl, rfl, rfl, (sound.devices d placed).addressed, ?_, ?_, ?_, ?_, ?_, ?_⟩
    · intro c member
      obtain ⟨old, inside, rfl⟩ := List.mem_map.mp member
      exact (sound.devices d placed).placed old inside
    · intro c member
      obtain ⟨old, inside, rfl⟩ := List.mem_map.mp member
      exact List.Pairwise.nil
    · intro shares c member
      obtain ⟨old, inside, rfl⟩ := List.mem_map.mp member
      exact (sound.devices d placed).lines shares old inside
    · intro separate c member
      obtain ⟨old, inside, rfl⟩ := List.mem_map.mp member
      exact (sound.devices d placed).unshifted separate old inside
    · intro separate c member other otherMember same
      obtain ⟨old, inside, rfl⟩ := List.mem_map.mp member
      obtain ⟨otherOld, otherInside, rfl⟩ := List.mem_map.mp otherMember
      rw [(sound.devices d placed).separate separate old inside otherOld otherInside same]
    · intro shares c member other otherMember same
      obtain ⟨old, inside, rfl⟩ := List.mem_map.mp member
      obtain ⟨otherOld, otherInside, rfl⟩ := List.mem_map.mp otherMember
      rw [(sound.devices d placed).bits shares old inside otherOld otherInside same]
  exact ⟨cleared.strobe, by simpa [Board.clear] using sound.tracks, cleared.devices, cleared.slots,
    cleared.names, cleared.addresses, fun track member => by
      obtain ⟨_, _, rfl⟩ := List.mem_map.mp member
      exact List.nodup_nil⟩

theorem strobe_of_faultless {config : BoardConfig} (faultless : config.fault? = none) :
    Word.strobeMayBe config.strobePosition := by
  unfold BoardConfig.fault? at faultless
  cases legal : Word.strobeMayBe config.strobePosition with
  | true => rfl
  | false =>
    simp only [legal, Bool.not_false, ↓reduceIte] at faultless
    repeat' split at faultless
    all_goals cases faultless

theorem new_sound {config : BoardConfig} (success : Board.new config = .ok b) : Sound b := by
  obtain ⟨⟨⟩, valid, success⟩ := bind_success success
  cases success
  refine ⟨?_, by simp, by simp, by simp, by simp, by simp, fun track member => ?_⟩
  · unfold BoardConfig.validate at valid
    split at valid
    · cases valid
    · rename_i faultless
      exact strobe_of_faultless faultless
  · rw [List.eq_of_mem_replicate member]
    exact List.nodup_nil

theorem mark_nodup {track : MarkerTrack} (distinct : track.marks.Nodup) (tick : Nat)
    (marker : Marker) : (track.mark tick marker).marks.Nodup := by
  unfold MarkerTrack.mark
  split
  · exact distinct
  · rename_i fresh
    exact List.nodup_append.mpr ⟨distinct, by simp, fun m member n new same => by
      rw [List.mem_singleton.mp new] at same
      exact fresh (same ▸ member)⟩

theorem Sound.mark (sound : Sound b) (rack tick : Nat) (marker : Marker) :
    Sound { b with tracks := b.tracks.modify rack fun track => track.mark tick marker } := by
  refine ⟨sound.strobe, by simpa using sound.tracks, sound.devices, sound.slots, sound.names,
    sound.addresses, fun track member => ?_⟩
  obtain ⟨index, found⟩ := List.getElem?_of_mem member
  rw [List.getElem?_modify] at found
  obtain ⟨old, before, rfl⟩ := Option.map_eq_some_iff.mp found
  have distinct := sound.marks old (List.mem_of_getElem? before)
  split
  · exact mark_nodup distinct tick marker
  · exact distinct

theorem Sound.edit (sound : Sound b) (edit : Edit b b') : Sound b' := by
  cases edit with
  | pseudoClock name success => exact sound.addPseudoClock success
  | clockLine clock name success => exact sound.addClockLine success
  | digitalBank line name rack address success => exact sound.addDigitalBank success
  | digitalLine bank name bit default success => exact sound.addDigitalLine success
  | line device name bit codec default success => exact sound.addLine success
  | analogOutput line name rack address tag default success => exact sound.addAnalogOutput success
  | synthesizer line name rack address f a p success => exact sound.addSynthesizer success
  | codec codec =>
    exact ⟨sound.1, sound.2, sound.3, sound.4, sound.5, sound.6, sound.7⟩
  | instruction channel edit books success => exact sound.editChannel books success
  | marker rack tick marker exists_ => exact sound.mark rack tick marker
  | options options =>
    exact ⟨sound.1, sound.2, sound.3, sound.4, sound.5, sound.6, sound.7⟩
  | clear => exact sound.clear

theorem Built.sound (built : Built b) : Sound b := by
  induction built with
  | new success => exact new_sound success
  | edit _ edit ih => exact ih.edit edit

/-! ### No edit changes the configuration -/

/-- A board that has the configuration and the options of another one. -/
structure SameSettings (b b' : Board) : Prop where
  config : b'.config = b.config
  options : b'.options = b.options

namespace SameSettings

theorem addPseudoClock {name : String} (success : b.addPseudoClock name = .ok b') : SameSettings b b' := by
  obtain ⟨_, rfl⟩ := addPseudoClock_success success
  exact ⟨rfl, rfl⟩

theorem addClockLine {clock name : String} (success : b.addClockLine clock name = .ok b') : SameSettings b b' := by
  obtain ⟨_, _, rfl⟩ := addClockLine_success success
  exact ⟨rfl, rfl⟩

theorem addDevice (success : b.addDevice d = .ok b') : SameSettings b b' := by
  obtain ⟨_, _, rfl⟩ := addDevice_success success
  exact ⟨rfl, rfl⟩

theorem addDigitalBank {clockLine name : String} {rack address : Nat}
    (success : b.addDigitalBank clockLine name rack address = .ok b') : SameSettings b b' := by
  obtain ⟨_, _, success⟩ := bind_success success
  obtain ⟨_, _, added⟩ := bind_success success
  exact addDevice added

theorem addAnalogOutput {clockLine name tag : String} {rack address : Nat} {default : Float}
    (success : b.addAnalogOutput clockLine name rack address tag default = .ok b') : SameSettings b b' := by
  obtain ⟨_, _, success⟩ := bind_success success
  obtain ⟨_, _, success⟩ := bind_success success
  obtain ⟨_, _, added⟩ := bind_success success
  exact addDevice added

theorem addSynthesizer {clockLine name : String} {rack address : Nat} {frequency amplitude phase : Float}
    (success : b.addSynthesizer clockLine name rack address frequency amplitude phase = .ok b') :
    SameSettings b b' := by
  obtain ⟨_, _, success⟩ := bind_success success
  obtain ⟨_, _, added⟩ := bind_success success
  exact addDevice added

theorem addLine {device name : String} {bit : Nat} {codec : Codec} {default : Float}
    (success : b.addLine device name bit codec default = .ok b') : SameSettings b b' := by
  obtain ⟨_, _, _, _, rfl⟩ := addLine_success success
  exact ⟨rfl, rfl⟩

theorem addDigitalLine {bank name : String} {bit : Nat} {default : Bool}
    (success : b.addDigitalLine bank name bit default = .ok b') : SameSettings b b' := by
  obtain ⟨_, _, added⟩ := addDigitalLine_success success
  exact addLine added

theorem editChannel {name : String} {edit : Channel → Except BoardError Channel}
    (success : b.editChannel name edit = .ok b') : SameSettings b b' := by
  unfold Board.editChannel at success
  split at success
  · cases success
  · obtain ⟨_, _, success⟩ := bind_success success
    cases success
    exact ⟨rfl, rfl⟩

end SameSettings

theorem Edit.config_eq (edit : Edit b b') : b'.config = b.config := by
  cases edit with
  | pseudoClock name success => exact (SameSettings.addPseudoClock success).config
  | clockLine clock name success => exact (SameSettings.addClockLine success).config
  | digitalBank line name rack address success => exact (SameSettings.addDigitalBank success).config
  | digitalLine bank name bit default success => exact (SameSettings.addDigitalLine success).config
  | line device name bit codec default success => exact (SameSettings.addLine success).config
  | analogOutput line name rack address tag default success => exact (SameSettings.addAnalogOutput success).config
  | synthesizer line name rack address f a p success => exact (SameSettings.addSynthesizer success).config
  | instruction channel edit books success => exact (SameSettings.editChannel success).config
  | codec codec => rfl
  | marker rack tick marker exists_ => rfl
  | options options => rfl
  | clear => rfl

theorem Built.faultless (built : Built b) : b.config.fault? = none := by
  induction built with
  | new success =>
    obtain ⟨⟨⟩, valid, success⟩ := bind_success success
    cases success
    unfold BoardConfig.validate at valid
    split at valid
    · cases valid
    · assumption
  | edit _ edit ih => rw [edit.config_eq, ih]

theorem Built.racks_one_or_two (built : Built b) : b.config.racks = 1 ∨ b.config.racks = 2 := by
  have faultless := built.faultless
  unfold BoardConfig.fault? at faultless
  split at faultless
  · cases faultless
  · split at faultless
    · cases faultless
    · omega

end Board

end Sequencer
