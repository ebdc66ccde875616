import Sequencer.Proofs.BusMap

/-!
The names on a board as calls register its parts, with any names and in any order.

No two channels have one name, and no two devices. A channel takes no name that a device bears, and an output, which
has a channel of its own name, takes none that a channel bears. But a bank or a synthesizer is only held against the
devices: under the name of a channel of another device it is taken in.
-/
namespace Sequencer

/-- The device has the name, or a channel of it has. -/
def Device.Bears (d : Device) (name : String) : Prop := d.name = name ∨ ∃ c ∈ d.channels, c.name = name

/-- The device that a call adds, unless it comes with a channel of its own name. -/
def Registration.bareDevice? : Registration → Option String
  | digitalBank _ name _ _ => some name
  | synthesizer _ name _ _ _ _ _ => some name
  | _ => none

namespace Board

/-- Whoever bears a name is the only device to do so. -/
def OneOwner (b : Board) : Prop := ∀ name, ∀ d ∈ b.devices, ∀ e ∈ b.devices, d.Bears name → e.Bears name → d = e

/-- The call adds a bank or a synthesizer under the name of a channel of the board. -/
def overlooks (b : Board) (r : Registration) : Bool :=
  match r.bareDevice? with
  | some name => (b.channel? name).isSome && (r.apply b).isOk
  | none => false

/-- The calls that do so, each on the board as it is then. -/
def overlooking (b : Board) : List Registration → List Registration
  | [] => []
  | r :: rest => (if b.overlooks r then [r] else []) ++ overlooking (r.perform.on b).2 rest

end Board

/-! ### The names of a new device -/

namespace Device

/-- The channels of a synthesizer have different names. -/
theorem suffixed_nodup (name : String) : (["freq", "amp", "phase"].map fun suffix => s!"{name}_{suffix}").Nodup := by
  refine List.Nodup.map (fun one other same => ?_) (by decide)
  show toString one = toString other
  simpa [String.append_assoc] using same

theorem bears_append {d : Device} {c : Channel} {name : String} :
    Bears { d with channels := d.channels ++ [c] } name ↔ d.Bears name ∨ c.name = name := by
  simp only [Bears, List.mem_append, List.mem_singleton, or_and_right, exists_or, exists_eq_left, or_assoc]

end Device

namespace Board
variable {b b' fresh : Board} {config : BoardConfig} {d : Device} {r : Registration} {name : String}

/-! ### What a registration does to the names -/

/-- What a call that succeeds does to the devices of a board. -/
inductive Grows (b : Board) (r : Registration) (b' : Board) : Prop where
  | clocks (bare : r.bareDevice? = none) (placed : b'.placed = b.placed)
  | device (d : Device) (fresh : ∀ e ∈ b.placed, e.name ≠ d.name)
      (unused : ∀ c ∈ d.channels, ∀ e ∈ b.placed, ¬e.Bears c.name) (own : (d.channels.map Channel.name).Nodup)
      (bare : r.bareDevice? = some d.name ∨ r.bareDevice? = none ∧ ∃ c ∈ d.channels, c.name = d.name)
      (placed : b'.placed = b.placed ++ [d])
  | line (d : Device) (known : d ∈ b.placed) (c : Channel) (unused : ∀ e ∈ b.placed, ¬e.Bears c.name)
      (bare : r.bareDevice? = none) (replaced : b' = b.replaceDevice { d with channels := d.channels ++ [c] })

theorem isSome_channel? : (b.channel? name).isSome ↔ ∃ d ∈ b.devices, ∃ c ∈ d.channels, c.name = name := by
  simp only [channel?, channels, List.find?_isSome, List.mem_flatMap, beq_iff_eq]
  constructor
  · rintro ⟨c, ⟨d, listed, member⟩, rfl⟩
    exact ⟨d, listed, c, member, rfl⟩
  · rintro ⟨d, listed, c, member, rfl⟩
    exact ⟨c, ⟨d, listed, member⟩, rfl⟩

theorem isSome_device? : (b.device? name).isSome ↔ ∃ d ∈ b.devices, d.name = name := by
  simp only [device?, List.find?_isSome, beq_iff_eq]

theorem Sound.unused (sound : Sound b) (free : ¬((b.channel? name).isSome || (b.device? name).isSome) = true) :
    ∀ e ∈ b.placed, ¬e.Bears name := by
  rw [Bool.or_eq_true, isSome_channel?, isSome_device?, not_or] at free
  intro e placed bears
  have listed := sound.mem_devices.mpr placed
  rcases bears with named | ⟨c, member, named⟩
  · exact free.2 ⟨e, listed, named⟩
  · exact free.1 ⟨e, listed, c, member, named⟩

theorem addDigitalLine_unused {bank : String} {bit : Nat} {default : Bool}
    (success : b.addDigitalLine bank name bit default = .ok b') :
    ¬((b.channel? name).isSome || (b.device? name).isSome) = true ∧
      ∃ codec value, b.addLine bank name bit codec value = .ok b' := by
  unfold addDigitalLine at success
  obtain ⟨free, success⟩ := guard_success success
  obtain ⟨codec, _, added⟩ := bind_success success
  exact ⟨free, codec, _, added⟩

theorem Sound.grows_addDevice (sound : Sound b) (success : b.addDevice d = .ok b')
    (own : (d.channels.map Channel.name).Nodup)
    (bare : r.bareDevice? = some d.name ∨ r.bareDevice? = none ∧ ∃ c ∈ d.channels, c.name = d.name) :
    Grows b r b' := by
  obtain ⟨untaken, _, rfl⟩ := addDevice_success success
  refine .device d (sound.fresh_name untaken) (fun c member => sound.unused fun taken => untaken ?_) own bare rfl
  rw [nameTaken, Bool.or_eq_true, List.any_eq_true]
  exact .inr ⟨c, member, taken⟩

theorem Sound.grows (sound : Sound b) (success : r.apply b = .ok b') : Grows b r b' := by
  cases r with
  | pseudoClock name =>
    obtain ⟨_, rfl⟩ := addPseudoClock_success success
    exact .clocks rfl rfl
  | clockLine clock name =>
    obtain ⟨_, _, rfl⟩ := addClockLine_success success
    exact .clocks rfl rfl
  | digitalBank line name rack address =>
    obtain ⟨slot, _, success⟩ := bind_success success
    obtain ⟨d, made, added⟩ := bind_success success
    obtain ⟨⟨⟩, _, made⟩ := bind_success made
    cases made
    exact sound.grows_addDevice added List.nodup_nil (.inl rfl)
  | digitalLine bank name bit default =>
    obtain ⟨free, codec, _, added⟩ := addDigitalLine_unused success
    obtain ⟨d, d', found, grown, rfl⟩ := addLine_success added
    obtain ⟨_, _, _, rfl⟩ := Device.addLine_success grown
    exact .line d (sound.mem_devices.mp found) _ (sound.unused free) rfl rfl
  | analogOutput line name rack address tag default =>
    obtain ⟨slot, _, success⟩ := bind_success success
    obtain ⟨codec, _, success⟩ := bind_success success
    obtain ⟨d, made, added⟩ := bind_success success
    obtain ⟨⟨⟩, _, made⟩ := bind_success made
    cases made
    exact sound.grows_addDevice added (List.nodup_singleton _) (.inr ⟨rfl, _, List.mem_singleton_self _, rfl⟩)
  | synthesizer line name rack address f a p =>
    obtain ⟨slot, _, success⟩ := bind_success success
    obtain ⟨d, made, added⟩ := bind_success success
    obtain ⟨rfl, names⟩ := Device.synthesizer_names made
    exact sound.grows_addDevice added (names ▸ Device.suffixed_nodup d.name) (.inl rfl)

/-- The devices once a line has been added to one of them. -/
theorem Sound.mem_replaceDevice (sound : Sound b) (known : d ∈ b.placed) (d' : Device) (name : d'.name = d.name)
    {e : Device} : e ∈ (b.replaceDevice d').placed ↔ e ∈ b.placed ∧ e ≠ d ∨ e = d' := by
  simp only [Board.replaceDevice, List.mem_map]
  constructor
  · rintro ⟨old, placed, rfl⟩
    split
    · exact .inr rfl
    · rename_i other
      exact .inl ⟨placed, fun same => other (same ▸ name.symm)⟩
  · rintro (⟨placed, other⟩ | rfl)
    · exact ⟨e, placed, if_neg fun same => other (sound.names e placed d known (same.trans name))⟩
    · exact ⟨d, known, if_pos name.symm⟩

/-! ### One owner for each name -/

/-- No two members own one name. -/
def Unshared (owns : Device → String → Prop) (members : Device → Prop) : Prop :=
  ∀ name, ∀ d, members d → ∀ e, members e → owns d name → owns e name → d = e

/-- Some members stay and one comes in, or back in, that owns no name of theirs. -/
theorem Unshared.insert {owns : Device → String → Prop} {members kept : Device → Prop}
    (unshared : Unshared owns members) (stays : ∀ e, kept e → members e)
    (apart : ∀ name, owns d name → ∀ e, kept e → ¬owns e name) : Unshared owns fun e => kept e ∨ e = d := by
  rintro name x (xKept | rfl) y (yKept | rfl) xOwns yOwns
  · exact unshared name x (stays x xKept) y (stays y yKept) xOwns yOwns
  · exact absurd xOwns (apart name yOwns x xKept)
  · exact absurd yOwns (apart name xOwns y yKept)
  · rfl

theorem Sound.oneOwner_iff (sound : Sound b) : b.OneOwner ↔ Unshared Device.Bears (· ∈ b.placed) := by
  simp only [OneOwner, Unshared, sound.mem_devices]

theorem overlooks_eq (success : r.apply b = .ok b') :
    b.overlooks r = (r.bareDevice?.any fun name => (b.channel? name).isSome) := by
  unfold overlooks
  cases r.bareDevice? with
  | none => rfl
  | some name => simp [success, Except.isOk, Except.toBool]

/-- A new device shares a name with those that are there if and only if its call overlooked a channel. -/
theorem Sound.unshared_device (sound : Sound b) (fresh : ∀ e ∈ b.placed, e.name ≠ d.name)
    (unused : ∀ c ∈ d.channels, ∀ e ∈ b.placed, ¬e.Bears c.name)
    (bare : r.bareDevice? = some d.name ∨ r.bareDevice? = none ∧ ∃ c ∈ d.channels, c.name = d.name)
    (success : r.apply b = .ok b') :
    (∀ name, d.Bears name → ∀ e ∈ b.placed, ¬e.Bears name) ↔ b.overlooks r = false := by
  rw [overlooks_eq success]
  constructor
  · intro apart
    rcases bare with bare | ⟨bare, _⟩
    · rw [bare, Option.any_some, Bool.eq_false_iff, Ne, isSome_channel?]
      rintro ⟨e, listed, owns⟩
      exact apart d.name (.inl rfl) e (sound.mem_devices.mp listed) (.inr owns)
    · rw [bare, Option.any_none]
  · rintro seen name (rfl | ⟨c, member, rfl⟩) e placed bears
    · rcases bare with bare | ⟨_, c, member, named⟩
      · rw [bare, Option.any_some, Bool.eq_false_iff, Ne, isSome_channel?] at seen
        rcases bears with same | owns
        · exact fresh e placed same
        · exact seen ⟨e, sound.mem_devices.mpr placed, owns⟩
      · exact unused c member e placed (named ▸ bears)
    · exact unused c member e placed bears

theorem Grows.oneOwner_iff (grows : Grows b r b') (sound : Sound b) (success : r.apply b = .ok b') :
    b'.OneOwner ↔ b.OneOwner ∧ b.overlooks r = false := by
  have sound' := sound.edit (Registration.edit_of_apply success)
  rw [sound.oneOwner_iff, sound'.oneOwner_iff]
  cases grows with
  | clocks bare placed =>
    rw [placed, overlooks_eq success, bare]
    exact (and_iff_left rfl).symm
  | device d fresh unused _ bare placed =>
    rw [← sound.unshared_device fresh unused bare success, placed]
    simp only [List.mem_append, List.mem_singleton]
    constructor
    · intro one
      refine ⟨fun name x hx y hy => one name x (.inl hx) y (.inl hy), fun name own e old bears => ?_⟩
      obtain rfl := one name e (.inl old) d (.inr rfl) bears own
      exact fresh e old rfl
    · rintro ⟨one, apart⟩
      exact one.insert (fun _ => id) apart
  | line d known c unused bare replaced =>
    rw [overlooks_eq success, bare, Option.any_none, and_iff_left rfl, replaced]
    simp only [sound.mem_replaceDevice known { d with channels := d.channels ++ [c] } rfl]
    constructor
    · intro one name x hx y hy xBears yBears
      have still : ∀ e ∈ b.placed, ∃ e', ((e' ∈ b.placed ∧ e' ≠ d) ∨ e' = { d with channels := d.channels ++ [c] }) ∧
          e'.name = e.name ∧ (e.Bears name → e'.Bears name) := by
        intro e placed
        by_cases same : e = d
        · exact ⟨_, .inr rfl, same ▸ rfl, fun bears => Device.bears_append.mpr (.inl (same ▸ bears))⟩
        · exact ⟨e, .inl ⟨placed, same⟩, rfl, id⟩
      obtain ⟨x', listed, named, bears⟩ := still x hx
      obtain ⟨y', listed', named', bears'⟩ := still y hy
      have same := one name x' listed y' listed' (bears xBears) (bears' yBears)
      exact sound.names x hx y hy (named.symm.trans ((congrArg Device.name same).trans named'))
    · intro one
      refine one.insert (fun _ => And.left) fun name bears e kept own => ?_
      rcases Device.bears_append.mp bears with before | rfl
      · exact kept.2 (one name e kept.1 d known own before)
      · exact unused e kept.1 own

/-! ### Channels -/

/-- The names of the channels are distinct, in each device and between them. -/
structure ChannelsNamed (b : Board) : Prop where
  own : ∀ d ∈ b.placed, (d.channels.map Channel.name).Nodup
  apart : Unshared (fun d name => ∃ c ∈ d.channels, c.name = name) (· ∈ b.placed)

theorem ChannelsNamed.grow (named : ChannelsNamed b) (sound : Sound b) (grows : Grows b r b') :
    ChannelsNamed b' := by
  cases grows with
  | clocks _ placed => exact ⟨placed ▸ named.own, placed ▸ named.apart⟩
  | device d fresh unused own bare placed =>
    constructor <;> rw [placed]
    · exact List.forall_mem_append.mpr ⟨named.own, List.forall_mem_singleton.mpr own⟩
    · simp only [List.mem_append, List.mem_singleton]
      refine named.apart.insert (fun _ => id) ?_
      rintro name ⟨c, member, rfl⟩ e placed owns
      exact unused c member e placed (.inr owns)
  | line d known c unused bare replaced =>
    constructor <;>
      simp only [replaced, sound.mem_replaceDevice known { d with channels := d.channels ++ [c] } rfl]
    · rintro e (⟨placed, _⟩ | rfl)
      · exact named.own e placed
      · rw [List.map_append]
        refine (named.own d known).append (List.nodup_singleton _) ?_
        simp only [List.map_cons, List.map_nil, List.disjoint_singleton, List.mem_map]
        exact fun owns => unused d known (.inr owns)
    · refine named.apart.insert (fun _ => And.left) fun name owns e kept own => ?_
      obtain ⟨c', member, rfl⟩ := owns
      rcases List.mem_append.mp member with old | new
      · exact kept.2 (named.apart c'.name e kept.1 d known own ⟨c', old, rfl⟩)
      · rw [List.mem_singleton.mp new] at own
        exact unused e kept.1 (.inr own)

theorem ChannelsNamed.nodup (named : ChannelsNamed b) (sound : Sound b) (distinct : Distinct b) :
    (b.channels.map Channel.name).Nodup := by
  rw [channels, List.map_flatMap, List.nodup_flatMap]
  constructor
  · intro d listed
    exact named.own d (sound.mem_devices.mp listed)
  · have names := List.pairwise_map.mp distinct.deviceNames
    refine names.imp_of_mem fun {d e} first second different => List.disjoint_left.mpr fun name here there => ?_
    have same := named.apart name d (sound.mem_devices.mp first) e (sound.mem_devices.mp second)
      (List.mem_map.mp here) (List.mem_map.mp there)
    exact different (congrArg Device.name same)

/-! ### Any sequence of registrations -/

theorem ChannelsNamed.perform (named : ChannelsNamed b) (sound : Sound b) (r : Registration) :
    ChannelsNamed (r.perform.on b).2 ∧
      ((r.perform.on b).2.OneOwner ↔ b.OneOwner ∧ b.overlooks r = false) := by
  rw [r.perform_follows sound]
  cases applied : r.apply b with
  | ok b' =>
    have grows := sound.grows applied
    exact ⟨named.grow sound grows, grows.oneOwner_iff sound applied⟩
  | error e =>
    have seen : b.overlooks r = false := by
      unfold overlooks
      cases r.bareDevice? <;> simp [applied, Except.isOk, Except.toBool]
    exact ⟨named, (and_iff_left seen).symm⟩

theorem ChannelsNamed.register (named : ChannelsNamed b) (calls : List Registration) (sound : Sound b)
    (distinct : Distinct b) : ChannelsNamed (b.register calls) ∧
      ((b.register calls).OneOwner ↔ b.OneOwner ∧ b.overlooking calls = []) := by
  induction calls generalizing b with
  | nil => exact ⟨named, (and_iff_left rfl).symm⟩
  | cons r rest ih =>
    obtain ⟨named', one'⟩ := named.perform sound r
    obtain ⟨sound', distinct'⟩ := distinct.perform sound r
    obtain ⟨after, one⟩ := ih named' sound' distinct'
    refine ⟨after, one.trans ?_⟩
    rw [one', and_assoc, overlooking, List.append_eq_nil_iff]
    cases b.overlooks r <;> simp

/-- Whatever is registered with a new board, the channels have distinct names and so have the devices. Each name has
one owner if and only if no bank and no synthesizer was registered under the name of a channel. -/
theorem registrations_keep_names (valid : Board.new config = .ok fresh) (registry : Registry)
    (calls : List Registration) :
    let start : Board := { fresh with registry }
    let b := start.register calls
    (b.channels.map Channel.name).Nodup ∧ (b.devices.map Device.name).Nodup ∧
      (b.OneOwner ↔ start.overlooking calls = []) := by
  intro start b
  obtain ⟨sound, distinct⟩ := new_distinct valid registry
  have empty : ∀ d, d ∉ start.placed := by
    obtain ⟨_, _, made⟩ := bind_success valid
    cases made
    exact fun _ => List.not_mem_nil
  have named : ChannelsNamed start :=
    ⟨fun d placed => absurd placed (empty d), fun _ d placed => absurd placed (empty d)⟩
  have one : start.OneOwner := sound.oneOwner_iff.mpr fun _ d placed => absurd placed (empty d)
  obtain ⟨after, owners⟩ := named.register calls sound distinct
  obtain ⟨sound', distinct'⟩ := distinct.register calls sound
  exact ⟨after.nodup sound' distinct', distinct'.deviceNames, owners.trans (and_iff_right one)⟩

/-- Lines under the names of an output and of a channel of a synthesizer, and an output under that of a line. -/
def namesakes : List Registration :=
  [.pseudoClock "pc", .clockLine "pc" "cl", .analogOutput "cl" "ao0" 0 0x10 "DAC712" 0.0,
    .digitalBank "cl" "bank0" 0 5, .digitalLine "bank0" "ao0" 0 false, .synthesizer "cl" "dds0" 0 0x20 0.0 0.0 0.0,
    .digitalLine "bank0" "dds0_amp" 0 false, .digitalLine "bank0" "shutter" 0 false,
    .analogOutput "cl" "shutter" 0 0x11 "DAC712" 0.0]

/-- All three are refused. -/
theorem namesakes_refused : Board.new { name := "main" } = .ok emptyBoard ∧
    (emptyBoard.register namesakes).devices.map Device.name = ["ao0", "bank0", "dds0"] ∧
    (emptyBoard.register namesakes).channels.map Channel.name =
      ["ao0", "shutter", "dds0_freq", "dds0_amp", "dds0_phase"] ∧
    (emptyBoard.register namesakes).OneOwner := by
  have made := eq_ok_get emptyBoard_valid
  have seen : emptyBoard.overlooking namesakes = [] := by decide +kernel
  exact ⟨made, by decide +kernel, by decide +kernel,
    (registrations_keep_names made emptyBoard.registry namesakes).2.2.mpr seen⟩

/-- A line and then a bank of its name. -/
def namedAfterLine : List Registration :=
  [.pseudoClock "pc", .clockLine "pc" "cl", .digitalBank "cl" "bank0" 0 5, .digitalLine "bank0" "shutter" 3 false,
    .digitalBank "cl" "shutter" 0 6]

/-- The bank is taken in. -/
theorem line_and_bank_share_name : Board.new { name := "main" } = .ok emptyBoard ∧
    (∃ d ∈ (emptyBoard.register namedAfterLine).devices, ∃ e ∈ (emptyBoard.register namedAfterLine).devices,
      d.name = "shutter" ∧ e.name = "bank0" ∧ ∃ c ∈ e.channels, c.name = "shutter") ∧
    ¬(emptyBoard.register namedAfterLine).OneOwner := by
  have clash : ∃ d ∈ (emptyBoard.register namedAfterLine).devices,
      ∃ e ∈ (emptyBoard.register namedAfterLine).devices,
        d.name = "shutter" ∧ e.name = "bank0" ∧ ∃ c ∈ e.channels, c.name = "shutter" := by decide +kernel
  refine ⟨eq_ok_get emptyBoard_valid, clash, fun one => ?_⟩
  obtain ⟨d, listed, e, listed', named, named', owns⟩ := clash
  obtain rfl := one "shutter" d listed e listed' (.inl named) (.inr owns)
  exact absurd (named.symm.trans named') (by decide)

end Board

end Sequencer
