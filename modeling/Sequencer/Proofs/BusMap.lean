import Mathlib.Data.List.Nodup
import Sequencer.Proofs.BoardEdits

/-!
The bus map of a board as calls register its parts, with any arguments and in any order.

A registration is also read as a program on the board in place, which keeps what it has changed when it fails. It
comes to the same as the board that is made anew, so that a registration that fails changes nothing.
-/
namespace Sequencer

/-- A call that adds a part to a board. -/
inductive Registration where
  | pseudoClock (name : String)
  | clockLine (pseudoClock name : String)
  | digitalBank (clockLine name : String) (rack address : Nat)
  | digitalLine (bank name : String) (bit : Nat) (default : Bool)
  | analogOutput (clockLine name : String) (rack address : Nat) (tag : String) (default : Float)
  | synthesizer (clockLine name : String) (rack address : Nat) (frequency amplitude phase : Float)

namespace Registration

/-- The board with the new part. -/
def apply (b : Board) : Registration → Except BoardError Board
  | pseudoClock name => b.addPseudoClock name
  | clockLine clock name => b.addClockLine clock name
  | digitalBank line name rack address => b.addDigitalBank line name rack address
  | digitalLine bank name bit default => b.addDigitalLine bank name bit default
  | analogOutput line name rack address tag default => b.addAnalogOutput line name rack address tag default
  | synthesizer line name rack address frequency amplitude phase =>
    b.addSynthesizer line name rack address frequency amplitude phase

variable {b b' : Board} {r : Registration}

theorem edit_of_apply (success : r.apply b = .ok b') : Board.Edit b b' := by
  cases r with
  | pseudoClock name => exact .pseudoClock name success
  | clockLine clock name => exact .clockLine clock name success
  | digitalBank line name rack address => exact .digitalBank line name rack address success
  | digitalLine bank name bit default => exact .digitalLine bank name bit default success
  | analogOutput line name rack address tag default => exact .analogOutput line name rack address tag default success
  | synthesizer line name rack address f a p => exact .synthesizer line name rack address f a p success

end Registration

/-! ### What is distinct -/

/-- The channels of a device as they are wired: a synthesizer at its first three of four addresses, which begin at
a multiple of four, and the lines of a bank at different bits. -/
structure Device.Wired (d : Device) : Prop where
  synthesizer : d.kind = .synthesizer → d.address % 4 = 0 ∧
    d.channels.map Channel.place = [⟨d.address, 0⟩, ⟨d.address + 1, 0⟩, ⟨d.address + 2, 0⟩]
  bank : d.kind = .digitalBank → (d.channels.map fun c => c.place.bit).Nodup

namespace Device

theorem digitalBank_wired {name : String} {slot : Slot} {d : Device} (success : digitalBank name slot = .ok d) :
    d.Wired := by
  obtain ⟨⟨⟩, _, success⟩ := bind_success success
  cases success
  exact ⟨nofun, fun _ => List.nodup_nil⟩

theorem analogOutput_wired {name : String} {slot : Slot} {codec : Codec} {default : Float} {d : Device}
    (success : analogOutput name slot codec default = .ok d) : d.Wired := by
  obtain ⟨⟨⟩, _, success⟩ := bind_success success
  cases success
  exact ⟨nofun, nofun⟩

theorem synthesizer_wired {name : String} {slot : Slot} {registry : Registry} {frequency amplitude phase : Float}
    {d : Device} (success : Device.synthesizer name slot registry frequency amplitude phase = .ok d) : d.Wired := by
  obtain ⟨aligned, _, c0, c1, c2, rfl, at0, at1, at2⟩ := synthesizer_success success
  refine ⟨fun _ => ⟨aligned, ?_⟩, nofun⟩
  simp only [List.map_cons, List.map_nil, at0.2.1, at1.2.1, at2.2.1]
  rfl

theorem Wired.addLine {d d' : Device} {name : String} {bit : Nat} {codec : Codec} {default : Float}
    (wired : d.Wired) (success : d.addLine name bit codec default = .ok d') : d'.Wired := by
  obtain ⟨bank, _, unused, rfl⟩ := addLine_success success
  refine ⟨fun other => ?_, fun _ => ?_⟩
  · rw [bank] at other
    cases other
  · rw [List.map_append]
    refine (wired.bank bank).append (List.nodup_singleton _) ?_
    simp only [List.map_cons, List.map_nil, List.disjoint_singleton, List.mem_map, not_exists, not_and]
    exact unused

end Device

namespace Board
variable {b b' : Board} {d d' : Device}

structure Distinct (b : Board) : Prop where
  clocks : (b.pseudoClocks.map PseudoClock.name).Nodup
  lines : b.clockLines.Nodup
  names : (b.placed.map Device.name).Nodup
  wired : ∀ d ∈ b.placed, d.Wired

/-- One clock has one line more. -/
theorem extended_perm {clocks : List PseudoClock} {clock line : String}
    (distinct : (clocks.map PseudoClock.name).Nodup) (known : clock ∈ clocks.map PseudoClock.name) :
    ((clocks.map fun p => if p.name = clock then { p with clockLines := p.clockLines ++ [line] } else p).flatMap
      PseudoClock.clockLines).Perm (line :: clocks.flatMap PseudoClock.clockLines) := by
  induction clocks with
  | nil => cases known
  | cons p rest ih =>
    rw [List.map_cons, List.nodup_cons] at distinct
    rw [List.map_cons, List.flatMap_cons, List.flatMap_cons]
    by_cases here : p.name = clock
    · have others : rest.map (fun p => if p.name = clock then
          { p with clockLines := p.clockLines ++ [line] } else p) = rest := by
        refine (List.map_congr_left (g := id) fun q listed => if_neg fun same => distinct.1 ?_).trans (List.map_id _)
        exact List.mem_map.mpr ⟨q, listed, same.trans here.symm⟩
      rw [if_pos here, others, List.append_assoc]
      exact List.perm_middle
    · have later : clock ∈ rest.map PseudoClock.name := by
        rcases List.mem_cons.mp known with same | later
        · exact absurd same.symm here
        · exact later
      rw [if_neg here]
      exact ((ih distinct.2 later).append_left p.clockLines).trans List.perm_middle

theorem Distinct.addPseudoClock (distinct : Distinct b) {name : String} (success : b.addPseudoClock name = .ok b') :
    Distinct b' := by
  obtain ⟨unused, rfl⟩ := addPseudoClock_success success
  refine ⟨?_, ?_, distinct.names, distinct.wired⟩
  · rw [List.map_append]
    exact distinct.clocks.append (List.nodup_singleton _) (by simpa using unused)
  · show ((b.pseudoClocks ++ _).flatMap PseudoClock.clockLines).Nodup
    rw [List.flatMap_append, List.flatMap_singleton, List.append_nil]
    exact distinct.lines

theorem Distinct.addClockLine (distinct : Distinct b) {clock name : String}
    (success : b.addClockLine clock name = .ok b') : Distinct b' := by
  obtain ⟨unused, known, rfl⟩ := addClockLine_success success
  refine ⟨?_, ?_, distinct.names, distinct.wired⟩
  · rw [List.map_map]
    refine (List.map_congr_left fun p _ => ?_).symm ▸ distinct.clocks
    dsimp only [Function.comp_apply]
    split <;> rfl
  · exact (extended_perm distinct.clocks known).nodup_iff.mpr (List.nodup_cons.mpr ⟨unused, distinct.lines⟩)

theorem Distinct.addDevice (distinct : Distinct b) (sound : Sound b) (wired : d.Wired)
    (success : b.addDevice d = .ok b') : Distinct b' := by
  obtain ⟨untaken, _, rfl⟩ := addDevice_success success
  refine ⟨distinct.clocks, distinct.lines, ?_, ?_⟩
  · rw [List.map_append]
    refine distinct.names.append (List.nodup_singleton _) ?_
    simp only [List.map_cons, List.map_nil, List.disjoint_singleton, List.mem_map, not_exists, not_and]
    exact sound.fresh_name untaken
  · exact List.forall_mem_append.mpr ⟨distinct.wired, List.forall_mem_singleton.mpr wired⟩

theorem Distinct.replaceDevice (distinct : Distinct b) (wired : d.Wired) : Distinct (b.replaceDevice d) := by
  refine ⟨distinct.clocks, distinct.lines, ?_, ?_⟩
  · show ((b.placed.map _).map Device.name).Nodup
    rw [List.map_map]
    refine (List.map_congr_left fun other _ => ?_).symm ▸ distinct.names
    dsimp only [Function.comp_apply]
    split
    · rename_i same
      exact same.symm
    · rfl
  · intro other member
    obtain ⟨old, placed, rfl⟩ := List.mem_map.mp member
    split
    · exact wired
    · exact distinct.wired old placed

theorem Distinct.addLine (distinct : Distinct b) {device name : String} {bit : Nat} {codec : Codec} {default : Float}
    (sound : Sound b) (success : b.addLine device name bit codec default = .ok b') : Distinct b' := by
  obtain ⟨d, d', found, added, rfl⟩ := addLine_success success
  exact distinct.replaceDevice ((distinct.wired d (sound.mem_devices.mp found)).addLine added)

theorem Distinct.apply (distinct : Distinct b) (sound : Sound b) {r : Registration} (success : r.apply b = .ok b') :
    Distinct b' := by
  cases r with
  | pseudoClock name => exact distinct.addPseudoClock success
  | clockLine clock name => exact distinct.addClockLine success
  | digitalBank line name rack address =>
    obtain ⟨_, _, success⟩ := bind_success success
    obtain ⟨d, made, added⟩ := bind_success success
    exact distinct.addDevice sound (Device.digitalBank_wired made) added
  | digitalLine bank name bit default =>
    obtain ⟨_, _, added⟩ := addDigitalLine_success success
    exact distinct.addLine sound added
  | analogOutput line name rack address tag default =>
    obtain ⟨_, _, success⟩ := bind_success success
    obtain ⟨_, _, success⟩ := bind_success success
    obtain ⟨d, made, added⟩ := bind_success success
    exact distinct.addDevice sound (Device.analogOutput_wired made) added
  | synthesizer line name rack address f a p =>
    obtain ⟨_, _, success⟩ := bind_success success
    obtain ⟨d, made, added⟩ := bind_success success
    exact distinct.addDevice sound (Device.synthesizer_wired made) added

theorem Sound.replaceDevice_self (sound : Sound b) (placed : d ∈ b.placed) : b.replaceDevice d = b := by
  have same : b.placed.map (fun other => if other.name = d.name then d else other) = b.placed := by
    refine (List.map_congr_left (g := id) fun other member => ?_).trans (List.map_id _)
    split
    · rename_i name
      exact (sound.names other member d placed name).symm
    · rfl
  unfold Board.replaceDevice
  rw [same]

/-! ### The bus map -/

/-- Who is where on the bus of a board, as its clock lines list the devices. -/
structure BusMap (b : Board) : Prop where
  racks : ∀ d ∈ b.devices, d.rack < b.config.racks
  reach : ∀ d ∈ b.devices, ∀ a ∈ d.addresses, a ≤ 0x7F
  channels : ∀ d ∈ b.devices, ∀ c ∈ d.channels, c.rack = d.rack ∧ c.place.address ∈ d.addresses
  apart : b.devices.Pairwise fun d e => d.rack = e.rack → d.addresses.Disjoint e.addresses
  synthesizers : ∀ d ∈ b.devices, d.kind = .synthesizer →
    ∃ k, d.addresses = [4 * k, 4 * k + 1, 4 * k + 2, 4 * k + 3] ∧
      d.channels.map Channel.place = [⟨4 * k, 0⟩, ⟨4 * k + 1, 0⟩, ⟨4 * k + 2, 0⟩]
  banks : ∀ d ∈ b.devices, d.kind = .digitalBank →
    (d.channels.map fun c => c.place.bit).Nodup ∧ ∀ c ∈ d.channels, c.place.bit < 16
  lineNames : b.clockLines.Nodup
  deviceNames : (b.devices.map Device.name).Nodup

theorem Distinct.deviceNames (distinct : Distinct b) : (b.devices.map Device.name).Nodup := by
  rw [devices, List.map_flatMap, List.nodup_flatMap]
  constructor
  · intro line _
    exact distinct.names.sublist (List.filter_sublist.map _)
  · refine distinct.lines.imp fun {line other} different => List.disjoint_left.mpr fun name here there => ?_
    obtain ⟨d, onLine, rfl⟩ := List.mem_map.mp here
    obtain ⟨e, onOther, same⟩ := List.mem_map.mp there
    simp only [devicesOn, List.mem_filter, beq_iff_eq] at onLine onOther
    obtain rfl := List.inj_on_of_nodup_map distinct.names onOther.1 onLine.1 same
    exact different (onLine.2.symm.trans onOther.2)

theorem busMap (sound : Sound b) (distinct : Distinct b) : b.BusMap where
  racks d listed := (sound.slots d (sound.mem_devices.mp listed)).2
  reach d listed := (sound.devices d (sound.mem_devices.mp listed)).addressed
  channels d listed := (sound.devices d (sound.mem_devices.mp listed)).placed
  apart := by
    have names := List.pairwise_map.mp distinct.deviceNames
    refine names.imp_of_mem fun {d e} first second different same => List.disjoint_left.mpr fun a own others => ?_
    refine different (congrArg Device.name ?_)
    exact sound.addresses d (sound.mem_devices.mp first) e (sound.mem_devices.mp second) same a own others
  synthesizers d listed kind := by
    obtain ⟨aligned, places⟩ := (distinct.wired d (sound.mem_devices.mp listed)).synthesizer kind
    obtain ⟨k, first⟩ := Nat.dvd_of_mod_eq_zero aligned
    rw [first] at places
    refine ⟨k, ?_, places⟩
    rw [Device.addresses, kind, first]
    rfl
  banks d listed kind := by
    have placed := sound.mem_devices.mp listed
    have shares : d.sharesAddress := by simp [Device.sharesAddress, kind]
    exact ⟨(distinct.wired d placed).bank kind, fun c member => ((sound.devices d placed).lines shares c member).2⟩
  lineNames := distinct.lines
  deviceNames := distinct.deviceNames

end Board

/-! ### Registration in place -/

/-- A program on something in its place: what it changed before an error stays changed. -/
abbrev InPlace (σ α : Type) := ExceptT BoardError (StateM σ) α

namespace InPlace
variable {σ α : Type} {t : σ}

/-- The result of a program, and what it leaves. -/
def on (p : InPlace σ α) (t : σ) : Except BoardError α × σ := p.run.run t

/-- The result of a step, with what was there before if it fails. -/
def keeping (t : σ) : Except BoardError σ → Except BoardError Unit × σ
  | .ok t' => (.ok (), t')
  | .error e => (.error e, t)

theorem keeping_eq_ok {step : Except BoardError σ} {t' : σ} : keeping t step = (.ok (), t') ↔ step = .ok t' := by
  cases step <;> simp [keeping]

theorem keeping_eq_error {step : Except BoardError σ} {e : BoardError} {t' : σ} :
    keeping t step = (.error e, t') ↔ step = .error e ∧ t' = t := by
  cases step <;> simp [keeping, eq_comm]

/-- A program that comes to the same as a step that makes everything anew. -/
def Follows (p : InPlace σ Unit) (t : σ) (step : Except BoardError σ) : Prop := p.on t = keeping t step

variable {step : Except BoardError σ} {e : BoardError}

namespace Follows

theorem set (t' : σ) : Follows (MonadStateOf.set t') t (.ok t') := rfl

theorem get {f : σ → InPlace σ Unit} (next : Follows (f t) t step) : Follows (MonadState.get >>= f) t step := next

/-- A check or a construction that changes nothing. -/
theorem lift {x : Except BoardError α} {f : α → InPlace σ Unit} {g : α → Except BoardError σ}
    (next : ∀ a, x = .ok a → Follows (f a) t (g a)) : Follows (liftM x >>= f) t (x >>= g) := by
  cases x with
  | ok a => exact next a rfl
  | error e => exact (rfl : Follows (throw e) t (.error e))

theorem guard {c : Prop} [Decidable c] {next : PUnit → InPlace σ Unit}
    (passes : ¬c → Follows (next ⟨⟩) t step) :
    Follows (if c then throw e >>= next else next ⟨⟩) t (if c then .error e else step) := by
  by_cases fails : c
  · rw [if_pos fails, if_pos fails]
    exact (rfl : Follows (throw e) t (.error e))
  · rw [if_neg fails, if_neg fails]
    exact passes fails

end Follows

end InPlace

/-- Adds a line to a digital bank in its place. -/
def Device.growLine (name : String) (bit : Nat) (codec : Codec) (default : Float) : InPlace Device Unit := do
  let grown ← (← get).addLine name bit codec default
  set grown

namespace Board

/-- Changes the device of a name in its place on the board. -/
def onDevice (name : String) (change : InPlace Device Unit) : InPlace Board Unit := do
  let b ← get
  let d ← b.device name
  let (result, d') := change.on d
  set (b.replaceDevice d')
  (result : Except BoardError Unit)

/-- Hangs a new device on its clock line, which is looked up again. -/
def insertDevice (d : Device) : InPlace Board Unit := do
  let b ← get
  if b.nameTaken d then throw (b.duplicate d.name)
  match b.collision? d with
  | some (other, address) => throw (.addressCollision b.name d.rack address d.name other.name)
  | none =>
    if d.slot.clockLine ∉ b.clockLines then throw (.unknownClockLine b.name d.slot.clockLine)
    set ({ b with placed := b.placed ++ [d] } : Board)

end Board

namespace Registration

/-- The call in place. -/
def perform : Registration → InPlace Board Unit
  | pseudoClock name => do
    let b ← get
    if b.pseudoClocks.any fun p => p.name == name then throw (b.duplicate name)
    set ({ b with pseudoClocks := b.pseudoClocks ++ [⟨name, []⟩] } : Board)
  | clockLine clock name => do
    let b ← get
    if name ∈ b.clockLines then throw (b.duplicate name)
    if !b.pseudoClocks.any fun p => p.name == clock then throw (.unknownClockLine b.name clock)
    set ({ b with pseudoClocks := b.pseudoClocks.map fun p =>
            if p.name = clock then { p with clockLines := p.clockLines ++ [name] } else p } : Board)
  | digitalBank line name rack address => do
    let slot ← (← get).slot line rack address
    Board.insertDevice (← Device.digitalBank name slot)
  | digitalLine bank name bit default => do
    let b ← get
    if (b.channel? name).isSome || (b.device? name).isSome then throw (b.duplicate name)
    let codec ← b.codec "DigitalOut"
    Board.onDevice bank (Device.growLine name bit codec (if default then 1.0 else 0.0))
  | analogOutput line name rack address tag default => do
    let slot ← (← get).slot line rack address
    let codec ← (← get).codec tag
    Board.insertDevice (← Device.analogOutput name slot codec default)
  | synthesizer line name rack address frequency amplitude phase => do
    let slot ← (← get).slot line rack address
    Board.insertDevice (← Device.synthesizer name slot (← get).registry frequency amplitude phase)

end Registration

namespace InPlace
variable {b : Board}

theorem insertDevice_follows {d : Device} (known : d.slot.clockLine ∈ b.clockLines) :
    Follows (Board.insertDevice d) b (b.addDevice d) := by
  refine .get (.guard fun _ => ?_)
  cases b.collision? d with
  | some collision => rfl
  | none =>
    dsimp only
    rw [if_neg (not_not_intro known)]
    exact .set _

theorem pseudoClock_follows (name : String) :
    Follows (Registration.pseudoClock name).perform b (b.addPseudoClock name) :=
  .get (.guard fun _ => .set _)

theorem clockLine_follows (clock name : String) :
    Follows (Registration.clockLine clock name).perform b (b.addClockLine clock name) := by
  refine .get (.guard fun _ => ?_)
  by_cases known : b.pseudoClocks.any fun p => p.name == clock
  · rw [if_pos known, if_neg (by simp only [known]; decide)]
    exact .set _
  · rw [if_neg known, if_pos (by simpa using known)]
    rfl

theorem digitalBank_follows (line name : String) (rack address : Nat) :
    Follows (Registration.digitalBank line name rack address).perform b
      (b.addDigitalBank line name rack address) := by
  refine .get (.lift fun slot found => .lift fun d made => insertDevice_follows ?_)
  rw [(Device.digitalBank_sound made).1]
  exact (Board.slot_known found).1

theorem analogOutput_follows (line name : String) (rack address : Nat) (tag : String) (default : Float) :
    Follows (Registration.analogOutput line name rack address tag default).perform b
      (b.addAnalogOutput line name rack address tag default) := by
  refine .get (.lift fun slot found => .get (.lift fun codec _ => .lift fun d made => insertDevice_follows ?_))
  rw [(Device.analogOutput_sound made).1]
  exact (Board.slot_known found).1

theorem synthesizer_follows (line name : String) (rack address : Nat) (frequency amplitude phase : Float) :
    Follows (Registration.synthesizer line name rack address frequency amplitude phase).perform b
      (b.addSynthesizer line name rack address frequency amplitude phase) := by
  refine .get (.lift fun slot found => .get (.lift fun d made => insertDevice_follows ?_))
  rw [(Device.synthesizer_sound made).1]
  exact (Board.slot_known found).1

theorem growLine_follows (d : Device) (name : String) (bit : Nat) (codec : Codec) (default : Float) :
    Follows (Device.growLine name bit codec default) d (d.addLine name bit codec default) := by
  rw [← bind_pure (d.addLine name bit codec default)]
  exact .get (.lift fun d' _ => .set d')

/-- A change of one device that comes to a step of the device comes to the same step on the board. -/
theorem onDevice_follows (sound : Board.Sound b) {name : String} {change : InPlace Device Unit}
    {step : Device → Except BoardError Device} (follows : ∀ d, Follows change d (step d)) :
    Follows (Board.onDevice name change) b (do return b.replaceDevice (← step (← b.device name))) := by
  refine .get (.lift fun d found => ?_)
  rw [follows d]
  cases step d with
  | ok d' => rfl
  | error e =>
    have same : b.replaceDevice d = b := sound.replaceDevice_self (sound.mem_devices.mp (Board.device_found found))
    show (Except.error e, b.replaceDevice d) = (Except.error e, b)
    rw [same]

theorem digitalLine_follows (sound : Board.Sound b) (bank name : String) (bit : Nat) (default : Bool) :
    Follows (Registration.digitalLine bank name bit default).perform b (b.addDigitalLine bank name bit default) := by
  refine .get (.guard fun _ => .lift fun codec _ => ?_)
  exact onDevice_follows sound fun d => growLine_follows d name bit codec _

end InPlace

open InPlace

/-- In its place a registration comes to the board that is made anew. -/
theorem Registration.perform_follows {b : Board} (sound : b.Sound) (r : Registration) :
    Follows r.perform b (r.apply b) := by
  cases r with
  | pseudoClock name => exact pseudoClock_follows name
  | clockLine clock name => exact clockLine_follows clock name
  | digitalBank line name rack address => exact digitalBank_follows line name rack address
  | digitalLine bank name bit default => exact digitalLine_follows sound bank name bit default
  | analogOutput line name rack address tag default => exact analogOutput_follows line name rack address tag default
  | synthesizer line name rack address f a p => exact synthesizer_follows line name rack address f a p

/-! ### Any sequence of registrations -/

namespace Board
variable {b fresh : Board} {config : BoardConfig}

/-- The board after calls in its place, those that fail among them. -/
def register (b : Board) (calls : List Registration) : Board := calls.foldl (fun b r => (r.perform.on b).2) b

theorem Distinct.perform (distinct : Distinct b) (sound : Sound b) (r : Registration) :
    Sound (r.perform.on b).2 ∧ Distinct (r.perform.on b).2 := by
  rw [r.perform_follows sound]
  cases applied : r.apply b with
  | ok b' => exact ⟨sound.edit (Registration.edit_of_apply applied), distinct.apply sound applied⟩
  | error e => exact ⟨sound, distinct⟩

theorem Distinct.register (distinct : Distinct b) (calls : List Registration) (sound : Sound b) :
    Sound (b.register calls) ∧ Distinct (b.register calls) := by
  induction calls generalizing b with
  | nil => exact ⟨sound, distinct⟩
  | cons r rest ih =>
    obtain ⟨sound', distinct'⟩ := distinct.perform sound r
    exact ih distinct' sound'

theorem new_distinct (success : Board.new config = .ok fresh) (registry : Registry) :
    Sound { fresh with registry } ∧ Distinct { fresh with registry } := by
  have sound := new_sound success
  obtain ⟨_, _, success⟩ := bind_success success
  cases success
  exact ⟨⟨sound.1, sound.2, sound.3, sound.4, sound.5, sound.6, sound.7⟩,
    ⟨List.nodup_nil, List.nodup_nil, List.nodup_nil, by simp⟩⟩

/-- Whatever is registered with a new board, with whatever codecs, its bus map is in order. A further registration
makes the board anew or fails, and then leaves it as it is. -/
theorem registrations_keep_bus_map (valid : Board.new config = .ok fresh) (registry : Registry)
    (calls : List Registration) :
    let b := ({ fresh with registry } : Board).register calls
    b.BusMap ∧ ∀ r : Registration,
      (∀ b', r.perform.on b = (.ok (), b') ↔ r.apply b = .ok b') ∧
      ∀ e b', r.perform.on b = (.error e, b') ↔ r.apply b = .error e ∧ b' = b := by
  intro b
  obtain ⟨sound, distinct⟩ := new_distinct valid registry
  obtain ⟨sound, distinct⟩ := distinct.register calls sound
  refine ⟨busMap sound distinct, fun r => ?_⟩
  rw [r.perform_follows sound]
  exact ⟨fun _ => keeping_eq_ok, fun _ _ => keeping_eq_error⟩

theorem emptyBoard_valid : (Board.new { name := "main" }).toOption.isSome := by decide +kernel

def emptyBoard : Board := (Board.new { name := "main" }).toOption.get emptyBoard_valid

/-- A synthesizer; an output in the place of its third channel; a bank with two lines, the second twice. -/
def crowdedCalls : List Registration :=
  [.pseudoClock "pc", .clockLine "pc" "cl", .synthesizer "cl" "dds0" 0 0x20 0.0 0.0 0.0,
    .analogOutput "cl" "ao0" 0 0x22 "DAC712" 0.0, .digitalBank "cl" "bank0" 0 5,
    .digitalLine "bank0" "shutter" 3 false, .digitalLine "bank0" "trigger" 4 true,
    .digitalLine "bank0" "trigger" 5 true]

/-- The output was refused and the second attempt at the line as well; the other parts are there. -/
theorem crowded_bus_map : Board.new { name := "main" } = .ok emptyBoard ∧
    (emptyBoard.register crowdedCalls).devices.map Device.name = ["dds0", "bank0"] ∧
    (emptyBoard.register crowdedCalls).channels.map Channel.name =
      ["dds0_freq", "dds0_amp", "dds0_phase", "shutter", "trigger"] ∧
    (emptyBoard.register crowdedCalls).BusMap := by
  have made := eq_ok_get emptyBoard_valid
  exact ⟨made, by decide +kernel, by decide +kernel, (registrations_keep_bus_map made _ crowdedCalls).1⟩

end Board

end Sequencer
