import Sequencer.Proofs.Additions
import Sequencer.Proofs.MarkerOrder

/-!
The order in which instructions and markers are added to a board does not matter.

An edit is first found its place: a channel of a device, or a tick of a rack. No edit moves a place. Two edits that
succeed one after the other succeed the other way round as well, and leave the same board up to the order in which the
markers of a rack were set; any other order is reached by such exchanges.
-/
namespace Sequencer

/-- A call that adds to the timeline of a board. -/
inductive TimelineEdit where
  /-- On the first channel of a name. -/
  | instruction (channel : String) (call : Addition)
  /-- On a channel of the device of a name. -/
  | instructionOf (device channel : String) (call : Addition)
  | marker (rack : Nat) (time : Float) (kind : Marker)

/-- The call on a channel of the name. Another one stays as it is. -/
def Channel.addNamed (channel : String) (call : Addition) (c : Channel) : Except BoardError Channel :=
  if c.name = channel then call.apply c else .ok c

/-- The call on the channels of a name. -/
def Device.addTo (d : Device) (channel : String) (call : Addition) : Except BoardError Device := do
  let channels ← d.channels.mapM (Channel.addNamed channel call)
  return { d with channels }

namespace Board

/-- An instruction on a channel of a device. -/
def addToDevice (b : Board) (device channel : String) (call : Addition) : Except BoardError Board := do
  let d ← b.device device
  if d.hasChannel channel then return b.replaceDevice (← d.addTo channel call)
  else throw (.unknownChannel b.name channel)

end Board

/-- The board after a call. -/
def TimelineEdit.apply (b : Board) : TimelineEdit → Except BoardError Board
  | instruction channel call => b.editChannel channel fun c => call.apply c
  | instructionOf device channel call => b.addToDevice device channel call
  | marker rack time kind => b.addMarker rack time kind

/-- The board after calls, if all of them succeed. -/
def Board.applyAll (b : Board) (edits : List TimelineEdit) : Except BoardError Board := edits.foldlM TimelineEdit.apply b

/-! ### Channels that change in their places -/

/-- Changes channels, given their device, but not where they are. -/
def Device.mapChannels (f : String → Channel → Channel) (d : Device) : Device :=
  { d with channels := d.channels.map (f d.name) }

def Board.mapChannels (f : String → Channel → Channel) (b : Board) : Board :=
  { b with placed := b.placed.map (Device.mapChannels f) }

/-- Channels keep their names. -/
def KeepsNames (f : String → Channel → Channel) : Prop := ∀ device c, (f device c).name = c.name

namespace Board
variable {b : Board} {f g : String → Channel → Channel}

theorem mapChannels_mapChannels (b : Board) (f g : String → Channel → Channel) :
    (b.mapChannels f).mapChannels g = b.mapChannels fun device c => g device (f device c) := by
  simp only [mapChannels, List.map_map]
  congr 2
  funext d
  simp [Device.mapChannels]

theorem mapChannels_congr (same : ∀ d ∈ b.placed, ∀ c ∈ d.channels, f d.name c = g d.name c) :
    b.mapChannels f = b.mapChannels g := by
  unfold mapChannels
  congr 1
  refine List.map_congr_left fun d placed => ?_
  unfold Device.mapChannels
  rw [List.map_congr_left (same d placed)]

theorem devices_mapChannels (b : Board) (f : String → Channel → Channel) :
    (b.mapChannels f).devices = b.devices.map (Device.mapChannels f) := by
  have each : (b.mapChannels f).devicesOn = fun line => (b.devicesOn line).map (Device.mapChannels f) := by
    funext line
    rw [devicesOn, mapChannels, List.filter_map]
    rfl
  rw [devices, devices, each, List.map_flatMap]
  rfl

theorem hasChannel_mapChannels (keeps : KeepsNames f) (d : Device) (channel : String) :
    (d.mapChannels f).hasChannel channel = d.hasChannel channel := by
  simp only [Device.hasChannel, Device.mapChannels, List.any_map, Function.comp_def, keeps d.name]

end Board

/-! ### What an edit does in its place -/

/-- An edit that has been found its place. -/
inductive PlacedEdit where
  | book (device channel : String) (call : Addition)
  | mark (rack tick : Nat) (marker : Marker)

/-- The channel with the booking that a call asks for. -/
def Channel.take (call : Addition) (c : Channel) : Channel :=
  match c.request call with
  | .ok new => { c with bookings := insertBooking new c.bookings }
  | .error _ => c

/-- The channels of one name on one device take the booking. -/
def bookOn (device channel : String) (call : Addition) (owner : String) (c : Channel) : Channel :=
  if owner = device ∧ c.name = channel then c.take call else c

/-- The call is for another channel, or it asks for an interval that is free. -/
def Ready (device channel : String) (call : Addition) (owner : String) (c : Channel) : Prop :=
  owner = device → c.name = channel → ∃ new, c.Accepts call new

namespace PlacedEdit

/-- The board after the edit. -/
def on (b : Board) : PlacedEdit → Board
  | book device channel call => b.mapChannels (bookOn device channel call)
  | mark rack tick marker => { b with tracks := b.tracks.modify rack fun t => t.mark tick marker }

/-- Every channel that the edit is for can take it. -/
def Fits (b : Board) : PlacedEdit → Prop
  | book device channel call => ∀ d ∈ b.placed, ∀ c ∈ d.channels, Ready device channel call d.name c
  | mark _ _ _ => True

end PlacedEdit

/-- Where an edit belongs. -/
def Board.place? (b : Board) : TimelineEdit → Option PlacedEdit
  | .instruction channel call => (b.devices.find? fun d => d.hasChannel channel).map fun d => .book d.name channel call
  | .instructionOf device channel call =>
    ((b.device? device).filter fun d => d.hasChannel channel).map fun d => .book d.name channel call
  | .marker rack time kind =>
    match tickFor s!"{kind.name} marker on board {b.name}" b.config.busRate time with
    | .ok tick => if rack < b.tracks.length then some (.mark rack tick kind) else none
    | .error _ => none

namespace Board

theorem place?_instruction (b : Board) (channel : String) (call : Addition) : b.place? (.instruction channel call) =
    (b.devices.find? fun d => d.hasChannel channel).map fun d => .book d.name channel call := rfl

theorem place?_instructionOf (b : Board) (device channel : String) (call : Addition) :
    b.place? (.instructionOf device channel call) =
      ((b.device? device).filter fun d => d.hasChannel channel).map fun d => .book d.name channel call := rfl

theorem place?_marker (b : Board) (rack : Nat) (time : Float) (kind : Marker) :
    b.place? (.marker rack time kind) =
      match tickFor s!"{kind.name} marker on board {b.name}" b.config.busRate time with
      | .ok tick => if rack < b.tracks.length then some (.mark rack tick kind) else none
      | .error _ => none := rfl

end Board

namespace Channel
variable {c c' : Channel} {call call' : Addition} {new : Booking}

theorem take_accepted (accepts : c.Accepts call new) :
    c.take call = { c with bookings := insertBooking new c.bookings } := by
  rw [take, accepts.1]

theorem take_of_apply (success : call.apply c = .ok c') : c' = c.take call := by
  rw [apply_eq] at success
  obtain ⟨new, requested, booked⟩ := bind_success success
  unfold book at booked
  split at booked
  · cases booked
  · rw [take, requested]
    exact (Except.ok.inj booked).symm

theorem apply_eq_take_iff (apart : Apart c.bookings) :
    call.apply c = .ok (c.take call) ↔ ∃ new, c.Accepts call new := by
  rw [apply_eq_ok_iff apart]
  exact exists_congr fun new => and_iff_left_of_imp take_accepted

theorem take_eq (c : Channel) (call : Addition) : c.take call = { c with bookings := (c.take call).bookings } := by
  unfold take
  split <;> rfl

theorem take_apart (apart : Apart c.bookings) (accepts : c.Accepts call new) : Apart (c.take call).bookings := by
  rw [take_accepted accepts]
  exact apart_insertBooking apart accepts.2

/-- Bookings that are apart may be inserted in either order. -/
theorem insertBooking_comm {first second : Booking} (clear : first.Clear second) (bookings : List Booking) :
    insertBooking first (insertBooking second bookings) = insertBooking second (insertBooking first bookings) := by
  have different : first.start < second.start ∨ second.start < first.start := by
    have := first.start_lt_stop
    have := second.start_lt_stop
    unfold Booking.Clear at clear
    omega
  induction bookings with
  | nil => rcases different with less | less <;> simp [insertBooking, less, Nat.lt_asymm less]
  | cons b rest ih =>
    by_cases before : first.start < b.start <;> by_cases before' : second.start < b.start
    · rcases different with less | less <;> simp [insertBooking, before, before', less, Nat.lt_asymm less]
    · have : first.start < second.start := by omega
      simp [insertBooking, before, before', Nat.lt_asymm this]
    · have : second.start < first.start := by omega
      simp [insertBooking, before, before', Nat.lt_asymm this]
    · simp [insertBooking, before, before', ih]

/-- What a channel takes twice in a row it takes the other way round. -/
theorem take_comm {new' : Booking} (accepts : c.Accepts call new) (accepts' : (c.take call).Accepts call' new') :
    c.Accepts call' new' ∧ (c.take call').Accepts call new ∧ (c.take call').take call = (c.take call).take call' := by
  rw [take_accepted accepts] at accepts' ⊢
  have clear : new.Clear new' := accepts'.2 new (mem_insertBooking.mpr (.inl rfl))
  have early : c.Accepts call' new' := ⟨accepts'.1, fun b member => accepts'.2 b (mem_insertBooking.mpr (.inr member))⟩
  rw [take_accepted accepts', take_accepted early]
  have late : Accepts { c with bookings := insertBooking new' c.bookings } call new := by
    refine ⟨accepts.1, fun b member => ?_⟩
    rcases mem_insertBooking.mp member with rfl | booked
    · exact clear.symm
    · exact accepts.2 b booked
  refine ⟨early, late, ?_⟩
  rw [take_accepted late, insertBooking_comm clear]

end Channel

/-! ### Edits in their places -/

section
variable {device channel : String} {call : Addition} {owner : String} {c : Channel}

theorem bookOn_here (call : Addition) (here : owner = device ∧ c.name = channel) :
    bookOn device channel call owner c = c.take call := if_pos here

theorem bookOn_elsewhere (call : Addition) (elsewhere : ¬(owner = device ∧ c.name = channel)) :
    bookOn device channel call owner c = c := if_neg elsewhere

theorem bookOn_eq (device channel : String) (call : Addition) (owner : String) (c : Channel) :
    bookOn device channel call owner c = { c with bookings := (bookOn device channel call owner c).bookings } := by
  unfold bookOn
  split
  · exact c.take_eq call
  · rfl

theorem bookOn_keepsNames (device channel : String) (call : Addition) : KeepsNames (bookOn device channel call) :=
  fun owner c => by rw [bookOn_eq]

theorem bookOn_of_addNamed {c' : Channel} (success : c.addNamed channel call = .ok c') :
    c' = bookOn owner channel call owner c := by
  unfold Channel.addNamed at success
  split at success
  · rename_i named
    rw [bookOn_here call ⟨rfl, named⟩]
    exact Channel.take_of_apply success
  · rename_i other
    rw [bookOn_elsewhere call fun here => other here.2]
    exact (Except.ok.inj success).symm

theorem addNamed_eq_bookOn_iff (apart : Channel.Apart c.bookings) :
    c.addNamed channel call = .ok (bookOn owner channel call owner c) ↔ Ready owner channel call owner c := by
  by_cases named : c.name = channel
  · rw [Channel.addNamed, if_pos named, bookOn_here call ⟨rfl, named⟩, Channel.apply_eq_take_iff apart]
    simp [Ready, named]
  · rw [Channel.addNamed, if_neg named, bookOn_elsewhere call fun here => named here.2]
    simp [Ready, named]

/-- What two calls do to a channel, on whichever channels they are. -/
theorem bookOn_comm {device' channel' : String} {call' : Addition} (ready : Ready device channel call owner c)
    (ready' : Ready device' channel' call' owner (bookOn device channel call owner c)) :
    Ready device' channel' call' owner c ∧ Ready device channel call owner (bookOn device' channel' call' owner c) ∧
      bookOn device channel call owner (bookOn device' channel' call' owner c) =
        bookOn device' channel' call' owner (bookOn device channel call owner c) := by
  have name := bookOn_keepsNames device channel call owner c
  have name' := bookOn_keepsNames device' channel' call' owner c
  by_cases here : owner = device ∧ c.name = channel
  · by_cases there : owner = device' ∧ c.name = channel'
    · obtain ⟨new, accepts⟩ := ready here.1 here.2
      obtain ⟨new', accepts'⟩ := ready' there.1 (name.trans there.2)
      rw [bookOn_here call here] at accepts'
      obtain ⟨early, late, same⟩ := Channel.take_comm accepts accepts'
      refine ⟨fun _ _ => ⟨new', early⟩, fun _ _ => ⟨new, ?_⟩, ?_⟩
      · rw [bookOn_here call' there]
        exact late
      · rw [bookOn_here call ⟨here.1, name'.trans here.2⟩, bookOn_here call' ⟨there.1, name.trans there.2⟩,
          bookOn_here call' there, bookOn_here call here, same]
    · rw [bookOn_elsewhere call' there, bookOn_elsewhere call' fun other => there ⟨other.1, name.symm.trans other.2⟩]
      exact ⟨fun own named => absurd ⟨own, named⟩ there, ready, rfl⟩
  · rw [bookOn_elsewhere call here] at ready' ⊢
    rw [bookOn_elsewhere call fun other => here ⟨other.1, name'.symm.trans other.2⟩]
    exact ⟨ready', fun own named => absurd ⟨own, name'.symm.trans named⟩ here, rfl⟩

end

namespace Board
variable {b b' c : Board} {d d' : Device} {f : String → Channel → Channel} {p q : PlacedEdit} {e e' : TimelineEdit}

/-- No edit moves a place. -/
theorem place?_mapChannels (keeps : KeepsNames f) (b : Board) (e : TimelineEdit) :
    (b.mapChannels f).place? e = b.place? e := by
  have named (channel : String) : ((fun d : Device => d.hasChannel channel) ∘ Device.mapChannels f) =
      fun d => d.hasChannel channel := funext fun d => hasChannel_mapChannels keeps d channel
  cases e with
  | instruction channel call =>
    rw [place?_instruction, devices_mapChannels, List.find?_map, named, Option.map_map]
    rfl
  | instructionOf device channel call =>
    have found : (b.mapChannels f).device? device = (b.device? device).map (Device.mapChannels f) := by
      rw [device?, devices_mapChannels, List.find?_map]
      rfl
    rw [place?_instructionOf, found, place?_instructionOf]
    cases b.device? device with
    | none => rfl
    | some d =>
      rw [Option.map_some, Option.filter_some, Option.filter_some, hasChannel_mapChannels keeps]
      split <;> rfl
  | marker rack time kind => rfl

theorem tracks_on (p : PlacedEdit) (b : Board) : (p.on b).tracks.length = b.tracks.length := by
  cases p with
  | book device channel call => rfl
  | mark rack tick marker => exact List.length_modify ..

theorem place?_on (p : PlacedEdit) (b : Board) (e : TimelineEdit) : (p.on b).place? e = b.place? e := by
  cases p with
  | book device channel call => exact place?_mapChannels (bookOn_keepsNames device channel call) b e
  | mark rack tick marker =>
    cases e with
    | instruction channel call => rfl
    | instructionOf device channel call => rfl
    | marker rack' time kind =>
      rw [place?_marker, place?_marker, tracks_on]
      rfl

/-! ### Success -/

theorem addTo_eq_ok_iff (sound : d.Sound) {channel : String} {call : Addition} : d.addTo channel call = .ok d' ↔
    (∀ c ∈ d.channels, Ready d.name channel call d.name c) ∧ d' = d.mapChannels (bookOn d.name channel call) := by
  have each : ∀ c c', Channel.addNamed channel call c = .ok c' → c' = bookOn d.name channel call d.name c :=
    fun _ _ => bookOn_of_addNamed
  constructor
  · intro success
    obtain ⟨channels, made, success⟩ := bind_success success
    cases success
    obtain ⟨all, rfl⟩ := (mapM_eq_ok_iff each).mp made
    exact ⟨fun c member => (addNamed_eq_bookOn_iff (sound.apart c member)).mp (all c member), rfl⟩
  · rintro ⟨ready, rfl⟩
    have all := fun c member => (addNamed_eq_bookOn_iff (sound.apart c member)).mpr (ready c member)
    rw [Device.addTo, (mapM_eq_ok_iff each).mpr ⟨all, rfl⟩]
    rfl

theorem replaceDevice_mapChannels (sound : Sound b) (placed : d ∈ b.placed) (channel : String) (call : Addition) :
    b.replaceDevice (d.mapChannels (bookOn d.name channel call)) = b.mapChannels (bookOn d.name channel call) := by
  unfold replaceDevice Board.mapChannels
  congr 1
  refine List.map_congr_left fun other member => ?_
  by_cases same : other.name = d.name
  · obtain rfl := sound.names other member d placed same
    exact if_pos rfl
  · have untouched : other.channels.map (bookOn d.name channel call other.name) = other.channels :=
      (List.map_congr_left fun c _ => bookOn_elsewhere call fun here => same here.1).trans (List.map_id _)
    exact (if_neg same).trans (by rw [Device.mapChannels, untouched])

theorem replaceDevice_addTo_eq_ok_iff (sound : Sound b) (placed : d ∈ b.placed) {channel : String} {call : Addition} :
    (do return b.replaceDevice (← d.addTo channel call)) = Except.ok b' ↔
      (PlacedEdit.book d.name channel call).Fits b ∧ b' = (PlacedEdit.book d.name channel call).on b := by
  have fits : (PlacedEdit.book d.name channel call).Fits b ↔
      ∀ c ∈ d.channels, Ready d.name channel call d.name c := by
    refine ⟨fun fits => fits d placed, fun ready other member c inside own => ?_⟩
    obtain rfl := sound.names other member d placed own
    exact ready c inside rfl
  rw [fits, PlacedEdit.on, ← replaceDevice_mapChannels sound placed]
  constructor
  · intro success
    obtain ⟨d', made, success⟩ := bind_success success
    cases success
    obtain ⟨ready, rfl⟩ := (addTo_eq_ok_iff (sound.devices d placed)).mp made
    exact ⟨ready, rfl⟩
  · rintro ⟨ready, rfl⟩
    rw [(addTo_eq_ok_iff (sound.devices d placed)).mpr ⟨ready, rfl⟩]
    rfl

theorem apply_instruction (b : Board) (channel : String) (call : Addition) :
    (TimelineEdit.instruction channel call).apply b = match b.devices.find? fun d => d.hasChannel channel with
      | none => .error (.unknownChannel b.name channel)
      | some d => do return b.replaceDevice (← d.addTo channel call) := by
  show b.editChannel channel _ = _
  unfold editChannel
  cases b.devices.find? fun d => d.hasChannel channel with
  | none => rfl
  | some d =>
    simp only [Device.addTo, bind_assoc]
    rfl

theorem apply_instructionOf (b : Board) (device channel : String) (call : Addition) :
    (TimelineEdit.instructionOf device channel call).apply b = match b.device? device with
      | none => .error (.unknownDevice b.name device)
      | some d =>
        if d.hasChannel channel then do return b.replaceDevice (← d.addTo channel call)
        else .error (.unknownChannel b.name channel) := by
  show b.addToDevice device channel call = _
  unfold addToDevice Board.device
  cases b.device? device with
  | none => rfl
  | some d => rfl

/-- An edit succeeds if it belongs somewhere and fits there. -/
theorem apply_eq_ok_iff (sound : Sound b) : e.apply b = .ok b' ↔ ∃ p, b.place? e = some p ∧ p.Fits b ∧ b' = p.on b := by
  cases e with
  | instruction channel call =>
    rw [apply_instruction, place?_instruction]
    cases found : b.devices.find? fun d => d.hasChannel channel with
    | none => simp
    | some d =>
      have placed := sound.mem_devices.mp (List.mem_of_find?_eq_some found)
      simp only [Option.map_some, Option.some.injEq, exists_eq_left']
      exact replaceDevice_addTo_eq_ok_iff sound placed
  | instructionOf device channel call =>
    rw [apply_instructionOf, place?_instructionOf]
    cases found : b.device? device with
    | none => simp
    | some d =>
      have placed := sound.mem_devices.mp (List.mem_of_find?_eq_some found)
      cases known : d.hasChannel channel with
      | false => simp [known]
      | true =>
        simp only [Option.filter_some, known, ↓reduceIte, Option.map_some, Option.some.injEq, exists_eq_left']
        exact replaceDevice_addTo_eq_ok_iff sound placed
  | marker rack time kind =>
    show b.addMarker rack time kind = .ok b' ↔ _
    rw [addMarker, place?_marker]
    cases tickFor s!"{kind.name} marker on board {b.name}" b.config.busRate time with
    | error error => simp [bind, Except.bind]
    | ok tick =>
      by_cases exists_ : rack < b.tracks.length
      · simp [exists_, bind, Except.bind, pure, Except.pure, PlacedEdit.Fits, PlacedEdit.on, eq_comm]
      · simp [exists_, bind, Except.bind, throw, throwThe, MonadExceptOf.throw]

theorem apply_marker_zero {rack : Nat} (kind : Marker) (there : rack < b.tracks.length) :
    (TimelineEdit.marker rack 0.0 kind).apply b = .ok ((PlacedEdit.mark rack 0 kind).on b) := by
  show b.addMarker rack 0.0 kind = _
  rw [addMarker, tickFor_zero]
  exact if_pos there

/-! ### Exchanges -/

theorem Sound.on (sound : Sound b) (fits : p.Fits b) : Sound (p.on b) := by
  cases p with
  | mark rack tick marker => exact sound.mark rack tick marker
  | book device channel call =>
    refine sound.mapPlaced _ fun d placed => ⟨rfl, rfl, rfl, ?_⟩
    refine (sound.devices d placed).mapChannels (mapM_total (fun c => rfl) d.channels) fun c member c' edited => ?_
    obtain rfl := Except.ok.inj edited
    rw [bookOn_eq]
    refine ⟨rfl, rfl, ?_⟩
    have apart := (sound.devices d placed).apart c member
    by_cases here : d.name = device ∧ c.name = channel
    · obtain ⟨new, accepts⟩ := fits d placed c member here.1 here.2
      rw [bookOn_here call here]
      exact Channel.take_apart apart accepts
    · rw [bookOn_elsewhere call here]
      exact apart

/-- What fits after another edit fits before it, and the other one fits afterwards. -/
theorem exchange (fits : p.Fits b) (fits' : q.Fits (p.on b)) :
    q.Fits b ∧ p.Fits (q.on b) ∧ (q.on (p.on b)).Alike (p.on (q.on b)) := by
  cases p with
  | book device channel call =>
    cases q with
    | book device' channel' call' =>
      have after : ∀ d ∈ b.placed, ∀ c ∈ d.channels, Ready device' channel' call' d.name
          (bookOn device channel call d.name c) := fun d placed c member =>
        fits' _ (List.mem_map_of_mem placed) _ (List.mem_map_of_mem member)
      have comm := fun d placed c member => bookOn_comm (fits d placed c member) (after d placed c member)
      refine ⟨fun d placed c member => (comm d placed c member).1, ?_, ?_⟩
      · intro d' placed' c' member'
        obtain ⟨d, placed, rfl⟩ := List.mem_map.mp placed'
        obtain ⟨c, member, rfl⟩ := List.mem_map.mp member'
        exact (comm d placed c member).2.1
      · have same : (PlacedEdit.book device' channel' call').on ((PlacedEdit.book device channel call).on b) =
            (PlacedEdit.book device channel call).on ((PlacedEdit.book device' channel' call').on b) := by
          simp only [PlacedEdit.on, mapChannels_mapChannels]
          exact mapChannels_congr fun d placed c member => (comm d placed c member).2.2.symm
        rw [same]
        exact .refl _
    | mark rack tick marker => exact ⟨trivial, fits, .refl _⟩
  | mark rack tick marker =>
    cases q with
    | book device' channel' call' => exact ⟨fits', trivial, .refl _⟩
    | mark rack' tick' marker' =>
      exact ⟨trivial, trivial, rfl, modify_comm (fun t => t.mark_comm tick tick' marker marker') b.tracks rack rack'⟩

theorem applyAll_cons {rest : List TimelineEdit} (first : e.apply b = .ok b') (success : b'.applyAll rest = .ok c) :
    b.applyAll (e :: rest) = .ok c := by
  rw [applyAll, List.foldlM_cons, first]
  exact success

namespace Alike

theorem place? (alike : b.Alike c) (e : TimelineEdit) : c.place? e = b.place? e := by
  cases e with
  | instruction channel call => rw [place?_instruction, place?_instruction, alike.devices]
  | instructionOf device channel call => rw [place?_instructionOf, place?_instructionOf, device?, device?, alike.devices]
  | marker rack time kind =>
    rw [place?_marker, place?_marker, name, name, alike.config, alike.tracks.length_eq]

theorem on (alike : b.Alike c) (p : PlacedEdit) : (p.on b).Alike (p.on c) := by
  obtain ⟨others, tracks⟩ := alike
  rw [others]
  cases p with
  | book device channel call => exact ⟨rfl, tracks⟩
  | mark rack tick marker => exact ⟨rfl, modify_alike (fun _ _ same => same.mark tick marker) rack tracks⟩

theorem fits (alike : b.Alike c) : p.Fits b ↔ p.Fits c := by
  rw [alike.others]
  cases p <;> rfl

theorem trans {d : Board} (alike : b.Alike c) (alike' : c.Alike d) : b.Alike d := by
  refine ⟨?_, alike_trans alike.tracks alike'.tracks⟩
  rw [alike'.others, alike.others]

/-- An edit that succeeds on a board succeeds on one like it. -/
theorem apply (alike : b.Alike c) (sound : Sound b) (success : e.apply b = .ok b') :
    Sound b' ∧ ∃ c', e.apply c = .ok c' ∧ b'.Alike c' := by
  obtain ⟨p, found, fits, rfl⟩ := (apply_eq_ok_iff sound).mp success
  refine ⟨sound.on fits, p.on c, ?_, alike.on p⟩
  exact (apply_eq_ok_iff (alike.sound sound)).mpr ⟨p, (alike.place? e).trans found, alike.fits.mp fits, rfl⟩

theorem applyAll {edits : List TimelineEdit} (alike : b.Alike c) (sound : Sound b) (success : b.applyAll edits = .ok b') :
    ∃ c', c.applyAll edits = .ok c' ∧ b'.Alike c' := by
  induction edits generalizing b c with
  | nil =>
    cases success
    exact ⟨c, rfl, alike⟩
  | cons e rest ih =>
    obtain ⟨next, applied, success⟩ := bind_success success
    obtain ⟨sound', next', applied', alike'⟩ := alike.apply sound applied
    obtain ⟨c', success', alike''⟩ := ih alike' sound' success
    exact ⟨c', applyAll_cons applied' success', alike''⟩

end Alike

/-- Two edits in a row. -/
theorem apply_exchange (sound : Sound b) (first : e.apply b = .ok b') (second : e'.apply b' = .ok c) :
    ∃ b'' c', e'.apply b = .ok b'' ∧ e.apply b'' = .ok c' ∧ c.Alike c' := by
  obtain ⟨p, found, fits, rfl⟩ := (apply_eq_ok_iff sound).mp first
  obtain ⟨q, found', fits', rfl⟩ := (apply_eq_ok_iff (sound.on fits)).mp second
  rw [place?_on] at found'
  obtain ⟨early, late, alike⟩ := exchange fits fits'
  refine ⟨q.on b, p.on (q.on b), (apply_eq_ok_iff sound).mpr ⟨q, found', early, rfl⟩, ?_, alike⟩
  exact (apply_eq_ok_iff (sound.on early)).mpr ⟨p, (place?_on q b e).trans found, late, rfl⟩

/-- Edits that succeed in one order succeed in any other. -/
theorem applyAll_perm {edits edits' : List TimelineEdit} (reordered : edits.Perm edits') (sound : Sound b)
    (success : b.applyAll edits = .ok b') : ∃ c, b.applyAll edits' = .ok c ∧ b'.Alike c := by
  induction reordered generalizing b b' with
  | nil => exact ⟨b', success, .refl b'⟩
  | cons e _ ih =>
    obtain ⟨next, applied, success⟩ := bind_success success
    obtain ⟨p, _, fits, rfl⟩ := (apply_eq_ok_iff sound).mp applied
    obtain ⟨c, success', alike⟩ := ih (sound.on fits) success
    exact ⟨c, applyAll_cons applied success', alike⟩
  | swap e e' rest =>
    obtain ⟨next, first, success⟩ := bind_success success
    obtain ⟨last, second, success⟩ := bind_success success
    obtain ⟨next', last', first', second', alike⟩ := apply_exchange sound first second
    have soundNext := ((Alike.refl b).apply sound first).1
    have soundLast := ((Alike.refl next).apply soundNext second).1
    obtain ⟨c, success', alike'⟩ := alike.applyAll soundLast success
    exact ⟨c, applyAll_cons first' (applyAll_cons second' success'), alike'⟩
  | trans _ _ ih ih' =>
    obtain ⟨c, success', alike⟩ := ih sound success
    obtain ⟨c', success'', alike'⟩ := ih' sound success'
    exact ⟨c', success'', alike.trans alike'⟩

theorem Sound.applyAll {edits : List TimelineEdit} (sound : Sound b) (success : b.applyAll edits = .ok b') : Sound b' := by
  induction edits generalizing b with
  | nil =>
    cases success
    exact sound
  | cons e rest ih =>
    obtain ⟨next, applied, success⟩ := bind_success success
    exact ih ((Alike.refl b).apply sound applied).1 success

/-- Instructions and markers that can be added in one order can be added in any other, and the compiler then makes the
same of the board, be it a stream or an error. Every board that can be built is sound (`Built.sound`). -/
theorem edit_order_does_not_matter (sound : Sound b) {edits edits' : List TimelineEdit} (reordered : edits.Perm edits')
    (success : b.applyAll edits = .ok b') :
    ∃ c, b.applyAll edits' = .ok c ∧ ∀ stopTime, c.compile stopTime = b'.compile stopTime := by
  obtain ⟨c, success', alike⟩ := applyAll_perm reordered sound success
  exact ⟨c, success', alike.compile (sound.applyAll success)⟩

/-- A board with a line, an output and a synthesizer. -/
def equipped : Board := emptyBoard.register crowdedCalls

theorem equipped_sound : Sound equipped := by
  obtain ⟨sound, distinct⟩ := new_distinct (eq_ok_get emptyBoard_valid) emptyBoard.registry
  exact (distinct.register crowdedCalls sound).1

/-- An instruction and two markers at time zero. -/
def editsAtZero : List TimelineEdit :=
  [.instruction "shutter" Channel.resetAtZero, .marker 0 0.0 .stop, .marker 0 0.0 .interrupt]

theorem equipped_any_order : ∃ b b', equipped.applyAll editsAtZero = .ok b ∧
    equipped.applyAll editsAtZero.reverse = .ok b' ∧ ∀ stopTime, b'.compile stopTime = b.compile stopTime := by
  have known : (equipped.devices.find? fun d => d.hasChannel "shutter").isSome := by decide +kernel
  obtain ⟨d, found⟩ := Option.isSome_iff_exists.mp known
  have unedited : ∀ d ∈ equipped.placed, ∀ c ∈ d.channels, c.bookings.isEmpty = true := by decide +kernel
  have fits : (PlacedEdit.book d.name "shutter" Channel.resetAtZero).Fits equipped := fun d placed c member _ _ => by
    have quantised : c.interval Channel.resetAtZero.time Channel.resetAtZero.hold = .ok (0, 1, true) := c.interval_zero
    obtain ⟨new, requested, _⟩ := Channel.request_of_interval quantised Nat.one_pos
    exact ⟨new, requested, by simp [List.isEmpty_iff.mp (unedited d placed c member)]⟩
  have booked := (apply_eq_ok_iff equipped_sound).mpr ⟨_, (place?_instruction ..).trans (congrArg _ found), fits, rfl⟩
  have racks : 0 < equipped.tracks.length := by decide +kernel
  have stopped := apply_marker_zero (b := (PlacedEdit.book d.name "shutter" Channel.resetAtZero).on equipped) .stop
    (by rwa [tracks_on])
  have interrupted := apply_marker_zero
    (b := (PlacedEdit.mark 0 0 .stop).on ((PlacedEdit.book d.name "shutter" Channel.resetAtZero).on equipped)) .interrupt
    (by rwa [tracks_on, tracks_on])
  have success : equipped.applyAll editsAtZero = .ok _ :=
    applyAll_cons booked (applyAll_cons stopped (applyAll_cons interrupted rfl))
  obtain ⟨b', success', same⟩ := edit_order_does_not_matter equipped_sound (List.reverse_perm editsAtZero).symm success
  exact ⟨_, b', success, success', same⟩

end Board

end Sequencer
