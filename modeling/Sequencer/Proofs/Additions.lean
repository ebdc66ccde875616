import Mathlib.Order.CompletePartialOrder
import Mathlib.Order.Interval.Set.Disjoint
import Sequencer.Proofs.BusMap
import Sequencer.Proofs.TimeZero

/-!
Any sequence of instructions that are added to a channel, those that are refused among them.

`clash?` looks at the next booking and at the one before only. As the bookings are apart it sees every overlap that way:
a call is accepted exactly if its interval meets that of no booking.
-/
namespace Sequencer

/-- A call that adds an instruction to a channel. -/
structure Addition where
  instruction : Instruction
  time : Float
  hold : Option Hold

/-- The channel with the new instruction. -/
def Addition.apply (c : Channel) (call : Addition) : Except BoardError Channel :=
  c.add call.instruction call.time call.hold

/-- The ticks of a booking. -/
def Booking.span (b : Booking) : Set Nat := Set.Ico b.start b.stop

/-- Neither overlaps the other. -/
def Booking.Clear (a b : Booking) : Prop := a.stop ≤ b.start ∨ b.stop ≤ a.start

namespace Booking
variable {a b : Booking}

theorem Clear.symm (clear : a.Clear b) : b.Clear a := Or.symm clear

theorem disjoint_span_iff {start stop : Nat} (nonempty : start < stop) :
    Disjoint (Set.Ico start stop) b.span ↔ stop ≤ b.start ∨ b.stop ≤ start := by
  have := b.start_lt_stop
  rw [span, Set.Ico_disjoint_Ico]
  omega

theorem clear_iff : a.Clear b ↔ Disjoint a.span b.span := (disjoint_span_iff a.start_lt_stop).symm

end Booking

namespace Channel
variable {c c' : Channel} {bookings : List Booking} {new : Booking}

/-! ### One call -/

theorem clash_eq_none_iff (apart : Apart bookings) : clash? bookings new = none ↔ ∀ b ∈ bookings, b.Clear new := by
  refine ⟨fun free b member => apart_of_clash_eq_none apart free member, fun clear => ?_⟩
  have next : (bookings.find? fun b => new.start ≤ b.start).filter (fun b => b.start < new.stop) = none := by
    refine Option.filter_eq_none_iff.mpr fun b found => ?_
    have later := List.find?_some found
    have := clear b (List.mem_of_find?_eq_some found)
    have := b.start_lt_stop
    simp only [decide_eq_true_eq, Booking.Clear] at *
    omega
  have previous : (bookings.filter fun b => b.start < new.start).getLast?.filter (fun b => new.start < b.stop) =
      none := by
    refine Option.filter_eq_none_iff.mpr fun b found => ?_
    obtain ⟨member, earlier⟩ := List.mem_filter.mp (List.mem_of_getLast? found)
    have := clear b member
    have := new.start_lt_stop
    simp only [decide_eq_true_eq, Booking.Clear] at *
    omega
  rw [clash?, next, previous]
  rfl

theorem book_eq_ok_iff (apart : Apart c.bookings) : c.book new = .ok c' ↔
    (∀ b ∈ c.bookings, b.Clear new) ∧ c' = { c with bookings := insertBooking new c.bookings } := by
  rw [← clash_eq_none_iff apart, book]
  cases clash? c.bookings new <;> simp [eq_comm]

/-- The booking that a call asks for. -/
def request (c : Channel) (call : Addition) : Except BoardError Booking := do
  let (start, stop, keep) ← c.interval call.time call.hold
  Booking.build start stop c.rampStep keep call.instruction

theorem apply_eq (c : Channel) (call : Addition) : call.apply c = c.request call >>= c.book := by
  unfold Addition.apply add request
  cases c.interval call.time call.hold <;> rfl

theorem build_eq_ok_iff {start stop step : Nat} {keep : Bool} {instruction : Instruction} :
    Booking.build start stop step keep instruction = .ok new ↔
      new.start = start ∧ new.stop = stop ∧ new.step = max step 1 ∧ new.keep = keep ∧ new.instruction = instruction := by
  by_cases nonempty : start < stop
  · rw [Booking.build, Booking.of?, dif_pos nonempty]
    cases new
    simp [eq_comm]
  · rw [Booking.build, Booking.of?, dif_neg nonempty]
    refine iff_of_false nofun ?_
    rintro ⟨rfl, rfl, _⟩
    exact nonempty new.start_lt_stop

theorem request_eq_ok_iff {call : Addition} : c.request call = .ok new ↔
    c.interval call.time call.hold = .ok (new.start, new.stop, new.keep) ∧
      new.step = max c.rampStep 1 ∧ new.instruction = call.instruction := by
  constructor
  · intro requested
    obtain ⟨⟨start, stop, keep⟩, quantised, built⟩ := bind_success requested
    obtain ⟨rfl, rfl, step, rfl, instruction⟩ := build_eq_ok_iff.mp built
    exact ⟨quantised, step, instruction⟩
  · rintro ⟨quantised, step, instruction⟩
    rw [request, quantised]
    exact build_eq_ok_iff.mpr ⟨rfl, rfl, step, rfl, instruction⟩

/-- A call whose times are ticks asks for a booking unless its interval is empty. -/
theorem request_of_interval {call : Addition} {start stop : Nat} {keep : Bool}
    (quantised : c.interval call.time call.hold = .ok (start, stop, keep)) (nonempty : start < stop) :
    ∃ new, c.request call = .ok new ∧ new.start = start ∧ new.stop = stop :=
  ⟨⟨start, stop, max c.rampStep 1, keep, call.instruction, nonempty, by omega⟩,
    request_eq_ok_iff.mpr ⟨quantised, rfl, rfl⟩, rfl, rfl⟩

/-- A single write at time zero. -/
theorem interval_zero (c : Channel) : c.interval 0.0 none = .ok (0, 1, true) := by
  simp only [interval, tickFor_zero]
  rfl

/-- The channel takes the booking that a call asks for. -/
def Accepts (c : Channel) (call : Addition) (new : Booking) : Prop :=
  c.request call = .ok new ∧ ∀ b ∈ c.bookings, b.Clear new

theorem apply_eq_ok_iff (apart : Apart c.bookings) {call : Addition} : call.apply c = .ok c' ↔
    ∃ new, c.Accepts call new ∧ c' = { c with bookings := insertBooking new c.bookings } := by
  rw [apply_eq]
  cases requested : c.request call with
  | error e => simp [bind, Except.bind, Accepts, requested]
  | ok new =>
    show c.book new = .ok c' ↔ _
    rw [book_eq_ok_iff apart]
    simp [Accepts, requested, and_assoc]

/-- A call is accepted if its interval is not empty and meets no booking. -/
theorem accepted_iff (apart : Apart c.bookings) {call : Addition} {start stop : Nat} {keep : Bool}
    (quantised : c.interval call.time call.hold = .ok (start, stop, keep)) :
    (∃ c', call.apply c = .ok c') ↔ start < stop ∧ ∀ b ∈ c.bookings, Disjoint (Set.Ico start stop) b.span := by
  constructor
  · rintro ⟨c', applied⟩
    obtain ⟨new, ⟨requested, free⟩, _⟩ := (apply_eq_ok_iff apart).mp applied
    cases quantised.symm.trans (request_eq_ok_iff.mp requested).1
    exact ⟨new.start_lt_stop, fun b member => Booking.clear_iff.mp (free b member).symm⟩
  · rintro ⟨nonempty, free⟩
    obtain ⟨new, requested, rfl, rfl⟩ := request_of_interval quantised nonempty
    have clear : ∀ b ∈ c.bookings, b.Clear new := fun b member => (Booking.clear_iff.mpr (free b member)).symm
    exact ⟨_, (apply_eq_ok_iff apart).mpr ⟨new, ⟨requested, clear⟩, rfl⟩⟩

theorem insertBooking_perm (new : Booking) (bookings : List Booking) :
    (insertBooking new bookings).Perm (new :: bookings) := by
  induction bookings with
  | nil => exact List.Perm.refl _
  | cons first rest ih =>
    unfold insertBooking
    split
    · exact List.Perm.refl _
    · exact (ih.cons first).trans (.swap new first rest)

end Channel

/-! ### Calls in place -/

/-- The call in place: the channel is changed last, when all has been checked. -/
def Addition.perform (call : Addition) : InPlace Channel Unit := do
  let new ← (← get).request call
  let c ← get
  match Channel.clash? c.bookings new with
  | some existing => throw (.duplicateInstruction c.name new.text existing.text)
  | none => set { c with bookings := Channel.insertBooking new c.bookings }

namespace Channel
variable {c c' : Channel} {call : Addition}

theorem perform_follows (c : Channel) (call : Addition) : InPlace.Follows call.perform c (call.apply c) := by
  rw [apply_eq]
  refine .get (.lift fun new _ => .get ?_)
  rw [book]
  cases clash? c.bookings new <;> rfl

/-! ### Any sequence of calls -/

/-- The channel after calls. One that is refused leaves it as it is. -/
def receive (c : Channel) (calls : List Addition) : Channel :=
  calls.foldl (fun c call => (InPlace.keeping c (call.apply c)).2) c

/-- The booking of a call if it is accepted. -/
def acceptedOf (c : Channel) (call : Addition) : List Booking :=
  match call.apply c, c.request call with
  | .ok _, .ok new => [new]
  | _, _ => []

/-- The bookings of the calls that are accepted, in the order of the calls. -/
def accepted (c : Channel) : List Addition → List Booking
  | [] => []
  | call :: rest => c.acceptedOf call ++ accepted (InPlace.keeping c (call.apply c)).2 rest

/-- A call is accepted and takes its booking in, or it is refused. -/
theorem apply_cases (apart : Apart c.bookings) (call : Addition) :
    (∃ new, c.Accepts call new ∧ c.acceptedOf call = [new] ∧
      call.apply c = .ok { c with bookings := insertBooking new c.bookings }) ∨
    (∃ e, (∀ new, ¬c.Accepts call new) ∧ c.acceptedOf call = [] ∧ call.apply c = .error e) := by
  cases applied : call.apply c with
  | ok c' =>
    obtain ⟨new, accepts, rfl⟩ := (apply_eq_ok_iff apart).mp applied
    exact .inl ⟨new, accepts, by simp [acceptedOf, applied, accepts.1], rfl⟩
  | error e =>
    refine .inr ⟨e, fun new accepts => ?_, by simp [acceptedOf, applied], rfl⟩
    cases applied.symm.trans ((apply_eq_ok_iff apart).mpr ⟨new, accepts, rfl⟩)

theorem keeping_spec (apart : Apart c.bookings) (call : Addition) :
    let c' := (InPlace.keeping c (call.apply c)).2
    Apart c'.bookings ∧ c'.bookings.Perm (c.bookings ++ c.acceptedOf call) ∧ c' = { c with bookings := c'.bookings } := by
  rcases apply_cases apart call with ⟨new, accepts, accepted, applied⟩ | ⟨e, _, accepted, applied⟩
  · rw [applied, accepted]
    refine ⟨apart_insertBooking apart accepts.2, (insertBooking_perm new _).trans ?_, rfl⟩
    exact (List.perm_append_singleton new c.bookings).symm
  · rw [applied, accepted, List.append_nil]
    exact ⟨apart, List.Perm.refl _, rfl⟩

theorem receive_spec (apart : Apart c.bookings) (calls : List Addition) :
    Apart (c.receive calls).bookings ∧
      (c.receive calls).bookings.Perm (c.bookings ++ c.accepted calls) ∧
      c.receive calls = { c with bookings := (c.receive calls).bookings } := by
  induction calls generalizing c with
  | nil => exact ⟨apart, by simp [receive, accepted], rfl⟩
  | cons call rest ih =>
    obtain ⟨apart', taken, same⟩ := keeping_spec apart call
    obtain ⟨stays, all, kept⟩ := ih apart'
    refine ⟨stays, all.trans ?_, kept.trans ?_⟩
    · rw [accepted, ← List.append_assoc]
      exact taken.append_right _
    · exact congrArg (fun c' : Channel => { c' with bookings := (c.receive (call :: rest)).bookings }) same

/-- What a channel without instructions takes in first. -/
theorem receive_first (unedited : c.bookings = []) (requested : c.request call = .ok new) :
    c.accepted [call] = [new] ∧ c.receive [call] = { c with bookings := [new] } := by
  have apart : Apart c.bookings := by rw [unedited]; exact List.Pairwise.nil
  rcases apply_cases apart call with ⟨taken, accepts, accepted, applied⟩ | ⟨_, refuses, _⟩
  · obtain rfl : new = taken := Except.ok.inj (requested.symm.trans accepts.1)
    refine ⟨congrArg (· ++ []) accepted, ?_⟩
    show (InPlace.keeping c (call.apply c)).2 = _
    rw [applied, unedited]
    rfl
  · exact absurd ⟨requested, by simp [unedited]⟩ (refuses new)

theorem endTick_spec (apart : Apart c.bookings) : (∀ b ∈ c.bookings, b.stop ≤ c.endTick) ∧
    (c.bookings = [] ∧ c.endTick = 0 ∨ ∃ b ∈ c.bookings, b.stop = c.endTick) := by
  unfold endTick
  cases last : c.bookings.getLast? with
  | none =>
    rw [List.getLast?_eq_none_iff.mp last]
    exact ⟨by simp, .inl ⟨rfl, rfl⟩⟩
  | some b =>
    have member := List.mem_of_getLast? last
    refine ⟨fun other listed => ?_, .inr ⟨b, member, rfl⟩⟩
    show other.stop ≤ b.stop
    have order := apart.ascending.le_getLast last listed
    have := b.start_lt_stop
    rcases Nat.lt_or_eq_of_le order with earlier | same
    · have := apart.stop_le listed member earlier
      omega
    · rw [apart.ascending.eq_of_tick listed member same]

/-- The instructions of a channel stay in order of their start and never overlap. A call whose times are ticks is
accepted exactly if its interval is not empty and meets none that was accepted before it; in its place it then leaves the
new channel, and otherwise the channel as it was. The end tick is the greatest end of all that were accepted. -/
theorem instructions_never_overlap (unedited : c.bookings = []) (calls : List Addition) :
    let c' := c.receive calls
    c'.bookings.Pairwise (fun a b => a.start < b.start ∧ Disjoint a.span b.span) ∧
    c'.bookings.Perm (c.accepted calls) ∧
    (∀ (call : Addition) start stop keep, c'.interval call.time call.hold = .ok (start, stop, keep) →
      ((∃ c'', call.apply c' = .ok c'') ↔
        start < stop ∧ ∀ b ∈ c.accepted calls, Disjoint (Set.Ico start stop) b.span)) ∧
    (∀ call : Addition,
      (∀ c'', call.perform.on c' = (.ok (), c'') ↔ call.apply c' = .ok c'') ∧
      ∀ e c'', call.perform.on c' = (.error e, c'') ↔ call.apply c' = .error e ∧ c'' = c') ∧
    (∀ b ∈ c.accepted calls, b.stop ≤ c'.endTick) ∧
    (c.accepted calls = [] ∧ c'.endTick = 0 ∨ ∃ b ∈ c.accepted calls, b.stop = c'.endTick) := by
  intro c'
  obtain ⟨apart, all, _⟩ := receive_spec (c := c) (by rw [unedited]; exact List.Pairwise.nil) calls
  rw [unedited, List.nil_append] at all
  obtain ⟨below, greatest⟩ := endTick_spec apart
  refine ⟨apart.imp fun {a b} order => ⟨Nat.lt_of_lt_of_le a.start_lt_stop order, Booking.clear_iff.mp (.inl order)⟩,
    all, fun call start stop keep quantised => ?_, fun call => ?_, fun b member => below b (all.mem_iff.mpr member), ?_⟩
  · rw [accepted_iff apart quantised]
    simp only [all.mem_iff]
  · rw [perform_follows c' call]
    exact ⟨fun _ => InPlace.keeping_eq_ok, fun _ _ => InPlace.keeping_eq_error⟩
  · rcases greatest with ⟨none, zero⟩ | ⟨b, member, last⟩
    · rw [none] at all
      exact .inl ⟨all.nil_eq.symm, zero⟩
    · exact .inr ⟨b, all.mem_iff.mp member, last⟩

/-- An analog output that nothing is written to. -/
def quiet : Channel := Device.channelAt ⟨"cl", 0, 16, 1e6, 2⟩ "ao0" .analog 0 0 Converter.dac712Codec (-1.0)

/-- A ramp over the first tick. -/
def riseAtZero : Addition := ⟨.ofRamp 0.0 4.0 0.0 1e-6, 0.0, none⟩

def resetAtZero : Addition := ⟨.ofConstant 0.0, 0.0, none⟩

def rising : Booking := ⟨0, 1, 2, true, riseAtZero.instruction, by decide, by decide⟩

theorem request_riseAtZero : quiet.request riseAtZero = .ok rising :=
  request_eq_ok_iff.mpr ⟨interval_zero quiet, rfl, rfl⟩

/-- The output rises at time zero. That it should be reset at the same time is refused. -/
theorem quiet_rises_only : quiet.bookings = [] ∧
    let c' := quiet.receive [riseAtZero]
    c'.bookings = [rising] ∧ c'.endTick = 1 ∧ ∃ e, resetAtZero.perform.on c' = (.error e, c') := by
  obtain ⟨_, all, accepts, inPlace, _, greatest⟩ := instructions_never_overlap (c := quiet) rfl [riseAtZero]
  rw [(receive_first rfl request_riseAtZero).1] at all accepts greatest
  refine ⟨rfl, List.perm_singleton.mp all, ?_, ?_⟩
  · simpa [rising, eq_comm] using greatest
  · have overlaps : ¬Disjoint (Set.Ico 0 1) rising.span := by
      rw [Booking.disjoint_span_iff (by decide)]
      decide
    have refused := mt (accepts resetAtZero 0 1 true (interval_zero _)).mp fun free => overlaps (free.2 rising (by simp))
    cases applied : resetAtZero.apply (quiet.receive [riseAtZero]) with
    | ok c' => exact absurd ⟨c', applied⟩ refused
    | error e => exact ⟨e, ((inPlace resetAtZero).2 e _).mpr ⟨applied, rfl⟩⟩

end Channel

end Sequencer
