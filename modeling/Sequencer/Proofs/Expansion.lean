import Sequencer.Proofs.Additions

/-!
What the samples of a channel hold at each tick.

A booking is followed from its start until the next one starts. A constant writes once; any other instruction writes on a
grid of ticks and, where its value stays, once more at its stop.
-/
namespace Sequencer

theorem lastUpTo_eq_getLast? {α : Type} {tickOf : α → Nat} {tick : Nat} {items : List α}
    (within : ∀ x ∈ items, tickOf x ≤ tick) : lastUpTo tickOf tick items = items.getLast? := by
  rw [lastUpTo, List.filter_eq_self.mpr fun x member => decide_eq_true (within x member)]

namespace Booking

theorem mem_gridTicks_of_lt {start stop step : Nat} (positive : 0 < step) {j : Nat} (inside : start + j * step < stop) :
    start + j * step ∈ gridTicks start stop step := by
  refine List.mem_map.mpr ⟨j, List.mem_range.mpr ?_, rfl⟩
  refine (Nat.le_div_iff_mul_le positive).mpr ?_
  rw [Nat.succ_mul]
  omega

theorem exists_step {start step tick : Nat} (positive : 0 < step) (started : start ≤ tick) :
    ∃ j, start + j * step ≤ tick ∧ tick < start + (j + 1) * step := by
  have begun := Nat.div_mul_le_self (tick - start) step
  have goingOn := Nat.lt_div_mul_add (a := tick - start) positive
  refine ⟨(tick - start) / step, by omega, ?_⟩
  rw [Nat.succ_mul]
  omega

/-- The last tick of the grid that has come is that of the step that is going on. -/
theorem lastUpTo_gridTicks {start stop step tick j : Nat} (positive : 0 < step) (inside : tick < stop)
    (begun : start + j * step ≤ tick) (goingOn : tick < start + (j + 1) * step) :
    lastUpTo id tick (gridTicks start stop step) = some (start + j * step) := by
  refine (gridTicks_ascending start stop step positive).lastUpTo_eq_some_iff.mpr
    ⟨mem_gridTicks_of_lt positive (by omega), begun, fun other member come => ?_⟩
  obtain ⟨i, _, rfl⟩ := List.mem_map.mp member
  simp only [id] at come ⊢
  have : i < j + 1 := Nat.lt_of_mul_lt_mul_right (a := step) (by omega)
  have := Nat.mul_le_mul_right step (Nat.le_of_lt_succ this)
  omega

theorem ticks_constant {b : Booking} (constant : b.instruction.isConstant = true) : b.ticks = [b.start] := by
  rw [ticks, if_pos constant]

theorem ticks_sampled {b : Booking} (sampled : b.instruction.isConstant = false) :
    b.ticks = gridTicks b.start b.stop b.step := by
  rw [ticks, if_neg (by simp [sampled])]

end Booking

theorem Instruction.valueAt_constant {i : Instruction} (constant : i.isConstant = true) (t : Float) :
    i.valueAt t = i.argument "value" 0.0 := by
  rw [valueAt, eq_of_beq constant]

namespace Channel
variable {c : Channel} {b : Booking} {bookings before after : List Booking} {tick : Nat} {value : Float}

/-- The value that a booking gives its channel at a tick from its start on, while no other booking has started. -/
inductive Gives (c : Channel) (b : Booking) (tick : Nat) : Float → Prop where
  | constant : tick < b.stop → b.instruction.isConstant = true → Gives c b tick (b.instruction.argument "value" 0.0)
  /-- The value at the last tick of the grid. -/
  | sampled (j : Nat) : tick < b.stop → b.instruction.isConstant = false →
      b.start + j * b.step ≤ tick → tick < b.start + (j + 1) * b.step → Gives c b tick (c.valueAt b (b.start + j * b.step))
  | released : b.stop ≤ tick → b.keep = false → Gives c b tick c.default
  | kept : b.stop ≤ tick → b.keep = true → b.instruction.isConstant = true →
      Gives c b tick (b.instruction.argument "value" 0.0)
  | settled : b.stop ≤ tick → b.keep = true → b.instruction.isConstant = false → Gives c b tick (c.valueAt b b.stop)

/-! ### What is held -/

theorem heldAt_append (first second : List (Nat × Float)) (tick : Nat) :
    heldAt (first ++ second) tick = (heldAt second tick).or (heldAt first tick) := by
  rw [heldAt, lastUpTo_append, Option.map_or]
  rfl

theorem heldAt_beyond {samples : List (Nat × Float)} (beyond : ∀ s ∈ samples, tick < s.1) :
    heldAt samples tick = none := by
  rw [heldAt, lastUpTo_beyond beyond, Option.map_none]

theorem heldAt_singleton {written : Nat} (come : written ≤ tick) : heldAt [(written, value)] tick = some value := by
  simp [heldAt, lastUpTo, come]

theorem heldAt_ticks (c : Channel) (b : Booking) (tick : Nat) :
    heldAt (b.ticks.map fun tick => (tick, c.valueAt b tick)) tick = (lastUpTo id tick b.ticks).map (c.valueAt b) := by
  rw [heldAt, lastUpTo_map, Option.map_map]
  rfl

theorem heldAt_ticks_constant (c : Channel) (shape : b.instruction.isConstant = true) (started : b.start ≤ tick) :
    heldAt (b.ticks.map fun tick => (tick, c.valueAt b tick)) tick = some (b.instruction.argument "value" 0.0) := by
  rw [Booking.ticks_constant shape, List.map_singleton, heldAt_singleton started, valueAt,
    Instruction.valueAt_constant shape]

/-! ### One booking -/

/-- The samples of a booking. -/
def samplesOn (c : Channel) (b : Booking) (next : Option Booking) : List (Nat × Float) :=
  b.ticks.map (fun tick => (tick, c.valueAt b tick)) ++ c.closing b next

/-- While a booking lasts, its closing sample does not count. -/
theorem samplesOn_during {next : Option Booking} (started : b.start ≤ tick) (lasts : tick < b.stop) :
    ∃ value, heldAt (c.samplesOn b next) tick = some value ∧ c.Gives b tick value := by
  have open_ : heldAt (c.closing b next) tick = none := heldAt_beyond fun s member => (mem_closing member).1 ▸ lasts
  rw [samplesOn, heldAt_append, open_, Option.none_or]
  cases shape : b.instruction.isConstant with
  | true => exact ⟨_, heldAt_ticks_constant c shape started, .constant lasts shape⟩
  | false =>
    obtain ⟨j, begun, goingOn⟩ := Booking.exists_step b.step_pos started
    refine ⟨_, ?_, .sampled j lasts shape begun goingOn⟩
    rw [heldAt_ticks, Booking.ticks_sampled shape, Booking.lastUpTo_gridTicks b.step_pos lasts begun goingOn,
      Option.map_some]

theorem closing_of_before {next : Option Booking} (closed : b.stop ≤ tick) (waiting : ∀ n ∈ next, tick < n.start) :
    c.closing b next =
      if !b.keep then [(b.stop, c.default)]
      else if b.instruction.isConstant then [] else [(b.stop, c.valueAt b b.stop)] := by
  have apart : ¬next.any (fun n => n.start == b.stop) = true := by
    cases next with
    | none => simp
    | some n =>
      have := waiting n rfl
      simp only [Option.any_some, beq_iff_eq]
      omega
  rw [closing, if_neg apart]

/-- Once it has ended the closing sample counts, if there is one. -/
theorem samplesOn_after {next : Option Booking} (closed : b.stop ≤ tick) (waiting : ∀ n ∈ next, tick < n.start) :
    ∃ value, heldAt (c.samplesOn b next) tick = some value ∧ c.Gives b tick value := by
  have started : b.start ≤ tick := Nat.le_trans (Nat.le_of_lt b.start_lt_stop) closed
  rw [samplesOn, heldAt_append, closing_of_before closed waiting]
  cases keep : b.keep with
  | false => exact ⟨_, by simp [heldAt_singleton closed], .released closed keep⟩
  | true =>
    cases shape : b.instruction.isConstant with
    | true =>
      refine ⟨_, ?_, .kept closed keep shape⟩
      rw [heldAt_ticks_constant c shape started]
      simp [heldAt, lastUpTo]
    | false => exact ⟨_, by simp [heldAt_singleton closed], .settled closed keep shape⟩

theorem samplesOn_gives {next : Option Booking} (started : b.start ≤ tick) (waiting : ∀ n ∈ next, tick < n.start) :
    ∃ value, heldAt (c.samplesOn b next) tick = some value ∧ c.Gives b tick value := by
  rcases Nat.lt_or_ge tick b.stop with lasts | closed
  · exact samplesOn_during started lasts
  · exact samplesOn_after closed waiting

/-! ### All bookings -/

theorem samplesOf_cons (c : Channel) (b : Booking) (rest : List Booking) :
    c.samplesOf (b :: rest) = c.samplesOn b rest.head? ++ c.samplesOf rest := rfl

theorem samplesOf_append (c : Channel) (before rest : List Booking) :
    ∃ earlier, c.samplesOf (before ++ rest) = earlier ++ c.samplesOf rest := by
  induction before with
  | nil => exact ⟨[], rfl⟩
  | cons b before ih =>
    obtain ⟨earlier, split⟩ := ih
    refine ⟨c.samplesOn b (before ++ rest).head? ++ earlier, ?_⟩
    rw [List.cons_append, samplesOf_cons, split, List.append_assoc]

theorem samplesOf_beyond (apart : Apart bookings) (waiting : ∀ n ∈ bookings.head?, tick < n.start) :
    heldAt (c.samplesOf bookings) tick = none := by
  refine heldAt_beyond fun s member => ?_
  cases bookings with
  | nil => cases member
  | cons n rest =>
    have := (c.samplesOf_ascending (n :: rest) apart).2 n rfl s member
    have := waiting n rfl
    omega

theorem held_before_first (apart : Apart c.bookings) (waiting : ∀ b ∈ c.bookings, tick < b.start) :
    heldAt c.samples tick = none :=
  samplesOf_beyond apart fun n first => waiting n (List.mem_of_mem_head? first)

/-- From the start of a booking until the next one starts, the samples hold what that booking gives. -/
theorem held_from_start (apart : Apart c.bookings) (split : c.bookings = before ++ b :: after) (started : b.start ≤ tick)
    (waiting : ∀ n ∈ after.head?, tick < n.start) :
    ∃ value, heldAt c.samples tick = some value ∧ c.Gives b tick value := by
  rw [split] at apart
  have tail := (List.pairwise_cons.mp (List.pairwise_append.mp apart).2.1).2
  obtain ⟨earlier, cut⟩ := c.samplesOf_append before (b :: after)
  obtain ⟨value, held, gives⟩ := samplesOn_gives (c := c) started waiting
  refine ⟨value, ?_, gives⟩
  rw [samples, split, cut, samplesOf_cons, heldAt_append, heldAt_append, samplesOf_beyond tail waiting, held]
  rfl

/-- While a booking lasts, no other one starts. -/
theorem held_inside (apart : Apart c.bookings) (listed : b ∈ c.bookings) (started : b.start ≤ tick)
    (lasts : tick < b.stop) : ∃ value, heldAt c.samples tick = some value ∧ c.Gives b tick value := by
  obtain ⟨before, after, split⟩ := List.append_of_mem listed
  refine held_from_start apart split started fun n next => ?_
  rw [split] at apart
  have := (List.pairwise_cons.mp (List.pairwise_append.mp apart).2.1).1 n (List.mem_of_mem_head? next)
  omega

theorem mem_samplesOf {s : Nat × Float} (member : s ∈ c.samplesOf bookings) : ∃ b ∈ bookings, s.1 ≤ b.stop := by
  induction bookings with
  | nil => cases member
  | cons b rest ih =>
    rw [samplesOf_cons, samplesOn, List.append_assoc, List.mem_append, List.mem_append] at member
    rcases member with sampled | closes | later
    · obtain ⟨tick, inside, rfl⟩ := List.mem_map.mp sampled
      exact ⟨b, by simp, Nat.le_of_lt (Booking.mem_ticks inside).2⟩
    · exact ⟨b, by simp, Nat.le_of_eq (mem_closing closes).1⟩
    · obtain ⟨other, listed, bound⟩ := ih later
      exact ⟨other, List.mem_cons_of_mem _ listed, bound⟩

/-- From the end tick on the last sample counts. -/
theorem finalValue_of_held (apart : Apart c.bookings) (ended : c.endTick ≤ tick)
    (held : heldAt c.samples tick = some value) : c.finalValue = value := by
  have within : ∀ s ∈ c.samples, s.1 ≤ tick := fun s member => by
    obtain ⟨b, listed, bound⟩ := mem_samplesOf member
    have := (endTick_spec apart).1 b listed
    omega
  rw [heldAt, lastUpTo_eq_getLast? within] at held
  rw [finalValue, held]
  rfl

/-- The samples of a channel follow its instructions: none counts before the first start, within its interval an
instruction gives its value, then it leaves one until the next start, and the final value is what the last one leaves. -/
theorem samples_follow_instructions (unedited : c.bookings = []) (calls : List Addition) :
    let c' := c.receive calls
    Ascending Prod.fst c'.samples ∧
    (∀ tick, (∀ b ∈ c'.bookings, tick < b.start) → heldAt c'.samples tick = none) ∧
    (∀ b ∈ c'.bookings, ∀ tick, b.start ≤ tick → tick < b.stop →
      ∃ value, heldAt c'.samples tick = some value ∧ c'.Gives b tick value) ∧
    (∀ before b after tick, c'.bookings = before ++ b :: after → b.stop ≤ tick → (∀ n ∈ after.head?, tick < n.start) →
      ∃ value, heldAt c'.samples tick = some value ∧ c'.Gives b tick value) ∧
    (∀ b ∈ c'.bookings.getLast?, ∀ tick, b.stop ≤ tick →
      heldAt c'.samples tick = some c'.finalValue ∧ c'.Gives b tick c'.finalValue) ∧
    (c'.bookings = [] → c'.finalValue = c.default) := by
  intro c'
  obtain ⟨apart, _, same⟩ := receive_spec (c := c) (by rw [unedited]; exact List.Pairwise.nil) calls
  have started : ∀ {b : Booking} {tick}, b.stop ≤ tick → b.start ≤ tick :=
    fun {b _} ended => Nat.le_trans (Nat.le_of_lt b.start_lt_stop) ended
  refine ⟨samples_ascending apart, fun tick => held_before_first apart, fun b listed tick => held_inside apart listed,
    fun before b after tick split ended => held_from_start apart split (started ended), fun b last tick ended => ?_,
    fun none => ?_⟩
  · obtain ⟨before, split⟩ := List.getLast?_eq_some_iff.mp last
    obtain ⟨value, held, gives⟩ := held_from_start apart split (started ended) (by simp)
    have ended : c'.endTick ≤ tick := by
      rw [endTick, Option.mem_def.mp last]
      exact ended
    rw [finalValue_of_held apart ended held]
    exact ⟨held, gives⟩
  · have unchanged : c'.default = c.default := by rw [show c' = _ from same]
    rw [finalValue, samples, none]
    exact unchanged

/-- The ramp over the first tick is sampled at its start and settles at its stop. -/
theorem quiet_follows_ramp : quiet.bookings = [] ∧
    let c' := quiet.receive [riseAtZero]
    heldAt c'.samples 0 = some 0.0 ∧ ∀ tick, 1 ≤ tick → heldAt c'.samples tick = some 4.0 := by
  have received := (receive_first rfl request_riseAtZero).2
  obtain ⟨_, _, inside, _, ends, _⟩ := samples_follow_instructions (c := quiet) rfl [riseAtZero]
  rw [received] at inside ends ⊢
  refine ⟨rfl, ?_, fun tick ended => ?_⟩
  · obtain ⟨value, held, gives⟩ := inside rising (by simp) 0 (by decide) (by decide)
    cases gives with
    | constant _ shape => cases shape
    | sampled j _ _ begun _ =>
      obtain rfl : j = 0 := by
        have : 0 + j * 2 ≤ 0 := begun
        omega
      exact held.trans (by decide +kernel)
    | released closed _ => cases closed
    | kept closed _ _ => cases closed
    | settled closed _ _ => cases closed
  · obtain ⟨held, gives⟩ := ends rising rfl tick ended
    rw [held]
    have value : quiet.valueAt rising 1 = 4.0 := by decide +kernel
    generalize finalValue _ = final at gives ⊢
    cases gives with
    | constant _ shape => cases shape
    | sampled j lasts _ _ _ => exact absurd lasts (Nat.not_lt.mpr ended)
    | released _ keep => cases keep
    | kept _ _ shape => cases shape
    | settled _ _ _ => exact congrArg some value

end Channel

end Sequencer
