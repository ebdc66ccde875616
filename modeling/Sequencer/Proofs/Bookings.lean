import Sequencer.Proofs.Ascending

/-!
Bookings of a channel stay apart: each ends before the next one starts. Hence the samples of a
channel are written at strictly ascending ticks.
-/
namespace Sequencer

namespace Channel

/-- In order, and none overlaps another. -/
def Apart (bookings : List Booking) : Prop := bookings.Pairwise fun a b => a.stop ≤ b.start

variable {bookings : List Booking} {new : Booking}

theorem Apart.ascending (apart : Apart bookings) : Ascending Booking.start bookings :=
  List.Pairwise.imp (fun {a _} order => Nat.lt_of_lt_of_le a.start_lt_stop order) apart

theorem Apart.stop_le (apart : Apart bookings) {a b : Booking} (ha : a ∈ bookings)
    (hb : b ∈ bookings) (earlier : a.start < b.start) : a.stop ≤ b.start := by
  obtain ⟨before, after, rfl⟩ := List.append_of_mem ha
  obtain ⟨_, tail, _⟩ := List.pairwise_append.mp apart
  rcases List.mem_append.mp hb with early | late
  · have order := apart.ascending
    have := List.pairwise_append.mp order |>.2.2 b early a (by simp)
    omega
  · rcases List.mem_cons.mp late with rfl | later
    · omega
    · exact List.pairwise_cons.mp tail |>.1 b later

theorem clash_eq_none (free : clash? bookings new = none) :
    ((bookings.find? fun b => new.start ≤ b.start).filter fun b => b.start < new.stop) = none ∧
      ((bookings.filter fun b => b.start < new.start).getLast?.filter
        fun b => new.start < b.stop) = none := by
  unfold clash? at free
  simpa [Option.orElse_eq_orElse, Option.orElse_eq_or, Option.or_eq_none_iff] using free

/-- What `clash?` lets through overlaps no booking at all. -/
theorem apart_of_clash_eq_none (apart : Apart bookings) (free : clash? bookings new = none)
    {b : Booking} (member : b ∈ bookings) : b.stop ≤ new.start ∨ new.stop ≤ b.start := by
  obtain ⟨next, previous⟩ := clash_eq_none free
  by_cases after : new.start ≤ b.start
  · right
    cases found : bookings.find? fun b => new.start ≤ b.start with
    | none =>
      have := List.find?_eq_none.mp found b member
      simp [after] at this
    | some n =>
      obtain ⟨_, early, late, split, skipped⟩ := List.find?_eq_some_iff_append.mp found
      have clear : new.stop ≤ n.start := by simpa [found] using next
      have first : n.start ≤ b.start := by
        rw [split] at member apart
        rcases List.mem_append.mp member with before | rest
        · have := skipped b before
          simp [after] at this
        · rcases List.mem_cons.mp rest with rfl | later
          · exact Nat.le_refl _
          · have order := (List.pairwise_append.mp apart.ascending).2.1
            exact Nat.le_of_lt (List.pairwise_cons.mp order |>.1 b later)
      omega
  · left
    have inside : b ∈ bookings.filter fun b => b.start < new.start := by
      simp only [List.mem_filter, decide_eq_true_eq]
      exact ⟨member, by omega⟩
    cases last : (bookings.filter fun b => b.start < new.start).getLast? with
    | none =>
      rw [List.getLast?_eq_none_iff.mp last] at inside
      cases inside
    | some p =>
      have clear : p.stop ≤ new.start := by simpa [last] using previous
      have memberP := (List.mem_filter.mp (List.mem_of_getLast? last)).1
      have latest := (apart.ascending.filter _).le_getLast last inside
      rcases Nat.lt_or_eq_of_le latest with earlier | same
      · have := apart.stop_le member memberP earlier
        have := p.start_lt_stop
        omega
      · rw [apart.ascending.eq_of_tick member memberP same]
        exact clear

theorem mem_insertBooking {b : Booking} :
    b ∈ insertBooking new bookings ↔ b = new ∨ b ∈ bookings := by
  induction bookings with
  | nil => simp [insertBooking]
  | cons first rest ih =>
    unfold insertBooking
    split
    · simp
    · simp only [List.mem_cons, ih]
      exact or_left_comm

theorem apart_insertBooking (apart : Apart bookings)
    (free : ∀ b ∈ bookings, b.stop ≤ new.start ∨ new.stop ≤ b.start) :
    Apart (insertBooking new bookings) := by
  induction bookings with
  | nil => exact List.pairwise_singleton _ _
  | cons first rest ih =>
    obtain ⟨after, tail⟩ := List.pairwise_cons.mp apart
    have clear := free first (by simp)
    have lengths := And.intro first.start_lt_stop new.start_lt_stop
    unfold insertBooking
    split
    · refine List.pairwise_cons.mpr ⟨fun b member => ?_, apart⟩
      rcases List.mem_cons.mp member with rfl | later
      · omega
      · have := after b later
        omega
    · refine List.pairwise_cons.mpr ⟨fun b member => ?_, ih tail fun b h => free b (by simp [h])⟩
      rcases mem_insertBooking.mp member with rfl | later
      · omega
      · exact after b later

theorem book_apart {c c' : Channel} (success : c.book new = .ok c') (apart : Apart c.bookings) :
    Apart c'.bookings := by
  unfold book at success
  split at success
  · cases success
  · rename_i free
    cases success
    exact apart_insertBooking apart fun b member => apart_of_clash_eq_none apart free member

/-- Booking changes nothing else. -/
theorem book_eq {c c' : Channel} (success : c.book new = .ok c') :
    c' = { c with bookings := c'.bookings } := by
  unfold book at success
  split at success
  · cases success
  · cases success
    rfl

end Channel

/-! ### Samples -/

theorem Booking.gridTicks_ascending (start stop step : Nat) (positive : 0 < step) :
    Ascending id (Booking.gridTicks start stop step) := by
  refine List.pairwise_map.mpr (List.pairwise_lt_range.imp fun {i j} less => ?_)
  have := Nat.mul_lt_mul_of_pos_right less positive
  simpa using this

theorem Booking.mem_gridTicks {start stop step tick : Nat} (positive : 0 < step)
    (below : start < stop) (member : tick ∈ Booking.gridTicks start stop step) :
    start ≤ tick ∧ tick < stop := by
  obtain ⟨i, count, rfl⟩ := List.mem_map.mp member
  have := (Nat.le_div_iff_mul_le positive).mp (List.mem_range.mp count)
  rw [Nat.succ_mul] at this
  omega

theorem Booking.ticks_ascending (b : Booking) : Ascending id b.ticks := by
  unfold Booking.ticks
  split
  · exact List.pairwise_singleton _ _
  · exact gridTicks_ascending b.start b.stop b.step b.step_pos

theorem Booking.mem_ticks {b : Booking} {tick : Nat} (member : tick ∈ b.ticks) :
    b.start ≤ tick ∧ tick < b.stop := by
  have below := b.start_lt_stop
  unfold Booking.ticks at member
  split at member
  · obtain rfl := List.mem_singleton.mp member
    omega
  · exact mem_gridTicks b.step_pos below member

namespace Channel

theorem mem_closing {c : Channel} {b : Booking} {next : Option Booking} {s : Nat × Float}
    (member : s ∈ c.closing b next) : s.1 = b.stop ∧ next.all fun n => n.start != b.stop := by
  unfold closing at member
  split at member
  · cases member
  · rename_i later
    have apart : next.all fun n => n.start != b.stop := by
      cases next with
      | none => rfl
      | some n => simpa using later
    refine ⟨?_, apart⟩
    split at member
    · rw [List.mem_singleton.mp member]
    · split at member
      · cases member
      · rw [List.mem_singleton.mp member]

theorem closing_ascending (c : Channel) (b : Booking) (next : Option Booking) :
    Ascending Prod.fst (c.closing b next) := by
  unfold closing
  repeat' split
  all_goals simp [Ascending]

/-- Samples of bookings that are apart ascend and do not begin before the first booking. -/
theorem samplesOf_ascending (c : Channel) (bookings : List Booking) (apart : Apart bookings) :
    Ascending Prod.fst (c.samplesOf bookings) ∧
      ∀ b ∈ bookings.head?, ∀ s ∈ c.samplesOf bookings, b.start ≤ s.1 := by
  induction bookings with
  | nil => simp [samplesOf, Ascending]
  | cons b rest ih =>
    obtain ⟨after, tail⟩ := List.pairwise_cons.mp apart
    obtain ⟨sorted, least⟩ := ih tail
    have length := b.start_lt_stop
    have sampled : Ascending Prod.fst (b.ticks.map fun tick => (tick, c.valueAt b tick)) :=
      List.pairwise_map.mpr b.ticks_ascending
    have inTicks : ∀ s ∈ b.ticks.map fun tick => (tick, c.valueAt b tick),
        b.start ≤ s.1 ∧ s.1 < b.stop := by
      intro s member
      obtain ⟨tick, inside, rfl⟩ := List.mem_map.mp member
      exact Booking.mem_ticks inside
    -- a sample of `rest` exists only if `rest` has a first booking, which starts after `b` stops
    have later : ∀ s ∈ c.samplesOf rest,
        ∃ n, rest.head? = some n ∧ b.stop ≤ n.start ∧ n.start ≤ s.1 := by
      intro s member
      cases rest with
      | nil => cases member
      | cons n rest => exact ⟨n, rfl, after n (by simp), least n rfl s member⟩
    refine ⟨?_, ?_⟩
    · refine List.pairwise_append.mpr ⟨List.pairwise_append.mpr
        ⟨sampled, closing_ascending c b _, fun s hs t ht => ?_⟩, sorted, fun s hs t ht => ?_⟩
      · have := (inTicks s hs).2
        have := (mem_closing ht).1
        omega
      · obtain ⟨n, first, apartN, lower⟩ := later t ht
        rcases List.mem_append.mp hs with inside | closes
        · have := (inTicks s inside).2
          omega
        · obtain ⟨atStop, differs⟩ := mem_closing closes
          have : n.start ≠ b.stop := by simpa [first] using differs
          omega
    · intro first isFirst s member
      obtain rfl : b = first := by simpa using isFirst
      rcases List.mem_append.mp member with inside | inRest
      · rcases List.mem_append.mp inside with inside | closes
        · exact (inTicks s inside).1
        · have := (mem_closing closes).1
          omega
      · obtain ⟨n, _, apartN, lower⟩ := later s inRest
        omega

theorem samples_ascending {c : Channel} (apart : Apart c.bookings) : Ascending Prod.fst c.samples :=
  (c.samplesOf_ascending c.bookings apart).1

end Channel

end Sequencer
