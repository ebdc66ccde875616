import Sequencer.Proofs.DevicePlan

/-!
The cursors of a bank.

When the ticks before some tick have been visited, the cursor of each line stands in front of its first
sample from that tick on, and the line holds the value of the last sample before. So a bank that visits
the ticks at which its lines are written makes, at each, the word of the values that they hold there.
-/
namespace Sequencer

/-- In ascending samples either one is at the tick and comes next, or none is. -/
theorem next_sample {samples : List (Nat × Float)} (order : Ascending Prod.fst samples) (tick : Nat) :
    (∃ value, samples.lookup tick = some value ∧ heldAt samples tick = some value ∧
      samples.filter (fun s => tick ≤ s.1) = (tick, value) :: samples.filter fun s => tick + 1 ≤ s.1) ∨
    samples.lookup tick = none ∧ heldAt samples tick = heldBefore samples tick ∧
      samples.filter (fun s => tick ≤ s.1) = samples.filter fun s => tick + 1 ≤ s.1 := by
  cases found : samples.lookup tick with
  | none =>
    right
    have other : ∀ s ∈ samples, s.1 ≠ tick := by
      intro s member same
      simpa [same] using List.lookup_eq_none_iff.mp found s member
    refine ⟨rfl, ?_, List.filter_congr fun s member => ?_⟩
    · rw [← heldBefore_succ, heldBefore, heldBefore]
      congr 2
      refine List.filter_congr fun s member => decide_eq_decide.mpr ?_
      have := other s member
      omega
    · refine decide_eq_decide.mpr ?_
      have := other s member
      omega
  | some value =>
    left
    obtain ⟨before, after, split, _⟩ := List.lookup_eq_some_iff.mp found
    rw [split] at order ⊢
    have later : ∀ s ∈ after, tick < s.1 := (List.pairwise_cons.mp (List.pairwise_append.mp order).2.1).1
    refine ⟨value, rfl, ?_, ?_⟩
    · rw [heldAt, lastUpTo_append, lastUpTo_cons, if_pos (Nat.le_refl tick), lastUpTo_beyond later]
      rfl
    · exact order.filter_from.trans (congrArg (List.cons (tick, value)) order.filter_after.symm)

/-- A line with its values before and after a tick, if it is written there. -/
def Channel.sourceAt (c : Channel) (tick : Nat) : Option (String × Option Float × Option Float) :=
  (c.samples.lookup tick).map fun value => (c.name, heldBefore c.samples tick, some value)

namespace LineCursor

/-- The cursor of a line when all ticks before the given one have been visited. -/
def reach (tick : Nat) (c : Channel) : LineCursor :=
  ⟨c, c.samples.filter fun s => tick ≤ s.1, heldBefore c.samples tick⟩

theorem reach_zero (c : Channel) : reach 0 c = start c := by
  simp [reach, start, heldBefore]

theorem value_reach_succ (tick : Nat) (c : Channel) :
    (reach (tick + 1) c).value = (heldAt c.samples tick).getD c.default := by
  rw [value, reach, heldBefore_succ]

/-- Visiting a tick moves the cursor past it, and shows the line if it is written there. -/
theorem visit_reach {c : Channel} (order : Ascending Prod.fst c.samples) (tick : Nat) :
    (reach tick c).advance tick = reach (tick + 1) c ∧
      (reach tick c).source? tick = c.sourceAt tick := by
  rw [Channel.sourceAt]
  rcases next_sample order tick with ⟨value, found, held, next⟩ | ⟨found, held, next⟩
  · have past : reach tick c = ⟨c, (tick, value) :: c.samples.filter fun s => tick + 1 ≤ s.1,
        heldBefore c.samples tick⟩ := by rw [reach, next]
    rw [past, found]
    simp only [advance, source?, reach, heldBefore_succ, held, if_pos, Option.map_some, and_self]
  · have same : reach tick c = reach (tick + 1) c := by
      rw [reach, reach, next, heldBefore_succ, held]
    have ahead : ∀ s ∈ (reach tick c).rest, s.1 ≠ tick := by
      intro s member
      rw [same] at member
      have := of_decide_eq_true (List.mem_filter.mp member).2
      omega
    rw [found, ← same, advance, source?]
    cases rest : (reach tick c).rest with
    | nil => exact ⟨rfl, rfl⟩
    | cons s later =>
      have other : s.1 ≠ tick := ahead s (by simp [rest])
      simp [other]

/-- Where no sample lies between, the cursor stands the same. -/
theorem reach_congr {c : Channel} {tick next : Nat} (inOrder : tick ≤ next)
    (between : ∀ s ∈ c.samples, tick ≤ s.1 → next ≤ s.1) : reach tick c = reach next c := by
  unfold reach heldBefore
  have front : (c.samples.filter fun s => tick ≤ s.1) = c.samples.filter fun s => next ≤ s.1 := by
    refine List.filter_congr fun s member => ?_
    have := between s member
    simp only [decide_eq_decide]
    omega
  have behind : (c.samples.filter fun s => s.1 < tick) = c.samples.filter fun s => s.1 < next := by
    refine List.filter_congr fun s member => ?_
    have := between s member
    simp only [decide_eq_decide]
    omega
  rw [front, behind]

end LineCursor

namespace Device

/-- The lines that are written at a tick, with their values before and after. -/
def bankSources (d : Device) (tick : Nat) : List (String × Option Float × Option Float) :=
  d.channels.filterMap fun c => c.sourceAt tick

/-- The word of the bank, with the lines that are written at the tick. -/
def bankWordOf (d : Device) (tick : Nat) : Change := ⟨tick, d.wordAt tick, d.bankSources tick⟩

private theorem foldl_add {tick : Nat} (channels : List Channel)
    (order : ∀ c ∈ channels, Ascending Prod.fst c.samples) (now : BankSample) :
    (channels.map (LineCursor.reach tick)).foldl (BankSample.add tick) now =
      { lines := now.lines ++ channels.map (LineCursor.reach (tick + 1))
        sources := now.sources ++ channels.filterMap fun c => c.sourceAt tick
        data := (channels.map fun c => c.lineData ((heldAt c.samples tick).getD c.default)).foldl
          (· ||| ·) now.data } := by
  induction channels generalizing now with
  | nil => simp
  | cons c rest ih =>
    obtain ⟨first, order⟩ := List.forall_mem_cons.mp order
    obtain ⟨moved, shown⟩ := LineCursor.visit_reach first tick
    have line : (LineCursor.reach (tick + 1) c).line = c := rfl
    rw [List.map_cons, List.foldl_cons, ih order, BankSample.add, moved, shown, line,
      LineCursor.value_reach_succ]
    rw [List.filterMap_cons]
    cases c.sourceAt tick <;> simp

/-- At a tick a bank makes the word of the values that its lines hold there. -/
theorem pass_reach {d : Device} (sound : d.Sound) (tick : Nat) (word : Option Word)
    (changes : Array Change) :
    BankState.pass d.address ⟨d.channels.map (LineCursor.reach tick), word, changes⟩ tick =
      ⟨d.channels.map (LineCursor.reach (tick + 1)), some (d.wordAt tick),
        if word = some (d.wordAt tick) then changes else changes.push (d.bankWordOf tick)⟩ := by
  have order : ∀ c ∈ d.channels, Ascending Prod.fst c.samples := fun c member =>
    Channel.samples_ascending (sound.apart c member)
  rw [BankState.pass, foldl_add d.channels order]
  rfl

-- The induction is on the ticks that are still to come. All samples from `tick` on lie at one of them, so that
-- no cursor has to move before the first.
private theorem changes_of_ticks {d : Device} (sound : d.Sound) (ticks : List Nat) (tick : Nat)
    (order : Ascending id ticks) (ahead : ∀ t ∈ ticks, tick ≤ t)
    (listed : ∀ c ∈ d.channels, ∀ s ∈ c.samples, tick ≤ s.1 → s.1 ∈ ticks) (word : Option Word)
    (changes : Array Change) :
    (ticks.foldl (BankState.pass d.address)
        ⟨d.channels.map (LineCursor.reach tick), word, changes⟩).changes.toList =
      changes.toList ++ (changed d.wordAt word ticks).map d.bankWordOf := by
  induction ticks generalizing tick word changes with
  | nil => simp [changed]
  | cons next rest ih =>
    obtain ⟨above, sorted⟩ := List.pairwise_cons.mp order
    have upTo : tick ≤ next := ahead next (by simp)
    have waiting : d.channels.map (LineCursor.reach tick) = d.channels.map (LineCursor.reach next) := by
      refine List.map_congr_left fun c member => LineCursor.reach_congr upTo fun s written from_ => ?_
      rcases List.mem_cons.mp (listed c member s written from_) with same | later
      · exact Nat.le_of_eq same.symm
      · exact Nat.le_of_lt (above s.1 later)
    have later : ∀ c ∈ d.channels, ∀ s ∈ c.samples, next + 1 ≤ s.1 → s.1 ∈ rest := by
      intro c member s written from_
      rcases List.mem_cons.mp (listed c member s written (by omega)) with same | later
      · omega
      · exact later
    rw [List.foldl_cons, waiting, pass_reach sound, ih (next + 1) sorted above later, changed]
    by_cases same : word = some (d.wordAt next) <;> simp [same]

/-- A bank plans its word at each tick at which a line is written, unless it is the word before. -/
theorem bankEnd_changes {d : Device} (sound : d.Sound) :
    d.bankEnd.changes.toList = (changed d.wordAt none d.writtenTicks).map d.bankWordOf := by
  have start : d.channels.map LineCursor.start = d.channels.map (LineCursor.reach 0) :=
    List.map_congr_left fun c _ => (LineCursor.reach_zero c).symm
  have listed : ∀ c ∈ d.channels, ∀ s ∈ c.samples, 0 ≤ s.1 → s.1 ∈ d.writtenTicks :=
    fun c member s written _ => mem_writtenTicks.mpr ⟨c, member, s, written, rfl⟩
  have passed := changes_of_ticks sound d.writtenTicks 0 d.writtenTicks_ascending (by simp) listed none #[]
  rw [bankEnd, start, passed]
  rfl

end Device

end Sequencer
