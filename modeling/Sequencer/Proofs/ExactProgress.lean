import Mathlib.Data.Finset.Card
import Mathlib.Data.Set.Card
import Mathlib.Order.Interval.Finset.Fin
import Sequencer.Proofs.SimulatedRun

/-!
How far a simulated board has come with its stream, counted sample by sample.

A board keeps no count. It divides the ticks since the start by the length of a cycle and finds the remainder in its
time column. That is the number of samples that are due, cycle by cycle, and none of the numbers on the way needs more
than 64 bits.
-/
namespace Sequencer

/-- In an ascending row, those up to a bound are the first ones. -/
theorem le_iff_lt_card {n : Nat} {f : Fin n → Nat} (mono : Monotone f) (bound : Nat) (i : Fin n) :
    f i ≤ bound ↔ i.val < (Finset.univ.filter fun j => f j ≤ bound).card := by
  constructor
  · intro within
    have first : Finset.Iic i ⊆ Finset.univ.filter fun j => f j ≤ bound := by
      intro j before
      rw [Finset.mem_filter]
      exact ⟨Finset.mem_univ j, (mono (Finset.mem_Iic.mp before)).trans within⟩
    have count := Finset.card_le_card first
    rw [Fin.card_Iic] at count
    omega
  · intro counted
    by_contra beyond
    have few : (Finset.univ.filter fun j => f j ≤ bound) ⊆ Finset.Iio i := by
      intro j within
      rw [Finset.mem_Iio]
      by_contra after
      exact beyond ((mono (not_lt.mp after)).trans (Finset.mem_filter.mp within).2)
    have count := Finset.card_le_card few
    rw [Fin.card_Iio] at count
    omega

/-- After whole cycles and a remainder, what is due is what the whole cycles and the remainder have. -/
theorem due_iff {period elapsed cycle time : Nat} (inside : time < period) : cycle * period + time ≤ elapsed ↔
    cycle < elapsed / period ∨ cycle = elapsed / period ∧ time ≤ elapsed % period := by
  have split := Nat.div_add_mod' elapsed period
  have rest := Nat.mod_lt elapsed (show period > 0 by omega)
  rcases Nat.lt_trichotomy cycle (elapsed / period) with before | same | after
  · have := Nat.mul_le_mul_right period before
    rw [Nat.succ_mul] at this
    omega
  · subst same
    omega
  · have := Nat.mul_le_mul_right period after
    rw [Nat.succ_mul] at this
    omega

namespace Progress
variable {times : Array Word} {cycles ticks : Nat}

/-- The time of a sample within its cycle. -/
def tick (times : Array Word) (i : Fin times.size) : Nat := times[i].toNat

/-- The length of a cycle: it ends with the tick of the last sample. -/
def period (times : Array Word) : Nat := ((times.back?).map BitVec.toNat).getD 0 + 1

/-- The samples that are due after so many ticks, each with the number of its cycle. -/
def due (times : Array Word) (ticks : Nat) : Set (Nat × Fin times.size) :=
  { q | q.1 * period times + tick times q.2 ≤ ticks }

/-- How many of them there are, by whole cycles and a remainder. -/
def dueCount (times : Array Word) (ticks : Nat) : Nat :=
  ticks / period times * times.size +
    (Finset.univ.filter fun i => tick times i ≤ ticks % period times).card

theorem period_eq (nonempty : 0 < times.size) : period times = tick times ⟨times.size - 1, by omega⟩ + 1 := by
  have inside : times.size - 1 < times.size := by omega
  have last : times.back? = some times[times.size - 1] := Array.getElem?_eq_getElem inside
  rw [period, last]
  rfl

theorem tick_lt_period (increasing : StrictMono (tick times)) (i : Fin times.size) : tick times i < period times := by
  have nonempty : 0 < times.size := Nat.lt_of_le_of_lt (Nat.zero_le _) i.isLt
  have before : i ≤ ⟨times.size - 1, by omega⟩ := by
    rw [Fin.le_def]
    dsimp only
    omega
  have := increasing.monotone before
  rw [period_eq nonempty]
  omega

theorem period_le (times : Array Word) : period times ≤ 2 ^ 32 := by
  unfold period
  cases times.back? with
  | none => decide
  | some last => exact last.isLt

/-- Different ticks, so at most as many samples as ticks. -/
theorem size_le_period (increasing : StrictMono (tick times)) : times.size ≤ period times := by
  have injective : Function.Injective fun i => (⟨tick times i, tick_lt_period increasing i⟩ : Fin (period times)) :=
    fun i j same => increasing.injective (Fin.mk.inj same)
  simpa using Fintype.card_le_of_injective _ injective

theorem bisect_eq (increasing : StrictMono (tick times)) (bound : Nat) :
    bisect (fun t => t.toNat ≤ bound) times = (Finset.univ.filter fun i => tick times i ≤ bound).card := by
  refine bisectFrom_eq (Nat.zero_le _) ?_ ?_
  · rw [Nat.zero_add]
    exact (Finset.card_le_univ _).trans_eq (Fintype.card_fin _)
  · intro i inside
    rw [Nat.zero_add] at inside
    rw [Array.getElem?_eq_getElem inside, Option.any_some, decide_eq_true_eq]
    exact le_iff_lt_card increasing.monotone bound ⟨i, inside⟩

/-- The samples that are due are as many as the count says. -/
theorem encard_due (increasing : StrictMono (tick times)) (ticks : Nat) :
    (due times ticks).encard = dueCount times ticks := by
  let whole : Finset (Nat × Fin times.size) := Finset.range (ticks / period times) ×ˢ Finset.univ
  let started : Finset (Nat × Fin times.size) :=
    {ticks / period times} ×ˢ Finset.univ.filter fun i => tick times i ≤ ticks % period times
  have parts : due times ticks = ↑(whole ∪ started) := by
    ext ⟨cycle, i⟩
    simp only [due, whole, started, Set.mem_ofPred_eq, Finset.mem_coe, Finset.mem_union, Finset.mem_product,
      Finset.mem_range, Finset.mem_univ, and_true, Finset.mem_singleton, Finset.mem_filter, true_and]
    exact due_iff (tick_lt_period increasing i)
  have apart : Disjoint whole started := by
    rw [Finset.disjoint_left]
    rintro ⟨cycle, i⟩ first second
    simp only [whole, started, Finset.mem_product, Finset.mem_range, Finset.mem_singleton] at first second
    omega
  rw [parts, Set.encard_coe_eq_coe_finsetCard, Finset.card_union_of_disjoint apart, Finset.card_product,
    Finset.card_product, Finset.card_range, Finset.card_univ, Fintype.card_fin, Finset.card_singleton, Nat.one_mul,
    dueCount]

theorem dueCount_mono (increasing : StrictMono (tick times)) : Monotone (dueCount times) := by
  intro first second later
  have more : due times first ⊆ due times second := fun _ inside => Nat.le_trans inside later
  have counts := Set.encard_le_encard more
  rw [encard_due increasing, encard_due increasing] at counts
  exact_mod_cast counts

/-- With the tick before the end all samples of all cycles are due. -/
theorem dueCount_last (increasing : StrictMono (tick times)) (some : 0 < cycles) :
    dueCount times (period times * cycles - 1) = times.size * cycles := by
  have positive : 0 < period times := Nat.succ_pos _
  obtain ⟨earlier, rfl⟩ : ∃ earlier, cycles = earlier + 1 := ⟨cycles - 1, by omega⟩
  have split : period times * (earlier + 1) - 1 = period times - 1 + period times * earlier := by
    rw [Nat.mul_succ]
    omega
  have all : (Finset.univ.filter fun i => tick times i ≤ period times - 1) = Finset.univ :=
    Finset.filter_true_of_mem fun i _ => Nat.le_sub_one_of_lt (tick_lt_period increasing i)
  rw [dueCount, split, Nat.add_mul_div_left _ _ positive, Nat.add_mul_mod_self_left,
    Nat.mod_eq_of_lt (by omega), Nat.div_eq_of_lt (by omega), all, Finset.card_univ, Fintype.card_fin, Nat.mul_succ,
    Nat.zero_add, Nat.mul_comm]

/-- Before that tick some sample is still to come. -/
theorem dueCount_before (increasing : StrictMono (tick times)) (nonempty : 0 < times.size) (some : 0 < cycles)
    (early : ticks < period times * cycles - 1) : dueCount times ticks < times.size * cycles := by
  have last : (cycles - 1, (⟨times.size - 1, by omega⟩ : Fin times.size)) ∈
      due times (period times * cycles - 1) \ due times ticks := by
    have total : (cycles - 1) * period times + period times = period times * cycles := by
      rw [← Nat.succ_mul, Nat.succ_eq_add_one, Nat.sub_add_cancel some, Nat.mul_comm]
    have here := period_eq nonempty
    simp only [due, Set.mem_sdiff, Set.mem_ofPred_eq]
    omega
  have more : due times ticks ⊂ due times (period times * cycles - 1) :=
    (Set.ssubset_iff_of_subset fun _ inside => Nat.le_trans inside early.le).mpr ⟨_, last⟩
  have counts := (Set.finite_of_encard_eq_coe (encard_due increasing ticks)).encard_lt_encard more
  rw [encard_due increasing, encard_due increasing, dueCount_last increasing some] at counts
  exact_mod_cast counts

/-! ### The formula of the board -/

/-- The board says how many samples are due, until the end. -/
theorem of_running (increasing : StrictMono (tick times)) (before : cycles = 0 ∨ ticks < period times * cycles) :
    Progress.of times cycles ticks =
      ⟨false, ticks % period times, dueCount times ticks, ticks / period times⟩ := by
  have running : ¬(0 < cycles ∧ period times * cycles ≤ ticks) := by omega
  rw [dueCount, ← bisect_eq increasing]
  exact if_neg running

theorem of_over (some : 0 < cycles) (after : period times * cycles ≤ ticks) :
    Progress.of times cycles ticks = ⟨true, period times - 1, times.size * cycles, cycles⟩ :=
  if_pos ⟨some, after⟩

/-- The exact number of samples is that of the samples that are due, and after the end that of the last tick. -/
theorem samples_of (increasing : StrictMono (tick times)) :
    (Progress.of times cycles ticks).samples =
      dueCount times (if cycles = 0 then ticks else min ticks (period times * cycles - 1)) := by
  by_cases endless : cycles = 0
  · rw [of_running increasing (.inl endless), if_pos endless]
  · have some : 0 < cycles := Nat.pos_of_ne_zero endless
    rw [if_neg endless]
    by_cases before : ticks < period times * cycles
    · rw [of_running increasing (.inr before), min_eq_left (by omega)]
    · rw [of_over some (by omega), min_eq_right (by omega), dueCount_last increasing some]

theorem samples_mono (increasing : StrictMono (tick times)) (cycles : Nat) :
    Monotone fun ticks => (Progress.of times cycles ticks).samples := by
  intro first second later
  dsimp only
  rw [samples_of increasing, samples_of increasing]
  refine dueCount_mono increasing ?_
  split <;> omega

/-- All samples are there with the tick before the end, and not earlier. -/
theorem isLeast_complete (increasing : StrictMono (tick times)) (nonempty : 0 < times.size) (some : 0 < cycles) :
    IsLeast { ticks | (Progress.of times cycles ticks).samples = times.size * cycles }
      (period times * cycles - 1) := by
  have endless : cycles ≠ 0 := by omega
  constructor
  · rw [Set.mem_ofPred_eq, samples_of increasing, if_neg endless, min_self, dueCount_last increasing some]
  · intro ticks complete
    rw [Set.mem_ofPred_eq, samples_of increasing, if_neg endless] at complete
    by_contra early
    rw [min_eq_left (by omega)] at complete
    exact absurd complete (dueCount_before increasing nonempty some (by omega)).ne

/-! ### 64 bits -/

/-- A number, if it fits into 64 bits. -/
def fits? (n : Nat) : Option Nat := if n < 2 ^ 64 then some n else none

theorem fits?_eq {n : Nat} (fits : n < 2 ^ 64) : fits? n = some n := if_pos fits

/-- The state after so many ticks, by arithmetic that fails as soon as a number does not fit into 64 bits. -/
def checked? (times : Array Word) (cycles ticks : Nat) : Option Progress := do
  let period ← fits? (((times.back?).map BitVec.toNat).getD 0 + 1)
  let total ← fits? (period * cycles)
  if 0 < cycles ∧ total ≤ ticks then
    let samples ← fits? (times.size * cycles)
    return ⟨true, period - 1, samples, cycles⟩
  else
    let tick := ticks % period
    let whole ← fits? (ticks / period * times.size)
    let samples ← fits? (whole + bisect (fun t => t.toNat ≤ tick) times)
    return ⟨false, tick, samples, ticks / period⟩

/-- Every number on the way fits. -/
theorem checked?_eq (increasing : StrictMono (tick times)) (word : cycles < 2 ^ 32) (range : ticks < 2 ^ 63) :
    checked? times cycles ticks = some (Progress.of times cycles ticks) := by
  have long := period_le times
  have many := size_le_period increasing
  have total : period times * cycles < 2 ^ 64 := by
    have := Nat.mul_le_mul long (Nat.le_sub_one_of_lt word)
    omega
  have samples : times.size * cycles < 2 ^ 64 := (Nat.mul_le_mul_right cycles many).trans_lt total
  have whole : ticks / period times * times.size ≤ ticks :=
    (Nat.mul_le_mul_left _ many).trans (Nat.div_mul_le_self _ _)
  have rest : bisect (fun t => t.toNat ≤ ticks % period times) times ≤ times.size := by
    rw [bisect_eq increasing]
    exact (Finset.card_le_univ _).trans_eq (Fintype.card_fin _)
  have period : fits? (((times.back?).map BitVec.toNat).getD 0 + 1) = some (period times) :=
    fits?_eq (long.trans_lt (by decide))
  unfold checked?
  simp only [period, Option.bind_eq_bind, Option.bind_some, fits?_eq total, fits?_eq samples,
    fits?_eq (Nat.lt_of_le_of_lt whole (by omega : ticks < 2 ^ 64)),
    fits?_eq (by omega : ticks / Progress.period times * times.size +
      bisect (fun t => t.toNat ≤ ticks % Progress.period times) times < 2 ^ 64)]
  by_cases finished : 0 < cycles ∧ Progress.period times * cycles ≤ ticks
  · rw [if_pos finished, of_over finished.1 finished.2]
    rfl
  · rw [if_neg finished, of_running increasing (by omega), dueCount, ← bisect_eq increasing]
    rfl

end Progress

namespace SimulatedBoard
variable {b : SimulatedBoard}

/-- The times of an announced stream arrive as they were sent, in whatever pieces. -/
theorem takeIn_times {rows : List (Word × List Word)} {pieces : List (List Byte)} (some : rows ≠ [])
    (width : ∀ row ∈ rows, 4 * (row.2.length + 1) = b.bytesPerSample)
    (whole : pieces.flatten = rows.flatMap sampleBytes) (empty : b.data = []) (announced : b.pending = pieces.flatten.length) :
    (b.takeIn none pieces).1.times = (rows.map Prod.fst).toArray := by
  obtain ⟨first, later, rfl⟩ := List.exists_cons_of_ne_nil some
  have racks : 4 * (first.2.length + 1) = b.bytesPerSample := width first List.mem_cons_self
  have positive : b.pending ≠ 0 := by
    rw [announced, whole, List.flatMap_cons, List.length_append, length_sampleBytes]
    omega
  have same : ∀ row ∈ first :: later, row.2.length = first.2.length := by
    intro row listed
    have := width row listed
    omega
  rw [takeIn_eq announced fun none => absurd none positive, empty, whole, List.nil_append, ← racks]
  exact timeColumn_samples same

/-- The words of a status are what the progress says, as far as they hold it. -/
theorem statusAfter_words (b : SimulatedBoard) (ticks : Nat) {progress : Progress}
    (is : Progress.of b.times b.cycles.toNat ticks = progress) :
    (b.statusAfter ticks).status.isSet Status.ended = progress.ended ∧
      (b.statusAfter ticks).samples.toNat = progress.samples % 2 ^ 32 ∧
      (b.statusAfter ticks).time.toNat = progress.time % 2 ^ 32 ∧
      (b.statusAfter ticks).cycles.toNat = progress.cycles % 2 ^ 32 := by
  subst is
  exact ⟨b.isSet_statusAfter ticks, BitVec.toNat_ofNat _ _, BitVec.toNat_ofNat _ _, BitVec.toNat_ofNat _ _⟩

/-- The progress that a board reports after `T` ticks of a stream with `n` samples, a period `p` and `c` cycles. Until
the end it counts the samples that are due, pair by pair; from the end on it shows the last tick and all samples of
all cycles. The exact count never falls, and is complete with the last tick before the end. Every number on the way
fits into 64 bits. -/
theorem progress_is_exact (uploaded : 0 < b.times.size) (increasing : StrictMono (Progress.tick b.times))
    (unstopped : b.stoppedAfter = none) :
    let n := b.times.size
    let p := Progress.tick b.times ⟨n - 1, Nat.sub_one_lt_of_lt uploaded⟩ + 1
    let c := b.cycles.toNat
    let samples := fun T => (Progress.of b.times c T).samples
    (∀ startedAt now, b.startedAt = some startedAt →
      b.status now = b.statusAfter (b.ticks (now - startedAt))) ∧
    (∀ T < 2 ^ 63, Progress.checked? b.times c T = some (Progress.of b.times c T)) ∧
    (∀ T, c = 0 ∨ T < p * c →
      let s := b.statusAfter T
      s.status.isSet Status.ended = false ∧
      { q : Nat × Fin n | q.1 * p + Progress.tick b.times q.2 ≤ T }.encard = samples T ∧
      s.samples.toNat = samples T % 2 ^ 32 ∧ s.time.toNat = T % p ∧ s.cycles.toNat = T / p % 2 ^ 32) ∧
    (∀ T, 0 < c → p * c ≤ T →
      let s := b.statusAfter T
      s.status.isSet Status.ended = true ∧
      s.samples.toNat = n * c % 2 ^ 32 ∧ s.time.toNat = p - 1 ∧ s.cycles.toNat = c) ∧
    Monotone samples ∧
    (0 < c → IsLeast { T | samples T = n * c } (p * c - 1)) ∧
    ∀ (a : SimulatedBoard) (rows : List (Word × List Word)) (pieces : List (List Byte)), rows ≠ [] →
      (∀ row ∈ rows, 4 * (row.2.length + 1) = a.bytesPerSample) → pieces.flatten = rows.flatMap sampleBytes →
      a.data = [] → a.pending = pieces.flatten.length →
      (a.takeIn none pieces).1.times = (rows.map Prod.fst).toArray := by
  intro n p c samples
  have period : Progress.period b.times = p := Progress.period_eq uploaded
  have word : p ≤ 2 ^ 32 := period ▸ Progress.period_le b.times
  refine ⟨?_, fun T range => Progress.checked?_eq increasing b.cycles.isLt range, ?_, ?_,
    Progress.samples_mono increasing c, ?_, fun a rows pieces some width whole empty announced =>
      takeIn_times some width whole empty announced⟩
  · intro startedAt now started
    rw [status, started]
    dsimp only
    rw [elapsed, unstopped]
    rfl
  · intro T before s
    have here := Progress.of_running increasing (period ▸ before)
    obtain ⟨ended, counted, time, cycles⟩ := b.statusAfter_words T here
    have due := Progress.encard_due increasing T
    have exact_ : samples T = Progress.dueCount b.times T := congrArg Progress.samples here
    have short : T % p < 2 ^ 32 := (Nat.mod_lt T (Nat.succ_pos _)).trans_le word
    rw [period] at time cycles
    rw [Progress.due, period, ← exact_] at due
    rw [← exact_] at counted
    exact ⟨ended, due, counted, time.trans (Nat.mod_eq_of_lt short), cycles⟩
  · intro T some after s
    obtain ⟨ended, counted, time, cycles⟩ := b.statusAfter_words T (Progress.of_over some (period ▸ after))
    have short : p - 1 < 2 ^ 32 := by omega
    rw [period] at time
    exact ⟨ended, counted, time.trans (Nat.mod_eq_of_lt short), cycles.trans (Nat.mod_eq_of_lt b.cycles.isLt)⟩
  · intro some
    rw [← period]
    exact Progress.isLeast_complete increasing uploaded some

/-- Three samples, at the ticks 0, 4 and 9. -/
def sampleRows : List (Word × List Word) := [(0, [7]), (4, [7]), (9, [7])]

/-- A board that plays them twice. -/
def playingRows : SimulatedBoard :=
  { name := "main", data := sampleRows.flatMap sampleBytes, times := #[0, 4, 9], cycles := 2, startedAt := some 0 }

/-- After 14 ticks the second of the three samples is the last in the second cycle; all six have been played with tick
19, and the end is reported from tick 20 on. -/
theorem playingRows_progress :
    (playingRows.statusAfter 14).samples.toNat = 5 ∧ (playingRows.statusAfter 14).cycles.toNat = 1 ∧
    (playingRows.statusAfter 20).status.isSet Status.ended = true ∧ (playingRows.statusAfter 20).samples.toNat = 6 ∧
    IsLeast { T | (Progress.of playingRows.times 2 T).samples = 6 } 19 ∧
    (({ name := "main", pending := 24 } : SimulatedBoard).takeIn none [sampleRows.flatMap sampleBytes]).1.times =
      playingRows.times := by
  have increasing : StrictMono (Progress.tick playingRows.times) := by
    unfold StrictMono
    decide
  obtain ⟨_, _, running, finished, _, complete, arrive⟩ :=
    progress_is_exact (b := playingRows) (by decide) increasing rfl
  obtain ⟨_, _, samples, _, cycles⟩ := running 14 (by decide)
  obtain ⟨ended, total, _, _⟩ := finished 20 (by decide) (by decide)
  refine ⟨samples.trans (by decide +kernel), cycles, ended, total, complete (by decide), ?_⟩
  exact arrive _ sampleRows _ (by decide) (by decide) (by decide) rfl (by decide)

end SimulatedBoard

end Sequencer
