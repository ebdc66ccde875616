import Mathlib.Order.Bounds.Basic
import Sequencer.Proofs.EvenRounding
import Sequencer.Timeline.Tick

/-!
Ticks in seconds and back, in exact arithmetic.

A time is rounded twice: to the decimal places of the rate, and then to a tick. The places are the fewest with which a
step is no longer than a tick. So the first rounding moves the time of a tick by at most half a tick, and by less than
that if a step is shorter than a tick; if it is not, the time of a tick has no more than these places, and stays.
-/
namespace Sequencer

namespace Exact

theorem decimalPlaces_le_iff {rate : ℚ} {places : ℕ} : decimalPlaces rate ≤ places ↔ rate ≤ 10 ^ places := by
  have bound : rate ≤ 10 ^ places ↔ rate.ceil.toNat ≤ 10 ^ places := by
    rw [Int.toNat_le, Rat.ceil_le_iff]
    push_cast
    rfl
  rw [bound, decimalPlaces]
  split
  · rename_i slow
    have positive : 0 < 10 ^ places := Nat.pow_pos (by decide)
    omega
  · rename_i fast
    cases places with
    | zero =>
      have digits : (Nat.toDigits 10 (rate.ceil.toNat - 1)).length ≠ 0 :=
        fun none => Nat.toDigits_ne_nil (List.eq_nil_of_length_eq_zero none)
      omega
    | succ places =>
      rw [Nat.length_toDigits_le_iff (by decide) (Nat.succ_pos _)]
      omega

/-- The fewest places that tell the ticks of a rate apart. -/
theorem decimalPlaces_isLeast (rate : ℚ) : IsLeast {places | rate ≤ 10 ^ places} (decimalPlaces rate) :=
  ⟨decimalPlaces_le_iff.mp le_rfl, fun _ enough => decimalPlaces_le_iff.mpr enough⟩

end Exact

open Exact

section
variable {rate t t' : ℚ} {n : ℤ}

theorem quantise_eq (rate t : ℚ) :
    quantise rate t = roundEven (t * 10 ^ decimalPlaces rate) / 10 ^ decimalPlaces rate := rfl

theorem quantise_mono (order : t ≤ t') : quantise rate t ≤ quantise rate t' := by
  rw [quantise_eq, quantise_eq]
  gcongr
  exact roundEven_mono (by gcongr)

theorem abs_quantise_sub_le (rate t : ℚ) : |quantise rate t - t| * 10 ^ decimalPlaces rate ≤ 1 / 2 := by
  have scale : (0 : ℚ) < 10 ^ decimalPlaces rate := by positivity
  have scaled : (quantise rate t - t) * 10 ^ decimalPlaces rate =
      roundEven (t * 10 ^ decimalPlaces rate) - t * 10 ^ decimalPlaces rate := by
    rw [quantise_eq, sub_mul, div_mul_cancel₀ _ scale.ne']
  calc
    |quantise rate t - t| * 10 ^ decimalPlaces rate = |(quantise rate t - t) * 10 ^ decimalPlaces rate| := by
      rw [abs_mul, abs_of_pos scale]
    _ ≤ 1 / 2 := by
      rw [scaled]
      exact abs_roundEven_sub_le _

/-- The whole number that a time is rounded to decides what becomes of it. -/
theorem tickOf_of_rounds (rounds : RoundsTo (quantise rate t * rate) n) :
    tickOf rate t = if n < 0 then .error .negative else if (maxTick : ℤ) < n then .error .beyondRange
      else .ok n.toNat := by
  have unfolded : tickOf rate t =
      if decide ((n : ℚ) < (0 : ℕ)) then .error .negative
      else if decide (((maxTick : ℕ) : ℚ) < n) then .error .beyondRange
      else .ok (n : ℚ).floor.toNat := by
    rw [← roundEven_eq rounds]
    rfl
  have low : (n : ℚ) < (0 : ℕ) ↔ n < 0 := by exact_mod_cast Iff.rfl
  have high : ((maxTick : ℕ) : ℚ) < n ↔ (maxTick : ℤ) < n := by exact_mod_cast Iff.rfl
  simp only [unfolded, decide_eq_true_eq, low, high, Rat.floor_intCast]

/-- The number of a tick is less than a half away after the first rounding. -/
theorem roundsTo_timeOf (positive : 0 < rate) (tick : ℕ) :
    RoundsTo (quantise rate (timeOf rate tick) * rate) tick := by
  have scale : (0 : ℚ) < 10 ^ decimalPlaces rate := by positivity
  have time : timeOf rate tick = tick / rate := rfl
  have back : timeOf rate tick * rate = tick := by rw [time, div_mul_cancel₀ _ positive.ne']
  rcases (decimalPlaces_le_iff.mp le_rfl : rate ≤ 10 ^ decimalPlaces rate).lt_or_eq with finer | even
  · have moved := abs_quantise_sub_le rate (timeOf rate tick)
    refine .of_near ?_
    calc
      |quantise rate (timeOf rate tick) * rate - (tick : ℤ)| = |quantise rate (timeOf rate tick) - timeOf rate tick| * rate := by
        rw [← abs_of_pos positive, ← abs_mul, abs_of_pos positive, sub_mul, back]
        rfl
      _ < 1 / 2 := by
        rcases (abs_nonneg (quantise rate (timeOf rate tick) - timeOf rate tick)).eq_or_lt with still | apart
        · rw [← still, zero_mul]
          norm_num
        · exact (mul_lt_mul_of_pos_left finer apart).trans_le moved
  · -- a step is as long as a tick, so that the first rounding changes nothing
    have whole : timeOf rate tick * 10 ^ decimalPlaces rate = (tick : ℤ) := by
      rw [← even, back]
      rfl
    have kept : quantise rate (timeOf rate tick) * rate = (tick : ℤ) := by
      rw [quantise_eq, whole, roundEven_eq (roundsTo_intCast _), ← even, div_mul_cancel₀ _ positive.ne']
    rw [kept]
    exact roundsTo_intCast _

theorem tickOf_timeOf (positive : 0 < rate) {tick : ℕ} (inRange : tick ≤ maxTick) :
    tickOf rate (timeOf rate tick) = .ok tick := by
  rw [tickOf_of_rounds (roundsTo_timeOf positive tick), if_neg (by omega), if_neg (by omega), Int.toNat_natCast]

theorem tickOf_eq_ok_iff (rounds : RoundsTo (quantise rate t * rate) n) {tick : ℕ} :
    tickOf rate t = .ok tick ↔ n = tick ∧ tick ≤ maxTick := by
  rw [tickOf_of_rounds rounds]
  split_ifs <;> simp <;> omega

theorem tickOf_eq_negative_iff (rounds : RoundsTo (quantise rate t * rate) n) :
    tickOf rate t = .error .negative ↔ n < 0 := by
  rw [tickOf_of_rounds rounds]
  split_ifs <;> simp <;> omega

theorem tickOf_eq_beyondRange_iff (rounds : RoundsTo (quantise rate t * rate) n) :
    tickOf rate t = .error .beyondRange ↔ (maxTick : ℤ) < n := by
  rw [tickOf_of_rounds rounds]
  split_ifs <;> simp <;> omega

/-- Of two times the later one is rounded to no smaller number. -/
theorem rounded_mono (positive : 0 < rate) (order : t ≤ t') : ∃ m n : ℤ, m ≤ n ∧
    RoundsTo (quantise rate t * rate) m ∧ RoundsTo (quantise rate t' * rate) n := by
  obtain ⟨m, _, one⟩ := roundsTo_roundEven (quantise rate t * rate)
  obtain ⟨n, _, two⟩ := roundsTo_roundEven (quantise rate t' * rate)
  have kept : quantise rate t * rate ≤ quantise rate t' * rate :=
    mul_le_mul_of_nonneg_right (quantise_mono order) positive.le
  exact ⟨m, n, one.mono two kept, one, two⟩

end

/-- In exact arithmetic the time of a tick has this tick, although it is first rounded to the decimal places of the
rate. Later times have no earlier ticks, and only times before all ticks or after them are refused. -/
theorem ticks_survive_seconds {rate : ℚ} (positive : 0 < rate) :
    IsLeast {places | rate ≤ 10 ^ places} (Scalar.decimalPlaces rate) ∧
    (∀ tick ≤ maxTick, tickOf rate (timeOf rate tick) = .ok tick) ∧
    (∀ t t' : ℚ, t ≤ t' →
      (∀ tick tick', tickOf rate t = .ok tick → tickOf rate t' = .ok tick' → tick ≤ tick') ∧
      (tickOf rate t' = .error .negative → tickOf rate t = .error .negative) ∧
      (tickOf rate t = .error .beyondRange → tickOf rate t' = .error .beyondRange)) ∧
    ∀ t : ℚ, (∀ tick, tickOf rate t = .ok tick → tick ≤ maxTick) ∧
      ∀ e, tickOf rate t = .error e → e = .negative ∨ e = .beyondRange := by
  refine ⟨decimalPlaces_isLeast rate, fun tick inRange => tickOf_timeOf positive inRange, ?_, ?_⟩
  · intro t t' order
    obtain ⟨m, n, kept, one, two⟩ := rounded_mono positive order
    rw [tickOf_eq_negative_iff one, tickOf_eq_negative_iff two, tickOf_eq_beyondRange_iff one,
      tickOf_eq_beyondRange_iff two]
    refine ⟨fun tick tick' here there => ?_, fun early => by omega, fun late => by omega⟩
    have earlier := (tickOf_eq_ok_iff one).mp here
    have later := (tickOf_eq_ok_iff two).mp there
    omega
  · intro t
    obtain ⟨n, _, rounds⟩ := roundsTo_roundEven (quantise rate t * rate)
    refine ⟨fun tick accepted => ((tickOf_eq_ok_iff rounds).mp accepted).2, fun e refused => ?_⟩
    rw [tickOf_of_rounds rounds] at refused
    split_ifs at refused
    · exact .inl (Except.error.inj refused).symm
    · exact .inr (Except.error.inj refused).symm

/-- At nine ticks a second one decimal place is kept. Tick 5 is at five ninths of a second, which is rounded to 0.6 and
comes back as 5.4 ticks; half a second is 4.5 ticks and goes to the even one. -/
theorem nine_a_second_survive :
    ((0 : ℚ) < 9 ∧ IsLeast {places | (9 : ℚ) ≤ 10 ^ places} (Scalar.decimalPlaces (9 : ℚ))) ∧
    (5 ≤ maxTick ∧ quantise (9 : ℚ) (timeOf 9 5) = 3 / 5 ∧ tickOf (9 : ℚ) (timeOf 9 5) = .ok 5) ∧
    ((1 / 2 : ℚ) ≤ timeOf 9 5 ∧ tickOf (9 : ℚ) (1 / 2) = .ok 4 ∧ 4 ≤ 5) ∧
    (tickOf (9 : ℚ) (-1) = .error .negative ∧ tickOf (9 : ℚ) (-2) = .error .negative) ∧
    (tickOf (9 : ℚ) (2 ^ 30) = .error .beyondRange ∧ tickOf (9 : ℚ) (2 ^ 31) = .error .beyondRange) ∧
    5 ≤ maxTick := by
  have positive : (0 : ℚ) < 9 := by norm_num
  obtain ⟨least, back, ordered, outcomes⟩ := ticks_survive_seconds positive
  have fifth := back 5 (by decide)
  have half : tickOf (9 : ℚ) (1 / 2) = .ok 4 := by
    have rounds : RoundsTo (quantise (9 : ℚ) (1 / 2) * 9) 4 := by
      rw [show quantise (9 : ℚ) (1 / 2) * 9 = 9 / 2 by decide +kernel]
      exact ⟨by norm_num, fun _ => by decide⟩
    exact (tickOf_eq_ok_iff rounds).mpr ⟨rfl, by decide⟩
  have early : tickOf (9 : ℚ) (-1) = .error .negative := by
    have rounds : RoundsTo (quantise (9 : ℚ) (-1) * 9) (-9 : ℤ) := by
      rw [show quantise (9 : ℚ) (-1) * 9 = (-9 : ℤ) by decide +kernel]
      exact roundsTo_intCast _
    exact (tickOf_eq_negative_iff rounds).mpr (by decide)
  have late : tickOf (9 : ℚ) (2 ^ 30) = .error .beyondRange := by
    have rounds : RoundsTo (quantise (9 : ℚ) (2 ^ 30) * 9) (9 * 2 ^ 30 : ℤ) := by
      rw [show quantise (9 : ℚ) (2 ^ 30) * 9 = (9 * 2 ^ 30 : ℤ) by decide +kernel]
      exact roundsTo_intCast _
    exact (tickOf_eq_beyondRange_iff rounds).mpr (by decide)
  have before : (1 / 2 : ℚ) ≤ timeOf 9 5 := by decide +kernel
  exact ⟨⟨positive, least⟩, ⟨by decide, by decide +kernel, fifth⟩, ⟨before, half, (ordered _ _ before).1 4 5 half fifth⟩,
    ⟨early, (ordered (-2) (-1) (by norm_num)).2.1 early⟩, ⟨late, (ordered (2 ^ 30) (2 ^ 31) (by norm_num)).2.2 late⟩,
    (outcomes _).1 5 fifth⟩

end Sequencer
