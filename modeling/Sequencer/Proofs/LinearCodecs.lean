import Mathlib.Algebra.Order.Field.Basic
import Mathlib.Tactic.Ring
import Sequencer.Codec.Converter
import Sequencer.Codec.Synthesizer
import Sequencer.Proofs.EvenRounding

/-!
Codecs with evenly spaced values, in exact arithmetic.

A ruler has marks at equal distances above an origin. The nearest mark of a value is found by rounding, and none is
above the last one. Voltages, frequencies and phases are each measured with a ruler of their own, and what holds of
rulers holds of all three. Only a converter whose range is one step longer than its ruler has values that are more
than half a step from every mark.
-/
namespace Sequencer

/-! ### Rulers -/

/-- Evenly spaced marks from an origin upwards, numbered from zero to `top`. -/
structure Ruler where
  origin : ℚ
  spacing : ℚ
  top : ℕ
  spaced : 0 < spacing

namespace Ruler
variable {r : Ruler} {v v' width steps : ℚ} {k : ℕ} {n : ℤ}

/-- The value at a mark. -/
def value (r : Ruler) (k : ℕ) : ℚ := r.origin + k * r.spacing

/-- How many spacings a value lies above the origin. -/
def position (r : Ruler) (v : ℚ) : ℚ := (v - r.origin) / r.spacing

/-- The mark that is nearest to a value, of two the even one. -/
def nearest (r : Ruler) (v : ℚ) : ℕ := Nat.min (Scalar.toNat (Exact.roundEven (r.position v))) r.top

theorem value_eq (divided : r.spacing = width / steps) (k : ℕ) : r.value k = k * width / steps + r.origin := by
  rw [value, divided, ← mul_div_assoc, add_comm]

theorem position_eq (divided : r.spacing = width / steps) (v : ℚ) :
    r.position v = (v - r.origin) * steps / width := by
  rw [position, divided, div_div_eq_mul_div]

theorem nearest_le (r : Ruler) (v : ℚ) : r.nearest v ≤ r.top := Nat.min_le_right _ _

theorem nearest_of_rounds (rounds : Exact.RoundsTo (r.position v) n) : r.nearest v = min n.toNat r.top := by
  have whole : Scalar.toNat (n : ℚ) = n.toNat := congrArg Int.toNat (Rat.floor_intCast n)
  rw [nearest, Exact.roundEven_eq rounds, whole]

theorem position_value (r : Ruler) (k : ℕ) : r.position (r.value k) = k := by
  rw [position, value, add_sub_cancel_left, mul_div_cancel_right₀ _ r.spaced.ne']

theorem nearest_value (inRange : k ≤ r.top) : r.nearest (r.value k) = k := by
  have whole : Exact.RoundsTo (r.position (r.value k)) k := by
    rw [position_value]
    exact Exact.roundsTo_intCast k
  rw [nearest_of_rounds whole, Int.toNat_natCast, min_eq_left inRange]

theorem position_mono (order : v ≤ v') : r.position v ≤ r.position v' :=
  div_le_div_of_nonneg_right (sub_le_sub_right order _) r.spaced.le

theorem value_mono (r : Ruler) {j k : ℕ} (order : j ≤ k) : r.value j ≤ r.value k := by
  have steps : (j : ℚ) ≤ k := by exact_mod_cast order
  exact add_le_add_right (mul_le_mul_of_nonneg_right steps r.spaced.le) _

theorem origin_le_value (r : Ruler) (k : ℕ) : r.origin ≤ r.value k :=
  le_add_of_nonneg_right (mul_nonneg k.cast_nonneg r.spaced.le)

theorem nearest_mono (order : v ≤ v') : r.nearest v ≤ r.nearest v' := by
  obtain ⟨m, _, one⟩ := Exact.roundsTo_roundEven (r.position v)
  obtain ⟨n, _, two⟩ := Exact.roundsTo_roundEven (r.position v')
  rw [nearest_of_rounds one, nearest_of_rounds two]
  exact min_le_min_right _ (Int.toNat_le_toNat (one.mono two (position_mono order)))

/-- The distance of a value from a mark, in spacings. -/
theorem abs_value_sub (r : Ruler) (k : ℕ) (v : ℚ) : |r.value k - v| = |r.position v - k| * r.spacing := by
  have scaled : r.value k - v = (k - r.position v) * r.spacing := by
    rw [value, position, sub_mul, div_mul_cancel₀ _ r.spaced.ne']
    ring
  rw [scaled, abs_mul, abs_of_pos r.spaced, abs_sub_comm]

/-- Between the origin and the last mark the nearest mark is at most half a spacing away. -/
theorem abs_value_nearest_sub_le (above : r.origin ≤ v) (inRange : v ≤ r.value r.top) :
    |r.value (r.nearest v) - v| ≤ r.spacing / 2 := by
  obtain ⟨n, _, rounds⟩ := Exact.roundsTo_roundEven (r.position v)
  have first : r.position r.origin = (0 : ℤ) := by simp [position]
  have last : r.position (r.value r.top) = (r.top : ℤ) := r.position_value r.top
  have low : 0 ≤ n := (Exact.roundsTo_intCast 0).mono rounds (first.symm.le.trans (position_mono above))
  have high : n ≤ r.top := rounds.mono (Exact.roundsTo_intCast r.top) ((position_mono inRange).trans last.le)
  have mark : (r.nearest v : ℚ) = n := by
    rw [nearest_of_rounds rounds, min_eq_left (by omega)]
    exact_mod_cast Int.toNat_of_nonneg low
  rw [abs_value_sub, mark]
  calc
    |r.position v - n| * r.spacing ≤ 1 / 2 * r.spacing := mul_le_mul_of_nonneg_right rounds.near r.spaced.le
    _ = r.spacing / 2 := by ring

/-- Above the last mark there is no nearer one. -/
theorem nearest_eq_top (beyond : r.value r.top ≤ v) : r.nearest v = r.top :=
  le_antisymm (r.nearest_le v) ((nearest_value le_rfl).symm.le.trans (nearest_mono beyond))

end Ruler

/-! ### Codecs -/

/-- What is common to the codecs with evenly spaced values. -/
structure LinearCodec where
  bits : ℕ
  /-- The smallest and the largest legal value. -/
  limits : ℚ × ℚ
  clip : ℚ → ℚ
  toRaw : ℚ → ℕ
  fromRaw : ℕ → ℚ
  lsb : ℚ
  /-- The place of a code in the order of the values. -/
  offsetOf : ℕ → ℕ

namespace LinearCodec

def maxRaw (c : LinearCodec) : ℕ := 2 ^ c.bits - 1

/-- Codes and values there and back. Up to a value `last` there is a code within half a step. -/
structure RoundTrips (c : LinearCodec) (last : ℚ) : Prop where
  bounded : ∀ v, c.toRaw v ≤ c.maxRaw
  returns : ∀ w ≤ c.maxRaw, c.toRaw (c.fromRaw w) = w
  clipped : ∀ v, c.limits.1 ≤ c.clip v ∧ c.clip v ≤ c.limits.2
  legal : ∀ v, c.limits.1 ≤ v → v ≤ c.limits.2 → c.clip v = v
  near : ∀ v, c.clip v ≤ last → |c.fromRaw (c.toRaw v) - c.clip v| ≤ c.lsb / 2
  saturated : ∀ v, last < c.clip v →
    c.offsetOf (c.toRaw v) = c.maxRaw ∧ |c.fromRaw (c.toRaw v) - c.clip v| ≤ c.lsb
  ordered : ∀ v v', c.limits.1 ≤ v → v ≤ v' → v' ≤ c.limits.2 → c.offsetOf (c.toRaw v) ≤ c.offsetOf (c.toRaw v')

/-- The codes are the offsets in another order. -/
structure Arranges (c : LinearCodec) (code : ℕ → ℕ) : Prop where
  code_le : ∀ k ≤ c.maxRaw, code k ≤ c.maxRaw
  offsetOf_le : ∀ w ≤ c.maxRaw, c.offsetOf w ≤ c.maxRaw
  offsetOf_code : ∀ k ≤ c.maxRaw, c.offsetOf (code k) = k
  code_offsetOf : ∀ w ≤ c.maxRaw, code (c.offsetOf w) = w

/-- A codec whose offsets are the marks of a ruler. -/
structure Measures (c : LinearCodec) (r : Ruler) (code : ℕ → ℕ) : Prop extends c.Arranges code where
  top : r.top = c.maxRaw
  lsb : r.spacing = c.lsb
  low : r.origin = c.limits.1
  high : r.value r.top ≤ c.limits.2
  toRaw : ∀ v, c.toRaw v = code (r.nearest (c.clip v))
  fromRaw : ∀ w ≤ c.maxRaw, c.fromRaw w = r.value (c.offsetOf w)
  clipped : ∀ v, c.limits.1 ≤ c.clip v ∧ c.clip v ≤ c.limits.2
  legal : ∀ v, c.limits.1 ≤ v → v ≤ c.limits.2 → c.clip v = v

/-- Codes that are their own offsets. -/
theorem Arranges.natural {c : LinearCodec} (same : c.offsetOf = id) : c.Arranges id where
  code_le _ := id
  offsetOf_le w inRange := by rwa [same]
  offsetOf_code k _ := by rw [same]; rfl
  code_offsetOf w _ := by rw [same]; rfl

namespace Measures
variable {c : LinearCodec} {r : Ruler} {code : ℕ → ℕ} {last : ℚ}

theorem nearest_le (m : c.Measures r code) (v : ℚ) : r.nearest v ≤ c.maxRaw := m.top ▸ r.nearest_le v

theorem offsetOf_toRaw (m : c.Measures r code) (v : ℚ) : c.offsetOf (c.toRaw v) = r.nearest (c.clip v) := by
  rw [m.toRaw, m.offsetOf_code _ (m.nearest_le _)]

theorem fromRaw_toRaw (m : c.Measures r code) (v : ℚ) : c.fromRaw (c.toRaw v) = r.value (r.nearest (c.clip v)) := by
  rw [m.fromRaw _ (m.toRaw v ▸ m.code_le _ (m.nearest_le _)), m.offsetOf_toRaw]

theorem toRaw_fromRaw (m : c.Measures r code) {w : ℕ} (inRange : w ≤ c.maxRaw) : c.toRaw (c.fromRaw w) = w := by
  have offset := m.offsetOf_le w inRange
  have low : c.limits.1 ≤ r.value (c.offsetOf w) := by
    rw [← m.low]
    exact r.origin_le_value _
  have high : r.value (c.offsetOf w) ≤ c.limits.2 := (r.value_mono (m.top ▸ offset)).trans m.high
  rw [m.toRaw, m.fromRaw w inRange, m.legal _ low high, Ruler.nearest_value (m.top ▸ offset), m.code_offsetOf w inRange]

/-- The range ends with the last mark, or goes on for a step at most. -/
theorem roundTrips (m : c.Measures r code) (half : last ≤ r.value r.top + c.lsb / 2)
    (saturates : ∀ v, last < v → v ≤ c.limits.2 → r.value r.top ≤ v ∧ v ≤ r.value r.top + c.lsb) :
    c.RoundTrips last where
  bounded v := m.toRaw v ▸ m.code_le _ (m.nearest_le _)
  returns _ inRange := m.toRaw_fromRaw inRange
  clipped := m.clipped
  legal := m.legal
  near v inRange := by
    rw [m.fromRaw_toRaw]
    rcases le_total (c.clip v) (r.value r.top) with below | above
    · exact m.lsb ▸ Ruler.abs_value_nearest_sub_le (m.low ▸ (m.clipped v).1) below
    · rw [Ruler.nearest_eq_top above, abs_sub_comm, abs_of_nonneg (sub_nonneg.mpr above)]
      linarith
  saturated v beyond := by
    obtain ⟨above, within⟩ := saturates _ beyond (m.clipped v).2
    rw [m.fromRaw_toRaw, m.offsetOf_toRaw, Ruler.nearest_eq_top above, abs_sub_comm, abs_of_nonneg (sub_nonneg.mpr above)]
    exact ⟨m.top, by linarith⟩
  ordered v v' low order high := by
    rw [m.offsetOf_toRaw, m.offsetOf_toRaw, m.legal v low (order.trans high), m.legal v' (low.trans order) high]
    exact Ruler.nearest_mono order

end Measures

end LinearCodec

/-! ### Values within limits -/

section
variable {lo hi v : ℚ}

theorem clamp_mem (ordered : lo ≤ hi) (v : ℚ) : lo ≤ Scalar.clamp v lo hi ∧ Scalar.clamp v lo hi ≤ hi := by
  have unfolded : Scalar.clamp v lo hi = if v < lo then lo else if hi < v then hi else v := by
    simp [Scalar.clamp, Scalar.lt]
  rw [unfolded]
  split_ifs with below above
  · exact ⟨le_rfl, ordered⟩
  · exact ⟨ordered, le_rfl⟩
  · exact ⟨not_lt.mp below, not_lt.mp above⟩

theorem clamp_eq (low : lo ≤ v) (high : v ≤ hi) : Scalar.clamp v lo hi = v := by
  simp [Scalar.clamp, Scalar.lt, low.not_gt, high.not_gt]

end

theorem mod_twoPow {bits w : ℕ} (inRange : w ≤ 2 ^ bits - 1) : w % twoPow bits = w := by
  rw [twoPow_eq]
  exact Nat.mod_eq_of_lt ((Nat.le_sub_one_iff_lt (Nat.two_pow_pos bits)).mp inRange)

/-! ### Voltages -/

namespace Converter
variable {d : Converter ℚ}

def exact (d : Converter ℚ) : LinearCodec where
  bits := d.bits
  limits := (d.min, d.max)
  clip := d.clip
  toRaw := d.toRaw
  fromRaw := d.fromRaw
  lsb := d.lsb
  offsetOf := d.offsetOf

/-- The highest voltage with a code within half a step. -/
def lastVoltage (d : Converter ℚ) : ℚ :=
  match d.span with
  | .fullScale => d.max
  | .steps => d.max - d.lsb / 2

/-- The steps of the range that are left above the largest offset. -/
def stepsAbove (d : Converter ℚ) : ℚ :=
  match d.span with
  | .fullScale => 0
  | .steps => 1

theorem stepCount_eq (d : Converter ℚ) : d.stepCount = d.maxOffset + d.stepsAbove := by
  obtain ⟨bits, min, max, span, coding⟩ := d
  have offsets : twoPow bits = twoPow bits - 1 + 1 := by
    have positive : 0 < twoPow bits := twoPow_eq bits ▸ Nat.two_pow_pos bits
    omega
  cases span with
  | fullScale => exact (add_zero ((twoPow bits - 1 : ℕ) : ℚ)).symm
  | steps => exact (congrArg Nat.cast offsets).trans (Nat.cast_succ (twoPow bits - 1))

theorem maxOffset_eq (d : Converter ℚ) : d.maxOffset = d.exact.maxRaw := by
  rw [maxOffset, twoPow_eq]
  rfl

theorem le_maxRaw_iff {k : ℕ} : k ≤ d.exact.maxRaw ↔ k < 2 ^ d.bits :=
  Nat.le_sub_one_iff_lt (Nat.two_pow_pos d.bits)

theorem stepsAbove_nonneg (d : Converter ℚ) : 0 ≤ d.stepsAbove := by
  unfold stepsAbove
  split
  · exact le_rfl
  · exact zero_le_one

theorem stepsAbove_le_one (d : Converter ℚ) : d.stepsAbove ≤ 1 := by
  unfold stepsAbove
  split
  · exact zero_le_one
  · exact le_rfl

theorem stepCount_pos (wide : 0 < d.bits) : 0 < d.stepCount := by
  have offsets : 0 < d.maxOffset := by
    rw [maxOffset_eq]
    exact Nat.sub_pos_of_lt (Nat.one_lt_two_pow wide.ne')
  rw [stepCount_eq]
  exact add_pos_of_pos_of_nonneg (Nat.cast_pos.mpr offsets) d.stepsAbove_nonneg

def ruler (d : Converter ℚ) (wide : 0 < d.bits) (ordered : d.min < d.max) : Ruler where
  origin := d.min
  spacing := d.lsb
  top := d.maxOffset
  spaced := div_pos (sub_pos.mpr ordered) (stepCount_pos wide)

/-- The range ends at the last mark, or a step above it. -/
theorem max_eq (wide : 0 < d.bits) (ordered : d.min < d.max) :
    d.max = (d.ruler wide ordered).value d.maxOffset + d.stepsAbove * d.lsb := by
  have whole : d.stepCount * d.lsb = d.max - d.min := mul_div_cancel₀ _ (stepCount_pos wide).ne'
  have value : (d.ruler wide ordered).value d.maxOffset = d.min + d.maxOffset * d.lsb := rfl
  rw [stepCount_eq, add_mul] at whole
  linarith

theorem offset_eq (wide : 0 < d.bits) (ordered : d.min < d.max) (v : ℚ) :
    d.offset v = (d.ruler wide ordered).nearest (d.clip v) := by
  rw [Ruler.nearest, Ruler.position_eq rfl]
  rfl

theorem fromRaw_eq (wide : 0 < d.bits) (ordered : d.min < d.max) (w : ℕ) :
    d.fromRaw w = (d.ruler wide ordered).value (d.offsetOf w) := by
  rw [Ruler.value_eq rfl]
  rfl

theorem arranges (wide : 0 < d.bits) : d.exact.Arranges d.code where
  code_le k inRange := le_maxRaw_iff.mpr (d.code_lt wide (le_maxRaw_iff.mp inRange))
  offsetOf_le w inRange := by
    have small := le_maxRaw_iff.mp inRange
    exact le_maxRaw_iff.mpr ((d.offsetOf_of_lt small).trans_lt (d.code_lt wide small))
  offsetOf_code k inRange := by
    have small := d.code_lt wide (le_maxRaw_iff.mp inRange)
    exact (d.offsetOf_of_lt small).trans (d.code_code k)
  code_offsetOf w inRange :=
    (congrArg d.code (d.offsetOf_of_lt (le_maxRaw_iff.mp inRange))).trans (d.code_code w)

theorem measures (wide : 0 < d.bits) (ordered : d.min < d.max) :
    d.exact.Measures (d.ruler wide ordered) d.code where
  toArranges := arranges wide
  top := d.maxOffset_eq
  lsb := rfl
  low := rfl
  high := by
    have above := mul_nonneg d.stepsAbove_nonneg (d.ruler wide ordered).spaced.le
    exact (le_add_of_nonneg_right above).trans (max_eq wide ordered).symm.le
  toRaw v := congrArg d.code (offset_eq wide ordered v)
  fromRaw w _ := fromRaw_eq wide ordered w
  clipped := clamp_mem ordered.le
  legal _ := clamp_eq

theorem lastVoltage_eq (d : Converter ℚ) : d.lastVoltage = d.max - d.stepsAbove * d.lsb / 2 := by
  unfold lastVoltage stepsAbove
  split <;> ring

theorem roundTrips (wide : 0 < d.bits) (ordered : d.min < d.max) : d.exact.RoundTrips d.lastVoltage := by
  have step : 0 < d.lsb := (d.ruler wide ordered).spaced
  have ends := max_eq wide ordered
  have none : 0 ≤ d.stepsAbove * d.lsb := mul_nonneg d.stepsAbove_nonneg step.le
  have one : d.stepsAbove * d.lsb ≤ d.lsb := mul_le_of_le_one_left step.le d.stepsAbove_le_one
  have last := d.lastVoltage_eq
  refine (measures wide ordered).roundTrips ?_ fun v beyond inRange => ?_
  · show d.lastVoltage ≤ (d.ruler wide ordered).value d.maxOffset + d.lsb / 2
    linarith
  · have upTo : v ≤ d.max := inRange
    show (d.ruler wide ordered).value d.maxOffset ≤ v ∧ v ≤ (d.ruler wide ordered).value d.maxOffset + d.lsb
    constructor <;> linarith

end Converter

/-! ### Frequencies -/

namespace FrequencyScale
variable {s : FrequencyScale ℚ}

def exact (s : FrequencyScale ℚ) : LinearCodec where
  bits := s.bits
  limits := (0, s.limit)
  clip := s.clip
  toRaw := s.toRaw
  fromRaw := s.fromRaw
  lsb := s.lsb
  offsetOf := id

theorem maxRaw_eq (s : FrequencyScale ℚ) : s.maxRaw = s.exact.maxRaw := by
  rw [maxRaw, twoPow_eq]
  rfl

theorem steps_pos (s : FrequencyScale ℚ) : 0 < s.steps := by
  have positive : 0 < twoPow s.bits := twoPow_eq s.bits ▸ Nat.two_pow_pos s.bits
  exact Nat.cast_pos.mpr positive

def ruler (s : FrequencyScale ℚ) (ticking : 0 < s.clock) : Ruler where
  origin := 0
  spacing := s.lsb
  top := s.maxRaw
  spaced := div_pos ticking s.steps_pos

theorem fromRaw_eq (ticking : 0 < s.clock) {w : ℕ} (inRange : w ≤ s.exact.maxRaw) :
    s.fromRaw w = (s.ruler ticking).value w := by
  have kept : w % twoPow s.bits = w := mod_twoPow inRange
  have from_zero : (s.ruler ticking).origin = 0 := rfl
  rw [Ruler.value_eq rfl, from_zero, add_zero, fromRaw, kept]
  rfl

theorem limit_eq (ticking : 0 < s.clock) : s.limit = (s.ruler ticking).value s.maxRaw :=
  fromRaw_eq ticking s.maxRaw_eq.le

theorem toRaw_eq (ticking : 0 < s.clock) (v : ℚ) : s.toRaw v = (s.ruler ticking).nearest (s.clip v) := by
  have from_zero : (s.ruler ticking).origin = 0 := rfl
  rw [Ruler.nearest, Ruler.position_eq rfl, from_zero, sub_zero]
  rfl

theorem measures (ticking : 0 < s.clock) : s.exact.Measures (s.ruler ticking) id where
  toArranges := .natural rfl
  top := s.maxRaw_eq
  lsb := rfl
  low := rfl
  high := (limit_eq ticking).symm.le
  toRaw := toRaw_eq ticking
  fromRaw _ := fromRaw_eq ticking
  clipped := clamp_mem ((s.ruler ticking).origin_le_value _ |>.trans (limit_eq ticking).symm.le)
  legal _ := clamp_eq

theorem roundTrips (ticking : 0 < s.clock) : s.exact.RoundTrips s.limit := by
  refine (measures ticking).roundTrips ?_ fun v beyond inRange => absurd beyond (not_lt.mpr inRange)
  have half : 0 ≤ s.lsb / 2 := (half_pos (s.ruler ticking).spaced).le
  exact (limit_eq ticking).le.trans (le_add_of_nonneg_right half)

end FrequencyScale

/-! ### Phases -/

namespace PhaseScale
variable {s : PhaseScale}

def exact (s : PhaseScale) : LinearCodec where
  bits := s.bits
  limits := (0, 360)
  clip := wrap
  toRaw := s.toRaw
  fromRaw := s.fromRaw
  lsb := s.lsb
  offsetOf := id

theorem maxRaw_eq (s : PhaseScale) : s.maxRaw = s.exact.maxRaw := by
  rw [maxRaw, twoPow_eq]
  rfl

theorem maxRaw_pos (wide : 0 < s.bits) : (0 : ℚ) < s.maxRaw := by
  rw [maxRaw_eq]
  exact Nat.cast_pos.mpr (Nat.sub_pos_of_lt (Nat.one_lt_two_pow wide.ne'))

def ruler (s : PhaseScale) (wide : 0 < s.bits) : Ruler where
  origin := 0
  spacing := s.lsb
  top := s.maxRaw
  spaced := div_pos (by norm_num [Scalar.ofNat]) (maxRaw_pos wide)

theorem fromRaw_eq (wide : 0 < s.bits) {w : ℕ} (inRange : w ≤ s.exact.maxRaw) :
    s.fromRaw w = (s.ruler wide).value w := by
  have kept : w % twoPow s.bits = w := mod_twoPow inRange
  have from_zero : (s.ruler wide).origin = 0 := rfl
  rw [Ruler.value_eq rfl, from_zero, add_zero, fromRaw, kept]
  rfl

theorem toRaw_eq (wide : 0 < s.bits) (v : ℚ) : s.toRaw v = (s.ruler wide).nearest (wrap v) := by
  have from_zero : (s.ruler wide).origin = 0 := rfl
  rw [Ruler.nearest, Ruler.position_eq rfl, from_zero, sub_zero]
  rfl

theorem value_top (wide : 0 < s.bits) : (s.ruler wide).value s.maxRaw = 360 := by
  have scaled : (s.ruler wide).value s.maxRaw = 0 + s.maxRaw * ((360 : ℚ) / s.maxRaw) := rfl
  rw [scaled, zero_add, mul_div_cancel₀ _ (maxRaw_pos wide).ne']

theorem wrap_eq (v : ℚ) : wrap v = if 0 ≤ v ∧ v ≤ 360 then v else v - 360 * (v / 360).floor := by
  simp [wrap, Scalar.le, Scalar.ofNat, Scalar.remainder]

theorem wrap_mem (v : ℚ) : 0 ≤ wrap v ∧ wrap v ≤ 360 := by
  rw [wrap_eq]
  split_ifs with inTurn
  · exact inTurn
  · have below := Rat.floor_le (v / 360)
    have above := Rat.lt_floor_add_one (v / 360)
    push_cast at above
    constructor <;> linarith

theorem measures (wide : 0 < s.bits) : s.exact.Measures (s.ruler wide) id where
  toArranges := .natural rfl
  top := s.maxRaw_eq
  lsb := rfl
  low := rfl
  high := (value_top wide).le
  toRaw := toRaw_eq wide
  fromRaw _ := fromRaw_eq wide
  clipped := wrap_mem
  legal v low high := (wrap_eq v).trans (if_pos ⟨low, high⟩)

theorem roundTrips (wide : 0 < s.bits) : s.exact.RoundTrips 360 := by
  refine (measures wide).roundTrips ?_ fun v beyond inRange => absurd beyond (not_lt.mpr inRange)
  have half : (0 : ℚ) ≤ s.lsb / 2 := (half_pos (s.ruler wide).spaced).le
  exact (value_top wide).symm.le.trans (le_add_of_nonneg_right half)

end PhaseScale

/-- Every converter, frequency scale and phase scale round-trips, with the saturated codes of a converter in steps as
the only ones that are more than half a step off. -/
theorem linear_codecs_round_trip :
    (∀ d : Converter ℚ, 0 < d.bits → d.min < d.max → d.exact.RoundTrips d.lastVoltage) ∧
      (∀ s : FrequencyScale ℚ, 0 < s.clock → s.exact.RoundTrips s.limit) ∧
      ∀ s : PhaseScale, 0 < s.bits → s.exact.RoundTrips 360 :=
  ⟨fun _ => Converter.roundTrips, fun _ => FrequencyScale.roundTrips, fun _ => PhaseScale.roundTrips⟩

theorem standard_parts_round_trip :
    (⟨16, -10, 10, .steps, .twosComplement⟩ : Converter ℚ).exact.RoundTrips (10 - 10 / 65536) ∧
      (⟨10 ^ 9, 48⟩ : FrequencyScale ℚ).exact.RoundTrips (10 ^ 9 - 10 ^ 9 / 2 ^ 48) ∧
      (⟨12⟩ : PhaseScale).exact.RoundTrips 360 := by
  obtain ⟨voltages, frequencies, phases⟩ := linear_codecs_round_trip
  have last : (⟨16, -10, 10, .steps, .twosComplement⟩ : Converter ℚ).lastVoltage = 10 - 10 / 65536 := by decide +kernel
  have limit : (⟨10 ^ 9, 48⟩ : FrequencyScale ℚ).limit = 10 ^ 9 - 10 ^ 9 / 2 ^ 48 := by decide +kernel
  exact ⟨last ▸ voltages _ (by decide) (by decide +kernel), limit ▸ frequencies _ (by decide +kernel),
    phases _ (by decide)⟩

/-- At the upper end of its range a converter in steps is a whole step off. -/
example :
    let d : Converter ℚ := ⟨16, -10, 10, .steps, .twosComplement⟩
    d.toRaw 10 = 0x7FFF ∧ |d.fromRaw 0x7FFF - 10| = d.lsb := by
  decide +kernel

end Sequencer
