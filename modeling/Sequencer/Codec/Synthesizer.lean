import Sequencer.Codec.Basic

/-!
The three sub-channels of a frequency synthesizer: frequency, amplitude and phase.

Frequency and phase are evenly spaced over the clock and over one turn. Amplitude is given in dBm
and mapped through the voltage `10 ^ (dBm / 20)`, on which the tuning words are evenly spaced by a
calibration at two points.
-/
namespace Sequencer

structure FrequencyScale (α : Type) where
  clock : α
  bits : Nat
  deriving DecidableEq, Repr

namespace FrequencyScale
variable {α : Type} [Scalar α]

def maxRaw (s : FrequencyScale α) : Nat := twoPow s.bits - 1

@[specialize] def steps (s : FrequencyScale α) : α := Scalar.ofNat (twoPow s.bits)

@[specialize] def fromRaw (s : FrequencyScale α) (raw : Nat) : α :=
  Scalar.ofNat (raw % twoPow s.bits) * s.clock / s.steps

/-- The highest frequency is that of the largest tuning word. -/
@[specialize] def limit (s : FrequencyScale α) : α := s.fromRaw s.maxRaw

@[specialize] def clip (s : FrequencyScale α) (value : α) : α :=
  Scalar.clamp value (Scalar.ofNat 0) s.limit

@[specialize] def toRaw (s : FrequencyScale α) (value : α) : Nat :=
  let word := Scalar.roundEven (s.clip value * s.steps / s.clock)
  Nat.min (Scalar.toNat word) s.maxRaw

@[specialize] def lsb (s : FrequencyScale α) : α := s.clock / s.steps

def vectors (s : FrequencyScale Float) : List (Float × Nat) :=
  [(-1.0, 0), (0.0, 0), (s.lsb, 1), (s.clock / 4.0, twoPow (s.bits - 2)),
   (s.clock / 10.0, Scalar.toNat (Scalar.roundEven (s.steps / 10.0))), (2.0 * s.clock, s.maxRaw)]

def codec (s : FrequencyScale Float) (tag : String) : Codec where
  tag := tag
  quantity := .frequency
  rawBits := s.bits
  limits := (0.0, s.limit)
  clip := s.clip
  toRaw := s.toRaw
  fromRaw := s.fromRaw
  linear value := value
  fromLinear x := x
  lsb := s.lsb
  neighbour := Codec.neighbourBelow (twoPow s.bits)
  packing := .chunks
  vectors := s.vectors

def standard : FrequencyScale Float := ⟨1e9, 48⟩

end FrequencyScale

structure PhaseScale where
  bits : Nat
  deriving DecidableEq, Repr

namespace PhaseScale
variable {α : Type} [Scalar α]

def maxRaw (s : PhaseScale) : Nat := twoPow s.bits - 1

/-- Angles outside one turn come back into it; a full turn stays one. -/
@[specialize] def wrap (value : α) : α :=
  if Scalar.le (Scalar.ofNat 0) value && Scalar.le value (Scalar.ofNat 360) then value
  else Scalar.remainder value (Scalar.ofNat 360)

@[specialize] def toRaw (s : PhaseScale) (value : α) : Nat :=
  let word := Scalar.roundEven (wrap value * Scalar.ofNat s.maxRaw / Scalar.ofNat 360)
  Nat.min (Scalar.toNat word) s.maxRaw

@[specialize] def fromRaw (s : PhaseScale) (raw : Nat) : α :=
  Scalar.ofNat (raw % twoPow s.bits) * Scalar.ofNat 360 / Scalar.ofNat s.maxRaw

@[specialize] def lsb (s : PhaseScale) : α := Scalar.ofNat 360 / Scalar.ofNat s.maxRaw

def vectors (s : PhaseScale) : List (Float × Nat) :=
  if s.bits = 12 then
    [(0.0, 0), (90.0, 1024), (180.0, 2048), (360.0, 4095), (450.0, 1024), (-90.0, 3071)]
  else [(0.0, 0), (360.0, s.maxRaw)]

def codec (s : PhaseScale) (tag : String) : Codec where
  tag := tag
  quantity := .angle
  rawBits := s.bits
  limits := (0.0, 360.0)
  clip := wrap
  toRaw := s.toRaw
  fromRaw := s.fromRaw
  linear value := value
  fromLinear x := x
  lsb := s.lsb
  neighbour := Codec.neighbourBelow (twoPow s.bits)
  packing := .chunks
  vectors := s.vectors

def standard : PhaseScale := ⟨12⟩

end PhaseScale

/-- A calibration: two tuning words and their voltages. -/
structure AmplitudeScale where
  bits : Nat
  word0 : Float
  volt0 : Float
  word1 : Float
  volt1 : Float
  deriving Repr

namespace AmplitudeScale

def voltOfPower (dBm : Float) : Float := Float.pow 10.0 (dBm / 20.0)

def powerOfVolt (volt : Float) : Float := 20.0 * volt.log10

/-- A calibration from two pairs of tuning word and dBm. -/
def ofPowers (bits : Nat) (cal0 cal1 : Float × Float) : AmplitudeScale :=
  ⟨bits, cal0.1, voltOfPower cal0.2, cal1.1, voltOfPower cal1.2⟩

def maxRaw (s : AmplitudeScale) : Nat := twoPow s.bits - 1

/-- The voltage of a tuning word, never negative. -/
def voltAt (s : AmplitudeScale) (word : Float) : Float :=
  let volt := s.volt0 + (word - s.word0) * (s.volt1 - s.volt0) / (s.word1 - s.word0)
  if volt > 0.0 then volt else 0.0

def lowest (s : AmplitudeScale) : Float := s.voltAt 0.0
def highest (s : AmplitudeScale) : Float := s.voltAt (Float.ofNat s.maxRaw)

/-- The smallest finite power: that of the first tuning word with a voltage. -/
def minPower (s : AmplitudeScale) : Float :=
  if s.lowest > 0.0 then powerOfVolt s.lowest else powerOfVolt (s.voltAt 1.0)

def maxPower (s : AmplitudeScale) : Float := powerOfVolt s.highest

/-- Clips the voltage, so that no power at all becomes tuning word zero. -/
def clip (s : AmplitudeScale) (power : Float) : Float :=
  powerOfVolt (Scalar.clamp (voltOfPower power) s.lowest s.highest)

/-- The tuning word of a voltage, before saturation. -/
def wordAt (s : AmplitudeScale) (volt : Float) : Float :=
  Binary64.roundEven
    (((volt - s.volt0) * s.word1 + (s.volt1 - volt) * s.word0) / (s.volt1 - s.volt0))

def toRaw (s : AmplitudeScale) (power : Float) : Nat :=
  Nat.min (Scalar.toNat (s.wordAt (voltOfPower (s.clip power)))) s.maxRaw

def fromRaw (s : AmplitudeScale) (raw : Nat) : Float :=
  powerOfVolt (s.voltAt (Float.ofNat (raw % twoPow s.bits)))

def lsb (s : AmplitudeScale) : Float := ((s.volt1 - s.volt0) / (s.word1 - s.word0)).abs

def vectors (s : AmplitudeScale) : List (Float × Nat) :=
  let rawAt (power : Float) :=
    Scalar.toNat (Scalar.clamp (s.wordAt (voltOfPower power)) 0.0 (Float.ofNat s.maxRaw))
  let first := powerOfVolt s.volt0
  [(-1.0 / 0.0, 0), (-40.0, rawAt (-40.0)), (first, rawAt first), (s.maxPower, s.maxRaw),
   (s.maxPower + 10.0, s.maxRaw)]

def codec (s : AmplitudeScale) (tag : String) : Codec where
  tag := tag
  quantity := .power
  rawBits := s.bits
  limits := (s.minPower, s.maxPower)
  clip := s.clip
  toRaw := s.toRaw
  fromRaw := s.fromRaw
  linear := voltOfPower
  fromLinear := powerOfVolt
  lsb := s.lsb
  neighbour := Codec.neighbourBelow (twoPow s.bits)
  packing := .chunks
  vectors := s.vectors

/-- Full scale at 0 dBm, a tenth of it at -20 dBm. -/
def standard : AmplitudeScale := ofPowers 14 (1638.3, -20.0) (16383.0, 0.0)

end AmplitudeScale

end Sequencer
