import Sequencer.Codec.Basic

/-!
Voltage converters.

A converter divides its range into evenly spaced steps. The offset of a voltage is the nearest step,
saturated at the largest; the word is the offset itself or, in two's complement, the offset with
its top bit inverted.
-/
namespace Sequencer

/-- Whether the largest offset stands for the upper end of the range or for one step below it. -/
inductive Span where
  | fullScale | steps
  deriving DecidableEq, Repr

inductive Coding where
  | twosComplement | offsetBinary
  deriving DecidableEq, Repr

def Span.ofName? : String → Option Span
  | "full_scale" => some .fullScale
  | "steps" => some .steps
  | _ => none

def Coding.ofName? : String → Option Coding
  | "twos_complement" => some .twosComplement
  | "offset_binary" => some .offsetBinary
  | _ => none

structure Converter (α : Type) where
  bits : Nat
  min : α
  max : α
  span : Span
  coding : Coding
  deriving DecidableEq, Repr

namespace Converter
variable {α : Type} [Scalar α]

def maxOffset (d : Converter α) : Nat := twoPow d.bits - 1

/-- The number of steps over the whole range. -/
@[specialize] def stepCount (d : Converter α) : α :=
  match d.span with
  | .fullScale => Scalar.ofNat (twoPow d.bits - 1)
  | .steps => Scalar.ofNat (twoPow d.bits)

/-- The word of an offset. Applied twice it gives the offset back. -/
def code (d : Converter α) (offset : Nat) : Nat :=
  match d.coding with
  | .twosComplement => offset ^^^ twoPow (d.bits - 1)
  | .offsetBinary => offset

def offsetOf (d : Converter α) (raw : Nat) : Nat := d.code (raw % twoPow d.bits)

omit [Scalar α] in
theorem code_lt (d : Converter α) (wide : 0 < d.bits) {k : Nat} (inRange : k < 2 ^ d.bits) : d.code k < 2 ^ d.bits := by
  unfold code
  split
  · rw [twoPow_eq]
    exact Nat.xor_lt_two_pow inRange (Nat.pow_lt_pow_right (by decide) (by omega))
  · exact inRange

omit [Scalar α] in
theorem code_code (d : Converter α) (k : Nat) : d.code (d.code k) = k := by
  unfold code
  split
  · rw [Nat.xor_assoc, Nat.xor_self, Nat.xor_zero]
  · rfl

omit [Scalar α] in
theorem offsetOf_of_lt (d : Converter α) {raw : Nat} (inRange : raw < 2 ^ d.bits) : d.offsetOf raw = d.code raw := by
  rw [offsetOf, twoPow_eq, Nat.mod_eq_of_lt inRange]

@[specialize] def clip (d : Converter α) (value : α) : α := Scalar.clamp value d.min d.max

/-- The nearest step, a half going to the even one. -/
@[specialize] def offset (d : Converter α) (value : α) : Nat :=
  let step := Scalar.roundEven ((d.clip value - d.min) * d.stepCount / (d.max - d.min))
  Nat.min (Scalar.toNat step) d.maxOffset

@[specialize] def toRaw (d : Converter α) (value : α) : Nat := d.code (d.offset value)

@[specialize] def fromRaw (d : Converter α) (raw : Nat) : α :=
  Scalar.ofNat (d.offsetOf raw) * (d.max - d.min) / d.stepCount + d.min

@[specialize] def lsb (d : Converter α) : α := (d.max - d.min) / d.stepCount

def neighbour (d : Converter α) (raw : Nat) (steps : Int) : Option Nat :=
  (Codec.neighbourBelow (twoPow d.bits) (d.offsetOf raw) steps).map d.code

/-- Both ends of the range, reached exactly and from beyond. -/
def endVectors (d : Converter Float) : List (Float × Nat) :=
  let bottom := d.code 0
  let top := d.code d.maxOffset
  [(d.min - 1.0, bottom), (d.min, bottom), (d.max, top), (d.max + 1.0, top)]

def codec (d : Converter Float) (tag : String) (vectors : List (Float × Nat)) : Codec where
  tag := tag
  quantity := .voltage
  rawBits := d.bits
  limits := (d.min, d.max)
  clip := d.clip
  toRaw := d.toRaw
  fromRaw := d.fromRaw
  linear value := value
  fromLinear x := x
  lsb := d.lsb
  neighbour := d.neighbour
  packing := .chunks
  vectors := vectors

/-- The general sixteen-bit output: ten volts to both sides, both ends exact. -/
def general : Converter Float := ⟨16, -10.0, 10.0, .fullScale, .twosComplement⟩
def dac712 : Converter Float := ⟨16, -10.0, 10.0, .steps, .twosComplement⟩
def dac715 : Converter Float := ⟨16, 0.0, 10.0, .steps, .twosComplement⟩
def dac7744 : Converter Float := ⟨16, -10.0, 10.0, .steps, .offsetBinary⟩

def generalCodec : Codec :=
  general.codec "AnalogOut"
    [(-11.0, 0x8000), (-10.0, 0x8000), (-5.0, 0xC000), (0.0, 0x0000), (5.0, 0x3FFF),
     (10.0, 0x7FFF), (11.0, 0x7FFF)]

def dac712Codec : Codec :=
  let lsb : Float := 20.0 / 65536.0
  dac712.codec "DAC712"
    [(-11.0, 0x8000), (-10.0, 0x8000), (-5.0, 0xC000), (-lsb, 0xFFFF), (0.0, 0x0000),
     (lsb / 2.0, 0x0000), (lsb, 0x0001), (5.0, 0x4000), (10.0 - lsb, 0x7FFF), (10.0, 0x7FFF),
     (11.0, 0x7FFF)]

def dac715Codec : Codec :=
  let lsb : Float := 10.0 / 65536.0
  dac715.codec "DAC715"
    [(-1.0, 0x8000), (0.0, 0x8000), (2.5, 0xC000), (5.0 - lsb, 0xFFFF), (5.0, 0x0000),
     (5.0 + lsb, 0x0001), (7.5, 0x4000), (10.0 - lsb, 0x7FFF), (10.0, 0x7FFF), (11.0, 0x7FFF)]

def dac7744Codec : Codec :=
  let lsb : Float := 20.0 / 65536.0
  dac7744.codec "DAC7744"
    [(-11.0, 0x0000), (-10.0, 0x0000), (-5.0, 0x4000), (-lsb, 0x7FFF), (0.0, 0x8000),
     (lsb, 0x8001), (5.0, 0xC000), (10.0 - lsb, 0xFFFF), (10.0, 0xFFFF), (11.0, 0xFFFF)]

end Converter

end Sequencer
