import Sequencer.Bus.Word
import Sequencer.Number.Scalar

/-!
Codecs: the conversion between the value of a channel and the words on the bus.

A codec turns a value into a raw code of `rawBits` bits. The code travels as one or more sixteen-bit
chunks, each in a word that carries the address of the channel, least significant chunk first; a
digital line has one bit in the word of its bank instead. `encode` and `decode` are the two
directions.
-/
namespace Sequencer

/-- The physical quantity that a channel sets. -/
inductive Quantity where
  | voltage | frequency | power | angle | level
  deriving DecidableEq, Repr

def Quantity.symbol : Quantity → String
  | voltage => "V"
  | frequency => "Hz"
  | power => "dBm"
  | angle => "deg"
  | level => "bit"

/-- Where a channel sits: its address and, for a digital line, its bit. -/
structure Place where
  address : Nat
  bit : Nat
  deriving DecidableEq, Repr

inductive Packing where
  /-- Sixteen bits of the code in each word. -/
  | chunks
  /-- A single bit in a word that is shared with other lines. -/
  | sharedBit
  deriving DecidableEq, Repr

structure Codec where
  tag : String
  quantity : Quantity
  rawBits : Nat
  /-- The smallest and the largest legal value. -/
  limits : Float × Float
  /-- The nearest legal value. -/
  clip : Float → Float
  toRaw : Float → Nat
  fromRaw : Nat → Float
  /-- The value on the scale where the codes are evenly spaced. -/
  linear : Float → Float
  fromLinear : Float → Float
  /-- The distance of two codes on that scale. -/
  lsb : Float
  /-- The code that many steps up or down in order of value. -/
  neighbour : Nat → Int → Option Nat
  packing : Packing
  /-- Known values and their codes. -/
  vectors : List (Float × Nat)
  /-- A single bit in a shared word is the whole code. -/
  oneBit : packing = .sharedBit → rawBits = 1 := by simp

/-- The code that many steps away, when codes are in order of value. -/
def Codec.neighbourBelow (count : Nat) (raw : Nat) (steps : Int) : Option Nat :=
  let next := (raw : Int) + steps
  if next < 0 ∨ (count : Int) ≤ next then none else some next.toNat

namespace Codec

def maxRaw (c : Codec) : Nat := 2 ^ c.rawBits - 1

def wordsPerValue (c : Codec) : Nat := (c.rawBits + 15) / 16

def chunksOf : Nat → Nat → List Nat
  | 0, _ => []
  | n + 1, raw => raw % 2 ^ 16 :: chunksOf n (raw / 2 ^ 16)

def ofChunks : List Nat → Nat
  | [] => 0
  | chunk :: rest => chunk % 2 ^ 16 + 2 ^ 16 * ofChunks rest

/-- The data of the words that carry a code. -/
def split (c : Codec) (bit raw : Nat) : List Nat :=
  match c.packing with
  | .chunks => chunksOf c.wordsPerValue raw
  | .sharedBit => [raw % 2 * 2 ^ bit]

def join (c : Codec) (bit : Nat) (chunks : List Nat) : Nat :=
  match c.packing, chunks with
  | .chunks, chunks => ofChunks chunks
  | .sharedBit, [] => 0
  | .sharedBit, chunk :: _ => chunk / 2 ^ bit % 2

/-- The words of one written value. -/
def valueWords (c : Codec) (place : Place) (value : Float) : List Word :=
  (c.split place.bit (c.toRaw value)).map (Word.pack place.address)

/-- The words of a sequence of samples; one that was not written leaves NOP words. -/
def encode (c : Codec) (place : Place) (samples : List (Option Float)) : List Word :=
  samples.flatMap fun
    | some value => c.valueWords place value
    | none => List.replicate c.wordsPerValue Word.nop

/-- Consecutive groups of `n`; a rest of fewer is left out. -/
def groupsOf {α : Type} (n : Nat) (xs : List α) : List (List α) :=
  if _h : 0 < n ∧ n ≤ xs.length then xs.take n :: groupsOf n (xs.drop n) else []
  termination_by xs.length
  decreasing_by simp only [List.length_drop]; omega

/-- The words that change the channel at a place. -/
def addressedTo (address : Nat) (word : Word) : Bool := !word.isNop && word.address == address

/-- The written values of a channel, each with the time of its first word. NOP words and words for
other addresses are passed over. -/
def decode (c : Codec) (place : Place) (words : List (Nat × Word)) : List (Nat × Float) :=
  let own := words.filter fun w => addressedTo place.address w.2
  (groupsOf c.wordsPerValue own).filterMap fun group =>
    group.head?.map fun first =>
      (first.1, c.fromRaw (c.join place.bit (group.map fun w => w.2.data)))

/-- A line of a digital bank: zero, or one from a half upwards. -/
def digitalLine : Codec where
  tag := "DigitalOut"
  quantity := .level
  rawBits := 1
  limits := (0.0, 1.0)
  clip value := Scalar.clamp value 0.0 1.0
  toRaw value := if Scalar.clamp value 0.0 1.0 ≥ 0.5 then 1 else 0
  fromRaw raw := Float.ofNat (raw % 2)
  linear value := value
  fromLinear x := x
  lsb := 1.0
  neighbour := neighbourBelow 2
  packing := .sharedBit
  vectors := [(-1.0, 0), (0.0, 0), (0.2, 0), (0.8, 1), (1.0, 1), (2.0, 1)]

end Codec

end Sequencer
