import Sequencer.Number.Power

/-!
The 32-bit bus word.

A word holds sixteen data bits, a seven-bit device address above them, and marker bits at the top:
NOP (31), time reset (30), interrupt (29), stop (28) and a strobe bit that may sit anywhere between
the address and the other markers.
-/
namespace Sequencer

abbrev Byte := BitVec 8
abbrev Word := BitVec 32

namespace Word

def maxAddress : Nat := 0x7F

/-- The position of the strobe bit unless a board says otherwise. -/
def defaultStrobe : Nat := 23

/-- The positions at which the strobe bit overlaps no other field. -/
def strobeMayBe (position : Nat) : Bool := 23 ≤ position && position ≤ 27

/-- The word of an address and its data. Bits outside the two fields are discarded. -/
def pack (address data : Nat) : Word :=
  (BitVec.ofNat 7 address ++ BitVec.ofNat 16 data).setWidth 32

def address (w : Word) : Nat := (w.extractLsb' 16 7).toNat

def data (w : Word) : Nat := (w.extractLsb' 0 16).toNat

/-- Address and data, without any marker. -/
def payload (w : Word) : Word := (w.extractLsb' 0 23).setWidth 32

/-- A word without an output change. -/
def nop : Word := BitVec.twoPow 32 31

def set (w mask : Word) : Word := w ||| mask

def clear (w mask : Word) : Word := w &&& ~~~mask

/-- Whether any bit of the mask is set. -/
def isSet (w mask : Word) : Bool := w &&& mask != 0

def isNop (w : Word) : Bool := w.isSet nop

/-- Least significant byte first. -/
def littleEndian (w : Word) : List Byte :=
  [w.extractLsb' 0 8, w.extractLsb' 8 8, w.extractLsb' 16 8, w.extractLsb' 24 8]

/-- Most significant byte first. -/
def bigEndian (w : Word) : List Byte := w.littleEndian.reverse

def ofLittleEndian (b0 b1 b2 b3 : Byte) : Word := b3 ++ b2 ++ b1 ++ b0

/-- All whole words of a byte sequence; a rest of fewer than four bytes is left out. -/
def listOfBytes : List Byte → List Word
  | b0 :: b1 :: b2 :: b3 :: rest => ofLittleEndian b0 b1 b2 b3 :: listOfBytes rest
  | _ => []

end Word

/-- The bits that can be attached to one sample of a rack. -/
inductive Marker where
  | nop | timeReset | interrupt | stop | strobe
  deriving DecidableEq, Repr

namespace Marker

def all : List Marker := [nop, timeReset, interrupt, stop, strobe]

def name : Marker → String
  | nop => "NOP"
  | timeReset => "TRST"
  | interrupt => "IRQ"
  | stop => "STOP"
  | strobe => "STRB"

def ofName? (name : String) : Option Marker := all.find? fun m => m.name == name

def mask (strobePosition : Nat) : Marker → Word
  | nop => BitVec.twoPow 32 31
  | timeReset => BitVec.twoPow 32 30
  | interrupt => BitVec.twoPow 32 29
  | stop => BitVec.twoPow 32 28
  | strobe => BitVec.twoPow 32 strobePosition

/-- Every marker bit at once. -/
def allMask (strobePosition : Nat) : Word :=
  all.foldl (fun w m => w ||| m.mask strobePosition) 0

end Marker

end Sequencer
