import Sequencer.Bus.Word

/-!
CRC-32 fingerprints of byte and word streams: the reflected polynomial `0xEDB88320`, starting from
all ones and complemented at the end. Words are taken most significant byte first.

The running checksum looks bytes up in a table. `bitwise` is the definition of the same checksum
by single bits.
-/
namespace Sequencer

namespace Checksum

def polynomial : Word := 0xEDB88320

/-- Shifts one bit out, taking the polynomial away if it was set. -/
def shiftBit (w : Word) : Word :=
  if w.getLsbD 0 then polynomial ^^^ (w >>> 1) else w >>> 1

def shiftBits : Nat → Word → Word
  | 0, w => w
  | n + 1, w => shiftBits n (shiftBit w)

/-- What a byte contributes, by its value. -/
def table : Array Word := Array.ofFn fun n : Fin 256 => shiftBits 8 (BitVec.ofNat 32 n)

theorem table_size : table.size = 256 := Array.size_ofFn

/-- The table entry of a byte. -/
def lookUp (byte : Byte) : Word :=
  have h : byte.toNat < table.size := by rw [table_size]; exact byte.isLt
  table[byte.toNat]

def step (state : Word) (byte : Byte) : Word :=
  lookUp ((state ^^^ byte.setWidth 32).setWidth 8) ^^^ (state >>> 8)

/-- The definition: a byte is added at the low end and eight bits are shifted out. -/
def bitwise (bytes : List Byte) : Word :=
  bytes.foldl (fun state byte => shiftBits 8 (state ^^^ byte.setWidth 32)) (BitVec.allOnes 32)
    ^^^ BitVec.allOnes 32

end Checksum

/-- A checksum in progress. -/
structure Checksum where
  state : Word
  deriving DecidableEq, Repr

namespace Checksum

def empty : Checksum := ⟨BitVec.allOnes 32⟩

def addBytes (c : Checksum) (bytes : List Byte) : Checksum := ⟨bytes.foldl step c.state⟩

def addWord (c : Checksum) (word : Word) : Checksum := c.addBytes word.bigEndian

def addWords (c : Checksum) (words : List Word) : Checksum := words.foldl addWord c

def value (c : Checksum) : Word := c.state ^^^ BitVec.allOnes 32

def ofBytes (bytes : List Byte) : Word := (empty.addBytes bytes).value

def ofWords (words : List Word) : Word := (empty.addWords words).value

end Checksum

end Sequencer
