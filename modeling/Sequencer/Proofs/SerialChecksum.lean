import Sequencer.Bus.Checksum

/-!
The table-driven checksum as a shift register that takes its message bit by bit.

Shifting is linear over exclusive or. So the eight shifts of a byte step are those of the low byte, which the table
has, and those of the upper bits, which lose nothing and only move down. The register of single bits is in the same
way the register of whole bytes with the bits to come taken out of it.
-/
namespace Sequencer

namespace Checksum

/-! ### The reference -/

/-- One bit enters the register. The bit that falls out is compared with it, and the polynomial, mirrored so that its
highest power is the lowest bit, is taken away if the two differ. -/
def clockBit (register : Word) (bit : Bool) : Word :=
  if register.getLsbD 0 = bit then register >>> 1 else (register >>> 1) ^^^ 0xEDB88320

/-- The bits of a byte in the order of a mirrored checksum, the least significant first. -/
def bitsOf (byte : Byte) : List Bool := (List.range 8).map byte.getLsbD

/-- The mirrored checksum of a message by single bits, from a register of ones and complemented at the end. -/
def serial (message : List Byte) : Word :=
  (message.flatMap bitsOf).foldl clockBit 0xFFFFFFFF ^^^ 0xFFFFFFFF

/-- The bytes of a word, the most significant first. -/
def highFirst (word : Word) : List Byte :=
  [24, 16, 8, 0].map fun low => BitVec.ofNat 8 (word.toNat / 2 ^ low)

/-- One call that adds to a checksum in progress. -/
inductive Update where
  | bytes (bytes : List Byte)
  | word (word : Word)
  | words (words : List Word)

def Update.apply (c : Checksum) : Update → Checksum
  | bytes b => c.addBytes b
  | word w => c.addWord w
  | words ws => c.addWords ws

/-- The bytes that a call stands for. -/
def Update.content : Update → List Byte
  | bytes b => b
  | word w => highFirst w
  | words ws => ws.flatMap highFirst

/-! ### Shifts -/

/-- What is taken away for a bit that falls out. -/
def toll (bit : Bool) : Word := if bit then polynomial else 0

theorem toll_xor (a b : Bool) : toll (a ^^ b) = toll a ^^^ toll b := by
  cases a <;> cases b <;> decide

theorem shiftBit_eq (w : Word) : shiftBit w = w >>> 1 ^^^ toll (w.getLsbD 0) := by
  unfold shiftBit toll
  split
  · exact BitVec.xor_comm ..
  · exact BitVec.xor_zero.symm

theorem shiftBit_xor (v w : Word) : shiftBit (v ^^^ w) = shiftBit v ^^^ shiftBit w := by
  simp only [shiftBit_eq, BitVec.getLsbD_xor, toll_xor, BitVec.ushiftRight_xor_distrib]
  ac_rfl

theorem shiftBits_xor (n : Nat) (v w : Word) : shiftBits n (v ^^^ w) = shiftBits n v ^^^ shiftBits n w := by
  induction n generalizing v w with
  | zero => rfl
  | succ n ih => rw [shiftBits, shiftBit_xor, ih, shiftBits, shiftBits]

/-- The last shift of several. -/
theorem shiftBits_succ (n : Nat) (w : Word) : shiftBits (n + 1) w = shiftBit (shiftBits n w) := by
  induction n generalizing w with
  | zero => rfl
  | succ n ih => rw [shiftBits, ih, shiftBits]

/-- Low bits that are zero only make room. -/
theorem shiftBits_of_low_clear {n : Nat} {w : Word} (clear : ∀ i < n, w.getLsbD i = false) :
    shiftBits n w = w >>> n := by
  induction n with
  | zero => exact (BitVec.ushiftRight_zero w).symm
  | succ n ih =>
    have even : (w >>> n).getLsbD 0 = false := by
      rw [BitVec.getLsbD_ushiftRight]
      exact clear n (Nat.lt_succ_self n)
    have earlier := ih fun i below => clear i (Nat.lt_succ_of_lt below)
    rw [shiftBits_succ, earlier, shiftBit_eq, even, BitVec.shiftRight_add]
    exact BitVec.xor_zero

/-! ### Whole bytes -/

theorem getLsbD_lowByte (w : Word) (i : Nat) :
    ((w.setWidth 8).setWidth 32).getLsbD i = (decide (i < 8) && w.getLsbD i) := by
  rw [BitVec.getLsbD_setWidth, BitVec.getLsbD_setWidth]
  by_cases low : i < 8
  · have inWord : i < 32 := by omega
    simp [low, inWord]
  · simp [low]

theorem getLsbD_byte (byte : Byte) (i : Nat) : (byte.setWidth 32).getLsbD i = byte.getLsbD i := by
  by_cases inWord : i < 32
  · simp [inWord]
  · rw [BitVec.getLsbD_of_ge _ _ (by omega), BitVec.getLsbD_of_ge _ _ (by omega)]

theorem byte_shifted (byte : Byte) : byte.setWidth 32 >>> 8 = 0#32 := by
  apply BitVec.eq_of_getLsbD_eq
  intro i _
  rw [BitVec.getLsbD_ushiftRight, getLsbD_byte, BitVec.getLsbD_of_ge _ _ (by omega)]
  exact BitVec.getLsbD_zero.symm

theorem lookUp_eq (byte : Byte) : lookUp byte = shiftBits 8 (byte.setWidth 32) := by
  have inTable : byte.toNat < (Array.ofFn fun n : Fin 256 => shiftBits 8 (BitVec.ofNat 32 n)).size := by
    rw [Array.size_ofFn]
    exact byte.isLt
  calc
    lookUp byte = (Array.ofFn fun n : Fin 256 => shiftBits 8 (BitVec.ofNat 32 n))[byte.toNat] := rfl
    _ = shiftBits 8 (BitVec.ofNat 32 byte.toNat) := Array.getElem_ofFn ..
    _ = shiftBits 8 (byte.setWidth 32) := congrArg (shiftBits 8) (BitVec.ofNat_toNat 32 byte)

/-- Eight shifts of any register, by one look into the table. -/
theorem shiftBits_eight (w : Word) : shiftBits 8 w = lookUp (w.setWidth 8) ^^^ w >>> 8 := by
  let low : Word := (w.setWidth 8).setWidth 32
  have clear : ∀ i < 8, (low ^^^ w).getLsbD i = false := by
    intro i below
    rw [BitVec.getLsbD_xor, getLsbD_lowByte, decide_eq_true below, Bool.true_and, Bool.xor_self]
  calc
    shiftBits 8 w = shiftBits 8 (low ^^^ (low ^^^ w)) := by
      rw [← BitVec.xor_assoc, BitVec.xor_self, BitVec.zero_xor]
    _ = lookUp (w.setWidth 8) ^^^ (low ^^^ w) >>> 8 := by
      rw [shiftBits_xor, shiftBits_of_low_clear clear, lookUp_eq]
    _ = lookUp (w.setWidth 8) ^^^ w >>> 8 := by
      rw [BitVec.ushiftRight_xor_distrib, byte_shifted, BitVec.zero_xor]

/-- The table step adds the byte at the low end and shifts eight bits out, whatever the register. -/
theorem step_eq (register : Word) (byte : Byte) : step register byte = shiftBits 8 (register ^^^ byte.setWidth 32) := by
  rw [shiftBits_eight, BitVec.ushiftRight_xor_distrib, byte_shifted, BitVec.xor_zero, step]

/-! ### Single bits -/

/-- A bit that enters has the effect of one more bit that falls out. -/
theorem clockBit_eq (register : Word) (bit : Bool) : clockBit register bit = shiftBit register ^^^ toll bit := by
  rw [shiftBit_eq, BitVec.xor_assoc, ← toll_xor]
  cases fallen : register.getLsbD 0 <;> cases bit
  all_goals
    rw [clockBit, fallen]
    first | rfl | exact BitVec.xor_zero.symm

/-- After some bits of a byte the register is that of the whole byte, without the bits that are still to come. -/
theorem foldl_clockBit (register : Word) (byte : Byte) (n : Nat) :
    ((List.range n).map byte.getLsbD).foldl clockBit register =
      shiftBits n (register ^^^ byte.setWidth 32) ^^^ byte.setWidth 32 >>> n := by
  induction n with
  | zero =>
    rw [BitVec.ushiftRight_zero, shiftBits, BitVec.xor_assoc, BitVec.xor_self, BitVec.xor_zero]
    rfl
  | succ n ih =>
    have next : shiftBit (byte.setWidth 32 >>> n) ^^^ toll (byte.getLsbD n) = byte.setWidth 32 >>> (n + 1) := by
      rw [shiftBit_eq, BitVec.getLsbD_ushiftRight, Nat.add_zero, getLsbD_byte, BitVec.xor_assoc, BitVec.xor_self,
        BitVec.xor_zero, BitVec.shiftRight_add]
    rw [List.range_succ, List.map_append, List.foldl_append, ih, List.map_singleton, List.foldl_cons, List.foldl_nil,
      clockBit_eq, shiftBit_xor, BitVec.xor_assoc, next, shiftBits_succ]

theorem foldl_bitsOf (register : Word) (byte : Byte) : (bitsOf byte).foldl clockBit register = step register byte := by
  rw [bitsOf, foldl_clockBit, byte_shifted, BitVec.xor_zero, step_eq]

theorem foldl_step (register : Word) (message : List Byte) :
    message.foldl step register = (message.flatMap bitsOf).foldl clockBit register := by
  induction message generalizing register with
  | nil => rfl
  | cons byte rest ih => rw [List.foldl_cons, List.flatMap_cons, List.foldl_append, foldl_bitsOf, ih]

/-! ### Calls -/

theorem bigEndian_eq (word : Word) : word.bigEndian = highFirst word := by
  have field : ∀ low, word.extractLsb' low 8 = BitVec.ofNat 8 (word.toNat / 2 ^ low) := fun low => by
    rw [← Nat.shiftRight_eq_div_pow]
    rfl
  simp only [Word.bigEndian, Word.littleEndian, field, List.reverse_cons, List.reverse_nil, List.nil_append,
    List.cons_append, highFirst, List.map_cons, List.map_nil]

theorem addBytes_append (c : Checksum) (first second : List Byte) :
    c.addBytes (first ++ second) = (c.addBytes first).addBytes second := by
  rw [addBytes, List.foldl_append]
  rfl

theorem addWords_eq (c : Checksum) (words : List Word) : c.addWords words = c.addBytes (words.flatMap highFirst) := by
  induction words generalizing c with
  | nil => rfl
  | cons word rest ih =>
    rw [List.flatMap_cons, addBytes_append, ← ih, ← bigEndian_eq]
    rfl

theorem apply_eq (c : Checksum) (update : Update) : update.apply c = c.addBytes update.content := by
  cases update with
  | bytes _ => rfl
  | word w => rw [Update.apply, addWord, bigEndian_eq, Update.content]
  | words ws => exact addWords_eq c ws

/-- Any calls leave the checksum that one call with all of their bytes leaves. -/
theorem foldl_apply (c : Checksum) (updates : List Update) :
    updates.foldl Update.apply c = c.addBytes (updates.flatMap Update.content) := by
  induction updates generalizing c with
  | nil => rfl
  | cons update rest ih => rw [List.foldl_cons, List.flatMap_cons, addBytes_append, ih, apply_eq]

theorem value_addBytes (message : List Byte) : (empty.addBytes message).value = serial message := by
  rw [addBytes, foldl_step]
  rfl

theorem ofBytes_eq_bitwise (message : List Byte) : ofBytes message = bitwise message := by
  have steps : (fun register byte => shiftBits 8 (register ^^^ byte.setWidth 32)) = step := by
    funext register byte
    exact (step_eq register byte).symm
  rw [bitwise, steps]
  rfl

/-- The checksum of a byte sequence is that of the register which shifts eight bits for a byte, and of the register
which takes single bits; words count as their bytes from the top. A checksum that is made by calls of any kind is that
of all bytes of the calls, one after the other. -/
theorem checksum_is_bit_serial :
    (∀ message, ofBytes message = bitwise message ∧ ofBytes message = serial message) ∧
    (∀ words, ofWords words = serial (words.flatMap highFirst)) ∧
    ∀ updates : List Update,
      (∀ c : Checksum, updates.foldl Update.apply c = c.addBytes (updates.flatMap Update.content)) ∧
      (updates.foldl Update.apply empty).value = serial (updates.flatMap Update.content) := by
  refine ⟨fun message => ⟨ofBytes_eq_bitwise message, value_addBytes message⟩, fun words => ?_,
    fun updates => ⟨fun c => foldl_apply c updates, ?_⟩⟩
  · rw [ofWords, addWords_eq, value_addBytes]
  · rw [foldl_apply, value_addBytes]

example : ofBytes [0x31, 0x32, 0x33, 0x34, 0x35, 0x36, 0x37, 0x38, 0x39] = 0xCBF43926 := by decide +kernel

end Checksum

end Sequencer
