import Sequencer.Bus.Word

/-!
The fields of a bus word. A packed word is its own payload; a marker bit lies outside the payload,
so that setting one changes at most whether the word is a NOP.
-/
namespace Sequencer

namespace Word

theorem address_eq (w : Word) : w.address = w.toNat / 2 ^ 16 % 2 ^ 7 := by
  simp [address, Nat.shiftRight_eq_div_pow]

theorem data_eq (w : Word) : w.data = w.toNat % 2 ^ 16 := by
  simp [data]

theorem toNat_payload (w : Word) : w.payload.toNat = w.toNat % 2 ^ 23 := by
  simp only [payload, BitVec.toNat_setWidth, BitVec.extractLsb'_toNat, Nat.shiftRight_zero]
  omega

theorem address_payload (w : Word) : w.payload.address = w.address := by
  rw [address_eq, address_eq, toNat_payload]
  omega

theorem data_payload (w : Word) : w.payload.data = w.data := by
  rw [data_eq, data_eq, toNat_payload]
  omega

theorem toNat_pack (address data : Nat) :
    (pack address data).toNat = address % 2 ^ 7 * 2 ^ 16 + data % 2 ^ 16 := by
  have low : data % 2 ^ 16 < 2 ^ 16 := Nat.mod_lt _ (by decide)
  have packed : (BitVec.ofNat 7 address ++ BitVec.ofNat 16 data).toNat
      = address % 2 ^ 7 * 2 ^ 16 + data % 2 ^ 16 := by
    rw [BitVec.toNat_append, BitVec.toNat_ofNat, BitVec.toNat_ofNat,
      ← Nat.shiftLeft_add_eq_or_of_lt low, Nat.shiftLeft_eq]
  rw [pack, BitVec.toNat_setWidth, packed]
  omega

theorem data_pack (address data : Nat) : (pack address data).data = data % 2 ^ 16 := by
  rw [data_eq, toNat_pack]
  omega

theorem address_pack {address : Nat} (legal : address ≤ maxAddress) (data : Nat) :
    (pack address data).address = address := by
  rw [address_eq, toNat_pack]
  unfold maxAddress at legal
  omega

theorem payload_pack (address data : Nat) : (pack address data).payload = pack address data := by
  apply BitVec.eq_of_toNat_eq
  rw [toNat_payload, toNat_pack]
  omega

theorem isSet_twoPow (w : Word) {i : Nat} (bound : i < 32) :
    w.isSet (BitVec.twoPow 32 i) = w.getLsbD i := by
  have bits : (w &&& BitVec.twoPow 32 i) = if w.getLsbD i then BitVec.twoPow 32 i else 0 := by
    apply BitVec.eq_of_getLsbD_eq
    intro j inWord
    rw [BitVec.getLsbD_and, BitVec.getLsbD_twoPow]
    by_cases same : i = j
    · subst same
      cases w.getLsbD i <;> simp
    · cases w.getLsbD i <;> simp [same]
  have one : BitVec.twoPow 32 i ≠ 0#32 := by
    intro zero
    have bit := congrArg (BitVec.getLsbD · i) zero
    simp [bound] at bit
  rw [isSet, bits]
  cases w.getLsbD i <;> simp [one]

theorem isNop_eq (w : Word) : w.isNop = w.getLsbD 31 := isSet_twoPow w (by decide)

theorem getLsbD_payload (w : Word) (i : Nat) :
    w.payload.getLsbD i = (decide (i < 23) && w.getLsbD i) := by
  by_cases low : i < 23
  · have inWord : i < 32 := by omega
    simp [payload, low, inWord]
  · simp [payload, low]

theorem payload_payload (w : Word) : w.payload.payload = w.payload := by
  apply BitVec.eq_of_getLsbD_eq
  intro i _
  rw [getLsbD_payload, getLsbD_payload, ← Bool.and_assoc, Bool.and_self]

/-- A payload has no bit above its fields. -/
theorem getLsbD_of_payload {w : Word} (pure : w.payload = w) {i : Nat} (high : 23 ≤ i) :
    w.getLsbD i = false := by
  rw [← pure, getLsbD_payload, decide_eq_false (by omega), Bool.false_and]

theorem payload_nop : nop.payload = 0 := by decide

theorem isNop_pack (address data : Nat) : (pack address data).isNop = false := by
  have small : (pack address data).toNat < 2 ^ 31 := by
    rw [toNat_pack]
    omega
  rw [isNop_eq]
  exact Nat.testBit_lt_two_pow small

theorem payload_or (v w : Word) : (v ||| w).payload = v.payload ||| w.payload := by
  apply BitVec.eq_of_getLsbD_eq
  intro i bound
  simp only [getLsbD_payload, BitVec.getLsbD_or, Bool.and_or_distrib_left]

theorem isNop_or (v w : Word) : (v ||| w).isNop = (v.isNop || w.isNop) := by
  rw [isNop_eq, isNop_eq, isNop_eq, BitVec.getLsbD_or]

end Word

namespace Marker

/-- The bit of a marker. -/
def position (strobe : Nat) : Marker → Nat
  | nop => 31
  | timeReset => 30
  | interrupt => 29
  | stop => 28
  | Marker.strobe => strobe

theorem mask_eq (strobe : Nat) (m : Marker) :
    m.mask strobe = BitVec.twoPow 32 (m.position strobe) := by
  cases m <;> rfl

section
variable {strobe : Nat}

theorem position_range (legal : Word.strobeMayBe strobe) (m : Marker) :
    23 ≤ m.position strobe ∧ m.position strobe < 32 := by
  have range : 23 ≤ strobe ∧ strobe ≤ 27 := by simpa [Word.strobeMayBe] using legal
  cases m <;> simp only [position] <;> omega

/-- Only the strobe sits below the fixed markers. -/
theorem position_fixed (strobe : Nat) {m : Marker} (other : m ≠ .strobe) :
    28 ≤ m.position strobe := by
  cases m <;> simp [position] at other ⊢

/-- Every marker has a bit of its own. -/
theorem position_injective (legal : Word.strobeMayBe strobe) {m n : Marker}
    (same : m.position strobe = n.position strobe) : m = n := by
  have range : 23 ≤ strobe ∧ strobe ≤ 27 := by simpa [Word.strobeMayBe] using legal
  cases m <;> cases n <;> simp only [position] at same <;> first | rfl | omega

theorem getLsbD_mask (legal : Word.strobeMayBe strobe) (m : Marker) (i : Nat) :
    (m.mask strobe).getLsbD i = decide (m.position strobe = i) := by
  rw [mask_eq, BitVec.getLsbD_twoPow]
  simp [(position_range legal m).2]

theorem isSet_mask (legal : Word.strobeMayBe strobe) (w : Word) (m : Marker) :
    w.isSet (m.mask strobe) = w.getLsbD (m.position strobe) := by
  rw [mask_eq, Word.isSet_twoPow w (position_range legal m).2]

end

end Marker

end Sequencer
