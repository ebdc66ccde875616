import Sequencer.Routing.Table

/-!
The byte fields of the routing registers: a field that is written is read back, all others stay, and the
eight fields are all that the registers hold.
-/
namespace Sequencer.Registers

variable {r r' : Registers} {i j f g k value : Nat}

@[simp] theorem get_set_self (r : Registers) (i : Nat) (word : Word) : (r.set i word).get i = word := by
  unfold get set
  split <;> rfl

theorem get_set_other (iBound : i < 2) (jBound : j < 2) (different : j ≠ i) (word : Word) :
    (r.set i word).get j = r.get j := by
  have apart : i = 0 ∧ j = 1 ∨ i = 1 ∧ j = 0 := by omega
  rcases apart with ⟨rfl, rfl⟩ | ⟨rfl, rfl⟩ <;> rfl

theorem getLsbD_fieldMask : (fieldMask f).getLsbD k = decide (8 * f ≤ k ∧ k < 8 * f + 8 ∧ k < 32) := by
  have ones : ∀ n, (0xFF : Word).getLsbD n = decide (n < 8) := by
    intro n
    by_cases inside : n < 32
    · revert n
      decide
    · rw [BitVec.getLsbD_of_ge _ _ (Nat.not_lt.mp inside)]
      exact (decide_eq_false (by omega)).symm
  rw [fieldMask, BitVec.getLsbD_shiftLeft, ones]
  grind

theorem testBit_readField (r : Registers) (i f k : Nat) :
    (r.readField i f).testBit k = (decide (k < 8) && (r.get i).getLsbD (8 * f + k)) :=
  BitVec.getLsbD_extractLsb' (8 * f) 8 (r.get i) k

/-- A field is zero if none of its bits is set. -/
theorem readField_eq_zero_iff : r.readField i f = 0 ↔ ∀ k < 8, (r.get i).getLsbD (8 * f + k) = false := by
  constructor
  · intro zero k inside
    have bit := testBit_readField r i f k
    rw [zero, Nat.zero_testBit, decide_eq_true inside, Bool.true_and] at bit
    exact bit.symm
  · intro clear
    apply Nat.eq_of_testBit_eq
    intro k
    rw [testBit_readField, Nat.zero_testBit]
    by_cases inside : k < 8
    · rw [clear k inside, Bool.and_false]
    · rw [decide_eq_false inside, Bool.false_and]

theorem readField_zero : zero.readField i f = 0 := by
  rw [readField_eq_zero_iff]
  intro k _
  simp [zero, get]

/-- The bits of a register after a field is written. -/
theorem getLsbD_writeField (fBound : f < 4) : ((r.writeField i f value).get i).getLsbD k =
    if 8 * f ≤ k ∧ k < 8 * f + 8 then (value % 2 ^ 8).testBit (k - 8 * f) else (r.get i).getLsbD k := by
  rw [writeField, get_set_self, BitVec.getLsbD_or, BitVec.getLsbD_and, BitVec.getLsbD_not,
    getLsbD_fieldMask, BitVec.getLsbD_shiftLeft, BitVec.getLsbD_ofNat, Nat.testBit_mod_two_pow]
  by_cases inside : 8 * f ≤ k ∧ k < 8 * f + 8
  · have shifted : k - 8 * f < 8 := by omega
    have bound : k < 32 := by omega
    have reached : ¬k < 8 * f := by omega
    have within : k - 8 * f < 32 := by omega
    simp [inside, shifted, bound, reached, within]
  · grind

theorem readField_writeField_self (fBound : f < 4) (small : value < 256) :
    (r.writeField i f value).readField i f = value := by
  apply Nat.eq_of_testBit_eq
  intro k
  rw [testBit_readField, getLsbD_writeField fBound, Nat.add_sub_cancel_left, Nat.testBit_mod_two_pow]
  by_cases inside : k < 8
  · simp [inside]
  · have beyond : value < 2 ^ k := calc
      value < 2 ^ 8 := small
      _ ≤ 2 ^ k := Nat.pow_le_pow_right (by decide) (Nat.not_lt.mp inside)
    simp [inside, Nat.testBit_lt_two_pow beyond]

theorem readField_writeField_other (iBound : i < 2) (jBound : j < 2) (fBound : f < 4)
    (different : (j, g) ≠ (i, f)) : (r.writeField i f value).readField j g = r.readField j g := by
  by_cases same : j = i
  · subst same
    have apart : g ≠ f := fun equal => different (by rw [equal])
    apply Nat.eq_of_testBit_eq
    intro k
    rw [testBit_readField, testBit_readField, getLsbD_writeField fBound]
    grind
  · rw [readField, writeField, get_set_other iBound jBound same]
    rfl

/-- A bit is told by the field that it belongs to. -/
theorem getLsbD_of_field (same : r.readField i (k / 8) = r'.readField i (k / 8)) :
    (r.get i).getLsbD k = (r'.get i).getLsbD k := by
  have field := congrArg (fun value => value.testBit (k % 8)) same
  simp only [testBit_readField] at field
  rwa [decide_eq_true (Nat.mod_lt _ (by omega)), Bool.true_and, Bool.true_and, Nat.div_add_mod] at field

/-- The eight fields are all that there is. -/
theorem ext_of_fields (same : ∀ i < 2, ∀ f < 4, r.readField i f = r'.readField i f) : r = r' := by
  have words : ∀ i < 2, r.get i = r'.get i := by
    intro i iBound
    apply BitVec.eq_of_getLsbD_eq
    intro k inside
    exact getLsbD_of_field (same i iBound (k / 8) (by omega))
  have first := words 0 (by omega)
  have second := words 1 (by omega)
  cases r
  cases r'
  rw [mk.injEq]
  exact ⟨first, second⟩

end Sequencer.Registers
