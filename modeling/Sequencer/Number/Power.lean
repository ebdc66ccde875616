/-!
Powers of natural numbers.
-/
namespace Sequencer

/-- The power of two natural numbers, whatever other powers a library brings along. -/
@[default_instance 20000]
instance (priority := 2000) naturalPower : Pow Nat Nat := instPowNat

/-- `2 ^ n`, by a shift while that fits a machine word. -/
def twoPow (n : Nat) : Nat := if n < 63 then ((1 : UInt64) <<< n.toUInt64).toNat else 2 ^ n

@[simp] theorem twoPow_eq (n : Nat) : twoPow n = 2 ^ n := by
  unfold twoPow
  split
  · next h =>
    have hn : n % 2 ^ 64 % 64 = n := by omega
    have hlt : 2 ^ n < 2 ^ 64 := Nat.pow_lt_pow_right (by decide) (by omega)
    simp only [UInt64.toNat_shiftLeft, Nat.toUInt64_eq, UInt64.toNat_ofNat', UInt64.toNat_one, hn,
      Nat.shiftLeft_eq, Nat.one_mul]
    exact Nat.mod_eq_of_lt hlt
  · rfl

end Sequencer
