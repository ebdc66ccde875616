/-!
Halving a range that begins with items of one kind and goes on with items of another.
-/
namespace Sequencer

/-- The number of leading indices below `base + size` that hold, if all before `base` do. -/
def bisectFrom (holds : Nat → Bool) (base size : Nat) : Nat :=
  if h : 1 < size then
    let half := size / 2
    bisectFrom holds (if holds (base + half) then base + half else base) (size - half)
  else if size = 1 && holds base then base + 1
  else base
termination_by size
decreasing_by omega

/-- Halving finds the place where items of the one kind end. -/
theorem bisectFrom_eq {holds : Nat → Bool} {base size stop : Nat} (lower : base ≤ stop) (upper : stop ≤ base + size)
    (front : ∀ i < base + size, holds i = true ↔ i < stop) : bisectFrom holds base size = stop := by
  fun_induction bisectFrom holds base size with
  | case1 base size more half ih =>
    have middle := front (base + half) (by omega)
    by_cases below : holds (base + half)
    · have inside := middle.mp below
      rw [dif_pos below] at ih
      rw [if_pos below]
      exact ih (by omega) (by omega) fun i inside => front i (by omega)
    · have outside := mt middle.mpr below
      rw [dif_neg below] at ih
      rw [if_neg below]
      exact ih lower (by omega) fun i inside => front i (by omega)
  | case2 base size few one =>
    simp only [Bool.and_eq_true, decide_eq_true_eq] at one
    have := (front base (by omega)).mp one.2
    omega
  | case3 base size few none =>
    simp only [Bool.and_eq_true, decide_eq_true_eq, not_and] at none
    by_cases one : size = 1
    · have := mt (front base (by omega)).mpr (none one)
      omega
    · omega

/-- Where the items that hold end, if they are all at the front. -/
def bisect {α : Type} (holds : α → Bool) (items : Array α) : Nat :=
  bisectFrom (fun i => (items[i]?).any holds) 0 items.size

end Sequencer
