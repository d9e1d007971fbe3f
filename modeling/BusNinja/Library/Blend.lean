import Mathlib.Algebra.Order.Ring.Nat

/-!
# Linear interpolation with truncating division

The weighted mean of two numbers, rounded down.  The weights sum to the
duration, so the mean lies between the numbers and moves from the first
towards the second.
-/

namespace Blend

/-- From `a` at time 0 towards `b` at time `d`. -/
def blend (a b d t : Nat) : Nat := (a * (d - t) + b * t) / d

variable {a b d t later : Nat}

theorem weighted_rising (rising : a ≤ b) (inside : t ≤ d) :
    a * (d - t) + b * t = a * d + (b - a) * t := by
  obtain ⟨rest, rfl⟩ := Nat.exists_eq_add_of_le inside
  obtain ⟨more, rfl⟩ := Nat.exists_eq_add_of_le rising
  rw [Nat.add_sub_cancel_left, Nat.add_sub_cancel_left, Nat.mul_add,
    Nat.add_mul]
  omega

/-- The same from the other side. -/
theorem weighted_falling (falling : b ≤ a) (inside : t ≤ d) :
    a * (d - t) + b * t = b * d + (a - b) * (d - t) := by
  have rest : d - t ≤ d := Nat.sub_le d t
  have mirrored := weighted_rising falling rest
  rwa [Nat.sub_sub_self inside, Nat.add_comm] at mirrored

theorem blend_zero (positive : 0 < d) : blend a b d 0 = a := by
  rw [blend, Nat.mul_zero, Nat.add_zero, Nat.sub_zero,
    Nat.mul_div_cancel a positive]

theorem weighted_le {bound : Nat} (low : a ≤ bound) (high : b ≤ bound)
    (inside : t ≤ d) : a * (d - t) + b * t ≤ bound * d := by
  calc a * (d - t) + b * t ≤ bound * (d - t) + bound * t :=
        Nat.add_le_add (Nat.mul_le_mul_right _ low) (Nat.mul_le_mul_right _ high)
    _ = bound * d := by rw [← Nat.mul_add, Nat.sub_add_cancel inside]

theorem le_blend (positive : 0 < d) (inside : t ≤ d) :
    min a b ≤ blend a b d t := by
  rw [blend, Nat.le_div_iff_mul_le positive]
  calc min a b * d = min a b * (d - t) + min a b * t := by
        rw [← Nat.mul_add, Nat.sub_add_cancel inside]
    _ ≤ a * (d - t) + b * t :=
        Nat.add_le_add (Nat.mul_le_mul_right _ (Nat.min_le_left a b))
          (Nat.mul_le_mul_right _ (Nat.min_le_right a b))

theorem blend_le (inside : t ≤ d) :
    blend a b d t ≤ max a b := by
  rw [blend]
  apply Nat.div_le_of_le_mul
  rw [Nat.mul_comm d]
  exact weighted_le (Nat.le_max_left a b) (Nat.le_max_right a b) inside

theorem blend_rising (rising : a ≤ b) (order : t ≤ later) (inside : later ≤ d) :
    blend a b d t ≤ blend a b d later := by
  rw [blend, blend, weighted_rising rising (Nat.le_trans order inside),
    weighted_rising rising inside]
  exact Nat.div_le_div_right
    (Nat.add_le_add_left (Nat.mul_le_mul_left _ order) _)

theorem blend_falling (falling : b ≤ a) (order : t ≤ later)
    (inside : later ≤ d) : blend a b d later ≤ blend a b d t := by
  rw [blend, blend, weighted_falling falling (Nat.le_trans order inside),
    weighted_falling falling inside]
  exact Nat.div_le_div_right
    (Nat.add_le_add_left (Nat.mul_le_mul_left _ (Nat.sub_le_sub_left order d)) _)

end Blend
