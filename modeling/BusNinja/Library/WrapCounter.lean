import Mathlib.Algebra.Order.Ring.Nat

/-!
# Counters that wrap

A counter of `w` bits holds a count modulo `2 ^ w`.  Two counts that are less
than a modulus apart are ordered as their remainders are exactly if both lie
in the same period of the counter.
-/

namespace WrapCounter

variable {modulus first second : Nat}

/-- No multiple of the modulus lies between the counts. -/
def SamePeriod (modulus first second : Nat) : Prop :=
  first / modulus = second / modulus

instance : Decidable (SamePeriod modulus first second) :=
  inferInstanceAs (Decidable (_ = _))

theorem SamePeriod.mod_lt_mod_iff (same : SamePeriod modulus first second) :
    first % modulus < second % modulus ↔ first < second := by
  have left := Nat.div_add_mod first modulus
  have right := Nat.div_add_mod second modulus
  rw [← same] at right
  omega

/-- The earlier count has the larger remainder once the counter has wrapped
in between. -/
theorem mod_lt_mod_of_div_lt (near : second < first + modulus)
    (wrapped : first / modulus < second / modulus) :
    second % modulus < first % modulus := by
  have left := Nat.div_add_mod first modulus
  have right := Nat.div_add_mod second modulus
  have period : modulus * (first / modulus) + modulus ≤
      modulus * (second / modulus) := by
    rw [← Nat.mul_succ]
    exact Nat.mul_le_mul_left modulus wrapped
  omega

theorem lt_of_div_lt (wrapped : first / modulus < second / modulus) :
    first < second := by
  by_contra above
  exact absurd (Nat.div_le_div_right (c := modulus) (Nat.le_of_not_lt above))
    (Nat.not_le_of_lt wrapped)

/-- Remainders order two counts correctly exactly within one period. -/
theorem mod_lt_mod_correct_iff (above : first < second + modulus)
    (below : second < first + modulus) :
    (first % modulus < second % modulus ↔ first < second) ↔
      SamePeriod modulus first second := by
  constructor
  · intro correct
    rcases Nat.lt_trichotomy (first / modulus) (second / modulus) with
      wrapped | same | wrapped
    · have order := mod_lt_mod_of_div_lt below wrapped
      have remainders := correct.mpr (lt_of_div_lt wrapped)
      exact absurd remainders (Nat.lt_asymm order)
    · exact same
    · have order := correct.mp (mod_lt_mod_of_div_lt above wrapped)
      exact absurd order (Nat.lt_asymm (lt_of_div_lt wrapped))
  · exact SamePeriod.mod_lt_mod_iff

/-- What a counter of `width` bits compares. -/
theorem ofNat_lt_iff (width first second : Nat) :
    BitVec.ofNat width first < BitVec.ofNat width second ↔
      first % 2 ^ width < second % 2 ^ width := by
  rw [BitVec.lt_def, BitVec.toNat_ofNat, BitVec.toNat_ofNat]

end WrapCounter
