import Mathlib.Data.List.GetD

/-!
# Bits packed into bytes

Eight bits fill a byte, the first of them its lowest bit; what is left of the
last byte is 0.
-/

namespace Packing

/-- Byte `j` of the packed bits. -/
def byte (bits : List Bool) (j : Nat) : BitVec 8 :=
  (BitVec.ofBoolListLE ((bits.drop (8 * j)).take 8)).setWidth 8

def packed (bits : List Bool) : List (BitVec 8) :=
  (List.range ((bits.length + 7) / 8)).map (byte bits)

theorem byte_getLsbD (bits : List Bool) (j : Nat) {i : Nat} (inside : i < 8) :
    (byte bits j).getLsbD i = bits.getD (8 * j + i) false := by
  rw [byte, BitVec.getLsbD_setWidth, BitVec.getLsbD_ofBoolListLE]
  simp [List.getD_eq_getElem?_getD, inside]

/-- A byte that agrees with the packed ones wherever a bit is packed, and is
0 elsewhere. -/
theorem eq_byte {bits : List Bool} {j : Nat} {value : BitVec 8}
    (used : ∀ i < 8, 8 * j + i < bits.length →
      value.getLsbD i = bits.getD (8 * j + i) false)
    (unused : ∀ i < 8, bits.length ≤ 8 * j + i → value.getLsbD i = false) :
    value = byte bits j := by
  apply BitVec.eq_of_getLsbD_eq
  intro i inside
  rw [byte_getLsbD bits j inside]
  rcases Nat.lt_or_ge (8 * j + i) bits.length with within | beyond
  · exact used i inside within
  · rw [unused i inside beyond, List.getD_eq_default _ _ beyond]

example : packed [true, false, true, false, false, false, false, true, true] =
    [0x85, 0x01] := by
  decide

/-- The bits of two lines that were sampled together. -/
theorem getD_pairs {n : Nat} (first second : Nat → Bool) {k : Nat}
    (inside : k < n) {line : Nat} (either : line < 2) :
    ((List.range n).flatMap fun k => [first k, second k]).getD (2 * k + line)
        false =
      if line = 0 then first k else second k := by
  induction n with
  | zero => omega
  | succ n induction =>
      have length : ((List.range n).flatMap fun k =>
          [first k, second k]).length = 2 * n := by
        simp [List.length_flatMap, List.map_const', Nat.mul_comm]
      rw [List.range_succ, List.flatMap_append]
      rcases Nat.lt_or_ge k n with earlier | last
      · rw [List.getD_append _ _ _ _ (by omega), induction earlier]
      · obtain rfl : k = n := by omega
        rw [List.getD_append_right _ _ _ _ (by omega), length,
          Nat.add_sub_cancel_left]
        rcases (by omega : line = 0 ∨ line = 1) with rfl | rfl <;> rfl

end Packing
