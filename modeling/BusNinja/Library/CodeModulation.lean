import Mathlib.Algebra.Order.Ring.Nat
import Mathlib.Data.Nat.Count

/-!
# Binary code modulation

A level of `width + 1` bits is shown one bit at a time.  A bit is shown from
the time of its own weight on until the time of the next weight, and the top
bit until the period begins again.  Over whole periods the time for which a
set bit is shown is proportional to the level, but that the top bit has one
more time than its weight.
-/

namespace CodeModulation

/-- The bit shown at a time. -/
def slot (width time : Nat) : Nat :=
  if time % 2 ^ (width + 1) = 0 then width
  else (time % 2 ^ (width + 1)).log2

def shows (width level time : Nat) : Bool := level.testBit (slot width time)

theorem slot_congr {width first second : Nat}
    (same : first % 2 ^ (width + 1) = second % 2 ^ (width + 1)) :
    slot width first = slot width second := by
  rw [slot, slot, same]

theorem shows_add_period (width level time : Nat) :
    shows width level (time + 2 ^ (width + 1)) = shows width level time := by
  rw [shows, slot_congr (Nat.add_mod_right time (2 ^ (width + 1)))]
  rfl

theorem slot_weight {width bit time : Nat}
    (weight : time % 2 ^ (width + 1) = 2 ^ bit) : slot width time = bit := by
  have positive : 2 ^ bit ≠ 0 := Nat.two_pow_pos bit |>.ne'
  rw [slot, weight, if_neg positive, Nat.log2_two_pow]

theorem log2_pred {n : Nat} (notWeight : ∀ bit, n ≠ 2 ^ bit) (positive : n ≠ 0) :
    (n - 1).log2 = n.log2 := by
  have below := lt_of_le_of_ne (Nat.log2_self_le positive) (notWeight n.log2).symm
  have above := (Nat.lt_log2_self : n < 2 ^ (n.log2 + 1))
  have notOne : n ≠ 1 := notWeight 0
  refine (Nat.log2_eq_iff (by omega)).mpr ⟨?_, ?_⟩ <;> omega

/-- The phase goes up by one or starts again. -/
theorem succ_phase {period time : Nat} (several : 1 < period) :
    (time % period + 1 = period ∧ (time + 1) % period = 0) ∨
      (time + 1) % period = time % period + 1 := by
  have less := Nat.mod_lt time (by omega : period > 0)
  have next : (time + 1) % period = (time % period + 1) % period := by
    rw [Nat.add_mod, Nat.mod_eq_of_lt several]
  by_cases last : time % period + 1 = period
  · left
    exact ⟨last, by rw [next, last, Nat.mod_self]⟩
  · right
    rw [next, Nat.mod_eq_of_lt (by omega)]

/-- Between the times of two weights the bit stays. -/
theorem slot_succ {width time : Nat}
    (notWeight : ∀ bit, (time + 1) % 2 ^ (width + 1) ≠ 2 ^ bit) :
    slot width (time + 1) = slot width time := by
  have half : 2 ^ (width + 1) = 2 * 2 ^ width := by rw [Nat.pow_succ']
  have positive := Nat.two_pow_pos width
  have notOne := notWeight 0
  unfold slot
  rcases @succ_phase (2 ^ (width + 1)) time (by omega) with
    ⟨last, ended⟩ | next
  · rw [if_pos ended, if_neg (by omega)]
    refine ((Nat.log2_eq_iff (by omega)).mpr ⟨?_, ?_⟩).symm <;> omega
  · rw [if_neg (by omega), if_neg (by omega),
      ← log2_pred notWeight (by omega), next, Nat.add_sub_cancel]

theorem log2_add_weight {bit more : Nat} (inside : more < 2 ^ bit) :
    (2 ^ bit + more).log2 = bit := by
  have positive := Nat.two_pow_pos bit
  refine (Nat.log2_eq_iff (by omega)).mpr ⟨by omega, ?_⟩
  rw [Nat.pow_succ']
  omega

/-- Up to the time of a weight, the bits below it have been shown for as long
as they weigh. -/
theorem count_bits (level bits : Nat) :
    Nat.count (fun time => time ≠ 0 ∧ level.testBit time.log2 = true) (2 ^ bits) =
      level % 2 ^ bits := by
  induction bits with
  | zero =>
      rw [Nat.pow_zero, Nat.count_one, Nat.mod_one]
      rfl
  | succ bits induction =>
      have twice : 2 ^ (bits + 1) = 2 ^ bits + 2 ^ bits := by
        rw [Nat.pow_succ']
        omega
      have positive := Nat.two_pow_pos bits
      have shown : ∀ more < 2 ^ bits,
          ((2 ^ bits + more ≠ 0 ∧ level.testBit (2 ^ bits + more).log2 = true) ↔
            level.testBit bits = true) := by
        intro more inside
        rw [log2_add_weight inside]
        exact and_iff_right (by omega)
      rw [Nat.mod_pow_succ, ← Nat.toNat_testBit, twice, Nat.count_add, induction]
      congr 1
      cases set : level.testBit bits with
      | true =>
          rw [Nat.count_of_forall]
          · simp
          · exact fun more inside => (shown more inside).mpr set
      | false =>
          rw [Nat.count_of_forall_not]
          · simp
          · intro more inside seen
            exact absurd ((shown more inside).mp seen) (by simp [set])

/-- The top bit alone is shown at the start of the period. -/
theorem count_period {width level : Nat} (fits : level < 2 ^ (width + 1)) :
    Nat.count (fun time => shows width level time = true) (2 ^ (width + 1)) =
      level + level / 2 ^ width := by
  have bits := count_bits level (width + 1)
  rw [Nat.mod_eq_of_lt fits] at bits
  obtain ⟨last, period⟩ : ∃ last, 2 ^ (width + 1) = last + 1 :=
    Nat.exists_eq_add_one_of_ne_zero (Nat.two_pow_pos _).ne'
  have inside : ∀ time < last,
      (shows width level (time + 1) = true ↔
        (time + 1 ≠ 0 ∧ level.testBit (time + 1).log2 = true)) := by
    intro time before
    have phase : (time + 1) % 2 ^ (width + 1) = time + 1 :=
      Nat.mod_eq_of_lt (by omega)
    have positive : time + 1 ≠ 0 := Nat.succ_ne_zero time
    rw [shows, slot, phase, if_neg positive]
    exact (and_iff_right positive).symm
  have same := le_antisymm
    (Nat.count_mono_left fun time before => (inside time before).mp)
    (Nat.count_mono_left fun time before => (inside time before).mpr)
  have top : (if shows width level 0 = true then 1 else 0) =
      level / 2 ^ width := by
    have less : level / 2 ^ width < 2 := by
      rw [Nat.div_lt_iff_lt_mul (Nat.two_pow_pos width), ← Nat.pow_succ']
      exact fits
    have bit := Nat.toNat_testBit level width
    rw [Nat.mod_eq_of_lt less] at bit
    have first : slot width 0 = width := if_pos (Nat.zero_mod _)
    rw [← bit, shows, first]
    cases level.testBit width <;> rfl
  rw [period, Nat.count_succ'] at bits ⊢
  rw [same, top]
  simp only [ne_eq, not_true_eq_false, false_and, if_false, Nat.add_zero] at bits
  rw [bits]

/-- A window of one period is as long wherever it starts. -/
theorem count_window (width level start : Nat) :
    Nat.count (fun time => shows width level (start + time) = true)
        (2 ^ (width + 1)) =
      Nat.count (fun time => shows width level time = true)
        (2 ^ (width + 1)) := by
  induction start with
  | zero => simp only [Nat.zero_add]
  | succ start induction =>
      have front := Nat.count_succ'
        (fun time => shows width level (start + time) = true) (2 ^ (width + 1))
      rw [Nat.count_succ, shows_add_period] at front
      rw [← induction, Nat.add_right_cancel front]
      simp only [Nat.add_assoc, Nat.add_comm 1]

theorem count_periods {width level : Nat} (fits : level < 2 ^ (width + 1))
    (start rounds : Nat) :
    Nat.count (fun time => shows width level (start + time) = true)
        (2 ^ (width + 1) * rounds) =
      (level + level / 2 ^ width) * rounds := by
  induction rounds generalizing start with
  | zero => simp
  | succ rounds induction =>
      have later := induction (start + 2 ^ (width + 1))
      rw [Nat.mul_succ, Nat.add_comm, Nat.count_add, count_window,
        count_period fits, Nat.mul_succ, Nat.add_comm _ (level + _)]
      simp only [← Nat.add_assoc, later]

end CodeModulation
