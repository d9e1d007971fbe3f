import Mathlib.Data.Nat.Digits.Defs

/-!
# Positional notation, most significant digit first

A list of digits is read by Horner's rule.  A number is written by dividing
by descending powers of the base, with its leading zeroes or without.
-/

namespace Positional

def horner (base : Nat) : Nat → List Nat → Nat :=
  List.foldl fun number digit => number * base + digit

def value (base : Nat) (digits : List Nat) : Nat := horner base 0 digits

theorem value_ofDigits (base : Nat) (digits : List Nat) :
    value base digits = Nat.ofDigits base digits.reverse := by
  rw [Nat.ofDigits_eq_foldr, List.foldr_reverse]
  unfold value horner
  congr 1
  funext number digit
  simp only [Nat.cast_id]
  rw [Nat.mul_comm, Nat.add_comm]

theorem value_cons (base digit : Nat) (digits : List Nat) :
    value base (digit :: digits) =
      digit * base ^ digits.length + value base digits := by
  rw [value_ofDigits, value_ofDigits, List.reverse_cons, Nat.ofDigits_append,
    Nat.ofDigits_singleton, List.length_reverse, Nat.mul_comm, Nat.add_comm]

theorem value_lt {base : Nat} {digits : List Nat} (two : 1 < base)
    (valid : ∀ digit ∈ digits, digit < base) :
    value base digits < base ^ digits.length := by
  rw [value_ofDigits, ← List.length_reverse]
  apply Nat.ofDigits_lt_base_pow_length two
  intro digit member
  exact valid digit (List.mem_reverse.mp member)

/-- The quotients by the powers of the base from the given one down. -/
def padded (base : Nat) : Nat → Nat → List Nat
  | 0, number => [number]
  | power + 1, number =>
      number / base ^ (power + 1) :: padded base power (number % base ^ (power + 1))

/-- The same without leading zeroes; the last digit is always written. -/
def significant (base : Nat) : Nat → Nat → List Nat
  | 0, number => [number]
  | power + 1, number =>
      if number / base ^ (power + 1) = 0 then
        significant base power (number % base ^ (power + 1))
      else padded base (power + 1) number

variable {base : Nat}

@[simp] theorem padded_length (power number : Nat) :
    (padded base power number).length = power + 1 := by
  induction power generalizing number with
  | zero => rfl
  | succ power induction => rw [padded, List.length_cons, induction]

theorem value_padded (power number : Nat) :
    value base (padded base power number) = number := by
  induction power generalizing number with
  | zero => simp [padded, value, horner]
  | succ power induction =>
      rw [padded, value_cons, padded_length, induction]
      exact Nat.div_add_mod' number _

theorem padded_digits {power number : Nat} (two : 1 < base)
    (small : number < base ^ (power + 1)) :
    ∀ digit ∈ padded base power number, digit < base := by
  induction power generalizing number with
  | zero =>
      intro digit member
      rw [List.mem_singleton.mp member]
      simpa using small
  | succ power induction =>
      have positive : 0 < base ^ (power + 1) := Nat.pow_pos (by omega)
      rw [padded]
      rintro digit (_ | ⟨_, member⟩)
      · apply Nat.div_lt_of_lt_mul
        rwa [← Nat.pow_succ]
      · exact induction (Nat.mod_lt _ positive) digit member

theorem value_significant (power number : Nat) :
    value base (significant base power number) = number := by
  induction power generalizing number with
  | zero => exact value_padded 0 number
  | succ power induction =>
      unfold significant
      split
      · next zero =>
          rw [induction]
          have parts := Nat.div_add_mod number (base ^ (power + 1))
          rwa [zero, Nat.mul_zero, Nat.zero_add] at parts
      · exact value_padded _ number

theorem significant_digits {power number : Nat} (two : 1 < base)
    (small : number < base ^ (power + 1)) :
    ∀ digit ∈ significant base power number, digit < base := by
  induction power generalizing number with
  | zero => exact padded_digits two small
  | succ power induction =>
      unfold significant
      split
      · apply induction
        exact Nat.mod_lt _ (Nat.pow_pos (by omega))
      · exact padded_digits two small

theorem significant_length (power number : Nat) :
    1 ≤ (significant base power number).length ∧
      (significant base power number).length ≤ power + 1 := by
  induction power generalizing number with
  | zero => exact ⟨Nat.le_refl 1, Nat.le_refl 1⟩
  | succ power induction =>
      unfold significant
      split
      · obtain ⟨some, few⟩ := induction (number % base ^ (power + 1))
        exact ⟨some, Nat.le_succ_of_le few⟩
      · rw [padded_length]
        omega

/-- Only zero is written with a leading zero. -/
theorem significant_head {power number : Nat}
    (zero : (significant base power number).head? = some 0) : number = 0 := by
  induction power generalizing number with
  | zero => simpa [significant] using zero
  | succ power induction =>
      unfold significant at zero
      split at zero
      · next none =>
          have rest := induction zero
          have parts := Nat.div_add_mod number (base ^ (power + 1))
          rw [none, rest] at parts
          omega
      · next some =>
          apply absurd _ some
          simpa [padded] using zero

end Positional
