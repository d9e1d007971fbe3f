import BusNinja.NumeralReading

/-!
# Decimal output

`console_putdec` puts out the significant decimal digits of its argument,
which `parse_number` reads back as the same number.
-/

namespace BusNinja

def digitChar (digit : Nat) : Byte := nibbleToChar (BitVec.ofNat 8 digit)

/-- The digits of a number of 32 bits, which has at most ten. -/
def decimalChars (n : BitVec 32) : List Byte :=
  (Positional.significant 10 9 n.toNat).map digitChar

theorem quotient_char (n m : BitVec 32) :
    nibbleToChar ((n / m).setWidth 8) = digitChar (n.toNat / m.toNat) := by
  rw [digitChar, ← BitVec.toNat_udiv, BitVec.ofNat_toNat]

theorem next_power {m : BitVec 32} {rounds : Nat}
    (power : m.toNat = 10 ^ (rounds + 1)) : (m / 10).toNat = 10 ^ rounds := by
  rw [BitVec.toNat_udiv, power]
  exact Nat.mul_div_cancel _ (by decide)

/-- Once a digit has been put out, every digit is. -/
theorem putdecLoop_padded (n : BitVec 32) {m : BitVec 32} {rounds : Nat}
    (power : m.toNat = 10 ^ rounds) (console : Console) :
    putdecLoop n m false rounds console =
      consolePutsP ((Positional.padded 10 rounds n.toNat).map digitChar)
        console := by
  induction rounds generalizing n m console with
  | zero =>
      rw [putdecLoop, ← BitVec.ofNat_toNat]
      rfl
  | succ rounds induction =>
      have leading : (if n / m ≠ 0 then false else false) = false := by simp
      simp only [putdecLoop, leading, Bool.not_false, if_true,
        induction (n % m) (next_power power), quotient_char, Positional.padded,
        List.map_cons, BitVec.toNat_umod, power]
      rfl

theorem putdecLoop_significant (n : BitVec 32) {m : BitVec 32} {rounds : Nat}
    (power : m.toNat = 10 ^ rounds) (console : Console) :
    putdecLoop n m true rounds console =
      consolePutsP ((Positional.significant 10 rounds n.toNat).map digitChar)
        console := by
  induction rounds generalizing n m console with
  | zero =>
      rw [putdecLoop, ← BitVec.ofNat_toNat]
      rfl
  | succ rounds induction =>
      have zero : n / m = 0 ↔ n.toNat / 10 ^ (rounds + 1) = 0 := by
        rw [← power, ← BitVec.toNat_udiv, ← BitVec.toNat_inj]
        rfl
      by_cases leading : n / m = 0#32
      · have skipped := induction (n % m) (next_power power) console
        rw [Positional.significant, if_pos (zero.mp leading), ← power,
          ← BitVec.toNat_umod, ← skipped]
        simp [putdecLoop, leading]
      · have put := putdecLoop_padded n power console
        rw [Positional.significant, if_neg (mt zero.mpr leading), ← put]
        simp [putdecLoop, leading]

theorem consolePutdec_chars (n : BitVec 32) (console : Console) :
    consolePutdec n console = consolePutsP (decimalChars n) console :=
  putdecLoop_significant n rfl console

theorem digitChar_decimal {digit : Nat} (small : digit < 10) :
    Radix.decimal.isDigit (digitChar digit) = true ∧
      digitValue (digitChar digit) = digit := by
  revert digit
  decide

theorem decimal_digits (n : BitVec 32) :
    ∀ digit ∈ Positional.significant 10 9 n.toNat, digit < 10 := by
  have small := n.isLt
  exact Positional.significant_digits (by decide) (by omega)

def decimalNumeral (n : BitVec 32) : Numeral where
  marker := .none
  digits := decimalChars n
  nonempty := by
    have length := @Positional.significant_length 10 9 n.toNat
    rw [← List.length_pos_iff, decimalChars, List.length_map]
    exact length.1
  valid := by
    intro c member
    obtain ⟨digit, among, rfl⟩ := List.mem_map.mp member
    exact (digitChar_decimal (decimal_digits n digit among)).1

theorem decimalNumeral_value (n : BitVec 32) :
    (decimalNumeral n).value = n.toNat := by
  have digits : (decimalChars n).map digitValue =
      Positional.significant 10 9 n.toNat := by
    have each := fun digit among =>
      (digitChar_decimal (decimal_digits n digit among)).2
    rw [decimalChars, List.map_map]
    exact (List.map_congr_left each).trans (List.map_id _)
  change Positional.value 10 ((decimalChars n).map digitValue) = _
  rw [digits, Positional.value_significant]

/-- Every number is put out in one to ten digits without leading zeroes, and
read back from them. -/
theorem putdec_reads_back (n : BitVec 32) (console : Console) :
    ∃ digits, consolePutdec n console = consolePutsP digits console ∧
      (console.silent = false →
        (consolePutdec n console).output = console.output ++ digits) ∧
      1 ≤ digits.length ∧ digits.length ≤ 10 ∧
      (∀ c ∈ digits, Radix.decimal.isDigit c = true) ∧
      (digits.head? = some 0x30 → n = 0) ∧
      ∀ pre post, parseNumber (pre ++ digits ++ post) pre.length
        (BitVec.ofNat 8 digits.length) = some (true, n) := by
  have length := @Positional.significant_length 10 9 n.toNat
  rw [← List.length_map digitChar] at length
  have short : (decimalNumeral n).chars.length ≤ 255 :=
    Nat.le_trans length.2 (by decide)
  refine ⟨decimalChars n, consolePutdec_chars n console, ?_, length.1, length.2,
    (decimalNumeral n).valid, ?_, ?_⟩
  · intro audible
    rw [consolePutdec_chars]
    exact consolePutsP_output (decimalChars n) audible
  · intro leading
    rw [decimalChars, List.head?_map] at leading
    obtain ⟨digit, first, zero⟩ := Option.map_eq_some_iff.mp leading
    have small := decimal_digits n digit (List.mem_of_head? first)
    have digit_zero : digit = 0 := by
      rw [← (digitChar_decimal small).2, zero]
      rfl
    subst digit_zero
    exact BitVec.eq_of_toNat_eq (Positional.significant_head first)
  · intro pre post
    have read : parsed (decimalChars n) = _ := Numeral.parsed_plain rfl short
    rw [parseNumber_bytes (decimalChars n) rfl, read, decimalNumeral_value,
      BitVec.ofNat_toNat, BitVec.setWidth_eq]

end BusNinja
