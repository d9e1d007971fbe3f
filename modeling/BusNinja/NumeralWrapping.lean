import BusNinja.CommandArguments
import BusNinja.CommandRepeats

/-!
# Numbers of more than 32 bits

The result of `parse_number` has 32 bits and the sum of the digits is not
checked for overflow, so a numeral is read modulo 2^32, and the range check
of `led` and the repeat count see what is left of it.
-/

namespace BusNinja

/-- A numeral that is read is read exactly, is an argument of `led` only if
there is such a sequence, and repeats a value as often as written. -/
structure NeverWraps (numeral : Numeral) : Prop where
  exact : ∀ pre post num,
    parseNumber (pre ++ numeral.chars ++ post) pre.length
        (BitVec.ofNat 8 numeral.chars.length) = some (true, num) →
      num.toNat = numeral.value
  led : ∀ args board, argument args = numeral.chars →
    (globalCommandLed args board).1 = true →
      numeral.value < ledSeqMax.toNat
  repeats : ∀ (δ : Type) (table : List (GlobalCommand δ)) (pre post : List Byte)
    (firstToken : Bool) (shell : Shell δ) (value : Numeral)
    (act : Byte → Board δ → Board δ), value.marker.isPlain = true →
      (value.chars ++ 0x3A :: numeral.chars).length ≤ 63 →
      shell.numberHandler = some act →
      tokenEffect table pre (value.chars ++ 0x3A :: numeral.chars) post
          firstToken shell =
        some (false,
          { shell with
            board := (act (BitVec.ofNat 8 value.value))^[numeral.value]
              shell.board })

theorem led_in_range {args : List Byte} {board : Board Devices}
    (succeeds : (globalCommandLed args board).1 = true) :
    (parsed (argument args)).2 < ledSeqMax := by
  rw [globalCommandLed_sequence, ledSequence_argument] at succeeds
  by_cases valid : argument args ≠ [] ∧ (parsed (argument args)).1 = true ∧
      (parsed (argument args)).2 < ledSeqMax
  · exact valid.2.2
  · rw [if_neg valid] at succeeds
    contradiction

/-- Exactly the numerals that denote a number of 32 bits are never wrapped. -/
theorem numeral_never_wraps_iff (numeral : Numeral)
    (plain : numeral.marker.isPlain = true)
    (short : numeral.chars.length ≤ 63) :
    NeverWraps numeral ↔ numeral.value < 2 ^ 32 := by
  have few : numeral.chars.length ≤ 255 := Nat.le_trans short (by decide)
  have number := numeral.parsed_plain plain few
  constructor
  · intro never
    have read := @parseNumber_bytes numeral.chars _ [] [] rfl
    rw [number] at read
    rw [← never.exact [] [] _ read]
    exact BitVec.isLt _
  · intro small
    have whole : (BitVec.ofNat 32 numeral.value).toNat = numeral.value := by
      rw [BitVec.toNat_ofNat, Nat.mod_eq_of_lt small]
    constructor
    · intro pre post num read
      rw [parseNumber_bytes numeral.chars rfl, number] at read
      cases read
      exact whole
    · intro args board first succeeds
      have less := led_in_range succeeds
      rw [first, number, BitVec.lt_def, whole] at less
      exact less
    · intro δ table pre post firstToken shell value act valuePlain within handler
      have counted : ∀ count ∈ some numeral, count.marker.isPlain = true := by
        rintro _ ⟨⟩
        exact plain
      have fits : ∀ count ∈ some numeral, count.value < 2 ^ 32 := by
        rintro _ ⟨⟩
        exact small
      have effect := tokenEffect_number table valuePlain counted within handler
        pre post firstToken
      rw [repeatCall_times fits] at effect
      exact effect

theorem numeral_never_wraps_largest :
    NeverWraps ⟨.none, text "4294967295", by decide, by decide⟩ :=
  (numeral_never_wraps_iff ⟨.none, text "4294967295", by decide, by decide⟩
    rfl (by decide)).mpr (by decide)

/-- 4294967296 is read as 0. -/
theorem numeral_wraps_to_zero :
    ¬ ∀ numeral : Numeral, numeral.marker.isPlain = true →
      numeral.chars.length ≤ 63 → NeverWraps numeral := by
  intro always
  have never := always ⟨.none, text "4294967296", by decide, by decide⟩ rfl
    (by decide)
  have zero : parseNumber (text "4294967296") 0 10 = some (true, 0) := by
    decide
  exact absurd (never.exact [] [] 0 zero) (by decide)

/-- `led` takes it for the first sequence. -/
example (board : Board Devices) :
    globalCommandLed (text " 4294967296") board = (true, board.setSeq 0) := rfl

end BusNinja
