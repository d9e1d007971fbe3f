import BusNinja.CommandTokens
import BusNinja.Library.Positional

/-!
# Numerals

The numerals `parse_number` is written for: digits of one base, hexadecimal
ones in either letter case, behind a marker of that base.  The parser looks
for markers while it reads digits, at the first two positions and as long as
the result is 0; what it makes of a string is told apart by the first two
bytes.
-/

namespace BusNinja

inductive Radix where
  | binary
  | decimal
  | hexadecimal
  deriving DecidableEq, Repr

namespace Radix

def base : Radix → Nat
  | .binary => 2
  | .decimal => 10
  | .hexadecimal => 16

def isDigit : Radix → Byte → Bool
  | .binary, c => c == 0x30 || c == 0x31
  | .decimal, c => decide (0x30 ≤ c ∧ c ≤ 0x39)
  | .hexadecimal, c =>
      decide (0x30 ≤ c ∧ c ≤ 0x39) || decide (0x41 ≤ c ∧ c ≤ 0x46) ||
        decide (0x61 ≤ c ∧ c ≤ 0x66)

end Radix

def digitValue (c : Byte) : Nat :=
  if c ≤ 0x39 then c.toNat - 0x30
  else if c ≤ 0x46 then c.toNat - 0x41 + 10
  else c.toNat - 0x61 + 10

def Radix.value (radix : Radix) (digits : List Byte) : Nat :=
  Positional.value radix.base (digits.map digitValue)

/-- What stands before the digits: nothing, `0b`, `0x`, `b` or `h`. -/
inductive Marker where
  | none
  | zeroB
  | zeroX
  | letterB
  | letterH
  deriving DecidableEq, Repr

namespace Marker

def chars : Marker → List Byte
  | .none => []
  | .zeroB => [0x30, 0x62]
  | .zeroX => [0x30, 0x78]
  | .letterB => [0x62]
  | .letterH => [0x68]

def radix : Marker → Radix
  | .none => .decimal
  | .zeroB => .binary
  | .zeroX => .hexadecimal
  | .letterB => .binary
  | .letterH => .hexadecimal

/-- The markers that begin with a digit, and none. -/
def isPlain : Marker → Bool
  | .none => true
  | .zeroB => true
  | .zeroX => true
  | .letterB => false
  | .letterH => false

end Marker

structure Numeral where
  marker : Marker
  digits : List Byte
  nonempty : digits ≠ []
  valid : ∀ c ∈ digits, marker.radix.isDigit c = true

namespace Numeral

def chars (numeral : Numeral) : List Byte :=
  numeral.marker.chars ++ numeral.digits

def value (numeral : Numeral) : Nat :=
  numeral.marker.radix.value numeral.digits

end Numeral

theorem digitToInt_lt_iff (radix : Radix) (c : Byte) :
    digitToInt c < BitVec.ofNat 8 radix.base ↔ radix.isDigit c = true := by
  revert c
  cases radix <;> decide +kernel

theorem digitToInt_toNat {radix : Radix} {c : Byte}
    (digit : radix.isDigit c = true) : (digitToInt c).toNat = digitValue c := by
  revert c
  cases radix <;> decide +kernel

theorem digitValue_lt {radix : Radix} {c : Byte}
    (digit : radix.isDigit c = true) : digitValue c < radix.base := by
  revert c
  cases radix <;> decide +kernel

/-- Digits read after the markers, on from a result. -/
def readDigits (base : Byte) : BitVec 32 → List Byte → Bool × BitVec 32
  | result, [] => (true, result)
  | result, c :: rest =>
      if digitToInt c < base then
        readDigits base
          (result * base.setWidth 32 + (digitToInt c).setWidth 32) rest
      else (false, result)

/-- The digits of a base, from their bytes on. -/
def Radix.read (radix : Radix) (digits : List Byte) : Bool × BitVec 32 :=
  readDigits (BitVec.ofNat 8 radix.base) 0 digits

theorem readDigits_accepts_iff (radix : Radix) (digits : List Byte)
    (result : BitVec 32) :
    (readDigits (BitVec.ofNat 8 radix.base) result digits).1 = true ↔
      ∀ c ∈ digits, radix.isDigit c = true := by
  induction digits generalizing result with
  | nil => simp [readDigits]
  | cons c rest induction =>
      simp only [readDigits, List.forall_mem_cons, digitToInt_lt_iff]
      split
      · next digit => simpa [digit] using induction _
      · next stray => simp [stray]

theorem Radix.read_accepts_iff (radix : Radix) (digits : List Byte) :
    (radix.read digits).1 = true ↔ ∀ c ∈ digits, radix.isDigit c = true :=
  readDigits_accepts_iff radix digits 0

theorem readDigits_valid {radix : Radix} {digits : List Byte}
    (valid : ∀ c ∈ digits, radix.isDigit c = true) (number : Nat) :
    readDigits (BitVec.ofNat 8 radix.base) (BitVec.ofNat 32 number) digits =
      (true, BitVec.ofNat 32
        (Positional.horner radix.base number (digits.map digitValue))) := by
  induction digits generalizing number with
  | nil => rfl
  | cons c rest induction =>
      obtain ⟨digit, digits⟩ := List.forall_mem_cons.mp valid
      have base : (BitVec.ofNat 8 radix.base).setWidth 32 =
          BitVec.ofNat 32 radix.base := by
        cases radix <;> rfl
      rw [readDigits, if_pos ((digitToInt_lt_iff radix c).mpr digit), base,
        ← BitVec.ofNat_toNat, digitToInt_toNat digit, ← BitVec.ofNat_mul,
        ← BitVec.ofNat_add]
      exact induction digits (number * radix.base + digitValue c)

/-- Digits are read modulo the width of the result. -/
theorem Radix.read_valid {radix : Radix} {digits : List Byte}
    (valid : ∀ c ∈ digits, radix.isDigit c = true) :
    radix.read digits = (true, BitVec.ofNat 32 (radix.value digits)) :=
  readDigits_valid valid 0

theorem Radix.value_lt {radix : Radix} {digits : List Byte}
    (valid : ∀ c ∈ digits, radix.isDigit c = true) :
    radix.value digits < radix.base ^ digits.length := by
  have two : 1 < radix.base := by cases radix <;> decide
  rw [← List.length_map digitValue]
  apply Positional.value_lt two
  intro digit member
  obtain ⟨c, among, rfl⟩ := List.mem_map.mp member
  exact digitValue_lt (valid c among)

theorem parseBytes_later {len : Byte} {i : Nat} (later : 2 ≤ i) (base : Byte)
    (result : BitVec 32) (bytes : List Byte) :
    parseBytes len i base result bytes = readDigits base result bytes := by
  induction bytes generalizing i result with
  | nil => rfl
  | cons c rest induction =>
      have notFirst : i ≠ 0 := by omega
      have notSecond : i ≠ 1 := by omega
      simp only [parseBytes, readDigits, notFirst, notSecond, false_or, false_and,
        and_false, if_false, induction (Nat.le_succ_of_le later)]

/-- Behind a first digit other than 0 there are no markers. -/
theorem parseBytes_nonzero {len : Byte} {result : BitVec 32}
    (nonzero : result ≠ 0) (base : Byte) (bytes : List Byte) :
    parseBytes len 1 base result bytes = readDigits base result bytes := by
  cases bytes with
  | nil => rfl
  | cons c rest =>
      simp only [parseBytes, readDigits, nonzero, false_and, if_false,
        parseBytes_later (Nat.le_refl 2)]

/-- What follows a first `b`, `h` or `0`; only `0` may stand alone. -/
def readAfter (radix : Radix) (alone : Bool) : List Byte → Bool × BitVec 32
  | [] => (alone, 0)
  | c :: rest =>
      if c = 0x62 then Radix.binary.read rest
      else if c = 0x78 then
        if rest = [] then (false, 0) else Radix.hexadecimal.read rest
      else radix.read (c :: rest)

/-- The base that a first `b`, `h` or `0` is followed by, if no other marker
follows. -/
def leadRadix (c : Byte) : Option Radix :=
  if c = 0x62 then some .binary
  else if c = 0x68 then some .hexadecimal
  else if c = 0x30 then some .decimal
  else none

theorem parseBytes_second {len : Byte} (radix : Radix) (c : Byte)
    (rest : List Byte) (length : len.toNat = rest.length + 2) :
    parseBytes len 1 (BitVec.ofNat 8 radix.base) 0 (c :: rest) =
      readAfter radix true (c :: rest) := by
  have alone : len < 3 ↔ rest = [] := by
    rw [BitVec.lt_def, length, ← List.length_eq_zero_iff]
    change _ < 3 ↔ _
    omega
  have two : ¬ len < 2 := by
    rw [BitVec.lt_def, length]
    change ¬ _ < 2
    omega
  simp only [parseBytes, readAfter, Radix.read, readDigits, two, alone,
    parseBytes_later (Nat.le_refl 2), if_false, true_and, or_true, one_ne_zero,
    false_and]
  rfl

theorem parsed_short {bytes : List Byte} (short : bytes.length ≤ 255) :
    parsed bytes = parseBytes (BitVec.ofNat 8 bytes.length) 0 10 0 bytes := by
  have length : (BitVec.ofNat 8 bytes.length).toNat = bytes.length := by
    rw [BitVec.toNat_ofNat]
    omega
  rw [parsed, length, List.take_length]

theorem parsed_lead {c : Byte} {radix : Radix} (lead : leadRadix c = some radix)
    (rest : List Byte) (short : (c :: rest).length ≤ 255) :
    parsed (c :: rest) = readAfter radix (decide (c = 0x30)) rest := by
  rw [parsed_short short]
  rw [List.length_cons] at short
  have length : (BitVec.ofNat 8 (rest.length + 1)).toNat = rest.length + 1 := by
    rw [BitVec.toNat_ofNat]
    omega
  generalize lenEq : BitVec.ofNat 8 (c :: rest).length = len
  have first : parseBytes len 0 10 0 (c :: rest) =
      if c ≠ 0x30 ∧ rest = [] then (false, 0)
      else parseBytes len 1 (BitVec.ofNat 8 radix.base) 0 rest := by
    have two : len < 2#8 ↔ rest = [] := by
      rw [BitVec.lt_def, ← lenEq, List.length_cons, length,
        ← List.length_eq_zero_iff]
      change _ < 2 ↔ _
      omega
    unfold leadRadix at lead
    split_ifs at lead <;> cases lead <;> subst c
    · simp [parseBytes, two, Radix.base]
    · simp [parseBytes, two, Radix.base]
    · have zero : digitToInt 0x30#8 = 0 := by decide
      simp [parseBytes, zero, Radix.base]
  rw [first]
  cases rest with
  | nil =>
      by_cases alone : c = 0x30#8
      · simp [readAfter, alone, parseBytes]
      · simp [readAfter, alone]
  | cons d rest =>
      rw [if_neg (by simp)]
      apply parseBytes_second
      rw [← lenEq]
      exact length

theorem digitToInt_nonzero {c : Byte} (other : leadRadix c = none)
    (digit : digitToInt c < 10) :
    0 * (10 : Byte).setWidth 32 + (digitToInt c).setWidth 32 ≠ 0 := by
  revert c
  decide +kernel

theorem parsed_other {c : Byte} (other : leadRadix c = none) (rest : List Byte)
    (short : (c :: rest).length ≤ 255) :
    parsed (c :: rest) = Radix.decimal.read (c :: rest) := by
  have letters : c ≠ 0x62 ∧ c ≠ 0x68 := by
    unfold leadRadix at other
    split_ifs at other with b h zero
    exact ⟨b, h⟩
  obtain ⟨b, h⟩ := letters
  rw [parsed_short short, Radix.read, parseBytes]
  simp only [b, h, and_false, false_and, if_false, zero_ne_one]
  split
  · next digit =>
      rw [parseBytes_nonzero (digitToInt_nonzero other digit), readDigits]
      exact (if_pos digit).symm
  · next stray =>
      rw [readDigits]
      exact (if_neg stray).symm

/-- The text begins with no marker. -/
def Unmarked (chars : List Byte) : Prop :=
  ∀ marker : Marker, marker ≠ .none → ¬ marker.chars <+: chars

theorem Radix.decimal_read_zero (rest : List Byte) :
    Radix.decimal.read (0x30 :: rest) = Radix.decimal.read rest := rfl

theorem parsed_unmarked {chars : List Byte} (nonempty : chars ≠ [])
    (unmarked : Unmarked chars) (short : chars.length ≤ 255) :
    parsed chars = Radix.decimal.read chars := by
  cases chars with
  | nil => contradiction
  | cons c rest =>
      cases lead : leadRadix c with
      | none => exact parsed_other lead rest short
      | some radix =>
          have zero : c = 0x30 := by
            unfold leadRadix at lead
            split_ifs at lead with b h zero
            · exact absurd (by simp [b, Marker.chars])
                (unmarked .letterB (by decide))
            · exact absurd (by simp [h, Marker.chars])
                (unmarked .letterH (by decide))
            · exact zero
          subst zero
          have decimal : leadRadix 0x30 = some .decimal := rfl
          rw [parsed_lead decimal rest short, Radix.decimal_read_zero]
          cases rest with
          | nil => rfl
          | cons d rest =>
              have b : d ≠ 0x62 := by
                rintro rfl
                exact absurd (by simp [Marker.chars])
                  (unmarked .zeroB (by decide))
              have x : d ≠ 0x78 := by
                rintro rfl
                exact absurd (by simp [Marker.chars])
                  (unmarked .zeroX (by decide))
              rw [readAfter, if_neg b, if_neg x]

/-- A marker that begins with a digit, or none, and then digits or not. -/
theorem parsed_plain {marker : Marker} (plain : marker.isPlain = true)
    {digits : List Byte} (nonempty : digits ≠ [])
    (unmarked : marker = .none → Unmarked digits)
    (short : (marker.chars ++ digits).length ≤ 255) :
    parsed (marker.chars ++ digits) = marker.radix.read digits := by
  have decimal : leadRadix 0x30 = some .decimal := rfl
  cases marker with
  | none => exact parsed_unmarked nonempty (unmarked rfl) short
  | zeroB => exact parsed_lead decimal (0x62 :: digits) short
  | zeroX =>
      rw [show Marker.zeroX.chars ++ digits = 0x30 :: 0x78 :: digits from rfl,
        parsed_lead decimal (0x78 :: digits) short]
      exact if_neg nonempty
  | letterB => contradiction
  | letterH => contradiction

/-- Behind `b` or `h` the next byte may be taken for another marker. -/
theorem parsed_letter {marker : Marker} (letter : marker.isPlain = false)
    {digits : List Byte} (nonempty : digits ≠ [])
    (b : digits.head? ≠ some 0x62) (x : digits.head? ≠ some 0x78)
    (short : (marker.chars ++ digits).length ≤ 255) :
    parsed (marker.chars ++ digits) = marker.radix.read digits := by
  obtain ⟨c, lead, single⟩ : ∃ c, leadRadix c = some marker.radix ∧
      marker.chars = [c] := by
    cases marker with
    | letterB => exact ⟨0x62, rfl, rfl⟩
    | letterH => exact ⟨0x68, rfl, rfl⟩
    | _ => contradiction
  rw [single] at short ⊢
  rw [List.singleton_append, parsed_lead lead digits short]
  cases digits with
  | nil => contradiction
  | cons d rest =>
      rw [readAfter, if_neg (by simpa using b), if_neg (by simpa using x)]

end BusNinja
