import BusNinja.Numerals

/-!
# What `parse_number` accepts

Behind no marker, `0b` or `0x` exactly the digits of the base are accepted.
Behind the letters `b` and `h` the second byte is looked at for a marker once
more, so that some numerals are misread, and some strings that are no numerals
are accepted.
-/

namespace BusNinja

/-- Behind a plain marker exactly the digits of its base are accepted, and
read modulo 2^32. -/
theorem plain_numerals_recognised (marker : Marker)
    (plain : marker.isPlain = true) (digits : List Byte)
    (nonempty : digits ≠ []) (unmarked : marker = .none → Unmarked digits)
    (short : (marker.chars ++ digits).length ≤ 255) (pre post : List Byte) :
    ∃ ok num,
      parseNumber (pre ++ (marker.chars ++ digits) ++ post) pre.length
          (BitVec.ofNat 8 (marker.chars ++ digits).length) = some (ok, num) ∧
      (ok = true ↔ ∀ c ∈ digits, marker.radix.isDigit c = true) ∧
      (ok = true → num.toNat = marker.radix.value digits % 2 ^ 32) := by
  have accepts := marker.radix.read_accepts_iff digits
  refine ⟨_, (marker.radix.read digits).2, ?_, accepts, ?_⟩
  · rw [parseNumber_bytes (marker.chars ++ digits) rfl,
      parsed_plain plain nonempty unmarked short]
  · intro accepted
    rw [Radix.read_valid (accepts.mp accepted), BitVec.toNat_ofNat]

/-- Hexadecimal digits behind `0x`, at the end of a longer line. -/
theorem plain_numerals_recognised_2a :
    ∃ ok num,
      parseNumber (text "5:0x2a") 2 4 = some (ok, num) ∧
      (ok = true ↔
        ∀ c ∈ text "2a", Radix.hexadecimal.isDigit c = true) ∧
      (ok = true → num.toNat = Radix.hexadecimal.value (text "2a") % 2 ^ 32) :=
  plain_numerals_recognised .zeroX rfl (text "2a") (by decide) nofun (by decide)
    (text "5:") []

theorem unmarked_of_decimal {digits : List Byte}
    (valid : ∀ c ∈ digits, Radix.decimal.isDigit c = true) :
    Unmarked digits := by
  intro marker marked begins
  obtain ⟨c, among, stray⟩ : ∃ c ∈ marker.chars,
      Radix.decimal.isDigit c = false := by
    cases marker with
    | none => contradiction
    | zeroB => exact ⟨0x62, by decide, rfl⟩
    | zeroX => exact ⟨0x78, by decide, rfl⟩
    | letterB => exact ⟨0x62, by decide, rfl⟩
    | letterH => exact ⟨0x68, by decide, rfl⟩
  have digit := valid c (begins.subset among)
  rw [stray] at digit
  contradiction

theorem Numeral.parsed_plain {numeral : Numeral}
    (plain : numeral.marker.isPlain = true)
    (short : numeral.chars.length ≤ 255) :
    parsed numeral.chars = (true, BitVec.ofNat 32 numeral.value) := by
  have unmarked : numeral.marker = .none → Unmarked numeral.digits := by
    intro none
    apply unmarked_of_decimal
    have valid := numeral.valid
    rwa [none] at valid
  rw [chars, BusNinja.parsed_plain plain numeral.nonempty unmarked short,
    Radix.read_valid numeral.valid]
  rfl

/-- `parse_number` reads the numeral as the number it denotes. -/
def Numeral.ReadExactly (numeral : Numeral) (pre post : List Byte) : Prop :=
  ∃ num,
    parseNumber (pre ++ numeral.chars ++ post) pre.length
      (BitVec.ofNat 8 numeral.chars.length) = some (true, num) ∧
    num.toNat = numeral.value

theorem Numeral.readExactly_iff (numeral : Numeral) (pre post : List Byte) :
    numeral.ReadExactly pre post ↔
      (parsed numeral.chars).1 = true ∧
        (parsed numeral.chars).2.toNat = numeral.value := by
  unfold ReadExactly
  rw [parseNumber_bytes numeral.chars rfl]
  constructor
  · rintro ⟨num, read, exact⟩
    rw [Option.some.inj read]
    exact ⟨rfl, exact⟩
  · rintro ⟨accepted, exact⟩
    exact ⟨_, by rw [← accepted], exact⟩

theorem Numeral.value_lt (numeral : Numeral) :
    numeral.value < numeral.marker.radix.base ^ numeral.digits.length :=
  Radix.value_lt numeral.valid

theorem hexadecimal_value_b (rest : List Byte) :
    2 ^ rest.length ≤ Radix.hexadecimal.value (0x62 :: rest) := by
  have b : digitValue 0x62 = 11 := rfl
  have power : 2 ^ rest.length ≤ 16 ^ rest.length :=
    Nat.pow_le_pow_left (by decide) _
  rw [Radix.value, List.map_cons, Positional.value_cons, List.length_map, b]
  change _ ≤ 11 * 16 ^ rest.length + _
  omega

/-- Behind `h` a `b` is taken for the marker of binary digits. -/
theorem parsed_hb (rest : List Byte) (short : rest.length + 2 ≤ 255) :
    parsed (0x68 :: 0x62 :: rest) = Radix.binary.read rest := by
  have hexadecimal : leadRadix 0x68 = some .hexadecimal := rfl
  exact parsed_lead hexadecimal (0x62 :: rest) short

namespace Numeral

variable {numeral : Numeral}

/-- A numeral of so many digits is a number of 32 bits and a short string. -/
theorem letter_fits
    (letter : numeral.marker = .letterB ∨ numeral.marker = .letterH)
    (hexadecimal : numeral.marker = .letterH → numeral.digits.length ≤ 8)
    (binary : numeral.marker = .letterB → numeral.digits.length ≤ 32) :
    numeral.value < 2 ^ 32 ∧ numeral.chars.length ≤ 255 := by
  have small := numeral.value_lt
  rw [Numeral.chars, List.length_append]
  rcases letter with b | h
  · have length := binary b
    have power : 2 ^ numeral.digits.length ≤ 2 ^ 32 :=
      Nat.pow_le_pow_right (by decide) length
    rw [b] at small ⊢
    exact ⟨Nat.lt_of_lt_of_le small power, by simp [Marker.chars]; omega⟩
  · have length := hexadecimal h
    have power : 16 ^ numeral.digits.length ≤ 16 ^ 8 :=
      Nat.pow_le_pow_right (by decide) length
    rw [h] at small ⊢
    exact ⟨Nat.lt_of_lt_of_le small power, by simp [Marker.chars]; omega⟩

/-- Behind `hb` binary digits are read, which denote less than the
hexadecimal ones. -/
theorem parsed_hb_inexact (h : numeral.marker = .letterH)
    (begins : numeral.digits.head? = some 0x62)
    (short : numeral.chars.length ≤ 255)
    (accepted : (parsed numeral.chars).1 = true) :
    (parsed numeral.chars).2.toNat ≠ numeral.value := by
  obtain ⟨rest, digits⟩ : ∃ rest, numeral.digits = 0x62 :: rest :=
    List.head?_eq_some_iff.mp begins
  have chars : numeral.chars = 0x68 :: 0x62 :: rest := by
    rw [Numeral.chars, h, digits]
    rfl
  have value : numeral.value = Radix.hexadecimal.value (0x62 :: rest) := by
    rw [Numeral.value, h, digits]
    rfl
  rw [chars] at short
  rw [chars, parsed_hb rest short] at accepted ⊢
  have valid := (Radix.binary.read_accepts_iff rest).mp accepted
  have less := Radix.value_lt valid
  have more := hexadecimal_value_b rest
  have wrapped := Nat.mod_le (Radix.binary.value rest) (2 ^ 32)
  change Radix.binary.value rest < 2 ^ rest.length at less
  rw [Radix.read_valid valid, BitVec.toNat_ofNat, value]
  omega

theorem head_digit {c : Byte} (first : numeral.digits.head? = some c) :
    numeral.marker.radix.isDigit c = true :=
  numeral.valid c (List.mem_of_head? first)

theorem parsed_letter_digits
    (letter : numeral.marker = .letterB ∨ numeral.marker = .letterH)
    (clear : ¬ (numeral.marker = .letterH ∧ numeral.digits.head? = some 0x62))
    (short : numeral.chars.length ≤ 255) :
    parsed numeral.chars = (true, BitVec.ofNat 32 numeral.value) := by
  have marked : numeral.marker.isPlain = false := by
    rcases letter with b | h
    · rw [b]
      rfl
    · rw [h]
      rfl
  have x : numeral.digits.head? ≠ some 0x78 := by
    intro first
    have digit := head_digit first
    rcases letter with b | h
    · rw [b] at digit
      contradiction
    · rw [h] at digit
      contradiction
  have b : numeral.digits.head? ≠ some 0x62 := by
    intro first
    have digit := head_digit first
    rcases letter with b | h
    · rw [b] at digit
      contradiction
    · exact clear ⟨h, first⟩
  exact (parsed_letter marked numeral.nonempty b x short).trans
    (Radix.read_valid numeral.valid)

end Numeral

/-- A numeral behind `b` or `h` that fits 32 bits is read exactly, except for
hexadecimal digits that begin with `b`. -/
theorem letter_numeral_read_iff (numeral : Numeral)
    (letter : numeral.marker = .letterB ∨ numeral.marker = .letterH)
    (hexadecimal : numeral.marker = .letterH → numeral.digits.length ≤ 8)
    (binary : numeral.marker = .letterB → numeral.digits.length ≤ 32)
    (pre post : List Byte) :
    numeral.ReadExactly pre post ↔
      ¬ (numeral.marker = .letterH ∧ numeral.digits.head? = some 0x62) := by
  rw [numeral.readExactly_iff]
  obtain ⟨small, short⟩ := Numeral.letter_fits letter hexadecimal binary
  constructor
  · rintro ⟨accepted, exact⟩ ⟨h, begins⟩
    exact Numeral.parsed_hb_inexact h begins short accepted exact
  · intro clear
    rw [Numeral.parsed_letter_digits letter clear short, BitVec.toNat_ofNat]
    exact ⟨rfl, Nat.mod_eq_of_lt small⟩

/-- `hff` -/
theorem letter_numeral_read_hff :
    Numeral.ReadExactly ⟨.letterH, text "ff", by decide, by decide⟩ [] [] :=
  (letter_numeral_read_iff ⟨.letterH, text "ff", by decide, by decide⟩
    (.inr rfl) (fun _ => by decide) nofun [] []).mpr (by decide)

/-- `hb1` is read as 1. -/
theorem hb1_misread :
    ¬ ∀ (numeral : Numeral) (pre post : List Byte),
      (numeral.marker = .letterB ∨ numeral.marker = .letterH) →
      (numeral.marker = .letterH → numeral.digits.length ≤ 8) →
      (numeral.marker = .letterB → numeral.digits.length ≤ 32) →
      numeral.ReadExactly pre post := by
  intro always
  obtain ⟨num, read, exact⟩ := always
    ⟨.letterH, text "b1", by decide, by decide⟩ [] [] (.inr rfl)
    (fun _ => by decide) nofun
  have one : parseNumber (text "hb1") 0 3 = some (true, 1) := by decide
  have num_eq : num = 1 := (Prod.mk.inj (Option.some.inj (read.symm.trans one))).2
  rw [num_eq] at exact
  exact absurd exact (by decide)

/-- The strings that are accepted although they are no numerals: no digit is
asked for behind a `b`, and two markers may follow each other. -/
inductive Misread : List Byte → Prop where
  | empty : Misread []
  | bare : Misread [0x30, 0x62]
  | binary {digits : List Byte} :
      (∀ c ∈ digits, Radix.binary.isDigit c = true) →
      Misread (0x62 :: 0x62 :: digits)
  | hexadecimal {letter : Byte} {digits : List Byte} :
      letter = 0x62 ∨ letter = 0x68 → digits ≠ [] →
      (∀ c ∈ digits, Radix.hexadecimal.isDigit c = true) →
      Misread (letter :: 0x78 :: digits)

theorem Misread.accepted {chars : List Byte} (misread : Misread chars)
    (short : chars.length ≤ 255) : (parsed chars).1 = true := by
  cases misread with
  | empty => rfl
  | bare => rfl
  | binary valid =>
      have lead : leadRadix 0x62 = some .binary := rfl
      rw [parsed_lead lead _ short]
      exact (Radix.binary.read_accepts_iff _).mpr valid
  | @hexadecimal letter digits letters nonempty valid =>
      obtain ⟨radix, lead⟩ : ∃ radix, leadRadix letter = some radix := by
        rcases letters with rfl | rfl
        · exact ⟨.binary, rfl⟩
        · exact ⟨.hexadecimal, rfl⟩
      have notB : (0x78 : Byte) ≠ 0x62 := by decide
      rw [parsed_lead lead _ short, readAfter, if_neg notB, if_pos rfl,
        if_neg nonempty]
      exact (Radix.hexadecimal.read_accepts_iff _).mpr valid

theorem Misread.not_numeral {numeral : Numeral}
    (misread : Misread numeral.chars) : False := by
  obtain ⟨marker, digits, nonempty, valid⟩ := numeral
  unfold Numeral.chars at misread
  generalize cut : marker.chars ++ digits = chars at misread
  cases misread with
  | empty => exact nonempty (List.append_eq_nil_iff.mp cut).2
  | bare =>
      cases marker <;> simp [Marker.chars] at cut <;> subst cut
      all_goals first
        | exact nonempty rfl
        | exact absurd valid (by decide)
  | binary =>
      cases marker <;> simp [Marker.chars] at cut <;> subst cut
      all_goals exact absurd (valid 0x62 (by simp)) (by decide)
  | hexadecimal letters =>
      rcases letters with rfl | rfl <;>
        cases marker <;> simp [Marker.chars] at cut <;> subst cut
      all_goals exact absurd (valid 0x78 (by simp)) (by decide)

theorem Radix.isDigit_hexadecimal {radix : Radix} {c : Byte}
    (digit : radix.isDigit c = true) :
    Radix.hexadecimal.isDigit c = true := by
  revert c
  cases radix <;> decide +kernel

/-- What may follow a first `b`, `h` or `0`. -/
theorem readAfter_accepted {radix : Radix} {alone : Bool} {rest : List Byte}
    (accepted : (readAfter radix alone rest).1 = true) :
    (rest = [] ∧ alone = true) ∨
      (∃ digits, rest = 0x62 :: digits ∧
        ∀ c ∈ digits, Radix.binary.isDigit c = true) ∨
      (∃ digits, rest = 0x78 :: digits ∧ digits ≠ [] ∧
        ∀ c ∈ digits, Radix.hexadecimal.isDigit c = true) ∨
      (rest ≠ [] ∧ ∀ c ∈ rest, radix.isDigit c = true) := by
  cases rest with
  | nil => exact .inl ⟨rfl, accepted⟩
  | cons d digits =>
      right
      rw [readAfter] at accepted
      split_ifs at accepted with b x none
      · exact .inl ⟨digits, by rw [b],
          (Radix.binary.read_accepts_iff digits).mp accepted⟩
      · exact .inr (.inl ⟨digits, by rw [x], none,
          (Radix.hexadecimal.read_accepts_iff digits).mp accepted⟩)
      · exact .inr (.inr ⟨by simp,
          (radix.read_accepts_iff _).mp accepted⟩)

theorem accepted_cases {chars : List Byte} (short : chars.length ≤ 255)
    (accepted : (parsed chars).1 = true) :
    Misread chars ∨ ∃ numeral : Numeral, numeral.chars = chars := by
  cases chars with
  | nil => exact .inl .empty
  | cons c rest =>
      cases lead : leadRadix c with
      | none =>
          rw [parsed_other lead rest short, Radix.read_accepts_iff] at accepted
          exact .inr ⟨⟨.none, c :: rest, by simp, accepted⟩, rfl⟩
      | some radix =>
          rw [parsed_lead lead rest short] at accepted
          have after := readAfter_accepted accepted
          unfold leadRadix at lead
          split_ifs at lead with b h zero <;> cases lead <;> subst c
          · -- `b`
            obtain ⟨-, alone⟩ | ⟨digits, rfl, valid⟩ |
              ⟨digits, rfl, some, valid⟩ | ⟨some, valid⟩ := after
            · contradiction
            · exact .inl (.binary valid)
            · exact .inl (.hexadecimal (.inl rfl) some valid)
            · exact .inr ⟨⟨.letterB, rest, some, valid⟩, rfl⟩
          · -- `h`
            obtain ⟨-, alone⟩ | ⟨digits, rfl, valid⟩ |
              ⟨digits, rfl, some, valid⟩ | ⟨some, valid⟩ := after
            · contradiction
            · have all : ∀ c ∈ 0x62 :: digits,
                  Radix.hexadecimal.isDigit c = true :=
                List.forall_mem_cons.mpr
                  ⟨rfl, fun c among => Radix.isDigit_hexadecimal (valid c among)⟩
              exact .inr ⟨⟨.letterH, 0x62 :: digits, by simp, all⟩, rfl⟩
            · exact .inl (.hexadecimal (.inr rfl) some valid)
            · exact .inr ⟨⟨.letterH, rest, some, valid⟩, rfl⟩
          · -- `0`
            obtain ⟨rfl, -⟩ | ⟨digits, rfl, valid⟩ |
              ⟨digits, rfl, some, valid⟩ | ⟨some, valid⟩ := after
            · exact .inr ⟨⟨.none, [0x30], by simp, by decide⟩, rfl⟩
            · by_cases none : digits = []
              · subst none
                exact .inl .bare
              · exact .inr ⟨⟨.zeroB, digits, none, valid⟩, rfl⟩
            · exact .inr ⟨⟨.zeroX, digits, some, valid⟩, rfl⟩
            · have all : ∀ c ∈ 0x30 :: rest, Radix.decimal.isDigit c = true :=
                List.forall_mem_cons.mpr ⟨rfl, valid⟩
              exact .inr ⟨⟨.none, 0x30 :: rest, by simp, all⟩, rfl⟩

/-- Whatever is accepted consists of hexadecimal digits, which `b` is one of,
and the other letters of the markers. -/
theorem accepted_byte {chars : List Byte} (short : chars.length ≤ 255)
    (accepted : (parsed chars).1 = true) {c : Byte} (member : c ∈ chars) :
    Radix.hexadecimal.isDigit c = true ∨ c = 0x68 ∨ c = 0x78 := by
  have b : Radix.hexadecimal.isDigit 0x62 = true := rfl
  have zero : Radix.hexadecimal.isDigit 0x30 = true := rfl
  have marker_byte : ∀ marker : Marker, ∀ c ∈ marker.chars,
      Radix.hexadecimal.isDigit c = true ∨ c = 0x68 ∨ c = 0x78 := by
    intro marker
    cases marker <;> decide
  rcases accepted_cases short accepted with misread | ⟨numeral, rfl⟩
  · cases misread with
    | empty => contradiction
    | bare =>
        simp only [List.mem_cons, List.not_mem_nil, or_false] at member
        rcases member with rfl | rfl
        · exact .inl zero
        · exact .inl b
    | binary valid =>
        simp only [List.mem_cons] at member
        rcases member with rfl | rfl | later
        · exact .inl b
        · exact .inl b
        · exact .inl (Radix.isDigit_hexadecimal (valid c later))
    | hexadecimal letter some valid =>
        simp only [List.mem_cons] at member
        rcases member with rfl | rfl | later
        · rcases letter with rfl | rfl
          · exact .inl b
          · exact .inr (.inl rfl)
        · exact .inr (.inr rfl)
        · exact .inl (valid c later)
  · rcases List.mem_append.mp member with marked | among
    · exact marker_byte numeral.marker c marked
    · exact .inl (Radix.isDigit_hexadecimal (numeral.valid c among))

/-- What is accepted is a numeral, except for the strings that are misread. -/
theorem accepted_numeral_iff (chars pre post : List Byte)
    (short : chars.length ≤ 255) :
    ((∃ num, parseNumber (pre ++ chars ++ post) pre.length
        (BitVec.ofNat 8 chars.length) = some (true, num)) →
      ∃ numeral : Numeral, numeral.chars = chars) ↔ ¬ Misread chars := by
  rw [parseNumber_bytes chars rfl]
  constructor
  · intro numerals misread
    have accepted := misread.accepted short
    obtain ⟨numeral, rfl⟩ := numerals ⟨_, by rw [← accepted]⟩
    exact misread.not_numeral
  · rintro clear ⟨num, accepted⟩
    have true_eq := congrArg Prod.fst (Option.some.inj accepted)
    exact (accepted_cases short true_eq).resolve_left clear

theorem accepted_numeral_iff_b01 :
    ((∃ num, parseNumber (text "b01") 0 3 = some (true, num)) →
      ∃ numeral : Numeral, numeral.chars = text "b01") ↔ ¬ Misread (text "b01") :=
  accepted_numeral_iff (text "b01") [] [] (by decide)

/-- The empty string is accepted. -/
theorem empty_string_accepted :
    ¬ ∀ chars pre post : List Byte, chars.length ≤ 255 →
      (∃ num, parseNumber (pre ++ chars ++ post) pre.length
        (BitVec.ofNat 8 chars.length) = some (true, num)) →
      ∃ numeral : Numeral, numeral.chars = chars := by
  intro always
  obtain ⟨numeral, none⟩ := always [] [] [] (by decide) ⟨0, rfl⟩
  exact numeral.nonempty (List.append_eq_nil_iff.mp none).2

end BusNinja
