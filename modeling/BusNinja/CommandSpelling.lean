import BusNinja.CommandRepeats
import BusNinja.CommandScripts
import BusNinja.DecimalOutput
import BusNinja.Library.Run

/-!
# The language of the command line

What a user asks of a bus is a list of steps, and a line spells it in many
ways: numerals of any base, counts, blanks and a comment.  Whatever the table
of commands and the bus are, a line that spells a script runs that script,
and every script can be spelled.
-/

namespace BusNinja

open Lexing

variable {δ : Type}

/-- What a line asks of a bus. -/
inductive ScriptStep where
  | start
  | startDuplex
  | stop
  | send (data : Byte) (count : BitVec 32)
  | receive (count : BitVec 32)
  deriving DecidableEq, Repr

/-- Without a handler there is only the message. -/
def scriptStep : ScriptStep → Shell δ → Shell δ
  | .start, shell => shell.call BusInterface.start
  | .startDuplex, shell =>
      { shell with duplex := true }.call BusInterface.start
  | .stop, shell => { shell with duplex := false }.call BusInterface.stop
  | .send data count, shell =>
      match shell.numberHandler with
      | some act =>
          { shell with board := (act data)^[count.toNat] shell.board }
      | none => shell.putLine "BadCmd"
  | .receive count, shell =>
      match shell.currentBus.bind BusInterface.read with
      | some act => { shell with board := act^[count.toNat] shell.board }
      | none => shell.putLine "BadCmd"

/-- The digits do not begin with the marker of another base. -/
def Numeral.Clear (numeral : Numeral) : Prop :=
  ¬ (numeral.marker = .letterH ∧ numeral.digits.head? = some 0x62)

instance (numeral : Numeral) : Decidable numeral.Clear :=
  inferInstanceAs (Decidable (¬ _))

/-- Values are taken modulo 2^8, and counts modulo 2^32. -/
inductive SpellsWord : List Byte → ScriptStep → Prop where
  | send {value : Numeral} {count : Option Numeral} :
      value.Clear → (∀ numeral ∈ count, numeral.Clear) →
      (value.chars ++ suffix count).length ≤ 255 →
      SpellsWord (value.chars ++ suffix count)
        (.send (BitVec.ofNat 8 value.value) (BitVec.ofNat 32 (times count)))
  | receive {r : Byte} {count : Option Numeral} :
      r = 0x72 ∨ r = 0x52 → (∀ numeral ∈ count, numeral.Clear) →
      (r :: suffix count).length ≤ 255 →
      SpellsWord (r :: suffix count)
        (.receive (BitVec.ofNat 32 (times count)))

inductive SpellsBracket : Byte → ScriptStep → Prop where
  | start : SpellsBracket 0x5B .start
  | startDuplex : SpellsBracket 0x7B .startDuplex
  | stop : SpellsBracket 0x5D .stop
  | stopDuplex : SpellsBracket 0x7D .stop

inductive Spells : List Byte → List ScriptStep → Prop where
  | nil : Spells [] []
  | comment (rest : List Byte) : Spells (0x23 :: rest) []
  | blank {c : Byte} {line : List Byte} {script : List ScriptStep} :
      isBlank c = true → Spells line script → Spells (c :: line) script
  | bracket {c : Byte} {step : ScriptStep} {line : List Byte}
      {script : List ScriptStep} :
      SpellsBracket c step → Spells line script →
      Spells (c :: line) (step :: script)
  | word {chars : List Byte} {step : ScriptStep} {line : List Byte}
      {script : List ScriptStep} :
      SpellsWord chars step → EndsWord tokenByte line → Spells line script →
      Spells (chars ++ line) (step :: script)

theorem Numeral.Clear.of_marker {numeral : Numeral}
    (other : numeral.marker ≠ .letterH) : numeral.Clear :=
  fun letter => other letter.1

theorem Numeral.parsed_clear {numeral : Numeral} (clear : numeral.Clear)
    (short : numeral.chars.length ≤ 255) :
    parsed numeral.chars = (true, BitVec.ofNat 32 numeral.value) := by
  cases plain : numeral.marker.isPlain with
  | true => exact numeral.parsed_plain plain short
  | false =>
      have letter : numeral.marker = .letterB ∨ numeral.marker = .letterH := by
        cases marker : numeral.marker with
        | letterB => exact .inl rfl
        | letterH => exact .inr rfl
        | _ =>
            rw [marker] at plain
            cases plain
      exact Numeral.parsed_letter_digits letter clear short

theorem Numeral.chars_ne_nil (numeral : Numeral) : numeral.chars ≠ [] := by
  intro none
  exact numeral.nonempty (List.append_eq_nil_iff.mp none).2

theorem Marker.chars_tokenByte (marker : Marker) :
    ∀ c ∈ marker.chars, tokenByte c = true := by
  cases marker <;> decide

theorem Radix.isDigit_tokenByte (radix : Radix) :
    ∀ c : Byte, radix.isDigit c = true → tokenByte c = true := by
  cases radix <;> decide +kernel

theorem Numeral.chars_tokenByte (numeral : Numeral) :
    ∀ c ∈ numeral.chars, tokenByte c = true := by
  refine List.forall_mem_append.mpr ⟨numeral.marker.chars_tokenByte, ?_⟩
  intro c digit
  exact Radix.isDigit_tokenByte _ c (numeral.valid c digit)

theorem suffix_tokenByte (count : Option Numeral) :
    ∀ c ∈ suffix count, tokenByte c = true := by
  cases count with
  | none => simp [suffix]
  | some numeral =>
      exact List.forall_mem_cons.mpr ⟨by decide, numeral.chars_tokenByte⟩

theorem splitRepeat_clear {name : List Byte} (noColon : 0x3A ∉ name)
    (nonempty : name ≠ []) {count : Option Numeral}
    (clear : ∀ numeral ∈ count, numeral.Clear)
    (short : (name ++ suffix count).length ≤ 255) :
    splitRepeat [] (name ++ suffix count) 1 =
      (name, BitVec.ofNat 32 (times count)) := by
  cases count with
  | none =>
      rw [suffix, List.append_nil, splitRepeat_whole noColon]
      rfl
  | some numeral =>
      rw [suffix, List.length_append, List.length_cons] at short
      have number := Numeral.parsed_clear (clear numeral rfl) (by omega)
      have whole : [] ++ name ≠ [] := nonempty
      rw [suffix, splitRepeat_colon noColon whole (by rw [number]), number]
      rfl

theorem SpellsWord.tokenByte {chars : List Byte} {step : ScriptStep}
    (spells : SpellsWord chars step) :
    chars ≠ [] ∧ ∀ c ∈ chars, tokenByte c = true := by
  cases spells with
  | @send value count =>
      refine ⟨fun none => value.chars_ne_nil (List.append_eq_nil_iff.mp none).1, ?_⟩
      exact List.forall_mem_append.mpr
        ⟨value.chars_tokenByte, suffix_tokenByte count⟩
  | @receive r count isRead =>
      have first : BusNinja.tokenByte r = true := by
        rcases isRead with rfl | rfl <;> rfl
      exact ⟨List.cons_ne_nil _ _,
        List.forall_mem_cons.mpr ⟨first, suffix_tokenByte count⟩⟩

def wordStep (chars : List Byte) : Option ScriptStep :=
  let (name, count) := splitRepeat [] chars 1
  let (isNumber, num) := parsed name
  if isNumber then some (.send (num.setWidth 8) count)
  else if name = [0x72] ∨ name = [0x52] then some (.receive count)
  else none

theorem SpellsWord.wordStep {chars : List Byte} {step : ScriptStep}
    (spells : SpellsWord chars step) : BusNinja.wordStep chars = some step := by
  cases spells with
  | @send value count clear countClear short =>
      have few : value.chars.length ≤ 255 := by
        rw [List.length_append] at short
        omega
      have number := value.parsed_clear clear few
      have noColon := noColon_of_accepted few (by rw [number])
      have split := splitRepeat_clear noColon value.chars_ne_nil countClear short
      have byte : (BitVec.ofNat 32 value.value).setWidth 8 =
          BitVec.ofNat 8 value.value := by
        apply BitVec.eq_of_toNat_eq
        rw [BitVec.toNat_setWidth, BitVec.toNat_ofNat, BitVec.toNat_ofNat]
        omega
      simp only [BusNinja.wordStep, split, number, byte, if_true]
  | @receive r count isRead clear short =>
      have read : [r] = [0x72] ∨ [r] = [0x52] := by simpa using isRead
      have noColon : 0x3A ∉ [r] := by rcases isRead with rfl | rfl <;> decide
      have noNumber : (parsed [r]).1 = false := by
        rcases isRead with rfl | rfl <;> decide
      have split := splitRepeat_clear noColon (List.cons_ne_nil _ _) clear short
      rw [List.singleton_append] at split
      simp only [BusNinja.wordStep, split, noNumber, read, if_true,
        Bool.false_eq_true, if_false]

theorem handleToken_wordStep {chars : List Byte} {step : ScriptStep}
    (read : wordStep chars = some step) (table : List (GlobalCommand δ))
    (after : List Byte) (firstToken : Bool) (shell : Shell δ) :
    handleToken table chars after firstToken shell =
      (false, scriptStep step shell) := by
  unfold wordStep at read
  unfold handleToken
  dsimp only at read ⊢
  split at read
  · next isNumber =>
      obtain rfl := Option.some.inj read
      rw [if_pos isNumber, scriptStep]
      cases shell.numberHandler <;> rfl
  · next noNumber =>
      split at read
      · next isRead =>
          obtain rfl := Option.some.inj read
          rw [if_neg noNumber, if_pos isRead, scriptStep]
          cases shell.currentBus.bind BusInterface.read <;> rfl
      · cases read

theorem SpellsBracket.performed {c : Byte} {step : ScriptStep}
    (spells : SpellsBracket c step) (shell : Shell δ) :
    (isOpening c = true ∧ openBracket c shell = scriptStep step shell) ∨
      (isOpening c = false ∧ isClosing c = true ∧
        closeBracket shell = scriptStep step shell) := by
  cases spells with
  | start | startDuplex => exact .inl ⟨rfl, rfl⟩
  | stop | stopDuplex => exact .inr ⟨rfl, rfl, rfl⟩

theorem SpellsBracket.notWord {c : Byte} {step : ScriptStep}
    (spells : SpellsBracket c step) : c ≠ 0x23 ∧ tokenByte c = false := by
  cases spells <;> exact ⟨by decide, rfl⟩

theorem isBlank_notWord {c : Byte} (blank : isBlank c = true) :
    c ≠ 0x23 ∧ tokenByte c = false := by
  constructor
  · rintro rfl
    cases blank
  · rw [tokenByte, endsToken, blank]
    rfl

theorem endsWord_cons {c : Byte} (notWord : tokenByte c = false)
    (line : List Byte) : EndsWord tokenByte (c :: line) := by
  rintro _ ⟨⟩
  exact notWord

theorem beforeComment_cons {c : Byte} (noHash : c ≠ 0x23) (line : List Byte) :
    beforeComment (c :: line) = c :: beforeComment line ∧
      comment (c :: line) = comment line := by
  have alone : ∀ d ∈ [c], d ≠ 0x23 := by simpa using noHash
  exact beforeComment_append alone line

theorem beforeComment_endsWord {line : List Byte}
    (ends : EndsWord tokenByte line) :
    EndsWord tokenByte (beforeComment line) := by
  cases line with
  | nil => exact ends
  | cons c line =>
      intro first member
      by_cases hash : c = 0x23
      · subst hash
        cases member
      · rw [(beforeComment_cons hash line).1] at member
        exact ends first member

/-- The split of a line that spells a script. -/
inductive SpelledLexemes : List (Lexeme Byte) → List ScriptStep → Prop where
  | nil : SpelledLexemes [] []
  | blank {c : Byte} {lexemes : List (Lexeme Byte)} {script : List ScriptStep} :
      isBlank c = true → SpelledLexemes lexemes script →
      SpelledLexemes (.single c :: lexemes) script
  | bracket {c : Byte} {step : ScriptStep} {lexemes : List (Lexeme Byte)}
      {script : List ScriptStep} :
      SpellsBracket c step → SpelledLexemes lexemes script →
      SpelledLexemes (.single c :: lexemes) (step :: script)
  | word {chars : List Byte} {step : ScriptStep}
      {lexemes : List (Lexeme Byte)} {script : List ScriptStep} :
      wordStep chars = some step → SpelledLexemes lexemes script →
      SpelledLexemes (.word chars :: lexemes) (step :: script)

theorem lex_notWord {c : Byte} (notWord : c ≠ 0x23 ∧ tokenByte c = false)
    (line : List Byte) :
    lex tokenByte (beforeComment (c :: line)) =
      .single c :: lex tokenByte (beforeComment line) := by
  rw [(beforeComment_cons notWord.1 line).1, lex, if_neg (by simp [notWord.2])]

theorem Spells.lexemes {line : List Byte} {script : List ScriptStep}
    (spells : Spells line script) :
    SpelledLexemes (lex tokenByte (beforeComment line)) script := by
  induction spells with
  | nil | comment => exact .nil
  | blank blank spells induction =>
      rw [lex_notWord (isBlank_notWord blank)]
      exact .blank blank induction
  | bracket bracket spells induction =>
      rw [lex_notWord bracket.notWord]
      exact .bracket bracket induction
  | @word chars step line script word ends spells induction =>
      obtain ⟨nonempty, all⟩ := word.tokenByte
      have noHash : ∀ c ∈ chars, c ≠ 0x23 := fun c member =>
        (tokenByte_facts (all c member)).2.1
      have split : lex tokenByte (chars ++ beforeComment line) =
          .word chars :: lex tokenByte (beforeComment line) := by
        cases chars with
        | nil => contradiction
        | cons c chars => exact lex_word all (beforeComment_endsWord ends)
      rw [(beforeComment_append noHash line).1, split]
      exact .word word.wordStep induction

theorem SpelledLexemes.performed {lexemes : List (Lexeme Byte)}
    {script : List ScriptStep} (spelled : SpelledLexemes lexemes script)
    (table : List (GlobalCommand δ)) (comment : List Byte) (firstToken : Bool)
    (shell : Shell δ) :
    perform table comment lexemes firstToken shell =
      Run.run scriptStep script shell := by
  induction spelled generalizing firstToken shell with
  | nil => rfl
  | blank blank spelled induction =>
      obtain ⟨opening, closing⟩ := isBlank_facts blank
      rw [perform_single, if_neg (by simp [opening]), if_neg (by simp [closing])]
      exact induction firstToken shell
  | bracket bracket spelled induction =>
      rw [perform_single, Run.run_cons]
      rcases bracket.performed shell with
        ⟨opening, done⟩ | ⟨opening, closing, done⟩
      · rw [if_pos opening, done]
        exact induction false _
      · rw [if_neg (by simp [opening]), if_pos closing, done]
        exact induction false _
  | word word spelled induction =>
      rw [perform, handleToken_wordStep word, Run.run_cons]
      exact induction false _

theorem Spells.executed {line : List Byte} {script : List ScriptStep}
    (spells : Spells line script) (table : List (GlobalCommand δ))
    (shell : Shell δ) :
    executeCommandLine table line shell =
      some (Run.run scriptStep script shell) := by
  rw [executeCommandLine_lex, spells.lexemes.performed]

def lexemeStep : Lexeme Byte → Option ScriptStep
  | .single c =>
      if c = 0x5B then some .start
      else if c = 0x7B then some .startDuplex
      else if isClosing c then some .stop
      else none
  | .word chars => wordStep chars

theorem lexemeStep_blank {c : Byte} (blank : isBlank c = true) :
    lexemeStep (.single c) = none := by
  revert c
  decide +kernel

theorem SpelledLexemes.read {lexemes : List (Lexeme Byte)}
    {script : List ScriptStep} (spelled : SpelledLexemes lexemes script) :
    lexemes.filterMap lexemeStep = script := by
  induction spelled with
  | nil => rfl
  | blank blank spelled induction =>
      rw [List.filterMap_cons_none (lexemeStep_blank blank)]
      exact induction
  | @bracket c step lexemes script bracket spelled induction =>
      have read : lexemeStep (.single c) = some step := by
        cases bracket <;> rfl
      rw [List.filterMap_cons_some read, induction]
  | @word chars step lexemes script word spelled induction =>
      have read : lexemeStep (.word chars) = some step := word
      rw [List.filterMap_cons_some read, induction]

/-- A line spells one script at most, and runs that one, whatever the table
of commands and the state of the shell. -/
theorem spelled_line_means_script {line : List Byte}
    {script : List ScriptStep} (spells : Spells line script) :
    (∀ other, Spells line other → other = script) ∧
      ∀ (δ : Type) (table : List (GlobalCommand δ)) (shell : Shell δ),
        executeCommandLine table line shell =
          some (Run.run scriptStep script shell) := by
  constructor
  · intro other also
    rw [← spells.lexemes.read, ← also.lexemes.read]
  · intro δ table shell
    exact spells.executed table shell

/-- `[0x9e 1:2 r]#2`: the last `2` is in the comment. -/
theorem spelled_line_means_eeprom :
    (∀ other,
      Spells (0x5B :: (text "0x9e" ++ 0x20 :: (text "1:2" ++ 0x20 ::
        (text "r" ++ 0x5D :: 0x23 :: text "2")))) other →
      other = [.start, .send 0x9e 1, .send 1 2, .receive 1, .stop]) ∧
      ∀ (δ : Type) (table : List (GlobalCommand δ)) (shell : Shell δ),
        executeCommandLine table
            (0x5B :: (text "0x9e" ++ 0x20 :: (text "1:2" ++ 0x20 ::
              (text "r" ++ 0x5D :: 0x23 :: text "2")))) shell =
          some (Run.run scriptStep
            [.start, .send 0x9e 1, .send 1 2, .receive 1, .stop] shell) := by
  have nine : SpellsWord (text "0x9e") (.send 0x9e 1) :=
    @SpellsWord.send ⟨.zeroX, text "9e", by decide, by decide⟩ none (by decide)
      nofun (by decide)
  have one : SpellsWord (text "1:2") (.send 1 2) :=
    @SpellsWord.send ⟨.none, text "1", by decide, by decide⟩
      (some ⟨.none, text "2", by decide, by decide⟩) (by decide) (by decide)
      (by decide)
  have read : SpellsWord (text "r") (.receive 1) :=
    @SpellsWord.receive 0x72 none (.inl rfl) nofun (by decide)
  have last := Spells.bracket .stop (.comment (text "2"))
  have third := Spells.word read (endsWord_cons rfl _) last
  have second := Spells.word one (endsWord_cons rfl _)
    (@Spells.blank 0x20 _ _ rfl third)
  have first := Spells.word nine (endsWord_cons rfl _)
    (@Spells.blank 0x20 _ _ rfl second)
  exact spelled_line_means_script (.bracket .start first)

namespace Radix

def marker : Radix → Marker
  | .binary => .zeroB
  | .decimal => .none
  | .hexadecimal => .zeroX

theorem marker_radix (radix : Radix) : radix.marker.radix = radix := by
  cases radix <;> rfl

theorem digitChar_digit (radix : Radix) :
    ∀ digit < radix.base, radix.isDigit (digitChar digit) = true ∧
      digitValue (digitChar digit) = digit := by
  cases radix <;> decide

theorem significant_digits (radix : Radix) (n : BitVec 32) :
    ∀ digit ∈ Positional.significant radix.base 31 n.toNat,
      digit < radix.base := by
  have two : 2 ≤ radix.base := by cases radix <;> decide
  have fits : n.toNat < radix.base ^ 32 :=
    Nat.lt_of_lt_of_le n.isLt (Nat.pow_le_pow_left two 32)
  exact Positional.significant_digits two fits

/-- A number written without leading zeroes behind the marker of its base. -/
def numeral (radix : Radix) (n : BitVec 32) : Numeral where
  marker := radix.marker
  digits := (Positional.significant radix.base 31 n.toNat).map digitChar
  nonempty := by
    have length := @Positional.significant_length radix.base 31 n.toNat
    rw [← List.length_pos_iff, List.length_map]
    exact length.1
  valid := by
    intro c member
    obtain ⟨digit, among, rfl⟩ := List.mem_map.mp member
    rw [radix.marker_radix]
    exact (radix.digitChar_digit digit (radix.significant_digits n digit among)).1

theorem numeral_value (radix : Radix) (n : BitVec 32) :
    (radix.numeral n).value = n.toNat := by
  have digits : ((Positional.significant radix.base 31 n.toNat).map digitChar).map
      digitValue = Positional.significant radix.base 31 n.toNat := by
    have each := fun digit among =>
      (radix.digitChar_digit digit (radix.significant_digits n digit among)).2
    rw [List.map_map]
    exact (List.map_congr_left each).trans (List.map_id _)
  change Positional.value radix.marker.radix.base _ = _
  rw [radix.marker_radix, numeral, digits, Positional.value_significant]

theorem numeral_clear (radix : Radix) (n : BitVec 32) :
    (radix.numeral n).Clear := by
  apply Numeral.Clear.of_marker
  change radix.marker ≠ .letterH
  cases radix <;> decide

theorem numeral_length (radix : Radix) (n : BitVec 32) :
    (radix.numeral n).chars.length ≤ 34 := by
  have marker : radix.marker.chars.length ≤ 2 := by cases radix <;> decide
  have digits := (@Positional.significant_length radix.base 31 n.toNat).2
  simp only [Numeral.chars, numeral, List.length_append, List.length_map]
  omega

/-- A count of 1 is left out. -/
def count (radix : Radix) (count : BitVec 32) : Option Numeral :=
  if count = 1 then none else some (radix.numeral count)

theorem times_count (radix : Radix) (count : BitVec 32) :
    BitVec.ofNat 32 (times (radix.count count)) = count := by
  unfold Radix.count
  split
  · next one =>
      rw [one]
      rfl
  · rw [times, numeral_value, BitVec.ofNat_toNat, BitVec.setWidth_eq]

theorem count_clear (radix : Radix) (count : BitVec 32) :
    ∀ numeral ∈ radix.count count, numeral.Clear := by
  intro numeral member
  unfold Radix.count at member
  split at member
  · cases member
  · obtain rfl := Option.some.inj member
    exact radix.numeral_clear count

theorem suffix_length (radix : Radix) (count : BitVec 32) :
    (suffix (radix.count count)).length ≤ 35 := by
  have length := radix.numeral_length count
  unfold Radix.count
  split
  · exact Nat.zero_le _
  · rw [suffix, List.length_cons]
    omega

end Radix

def ScriptStep.render (radix : Radix) : ScriptStep → List Byte
  | .start => [0x5B]
  | .startDuplex => [0x7B]
  | .stop => [0x5D]
  | .send data count =>
      (radix.numeral (data.setWidth 32)).chars ++ suffix (radix.count count)
  | .receive count => 0x72 :: suffix (radix.count count)

/-- A script in numbers of one base, with a blank behind every step. -/
def render (radix : Radix) (script : List ScriptStep) : List Byte :=
  script.flatMap fun step => step.render radix ++ [0x20]

theorem render_word (radix : Radix) (step : ScriptStep) :
    (∃ c, step.render radix = [c] ∧ SpellsBracket c step) ∨
      SpellsWord (step.render radix) step := by
  cases step with
  | start => exact .inl ⟨_, rfl, .start⟩
  | startDuplex => exact .inl ⟨_, rfl, .startDuplex⟩
  | stop => exact .inl ⟨_, rfl, .stop⟩
  | send data count =>
      right
      have number := radix.numeral_length (data.setWidth 32)
      have counted := radix.suffix_length count
      have word := SpellsWord.send (radix.numeral_clear (data.setWidth 32))
        (radix.count_clear count) (by rw [List.length_append]; omega)
      have same : BitVec.ofNat 8 (data.setWidth 32).toNat = data := by
        rw [BitVec.ofNat_toNat, BitVec.setWidth_setWidth_of_le _ (by decide),
          BitVec.setWidth_eq]
      rw [radix.numeral_value, radix.times_count, same] at word
      exact word
  | receive count =>
      right
      have counted := radix.suffix_length count
      have word := SpellsWord.receive (.inl rfl) (radix.count_clear count)
        (by rw [List.length_cons]; omega)
      rw [radix.times_count] at word
      exact word

theorem spells_render (radix : Radix) (script : List ScriptStep) :
    Spells (render radix script) script := by
  induction script with
  | nil => exact .nil
  | cons step script induction =>
      have blank : Spells (0x20 :: render radix script) script :=
        .blank rfl induction
      have cut : render radix (step :: script) =
          step.render radix ++ 0x20 :: render radix script := by
        simp [render]
      rw [cut]
      rcases render_word radix step with ⟨c, alone, bracket⟩ | word
      · rw [alone]
        exact .bracket bracket blank
      · exact .word word (endsWord_cons rfl _) blank

/-- Written in any base, every script is read back and run as it stands. -/
theorem rendered_script_runs (table : List (GlobalCommand δ)) (radix : Radix)
    (script : List ScriptStep) (shell : Shell δ) :
    executeCommandLine table (render radix script) shell =
      some (Run.run scriptStep script shell) :=
  (spells_render radix script).executed table shell

example : render .hexadecimal [.startDuplex, .send 0x9F 1, .receive 3, .stop] =
    text "\x7b 0x9F r:0x3 ] " := by
  decide

end BusNinja
