import Mathlib.Data.List.Basic

/-!
# Splitting a line into words and single characters

Every character that is not part of a word stands for itself; a word is a
maximal run of word characters.  `Lexes` says what a correct split is, and
`lex` computes it.
-/

namespace Lexing

variable {α : Type*}

inductive Lexeme (α : Type*) where
  | single (c : α)
  | word (chars : List α)
  deriving DecidableEq, Repr

def Lexeme.chars : Lexeme α → List α
  | .single c => [c]
  | .word chars => chars

/-- The characters of a split, in order. -/
def joined (lexemes : List (Lexeme α)) : List α := lexemes.flatMap Lexeme.chars

/-- The line does not go on with a word character. -/
def EndsWord (isWord : α → Bool) (line : List α) : Prop :=
  ∀ c ∈ line.head?, isWord c = false

/-- A correct split: nothing is dropped or read twice, no word is empty, and
a word ends only where no word character follows. -/
inductive Lexes (isWord : α → Bool) : List α → List (Lexeme α) → Prop where
  | nil : Lexes isWord [] []
  | single {c : α} {rest : List α} {lexemes : List (Lexeme α)} :
      isWord c = false → Lexes isWord rest lexemes →
      Lexes isWord (c :: rest) (.single c :: lexemes)
  | word {c : α} {chars rest : List α} {lexemes : List (Lexeme α)} :
      (∀ char ∈ c :: chars, isWord char = true) → EndsWord isWord rest →
      Lexes isWord rest lexemes →
      Lexes isWord (c :: chars ++ rest) (.word (c :: chars) :: lexemes)

/-- Put a word character in front of a split. -/
def extend (c : α) : List (Lexeme α) → List (Lexeme α)
  | .word chars :: lexemes => .word (c :: chars) :: lexemes
  | lexemes => .word [c] :: lexemes

def lex (isWord : α → Bool) : List α → List (Lexeme α)
  | [] => []
  | c :: rest =>
      if isWord c then extend c (lex isWord rest)
      else .single c :: lex isWord rest

variable {isWord : α → Bool}

theorem Lexes.joined {line : List α} {lexemes : List (Lexeme α)}
    (lexes : Lexes isWord line lexemes) : Lexing.joined lexemes = line := by
  induction lexes with
  | nil => rfl
  | single notWord lexes induction => exact congrArg (_ :: ·) induction
  | word chars ends lexes induction => exact congrArg (_ ++ ·) induction

theorem Lexes.extend {c : α} {rest : List α} {lexemes : List (Lexeme α)}
    (isWordChar : isWord c = true) (lexes : Lexes isWord rest lexemes) :
    Lexes isWord (c :: rest) (Lexing.extend c lexemes) := by
  have alone : ∀ char ∈ [c], isWord char = true := by simpa using isWordChar
  cases lexes with
  | nil =>
      exact word alone (by simp [EndsWord]) nil
  | single notWord lexes =>
      exact word alone (by simpa [EndsWord] using notWord)
        (single notWord lexes)
  | word chars ends lexes =>
      refine .word ?_ ends lexes
      intro char member
      rcases List.mem_cons.mp member with rfl | later
      · exact isWordChar
      · exact chars char later

/-- A character that is not part of a word cuts a line in two. -/
theorem lex_append_single {c : α} (notWord : isWord c = false)
    (first second : List α) :
    lex isWord (first ++ c :: second) =
      lex isWord first ++ .single c :: lex isWord second := by
  have extended : ∀ (d : α) (lexemes : List (Lexeme α)),
      extend d (lexemes ++ .single c :: lex isWord second) =
        extend d lexemes ++ .single c :: lex isWord second := by
    intro d lexemes
    match lexemes with
    | [] => rfl
    | .single _ :: _ => rfl
    | .word _ :: _ => rfl
  induction first with
  | nil => simp [lex, notWord]
  | cons d first induction =>
      rw [List.cons_append, lex, lex, induction]
      split
      · exact extended d (lex isWord first)
      · rfl

theorem lexes_lex (line : List α) : Lexes isWord line (lex isWord line) := by
  induction line with
  | nil => exact .nil
  | cons c rest induction =>
      rw [lex]
      split
      · next isWordChar => exact induction.extend isWordChar
      · next notWord => exact .single (by simpa using notWord) induction

def Lexeme.word? : Lexeme α → Option (List α)
  | .single _ => none
  | .word chars => some chars

def words (isWord : α → Bool) (line : List α) : List (List α) :=
  (lex isWord line).filterMap Lexeme.word?

theorem extend_lex {c : α} {rest : List α} (ends : EndsWord isWord rest) :
    extend c (lex isWord rest) = .word [c] :: lex isWord rest := by
  cases rest with
  | nil => rfl
  | cons d rest =>
      have notWord : isWord d = false := ends d rfl
      simp [lex, notWord, extend]

theorem lex_word {c : α} {chars rest : List α}
    (all : ∀ char ∈ c :: chars, isWord char = true)
    (ends : EndsWord isWord rest) :
    lex isWord (c :: chars ++ rest) = .word (c :: chars) :: lex isWord rest := by
  induction chars generalizing c with
  | nil =>
      rw [List.singleton_append, lex, if_pos (all c List.mem_cons_self)]
      exact extend_lex ends
  | cons d chars induction =>
      have later := induction fun char member =>
        all char (List.mem_cons_of_mem c member)
      rw [List.cons_append, lex, if_pos (all c List.mem_cons_self), later]
      rfl

theorem words_skip {gap : List α} (noWord : ∀ c ∈ gap, isWord c = false)
    (rest : List α) : words isWord (gap ++ rest) = words isWord rest := by
  induction gap with
  | nil => rfl
  | cons c gap induction =>
      have later := induction fun c member =>
        noWord c (List.mem_cons_of_mem _ member)
      have single : isWord c ≠ true := by
        rw [noWord c List.mem_cons_self]
        exact Bool.false_ne_true
      rw [← later, words, List.cons_append, lex, if_neg single,
        List.filterMap_cons_none rfl]
      rfl

theorem words_word {word rest : List α} (nonempty : word ≠ [])
    (all : ∀ char ∈ word, isWord char = true) (ends : EndsWord isWord rest) :
    words isWord (word ++ rest) = word :: words isWord rest := by
  cases word with
  | nil => contradiction
  | cons c chars =>
      rw [words, lex_word all ends]
      rfl

end Lexing
