import BusNinja.CommandLine

/-!
# Scripts cut into lines

All that passes from one line to the next is in the shell.  A line is ended
early only by a global command in first place, so without one a line can be
cut in two wherever there is a blank.
-/

namespace BusNinja

open Lexing

variable {δ : Type} (table : List (GlobalCommand δ))

/-- The table has a command by the name of the token without its suffix, as
`handle_global_command` compares names. -/
def namesGlobal (token : List Byte) : Bool :=
  table.any fun cmd =>
    memcmpBytes cmd.name 0 (splitRepeat [] token 1).1 &&
      decide (cmd.name.chars.length ≤ (splitRepeat [] token 1).1.length)

def firstWord : List (Lexeme Byte) → Option (List Byte)
  | [] => none
  | .single _ :: lexemes => firstWord lexemes
  | .word token :: _ => some token

/-- The first token of the line is no global command. -/
def Plain (lexemes : List (Lexeme Byte)) : Prop :=
  ∀ token ∈ firstWord lexemes, namesGlobal table token = false

instance (lexemes : List (Lexeme Byte)) : Decidable (Plain table lexemes) :=
  inferInstanceAs (Decidable (∀ token ∈ firstWord lexemes, _))

variable {table}

theorem globalCommand_plain {cmdname : List Byte} (args : List Byte)
    (shell : Shell δ)
    (plain : (table.any fun cmd =>
      memcmpBytes cmd.name 0 cmdname &&
        decide (cmd.name.chars.length ≤ cmdname.length)) = false) :
    globalCommand cmdname args table shell = (false, shell) := by
  induction table with
  | nil => rfl
  | cons cmd table induction =>
      rw [List.any_cons, Bool.or_eq_false_iff] at plain
      have other : ¬ (memcmpBytes cmd.name 0 cmdname = true ∧
          cmd.name.chars.length ≤ cmdname.length) := by
        simpa using plain.1
      rw [globalCommand, if_neg other]
      exact induction plain.2

theorem handleBusCommand_goesOn (chars : List Byte) (count : BitVec 32)
    (shell : Shell δ) : (handleBusCommand chars count shell).1 = false := by
  unfold handleBusCommand
  cases shell.currentBus.bind BusInterface.command with
  | none => rfl
  | some command =>
      dsimp only
      split <;> rfl

theorem handleToken_later (token after other : List Byte) (shell : Shell δ) :
    handleToken table token after false shell =
      (false, (handleToken table token other false shell).2) := by
  unfold handleToken
  dsimp only
  split
  · cases shell.numberHandler <;> rfl
  · split
    · cases shell.currentBus.bind BusInterface.read <;> rfl
    · simp only [Bool.false_eq_true, if_false]
      rw [← handleBusCommand_goesOn]

theorem handleToken_plain {token : List Byte}
    (plain : namesGlobal table token = false) (after : List Byte)
    (shell : Shell δ) :
    handleToken table token after true shell =
      handleToken table token after false shell := by
  unfold handleToken
  simp only [globalCommand_plain _ shell plain, if_true, Bool.false_eq_true,
    if_false]

/-- After the first token, what is performed does not depend on the comment,
and can be cut anywhere. -/
theorem perform_append (first second : List (Lexeme Byte))
    (comment other : List Byte) (shell : Shell δ) :
    perform table comment (first ++ second) false shell =
      perform table comment second false
        (perform table other first false shell) := by
  induction first generalizing shell with
  | nil => rfl
  | cons lexeme lexemes induction =>
      cases lexeme with
      | single c =>
          simp only [List.cons_append, perform_single]
          split
          · apply induction
          · split <;> apply induction
      | word token =>
          simp only [List.cons_append, perform]
          rw [handleToken_later token _ (joined lexemes ++ other)]
          rw [handleToken_later token (joined lexemes ++ other)
            (joined lexemes ++ other)]
          apply induction

theorem perform_plain {lexemes : List (Lexeme Byte)}
    (plain : Plain table lexemes) (comment : List Byte) (shell : Shell δ) :
    perform table comment lexemes true shell =
      perform table comment lexemes false shell := by
  induction lexemes with
  | nil => rfl
  | cons lexeme lexemes induction =>
      cases lexeme with
      | single c =>
          simp only [perform_single]
          rw [induction plain]
      | word token =>
          simp only [perform]
          rw [handleToken_plain (plain token rfl)]

theorem firstWord_append (first second : List (Lexeme Byte)) :
    firstWord (first ++ second) = (firstWord first).or (firstWord second) := by
  induction first with
  | nil => rfl
  | cons lexeme lexemes induction =>
      cases lexeme with
      | single c => exact induction
      | word token => rfl

theorem Plain.append {first second : List (Lexeme Byte)}
    (one : Plain table first) (other : Plain table second) :
    Plain table (first ++ second) := by
  intro token member
  rw [firstWord_append] at member
  cases found : firstWord first with
  | none =>
      rw [found] at member
      exact other token member
  | some word =>
      rw [found] at member
      exact one token (found ▸ member)

theorem beforeComment_append {first : List Byte}
    (noHash : ∀ c ∈ first, c ≠ 0x23) (second : List Byte) :
    beforeComment (first ++ second) = first ++ beforeComment second ∧
      comment (first ++ second) = comment second := by
  have plain : ∀ c ∈ first, decide (c ≠ 0x23) = true := by simpa using noHash
  exact ⟨List.takeWhile_append_of_pos plain, List.dropWhile_append_of_pos plain⟩

/-- The first tokens of the line and what is performed of it. -/
theorem executeCommandLine_plain {cmdline : List Byte}
    (plain : Plain table (lex tokenByte (beforeComment cmdline)))
    (shell : Shell δ) :
    executeCommandLine table cmdline shell =
      some (perform table (comment cmdline)
        (lex tokenByte (beforeComment cmdline)) false shell) := by
  rw [executeCommandLine_lex, perform_plain plain]

/-- A line can be cut in two at a blank, unless either part begins with a
global command. -/
theorem executeCommandLine_cut (first second : List Byte) (shell : Shell δ)
    (noHash : ∀ c ∈ first, c ≠ 0x23)
    (plainFirst : Plain table (lex tokenByte (beforeComment first)))
    (plainSecond : Plain table (lex tokenByte (beforeComment second))) :
    executeCommandLine table (first ++ 0x20 :: second) shell =
      (executeCommandLine table first shell).bind
        (executeCommandLine table second) := by
  have whole : beforeComment first = first := by
    have cut := (beforeComment_append noHash []).1
    rw [List.append_nil] at cut
    exact cut.trans (List.append_nil first)
  have blank : beforeComment (first ++ 0x20 :: second) =
        first ++ 0x20 :: beforeComment second ∧
      comment (first ++ 0x20 :: second) = comment second := by
    have cut := beforeComment_append noHash (0x20 :: second)
    rw [cut.1, cut.2]
    exact ⟨rfl, rfl⟩
  have split : lex tokenByte (beforeComment (first ++ 0x20 :: second)) =
      lex tokenByte (beforeComment first) ++
        .single 0x20 :: lex tokenByte (beforeComment second) := by
    rw [blank.1, whole]
    exact lex_append_single (by decide) first _
  have plain : Plain table
      (lex tokenByte (beforeComment (first ++ 0x20 :: second))) := by
    rw [split]
    exact plainFirst.append plainSecond
  rw [executeCommandLine_plain plain, executeCommandLine_plain plainFirst,
    split, perform_append _ _ _ (comment first), blank.2, Option.bind_some,
    executeCommandLine_plain plainSecond]
  rfl

/-- `[1` and `2]`, with no bus selected. -/
theorem executeCommandLine_cut_brackets :
    executeCommandLine
        [⟨⟨text "help", fun _ => 0⟩, fun _ shell => (true, shell)⟩]
        (text "[1" ++ 0x20 :: text "2]") (Shell.powerOn ()) =
      (executeCommandLine
        [⟨⟨text "help", fun _ => 0⟩, fun _ shell => (true, shell)⟩]
        (text "[1") (Shell.powerOn ())).bind
        (executeCommandLine
          [⟨⟨text "help", fun _ => 0⟩, fun _ shell => (true, shell)⟩]
          (text "2]")) :=
  executeCommandLine_cut _ _ _ (by decide) (by decide) (by decide)

end BusNinja
