import BusNinja.CommandArguments
import BusNinja.DecimalOutput
import BusNinja.Library.Lexing
import BusNinja.Source.TestCommand

/-!
# A line for every word

The test command puts out one line for each word of its arguments.  Its loop
asks for the end of the line before blanks are skipped, so that blanks at the
end are one more string, which is empty.
-/

namespace BusNinja

variable {δ : Type}

/-- The words of the arguments, without the blanks between them. -/
def argumentWords (args : List Byte) : List (List Byte) :=
  Lexing.words (fun c => !isSpace c) args

def wordLine (word : List Byte) : List Byte :=
  if (parsed word).1 = true then
    text "number: " ++ decimalChars (parsed word).2
  else text "string: " ++ word

def consolePutLine (str : List Byte) (console : Console) : Console :=
  consoleNewline (consolePutsP str console)

def putLines (lines : List (List Byte)) (board : Board δ) : Board δ :=
  lines.foldl (fun board str => board.putLine str) board

/-- The command succeeds, with one line for every word and no others. -/
def PrintsWords (args : List Byte) : Prop :=
  ∀ (num : BitVec 32) (board : Board Devices),
    globalCommandTest num args board =
      some (true, putLines ((argumentWords args).map wordLine) board)

def TrailingBlank (args : List Byte) : Prop :=
  ∃ c ∈ args.getLast?, isSpace c = true

instance (args : List Byte) : Decidable (TrailingBlank args) :=
  inferInstanceAs (Decidable (∃ c ∈ args.getLast?, isSpace c = true))

/-- The lines for what is left of the arguments. -/
def testLines (rest : List Byte) : List (List Byte) :=
  (argumentWords rest).map wordLine ++
    if TrailingBlank rest then [text "string: "] else []

def afterArgument (args : List Byte) : List Byte :=
  (args.dropWhile isSpace).dropWhile fun c => !isSpace c

theorem argument_nonblank (args : List Byte) :
    ∀ c ∈ argument args, (!isSpace c) = true := by
  intro c member
  unfold argument at member
  exact @List.mem_takeWhile_imp _ (fun c => !isSpace c) _ _ member

theorem blank_of_takeWhile (args : List Byte) :
    ∀ c ∈ args.takeWhile isSpace, (!isSpace c) = false := by
  intro c member
  have blank : isSpace c = true := List.mem_takeWhile_imp member
  rw [blank]
  rfl

theorem afterArgument_ends (args : List Byte) :
    Lexing.EndsWord (fun c => !isSpace c) (afterArgument args) := by
  intro c first
  unfold afterArgument at first
  have stops := List.head?_dropWhile_not (fun c => !isSpace c)
    (args.dropWhile isSpace)
  rw [first] at stops
  simpa using stops

theorem no_argument {args : List Byte} (none : argument args = []) :
    afterArgument args = [] ∧ args.takeWhile isSpace = args := by
  have dropped : args.dropWhile isSpace = [] := by
    rcases rest : args.dropWhile isSpace with _ | ⟨c, rest'⟩
    · rfl
    · have stops := List.head?_dropWhile_not isSpace args
      rw [rest] at stops
      rw [argument, rest, List.takeWhile_cons, if_pos (by simpa using stops)] at none
      cases none
  have split := @List.takeWhile_append_dropWhile _ isSpace args
  rw [dropped, List.append_nil] at split
  exact ⟨by rw [afterArgument, dropped]; rfl, split⟩

theorem argumentWords_step (args : List Byte) :
    argumentWords args =
      if argument args = [] then []
      else argument args :: argumentWords (afterArgument args) := by
  have split := argument_split args
  have ends := afterArgument_ends args
  have skipped : argumentWords args =
      argumentWords (argument args ++ afterArgument args) := by
    conv_lhs => rw [argumentWords, split, List.append_assoc]
    exact Lexing.words_skip (blank_of_takeWhile args) _
  split_ifs with none
  · rw [skipped, none, (no_argument none).1]
    rfl
  · rw [skipped]
    exact Lexing.words_word none (argument_nonblank args) ends

theorem trailingBlank_step {args : List Byte} (nonempty : args ≠ []) :
    TrailingBlank args ↔
      argument args = [] ∨ TrailingBlank (afterArgument args) := by
  have split : args = args.takeWhile isSpace ++ argument args ++
      afterArgument args := argument_split args
  by_cases none : argument args = []
  · obtain ⟨after, blanks⟩ := no_argument none
    have last := List.getLast?_eq_getLast_of_ne_nil nonempty
    have member : args.getLast nonempty ∈ args.takeWhile isSpace := by
      rw [blanks]
      exact List.getLast_mem nonempty
    have blank : isSpace (args.getLast nonempty) = true :=
      List.mem_takeWhile_imp member
    exact iff_of_true ⟨_, last, blank⟩ (.inl none)
  · simp only [none, false_or]
    by_cases finished : afterArgument args = []
    · rw [finished, List.append_nil] at split
      have last := List.getLast?_append_of_ne_nil
        (args.takeWhile isSpace) none
      rw [← split] at last
      constructor
      · rintro ⟨c, ends, blank⟩
        rw [last] at ends
        have word := argument_nonblank args c (List.mem_of_getLast? ends)
        rw [blank] at word
        cases word
      · rw [finished]
        rintro ⟨c, ends, -⟩
        cases ends
    · have last := List.getLast?_append_of_ne_nil
        (args.takeWhile isSpace ++ argument args) finished
      rw [← split] at last
      rw [TrailingBlank, TrailingBlank, last]

theorem testLines_step {args : List Byte} (nonempty : args ≠ []) :
    testLines args =
      if argument args = [] then [text "string: "]
      else wordLine (argument args) :: testLines (afterArgument args) := by
  have trailing := trailingBlank_step nonempty
  rw [testLines, argumentWords_step]
  by_cases none : argument args = []
  · rw [if_pos none, if_pos none, if_pos (trailing.mpr (.inl none))]
    rfl
  · rw [if_neg none, if_neg none, testLines]
    by_cases later : TrailingBlank (afterArgument args)
    · rw [if_pos later, if_pos (trailing.mpr (.inr later))]
      rfl
    · rw [if_neg later, if_neg (mt trailing.mp (not_or.mpr ⟨none, later⟩))]
      rfl

theorem consolePutsmem_bytes (word : List Byte) {args pre post : List Byte}
    (cut : args = pre ++ word ++ post) (console : Console) :
    consolePutsmem args word.length pre.length console =
      some (consolePutsP word console) := by
  induction word generalizing pre console with
  | nil => rfl
  | cons c word induction =>
      have read : args[pre.length]? = some c := by simp [cut]
      have shifted : args = (pre ++ [c]) ++ word ++ post := by simp [cut]
      have later := induction shifted (consolePutc c console)
      rw [List.length_append, List.length_singleton] at later
      rw [List.length_cons, consolePutsmem, read, Option.bind_eq_bind,
        Option.bind_some, later]
      rfl

/-- A round puts out the line of the next word, or an empty string, and
goes on behind it. -/
theorem testLoop_round {args pre rest : List Byte} (cut : args = pre ++ rest)
    (nonempty : rest ≠ []) (fuel : Nat) (num : BitVec 32) (console : Console) :
    ∃ num', testLoop args (fuel + 1) pre.length num console =
      testLoop args fuel
        (pre ++ rest.takeWhile isSpace ++ argument rest).length num'
        (consolePutLine
          (if argument rest = [] then text "string: "
          else wordLine (argument rest)) console) := by
  have inside : pre.length ≠ args.length := by
    have some := List.length_pos_iff.mpr nonempty
    rw [cut, List.length_append]
    omega
  have whole : args = (pre ++ rest.takeWhile isSpace) ++ argument rest ++
      afterArgument rest := by
    rw [List.append_assoc pre, List.append_assoc pre]
    exact cut.trans (congrArg (pre ++ ·) (argument_split rest))
  have put := consolePutsmem_bytes (argument rest) whole
    (consolePutsP (text "string: ") console)
  rw [List.length_append] at put
  rw [testLoop, if_neg inside, tokNum_rest cut, List.length_append,
    List.length_append]
  simp only [Option.bind_eq_bind, Option.bind_some]
  by_cases none : argument rest = []
  · refine ⟨num, ?_⟩
    simp only [none, if_true, Bool.false_eq_true, if_false, Nat.sub_self,
      consolePutsmem, Option.bind_some, List.length_nil, Nat.add_zero]
    rfl
  · refine ⟨(parsed (argument rest)).2, ?_⟩
    by_cases number : (parsed (argument rest)).1 = true
    · simp only [none, number, if_true, if_false, wordLine, consolePutLine,
        consolePutsP_append, consolePutdec_chars]
    · simp only [none, number, if_false, Bool.false_eq_true,
        Nat.add_sub_cancel_left, put, Option.bind_some, wordLine,
        consolePutLine, consolePutsP_append]

theorem afterArgument_shorter {rest : List Byte} (nonempty : rest ≠ []) :
    (afterArgument rest).length < rest.length := by
  have split : rest = rest.takeWhile isSpace ++ argument rest ++
      afterArgument rest := argument_split rest
  have lengths := congrArg List.length split
  rw [List.length_append, List.length_append] at lengths
  by_cases none : argument rest = []
  · rw [(no_argument none).1, List.length_nil]
    exact List.length_pos_iff.mpr nonempty
  · have word := List.length_pos_iff.mpr none
    omega

theorem testLoop_lines {args : List Byte} (fuel : Nat) :
    ∀ {pre rest : List Byte}, args = pre ++ rest → rest.length < fuel →
      ∀ (num : BitVec 32) (console : Console),
        testLoop args fuel pre.length num console =
          some ((testLines rest).foldl
            (fun console str => consolePutLine str console) console) := by
  induction fuel with
  | zero =>
      intro pre rest cut enough
      contradiction
  | succ fuel induction =>
      intro pre rest cut enough num console
      by_cases empty : rest = []
      · subst empty
        rw [testLoop, if_pos (by rw [cut, List.append_nil])]
        rfl
      · obtain ⟨num', round⟩ := testLoop_round cut empty fuel num console
        have split : rest = rest.takeWhile isSpace ++ argument rest ++
            afterArgument rest := argument_split rest
        have shifted : args = (pre ++ rest.takeWhile isSpace ++ argument rest) ++
            afterArgument rest := by
          rw [cut, List.append_assoc, List.append_assoc, ← List.append_assoc
            (rest.takeWhile isSpace), ← split]
        have shorter := afterArgument_shorter empty
        rw [round, induction shifted (by omega), testLines_step empty]
        by_cases none : argument rest = []
        · rw [if_pos none, if_pos none, (no_argument none).1]
          rfl
        · rw [if_neg none, if_neg none, List.foldl_cons]

theorem putLines_console (lines : List (List Byte)) (board : Board δ) :
    putLines lines board =
      { board with
        out :=
          { board.out with
            console :=
              lines.foldl (fun console str => consolePutLine str console)
                board.out.console } } := by
  induction lines generalizing board with
  | nil => rfl
  | cons str lines induction =>
      have later : putLines (str :: lines) board =
          putLines lines (board.putLine str) := rfl
      rw [later, induction]
      rfl

/-- The command ends, with a line for every word, and one for an empty string
if there are blanks at the end. -/
theorem globalCommandTest_lines (num : BitVec 32) (args : List Byte)
    (board : Board δ) :
    globalCommandTest num args board =
      some (true, putLines (testLines args) board) := by
  have loop := testLoop_lines (args.length + 1) (List.nil_append args).symm
    (Nat.lt_succ_self _) num board.out.console
  rw [List.length_nil] at loop
  rw [globalCommandTest, loop, putLines_console]
  rfl

theorem putLine_output (str : List Byte) {board : Board δ}
    (audible : board.out.console.silent = false) :
    (board.putLine str).out.console.output =
      board.out.console.output ++ str ++ [0x0D, 0x0A] := by
  have put : ∀ c (console : Console), consolePutc c console =
      consolePutsP [c] console := fun _ _ => rfl
  have whole : (board.putLine str).out.console =
      consolePutsP (str ++ [0x0D, 0x0A]) board.out.console := by
    rw [consolePutsP_append]
    rfl
  rw [whole, consolePutsP_output _ audible, List.append_assoc]

theorem putLines_silent (lines : List (List Byte)) (board : Board δ) :
    (putLines lines board).out.console.silent = board.out.console.silent := by
  induction lines generalizing board with
  | nil => rfl
  | cons str lines induction =>
      have line : (board.putLine str).out.console =
          consolePutsP (str ++ [0x0D, 0x0A]) board.out.console := by
        rw [consolePutsP_append]
        rfl
      have later := induction (board.putLine str)
      rw [line, consolePutsP_silent] at later
      exact later

theorem trailingBlank_adds_line {args : List Byte} (blank : TrailingBlank args) :
    ¬ PrintsWords args := by
  intro prints
  let board : Board Devices := (Shell.powerOn Devices.powerOn).board
  have lines := globalCommandTest_lines 0 args board
  rw [prints 0 board, testLines, if_pos blank] at lines
  have same := congrArg Prod.snd (Option.some.inj lines)
  have audible :
      (putLines ((argumentWords args).map wordLine) board).out.console.silent =
        false := putLines_silent _ board
  have more : putLines ((argumentWords args).map wordLine) board =
      (putLines ((argumentWords args).map wordLine) board).putLine
        (text "string: ") :=
    same.trans List.foldl_append
  have longer := congrArg (fun board : Board Devices =>
    board.out.console.output.length) more
  simp only [putLine_output _ audible, List.length_append, List.length_cons,
    List.length_nil] at longer
  omega

/-- The test command puts out one line for every word and no others, unless
there are blanks at the end. -/
theorem test_prints_words_iff (args : List Byte) :
    PrintsWords args ↔ ¬ TrailingBlank args := by
  constructor
  · intro prints blank
    exact trailingBlank_adds_line blank prints
  · intro noBlank num board
    rw [globalCommandTest_lines, testLines, if_neg noBlank, List.append_nil]

/-- The arguments ` 1 `, of one word. -/
theorem test_prints_empty_string : ¬ ∀ args : List Byte, PrintsWords args := by
  intro always
  exact trailingBlank_adds_line ⟨0x20, rfl, rfl⟩ (always (text " 1 "))

end BusNinja
