import Mathlib.Data.List.TakeWhile
import BusNinja.Library.Lexing
import BusNinja.CommandTokens

/-!
# What a command line means

The line up to its first `#` is split into brackets, blanks and tokens, and
these are performed from left to right.  The scanner of
`execute_command_line` does just that: while it searches, what is left to
perform is the split of the bytes it has not read yet.
-/

namespace BusNinja

open Lexing

def tokenByte (c : Byte) : Bool := !endsToken c

def beforeComment (cmdline : List Byte) : List Byte := cmdline.takeWhile (· ≠ 0x23)

def comment (cmdline : List Byte) : List Byte := cmdline.dropWhile (· ≠ 0x23)

variable {δ : Type} (table : List (GlobalCommand δ))

/-- `[` and `{` start the bus, `{` after setting duplex, and `]` and `}` stop
it after clearing duplex; blanks do nothing.  A token is handled with its own
bytes; what follows it on the line is for the global commands, which end the
line. -/
def perform (comment : List Byte) :
    List (Lexeme Byte) → Bool → Shell δ → Shell δ
  | [], _, shell => shell
  | .single c :: lexemes, firstToken, shell =>
      if c = 0x5B then
        perform comment lexemes false (shell.call BusInterface.start)
      else if c = 0x7B then
        perform comment lexemes false
          ({ shell with duplex := true }.call BusInterface.start)
      else if c = 0x5D ∨ c = 0x7D then
        perform comment lexemes false
          ({ shell with duplex := false }.call BusInterface.stop)
      else perform comment lexemes firstToken shell
  | .word token :: lexemes, firstToken, shell =>
      let (ignoreRest, shell) :=
        handleToken table token (joined lexemes ++ comment) firstToken shell
      if ignoreRest then shell else perform comment lexemes false shell

theorem isOpening_iff (c : Byte) : isOpening c = true ↔ c = 0x5B ∨ c = 0x7B := by
  simp [isOpening, or_comm]

theorem isClosing_iff (c : Byte) : isClosing c = true ↔ c = 0x5D ∨ c = 0x7D := by
  simp [isClosing]

/-- The brackets do what they do in the scanner. -/
theorem perform_single (comment : List Byte) (c : Byte)
    (lexemes : List (Lexeme Byte)) (firstToken : Bool) (shell : Shell δ) :
    perform table comment (.single c :: lexemes) firstToken shell =
      if isOpening c then
        perform table comment lexemes false (openBracket c shell)
      else if isClosing c then
        perform table comment lexemes false (closeBracket shell)
      else perform table comment lexemes firstToken shell := by
  simp only [perform, isOpening_iff, isClosing_iff]
  by_cases square : c = 0x5B
  · subst square
    rfl
  · by_cases brace : c = 0x7B
    · subst brace
      rfl
    · rw [if_neg square, if_neg brace, if_neg (not_or.mpr ⟨square, brace⟩)]
      rfl

theorem tokenByte_facts {c : Byte} (token : tokenByte c = true) :
    endsToken c = false ∧ c ≠ 0x23 ∧ isBlank c = false ∧
      isOpening c = false ∧ isClosing c = false := by
  simp only [tokenByte, endsToken, Bool.not_eq_true', Bool.or_eq_false_iff,
    beq_eq_false_iff_ne] at token
  obtain ⟨⟨⟨blank, opening⟩, closing⟩, hash⟩ := token
  refine ⟨?_, hash, blank, opening, closing⟩
  rw [endsToken, blank, opening, closing, beq_eq_false_iff_ne.mpr hash]
  rfl

section

variable {cmdline pre : List Byte} {fuel tokenStart : Nat} {firstToken : Bool}
  {shell : Shell δ}

theorem executeLoop_end (state : LineState) (whole : cmdline = pre) :
    executeLoop table cmdline (fuel + 1) state pre.length tokenStart firstToken
        shell =
      match state with
      | .inToken => do
          let (_, shell) ← handleCommand table cmdline tokenStart cmdline.length
            firstToken shell
          some shell
      | .searching => some shell := by
  cases state <;> simp [executeLoop, whole]

theorem executeLoop_searching {c : Byte} {rest : List Byte}
    (next : cmdline = pre ++ c :: rest) :
    executeLoop table cmdline (fuel + 1) .searching pre.length tokenStart
        firstToken shell =
      if c = 0x23 then some shell
      else if isBlank c then
        executeLoop table cmdline fuel .searching (pre.length + 1) tokenStart
          firstToken shell
      else if isOpening c then
        executeLoop table cmdline fuel .searching (pre.length + 1) tokenStart
          false (openBracket c shell)
      else if isClosing c then
        executeLoop table cmdline fuel .searching (pre.length + 1) tokenStart
          false (closeBracket shell)
      else
        executeLoop table cmdline fuel .inToken (pre.length + 1) pre.length
          firstToken shell := by
  have inside : pre.length ≠ cmdline.length := by simp [next]
  have read : cmdline[pre.length]? = some c := by simp [next]
  rw [executeLoop, if_neg inside, read]
  rfl

theorem executeLoop_inToken {c : Byte} {rest : List Byte}
    (next : cmdline = pre ++ c :: rest) :
    executeLoop table cmdline (fuel + 1) .inToken pre.length tokenStart
        firstToken shell =
      if endsToken c then do
        let (done, shell) ← handleCommand table cmdline tokenStart pre.length
          firstToken shell
        if done then some shell
        else
          executeLoop table cmdline fuel .searching pre.length tokenStart false
            shell
      else
        executeLoop table cmdline fuel .inToken (pre.length + 1) tokenStart
          firstToken shell := by
  have inside : pre.length ≠ cmdline.length := by simp [next]
  have read : cmdline[pre.length]? = some c := by simp [next]
  rw [executeLoop, if_neg inside, read]
  rfl

theorem executeLoop_word (chars : List Byte) {rest : List Byte}
    (token : ∀ c ∈ chars, tokenByte c = true)
    (next : cmdline = pre ++ chars ++ rest) :
    executeLoop table cmdline (fuel + chars.length) .inToken pre.length
        tokenStart firstToken shell =
      executeLoop table cmdline fuel .inToken (pre ++ chars).length tokenStart
        firstToken shell := by
  induction chars generalizing pre with
  | nil => simp
  | cons c chars induction =>
      have split : cmdline = pre ++ c :: (chars ++ rest) := by simp [next]
      have shifted : cmdline = (pre ++ [c]) ++ chars ++ rest := by simp [next]
      have later := induction
        (fun char member => token char (List.mem_cons_of_mem c member)) shifted
      rw [List.length_cons, ← Nat.add_assoc, executeLoop_inToken table split,
        (tokenByte_facts (token c (by simp))).1]
      simpa using later

/-- The end of a token is found at the end of the line or at a character
that ends tokens, and the token is handled there. -/
theorem executeLoop_endToken {token rest : List Byte}
    (next : cmdline = pre ++ token ++ rest)
    (ends : ∀ c ∈ rest.head?, endsToken c = true) :
    executeLoop table cmdline (fuel + 2) .inToken (pre ++ token).length pre.length
        firstToken shell =
      let (ignoreRest, shell) := handleToken table token rest firstToken shell
      if ignoreRest then some shell
      else
        executeLoop table cmdline (fuel + 1) .searching (pre ++ token).length
          pre.length false shell := by
  have handled := handleCommand_bytes table token firstToken shell next
  rw [← List.length_append] at handled
  cases rest with
  | nil =>
      have whole : cmdline = pre ++ token := by simpa using next
      simp only [executeLoop_end table _ whole]
      rw [congrArg List.length whole, handled]
      simp
  | cons c rest =>
      rw [executeLoop_inToken table next, if_pos (ends c rfl), handled]
      rfl

/-- From its first byte on, a token is read to its end and handled. -/
theorem executeLoop_token {c : Byte} {chars rest : List Byte}
    (token : ∀ char ∈ c :: chars, tokenByte char = true)
    (next : cmdline = pre ++ c :: chars ++ rest)
    (ends : ∀ char ∈ rest.head?, endsToken char = true) :
    executeLoop table cmdline (fuel + 2 + chars.length + 1) .searching pre.length
        tokenStart firstToken shell =
      let (ignoreRest, shell) :=
        handleToken table (c :: chars) rest firstToken shell
      if ignoreRest then some shell
      else
        executeLoop table cmdline (fuel + 1) .searching (pre ++ c :: chars).length
          pre.length false shell := by
  obtain ⟨_, notHash, notBlank, notOpening, notClosing⟩ :=
    tokenByte_facts (token c (by simp))
  have start : cmdline = pre ++ c :: (chars ++ rest) := by simpa using next
  have inside : cmdline = (pre ++ [c]) ++ chars ++ rest := by simpa using next
  have scanned : executeLoop table cmdline (fuel + 2 + chars.length) .inToken
        (pre ++ [c]).length pre.length firstToken shell =
      executeLoop table cmdline (fuel + 2) .inToken (pre ++ [c] ++ chars).length
        pre.length firstToken shell :=
    executeLoop_word table chars
      (fun char member => token char (List.mem_cons_of_mem c member)) inside
  rw [← List.append_cons, executeLoop_endToken table next ends,
    List.length_append, List.length_singleton] at scanned
  rw [executeLoop_searching table start, if_neg notHash, notBlank, notOpening,
    notClosing]
  exact scanned

theorem executeLoop_comment {comment : List Byte}
    (hash : ∀ c ∈ comment.head?, c = 0x23) (next : cmdline = pre ++ comment) :
    executeLoop table cmdline (fuel + 1) .searching pre.length tokenStart
        firstToken shell = some shell := by
  cases comment with
  | nil =>
      have whole : cmdline = pre := by simpa using next
      rw [executeLoop_end table _ whole]
  | cons c rest => rw [executeLoop_searching table next, if_pos (hash c rfl)]

theorem isBlank_facts {c : Byte} (blank : isBlank c = true) :
    isOpening c = false ∧ isClosing c = false := by
  revert c
  decide +kernel

theorem executeLoop_single {c : Byte} {rest : List Byte} (ends : endsToken c = true)
    (notHash : c ≠ 0x23) (next : cmdline = pre ++ c :: rest) :
    executeLoop table cmdline (fuel + 1) .searching pre.length tokenStart
        firstToken shell =
      if isOpening c then
        executeLoop table cmdline fuel .searching (pre ++ [c]).length tokenStart
          false (openBracket c shell)
      else if isClosing c then
        executeLoop table cmdline fuel .searching (pre ++ [c]).length tokenStart
          false (closeBracket shell)
      else
        executeLoop table cmdline fuel .searching (pre ++ [c]).length tokenStart
          firstToken shell := by
  rw [executeLoop_searching table next, if_neg notHash, List.length_append,
    List.length_singleton]
  cases blank : isBlank c with
  | true =>
      obtain ⟨notOpening, notClosing⟩ := isBlank_facts blank
      rw [notOpening, notClosing]
      rfl
  | false =>
      cases opening : isOpening c with
      | true => rfl
      | false =>
          have closing : isClosing c = true := by
            rw [endsToken, blank, opening, beq_eq_false_iff_ne.mpr notHash] at ends
            simpa using ends
          rw [closing]
          rfl

end

/-- From wherever the scanner searches, it performs the split of the bytes
before the comment that it has not read yet. -/
theorem executeLoop_lexes {cmdline comment text : List Byte}
    {lexemes : List (Lexeme Byte)} (lexes : Lexes tokenByte text lexemes)
    (noHash : ∀ c ∈ text, c ≠ 0x23)
    (hash : ∀ c ∈ comment.head?, c = 0x23) {pre : List Byte}
    (next : cmdline = pre ++ text ++ comment) {fuel : Nat}
    (enough : 2 * text.length + 1 ≤ fuel) (tokenStart : Nat)
    (firstToken : Bool) (shell : Shell δ) :
    executeLoop table cmdline fuel .searching pre.length tokenStart firstToken
        shell =
      some (perform table comment lexemes firstToken shell) := by
  induction lexes generalizing pre fuel tokenStart firstToken shell with
  | nil =>
      obtain ⟨fuel, rfl⟩ := Nat.exists_eq_add_of_lt enough
      have searched : cmdline = pre ++ comment := by simpa using next
      exact executeLoop_comment table hash searched
  | @single c rest lexemes notToken lexes induction =>
      simp only [List.length_cons] at enough
      obtain ⟨fuel, rfl⟩ : ∃ more, fuel = more + 1 := ⟨fuel - 1, by omega⟩
      have start : cmdline = pre ++ c :: (rest ++ comment) := by simpa using next
      have shifted : cmdline = (pre ++ [c]) ++ rest ++ comment := by
        simpa using next
      have fewer : 2 * rest.length + 1 ≤ fuel := by omega
      have later := induction
        (fun char member => noHash char (List.mem_cons_of_mem c member)) shifted
        fewer tokenStart
      have ends : endsToken c = true := by simpa [tokenByte] using notToken
      rw [executeLoop_single table ends (noHash c (by simp)) start,
        perform_single]
      split_ifs
      · exact later false _
      · exact later false _
      · exact later firstToken shell
  | @word c chars rest lexemes token ends lexes induction =>
      simp only [List.length_append, List.length_cons] at enough
      obtain ⟨fuel, rfl⟩ : ∃ more, fuel = more + 2 + chars.length + 1 :=
        ⟨fuel - (chars.length + 3), by omega⟩
      have whole : cmdline = pre ++ c :: chars ++ (rest ++ comment) := by
        simpa using next
      have following : ∀ char ∈ (rest ++ comment).head?,
          endsToken char = true := by
        intro char member
        cases rest with
        | nil =>
            rw [hash char member]
            rfl
        | cons first rest => simpa [tokenByte] using ends char member
      have fewer : 2 * rest.length + 1 ≤ fuel + 1 := by omega
      have shifted : cmdline = (pre ++ c :: chars) ++ rest ++ comment := by
        simpa using next
      have later := induction
        (fun char member => noHash char (List.mem_append_right _ member))
        shifted fewer
      rw [executeLoop_token table token whole following, perform, lexes.joined]
      rcases handleToken table (c :: chars) (rest ++ comment) firstToken shell
        with ⟨ignoreRest, handled⟩
      cases ignoreRest with
      | false => exact later pre.length false handled
      | true => rfl

theorem executeCommandLine_lex (cmdline : List Byte) (shell : Shell δ) :
    executeCommandLine table cmdline shell =
      some (perform table (comment cmdline)
        (lex tokenByte (beforeComment cmdline)) true shell) := by
  have lexes : Lexes tokenByte (beforeComment cmdline)
      (lex tokenByte (beforeComment cmdline)) := lexes_lex _
  have whole : cmdline = [] ++ beforeComment cmdline ++ comment cmdline :=
    List.takeWhile_append_dropWhile.symm
  have noHash : ∀ c ∈ beforeComment cmdline, c ≠ 0x23 := fun c member => by
    simpa using List.mem_takeWhile_imp member
  have hash : ∀ c ∈ (comment cmdline).head?, c = 0x23 := fun c member => by
    have first := List.head?_dropWhile_not (· ≠ 0x23) cmdline
    rw [← comment, Option.mem_def.mp member] at first
    simpa using first
  have enough : 2 * (beforeComment cmdline).length + 1 ≤ 2 * cmdline.length + 1 := by
    have lengths := congrArg List.length whole
    simp only [List.length_append, List.length_nil] at lengths
    omega
  exact executeLoop_lexes table lexes noHash hash whole enough 0 true shell

/-- Every line is executed to its end, and does exactly what its split says;
no token of the split is empty, dropped, cut short or joined to another. -/
theorem executeCommandLine_performs (cmdline : List Byte) (shell : Shell δ) :
    Lexes tokenByte (beforeComment cmdline) (lex tokenByte (beforeComment cmdline)) ∧
    executeCommandLine table cmdline shell =
      some (perform table (comment cmdline)
        (lex tokenByte (beforeComment cmdline)) true shell) :=
  ⟨lexes_lex _, executeCommandLine_lex table cmdline shell⟩

end BusNinja
