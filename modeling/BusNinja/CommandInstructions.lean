import BusNinja.Library.Run
import BusNinja.CommandScripts
import BusNinja.Source.GlobalCommands

/-!
# Lines as instructions

Which handlers a line calls for does not depend on the state it is executed
in: a line is a list of instructions, and so is a session of several lines.
Executing the lines executes the instructions one after another.
-/

namespace BusNinja

open Lexing

variable {δ : Type}

/-- What one bracket or token of a line asks for. -/
inductive Instruction (δ : Type) where
  | bracket (c : Byte)
  | number (num : Byte) (count : BitVec 32)
  | read (count : BitVec 32)
  | busCommand (chars : List Byte) (count : BitVec 32)
  | globalCommand (command : NamedCommand δ) (args : List Byte)

def instructionStep : Instruction δ → Shell δ → Shell δ
  | .bracket c, shell =>
      if isOpening c then openBracket c shell else closeBracket shell
  | .number num count, shell =>
      match shell.numberHandler with
      | some act => repeatCall (act num) count shell
      | none => (badCmd shell).2
  | .read count, shell =>
      match shell.currentBus.bind BusInterface.read with
      | some act => repeatCall act count shell
      | none => (badCmd shell).2
  | .busCommand chars count, shell => (handleBusCommand chars count shell).2
  | .globalCommand command args, shell =>
      let (ok, shell) := command.kind.handler args shell
      if !ok then shell.putLine "Error" else shell

/-- The rest of the line is ignored. -/
def Instruction.endsLine : Instruction δ → Bool
  | .globalCommand _ _ => true
  | _ => false

/-- The command by this name, as `handle_global_command` compares names. -/
def NamedCommand.isNamed (cmdname : List Byte) (command : NamedCommand δ) :
    Bool :=
  memcmpBytes command.name 0 cmdname &&
    decide (command.name.chars.length ≤ cmdname.length)

section

variable (commands : List (NamedCommand δ))

/-- The instruction of a token; `after` is what follows it on the line. -/
def tokenInstruction (token after : List Byte) (firstToken : Bool) :
    Instruction δ :=
  let (name, count) := splitRepeat [] token 1
  let (isNumber, num) := parsed name
  if isNumber then .number (num.setWidth 8) count
  else if name = [0x72] ∨ name = [0x52] then .read count
  else
    match commands.find? (NamedCommand.isNamed name), firstToken with
    | some command, true =>
        .globalCommand command (token.drop name.length ++ after)
    | _, _ => .busCommand name count

def lexemeInstructions (comment : List Byte) :
    List (Lexeme Byte) → Bool → List (Instruction δ)
  | [], _ => []
  | .single c :: lexemes, firstToken =>
      if isOpening c || isClosing c then
        .bracket c :: lexemeInstructions comment lexemes false
      else lexemeInstructions comment lexemes firstToken
  | .word token :: lexemes, firstToken =>
      let instruction :=
        tokenInstruction commands token (joined lexemes ++ comment) firstToken
      if instruction.endsLine then [instruction]
      else instruction :: lexemeInstructions comment lexemes false

def instructions (cmdline : List Byte) : List (Instruction δ) :=
  lexemeInstructions commands (comment cmdline)
    (lex tokenByte (beforeComment cmdline)) true

def session (lines : List (List Byte)) : List (Instruction δ) :=
  lines.flatMap (instructions commands)

def executeLines (table : List (GlobalCommand δ)) :
    List (List Byte) → Shell δ → Option (Shell δ)
  | [], shell => some shell
  | cmdline :: lines, shell => do
      let shell ← executeCommandLine table cmdline shell
      executeLines table lines shell

def Shell.onBoard (board : Board δ) : Shell δ where
  board := board
  currentBus := none
  duplex := false

theorem started_onBoard (firmware : Firmware) :
    Shell.started firmware =
      Shell.onBoard (mainStart firmware (Shell.powerOn Devices.powerOn).board) :=
  rfl

variable {commands}

theorem globalCommand_find (cmdname args : List Byte) (shell : Shell δ) :
    globalCommand cmdname args (commands.map NamedCommand.entry) shell =
      match commands.find? (NamedCommand.isNamed cmdname) with
      | some command =>
          (true, instructionStep (.globalCommand command args) shell)
      | none => (false, shell) := by
  induction commands with
  | nil => rfl
  | cons command commands induction =>
      rw [List.map_cons, globalCommand, List.find?_cons]
      cases named : command.isNamed cmdname with
      | true =>
          rw [if_pos (by simpa [NamedCommand.isNamed, NamedCommand.entry] using named)]
          rfl
      | false =>
          rw [if_neg (by simpa [NamedCommand.isNamed, NamedCommand.entry] using named)]
          exact induction

theorem handleToken_instruction (token after : List Byte) (firstToken : Bool)
    (shell : Shell δ) :
    handleToken (commands.map NamedCommand.entry) token after firstToken shell =
      ((tokenInstruction commands token after firstToken).endsLine,
        instructionStep (tokenInstruction commands token after firstToken)
          shell) := by
  unfold handleToken tokenInstruction
  dsimp only
  split
  · dsimp only [instructionStep]
    cases shell.numberHandler <;> rfl
  · split
    · dsimp only [instructionStep]
      cases shell.currentBus.bind BusInterface.read <;> rfl
    · rw [globalCommand_find]
      have goesOn : ∀ name count, handleBusCommand name count shell =
          (false, (handleBusCommand name count shell).2) := fun name count =>
        Prod.ext (handleBusCommand_goesOn name count shell) rfl
      cases firstToken with
      | false =>
          cases commands.find? (NamedCommand.isNamed (splitRepeat [] token 1).1)
            <;> exact goesOn _ _
      | true =>
          cases commands.find? (NamedCommand.isNamed (splitRepeat [] token 1).1)
            with
          | none => exact goesOn _ _
          | some command => rfl

theorem perform_instructions (comment : List Byte)
    (lexemes : List (Lexeme Byte)) (firstToken : Bool) (shell : Shell δ) :
    perform (commands.map NamedCommand.entry) comment lexemes firstToken shell =
      Run.run instructionStep
        (lexemeInstructions commands comment lexemes firstToken) shell := by
  induction lexemes generalizing firstToken shell with
  | nil => rfl
  | cons lexeme lexemes induction =>
      cases lexeme with
      | single c =>
          simp only [perform_single, lexemeInstructions]
          cases opening : isOpening c with
          | true => simpa [instructionStep, opening] using induction _ _
          | false =>
              cases closing : isClosing c with
              | true => simpa [instructionStep, opening] using induction _ _
              | false => exact induction _ _
      | word token =>
          simp only [perform, lexemeInstructions, handleToken_instruction]
          cases (tokenInstruction commands token (joined lexemes ++ comment)
              firstToken).endsLine with
          | true => rfl
          | false => exact induction _ _

theorem executeCommandLine_instructions (cmdline : List Byte)
    (shell : Shell δ) :
    executeCommandLine (commands.map NamedCommand.entry) cmdline shell =
      some (Run.run instructionStep (instructions commands cmdline) shell) := by
  rw [executeCommandLine_lex, perform_instructions]
  rfl

theorem executeLines_session (lines : List (List Byte)) (shell : Shell δ) :
    executeLines (commands.map NamedCommand.entry) lines shell =
      some (Run.run instructionStep (session commands lines) shell) := by
  induction lines generalizing shell with
  | nil => rfl
  | cons cmdline lines induction =>
      rw [executeLines, executeCommandLine_instructions]
      simp only [session, List.flatMap_cons, Run.run_append]
      exact induction _

variable (commands)

/-- A token is a global command of the table, or the line goes on. -/
theorem tokenInstruction_cases (token after : List Byte) (firstToken : Bool) :
    (firstToken = true ∧ ∃ command ∈ commands, ∃ args,
      tokenInstruction commands token after firstToken =
        .globalCommand command args) ∨
      (tokenInstruction commands token after firstToken).endsLine = false := by
  unfold tokenInstruction
  dsimp only
  split
  · exact .inr rfl
  · split
    · exact .inr rfl
    · cases found : commands.find?
          (NamedCommand.isNamed (splitRepeat [] token 1).1) with
      | none => exact .inr rfl
      | some command =>
          cases firstToken with
          | false => exact .inr rfl
          | true =>
              exact .inl ⟨rfl, command, List.mem_of_find?_eq_some found, _, rfl⟩

theorem lexemeInstructions_later (comment : List Byte)
    (lexemes : List (Lexeme Byte)) :
    ∀ instruction ∈ lexemeInstructions commands comment lexemes false,
      instruction.endsLine = false := by
  induction lexemes with
  | nil => simp [lexemeInstructions]
  | cons lexeme lexemes induction =>
      cases lexeme with
      | single c =>
          simp only [lexemeInstructions]
          split
          · exact List.forall_mem_cons.mpr ⟨rfl, induction⟩
          · exact induction
      | word token =>
          rcases tokenInstruction_cases commands token
            (joined lexemes ++ comment) false with ⟨first, _⟩ | goesOn
          · cases first
          · simp only [lexemeInstructions, goesOn]
            exact List.forall_mem_cons.mpr ⟨goesOn, induction⟩

/-- A line is one global command, or it has none. -/
theorem lexemeInstructions_cases (comment : List Byte)
    (lexemes : List (Lexeme Byte)) :
    (∃ command ∈ commands, ∃ args,
      lexemeInstructions commands comment lexemes true =
        [.globalCommand command args]) ∨
      ∀ instruction ∈ lexemeInstructions commands comment lexemes true,
        instruction.endsLine = false := by
  induction lexemes with
  | nil => exact .inr (by simp [lexemeInstructions])
  | cons lexeme lexemes induction =>
      have later := lexemeInstructions_later commands comment lexemes
      cases lexeme with
      | single c =>
          simp only [lexemeInstructions]
          split
          · exact .inr (List.forall_mem_cons.mpr ⟨rfl, later⟩)
          · exact induction
      | word token =>
          rcases tokenInstruction_cases commands token
            (joined lexemes ++ comment) true with
            ⟨_, command, listed, args, global⟩ | goesOn
          · refine .inl ⟨command, listed, args, ?_⟩
            simp only [lexemeInstructions, global]
            rfl
          · right
            simp only [lexemeInstructions, goesOn]
            exact List.forall_mem_cons.mpr ⟨goesOn, later⟩

/-- The global commands of a session are entries of the table. -/
theorem session_listed (lines : List (List Byte)) (command : NamedCommand δ)
    (args : List Byte)
    (member : .globalCommand command args ∈ session commands lines) :
    command ∈ commands := by
  obtain ⟨cmdline, _, found⟩ := List.mem_flatMap.mp member
  rcases lexemeInstructions_cases commands (comment cmdline)
      (lex tokenByte (beforeComment cmdline)) with
    ⟨other, listed, otherArgs, global⟩ | none
  · have alone : Instruction.globalCommand command args ∈
        [Instruction.globalCommand other otherArgs] := global ▸ found
    obtain ⟨rfl, rfl⟩ :=
      Instruction.globalCommand.inj (List.mem_singleton.mp alone)
    exact listed
  · cases none _ found

end

end BusNinja
