import BusNinja.CommandArguments
import BusNinja.CommandInstructions

/-!
# Comments

The scanner stops at a `#`, but a global command is handed the rest of the
line with the comment in it.  Of the commands of the table only `led` looks
at it.
-/

namespace BusNinja

open Lexing

variable {δ : Type} {commands : List (NamedCommand δ)}

def Instruction.withComment (comment : List Byte) : Instruction δ → Instruction δ
  | .globalCommand command args => .globalCommand command (args ++ comment)
  | instruction => instruction

theorem tokenInstruction_withComment (comment token after : List Byte)
    (firstToken : Bool) :
    tokenInstruction commands token (after ++ comment) firstToken =
      (tokenInstruction commands token after firstToken).withComment comment := by
  unfold tokenInstruction
  dsimp only
  split
  · rfl
  · split
    · rfl
    · cases commands.find? (NamedCommand.isNamed (splitRepeat [] token 1).1) with
      | none => rfl
      | some command =>
          cases firstToken with
          | false => rfl
          | true => simp [Instruction.withComment]

theorem withComment_endsLine (comment : List Byte) (instruction : Instruction δ) :
    (instruction.withComment comment).endsLine = instruction.endsLine := by
  cases instruction <;> rfl

theorem lexemeInstructions_withComment (comment : List Byte)
    (lexemes : List (Lexeme Byte)) (firstToken : Bool) :
    lexemeInstructions commands comment lexemes firstToken =
      (lexemeInstructions commands [] lexemes firstToken).map
        (Instruction.withComment comment) := by
  induction lexemes generalizing firstToken with
  | nil => rfl
  | cons lexeme lexemes induction =>
      cases lexeme with
      | single c =>
          simp only [lexemeInstructions]
          split
          · rw [induction]
            rfl
          · exact induction firstToken
      | word token =>
          simp only [lexemeInstructions, List.append_nil,
            tokenInstruction_withComment, withComment_endsLine]
          split
          · rfl
          · rw [induction]
            rfl

theorem beforeComment_self (cmdline : List Byte) :
    beforeComment (beforeComment cmdline) = beforeComment cmdline ∧
      comment (beforeComment cmdline) = [] := by
  have noHash : ∀ c ∈ beforeComment cmdline, c ≠ 0x23 := fun c member => by
    simpa using List.mem_takeWhile_imp member
  have cut := beforeComment_append noHash []
  simp only [List.append_nil] at cut
  exact ⟨cut.1.trans (by simp [beforeComment]), cut.2⟩

/-- The instructions of a line are those of the line without its comment,
with the comment among the arguments. -/
theorem instructions_withComment (cmdline : List Byte) :
    instructions commands cmdline =
      (instructions commands (beforeComment cmdline)).map
        (Instruction.withComment (comment cmdline)) := by
  obtain ⟨before, none⟩ := beforeComment_self cmdline
  rw [instructions, lexemeInstructions_withComment, instructions, before, none]

theorem withComment_of_goesOn (comment : List Byte) {instruction : Instruction δ}
    (goesOn : instruction.endsLine = false) :
    instruction.withComment comment = instruction := by
  cases instruction with
  | globalCommand => cases goesOn
  | bracket | number | read | busCommand => rfl

/-- If the line is a `led` command, it reads the same sequence with the
comment as without it. -/
def LedReadsSame (commands : List (NamedCommand δ)) (cmdline : List Byte) : Prop :=
  ∀ command args,
    instructions commands (beforeComment cmdline) =
        [.globalCommand command args] →
      command.name.chars = text "led" →
      ledSequence (args ++ comment cmdline) = ledSequence args

theorem tokenInstruction_args {token after args : List Byte}
    {firstToken : Bool} {command : NamedCommand δ}
    (global : tokenInstruction commands token after firstToken =
      .globalCommand command args) :
    args.length ≤ token.length + after.length := by
  unfold tokenInstruction at global
  dsimp only at global
  split at global
  · cases global
  · split at global
    · cases global
    · split at global
      · obtain ⟨-, rfl⟩ := Instruction.globalCommand.inj global
        rw [List.length_append, List.length_drop]
        omega
      · cases global

theorem lexemeInstructions_args {lexemes : List (Lexeme Byte)}
    {command : NamedCommand δ} {args : List Byte}
    (global : lexemeInstructions commands [] lexemes true =
      [.globalCommand command args]) :
    args.length ≤ (joined lexemes).length := by
  induction lexemes with
  | nil => cases global
  | cons lexeme lexemes induction =>
      cases lexeme with
      | single c =>
          simp only [lexemeInstructions] at global
          split at global
          · cases (List.cons.inj global).1
          · have later := induction global
            simp only [joined, List.flatMap_cons, List.length_append] at later ⊢
            omega
      | word token =>
          simp only [lexemeInstructions, List.append_nil] at global
          have first : tokenInstruction commands token (joined lexemes) true =
              .globalCommand command args := by
            split at global <;> exact (List.cons.inj global).1
          have inside := tokenInstruction_args first
          simpa [joined, Lexeme.chars] using inside

/-- If the line is a `led` command, it has no comment, or a blank between its
argument and the comment, or names no sequence before the comment. -/
def CommentApart (commands : List (NamedCommand δ)) (cmdline : List Byte) : Prop :=
  ∀ command args,
    instructions commands (beforeComment cmdline) =
        [.globalCommand command args] →
      command.name.chars = text "led" →
      comment cmdline = [] ∨ EndsInBlank args ∨ ledSequence args = none

theorem ledReadsSame_iff_of_short {cmdline : List Byte}
    (short : cmdline.length < 256) :
    LedReadsSame commands cmdline ↔ CommentApart commands cmdline := by
  refine forall_congr' fun command => forall_congr' fun args =>
    imp_congr_right fun line => imp_congr_right fun _ => ?_
  cases following : comment cmdline with
  | nil => simp
  | cons c rest =>
      have hash : c = 0x23 := by
        have first := List.head?_dropWhile_not (· ≠ 0x23) cmdline
        rw [← comment, following] at first
        simpa using first
      have inside : args.length ≤ (beforeComment cmdline).length := by
        obtain ⟨before, none⟩ := beforeComment_self cmdline
        rw [instructions, before, none] at line
        have lexes : Lexes tokenByte (beforeComment cmdline) _ := lexes_lex _
        simpa [lexes.joined] using lexemeInstructions_args line
      have whole : (beforeComment cmdline).length + (c :: rest).length =
          cmdline.length := by
        rw [← following, ← List.length_append]
        exact congrArg List.length List.takeWhile_append_dropWhile
      rw [List.length_cons] at whole
      subst hash
      rw [ledSequence_comment_iff (by omega)]
      simp

section

variable (firmware : Firmware) (wiring : Wiring)

theorem led_or_ignores {command : NamedCommand Devices}
    (listed : command ∈ globalCommands firmware wiring) :
    (command.name.chars = text "led" ∧ command.kind = .acts globalCommandLed) ∨
      (command.name.chars ≠ text "led" ∧ ∀ args other,
        command.kind.handler args = command.kind.handler other) := by
  simp only [globalCommands, List.mem_cons, List.not_mem_nil, or_false] at listed
  rcases listed with rfl | rfl | rfl | rfl | rfl | rfl
  · exact .inr ⟨(by decide : text "version" ≠ text "led"), fun _ _ => rfl⟩
  · exact .inr ⟨(by decide : text "help" ≠ text "led"), fun _ _ => rfl⟩
  · exact .inl ⟨rfl, rfl⟩
  · exact .inr ⟨(by decide : text "reset" ≠ text "led"), fun _ _ => rfl⟩
  · exact .inr ⟨(by decide : text "spi" ≠ text "led"), fun _ _ => rfl⟩
  · exact .inr ⟨(by decide : text "i2c" ≠ text "led"), fun _ _ => rfl⟩

end

theorem led_step {command : NamedCommand Devices}
    (kind : command.kind = .acts globalCommandLed) (args : List Byte)
    (shell : Shell Devices) :
    instructionStep (.globalCommand command args) shell =
      match ledSequence args with
      | some seq => { shell with board := shell.board.setSeq seq }
      | none => shell.putLine "Error" := by
  simp only [instructionStep, kind, CommandKind.handler,
    globalCommandLed_sequence]
  cases ledSequence args <;> rfl

theorem ledSequences_injective :
    ∀ seq < 7, ∀ other < 7,
      ledSequences.getD seq [] = ledSequences.getD other [] → seq = other := by
  decide

/-- What `led` does tells the sequence it has read. -/
theorem ledSequence_of_led_step {command : NamedCommand Devices}
    (kind : command.kind = .acts globalCommandLed) {args other : List Byte}
    (same : instructionStep (.globalCommand command args)
        (Shell.powerOn Devices.powerOn) =
      instructionStep (.globalCommand command other)
        (Shell.powerOn Devices.powerOn)) :
    ledSequence args = ledSequence other := by
  have message : ((Shell.powerOn Devices.powerOn).putLine
      "Error").board.out.console.output ≠ [] := by decide
  have output := congrArg (fun shell => shell.board.out.console.output) same
  have curSeq := congrArg (fun shell => shell.board.devices.led.curSeq) same
  rw [led_step kind, led_step kind] at output curSeq
  cases first : ledSequence args with
  | none =>
      cases second : ledSequence other with
      | none => rfl
      | some seq =>
          rw [first, second] at output
          exact absurd output message
  | some seq =>
      cases second : ledSequence other with
      | none =>
          rw [first, second] at output
          exact absurd output.symm message
      | some next =>
          rw [first, second] at curSeq
          have equal := ledSequences_injective seq.toNat (ledSequence_lt first)
            next.toNat (ledSequence_lt second) curSeq
          rw [BitVec.eq_of_toNat_eq equal]

/-- A command does the same with other arguments exactly if it is not `led`
or reads the same sequence. -/
theorem globalCommand_args_iff {firmware : Firmware} {wiring : Wiring}
    {command : NamedCommand Devices}
    (listed : command ∈ globalCommands firmware wiring) (args other : List Byte) :
    (∀ shell, instructionStep (.globalCommand command args) shell =
        instructionStep (.globalCommand command other) shell) ↔
      (command.name.chars = text "led" → ledSequence args = ledSequence other) := by
  rcases led_or_ignores firmware wiring listed with
    ⟨named, kind⟩ | ⟨unnamed, ignores⟩
  · constructor
    · intro same _
      exact ledSequence_of_led_step kind (same _)
    · intro reads shell
      rw [led_step kind, led_step kind, reads named]
  · constructor
    · intro _ named
      exact absurd named unnamed
    · intro _ shell
      simp only [instructionStep, ignores args other]

/-- A comment changes nothing, in any state, exactly if the line is no `led`
command or `led` reads the same sequence from it either way.  On lines of the
console, which are shorter than 256 bytes, it reads another one exactly if the
comment follows the number of a sequence without a blank between them. -/
theorem comment_ignored_iff (firmware : Firmware) (wiring : Wiring)
    (cmdline : List Byte) :
    ((∀ shell,
      executeCommandLine (globalCommandTable firmware wiring) cmdline shell =
        executeCommandLine (globalCommandTable firmware wiring)
          (beforeComment cmdline) shell) ↔
      LedReadsSame (globalCommands firmware wiring) cmdline) ∧
    (cmdline.length < 256 →
      (LedReadsSame (globalCommands firmware wiring) cmdline ↔
        CommentApart (globalCommands firmware wiring) cmdline)) := by
  refine ⟨?_, ledReadsSame_iff_of_short⟩
  simp only [globalCommandTable, executeCommandLine_instructions,
    Option.some.injEq]
  rw [instructions_withComment]
  rcases lexemeInstructions_cases (globalCommands firmware wiring)
    (comment (beforeComment cmdline))
    (lex tokenByte (beforeComment (beforeComment cmdline))) with
    ⟨command, listed, args, global⟩ | none
  · have line : instructions (globalCommands firmware wiring)
        (beforeComment cmdline) = [.globalCommand command args] := global
    rw [line]
    apply (globalCommand_args_iff listed (args ++ comment cmdline) args).trans
    constructor
    · intro same found foundArgs alone
      rw [line] at alone
      obtain ⟨rfl, rfl⟩ := Instruction.globalCommand.inj (List.cons.inj alone).1
      exact same
    · intro reads
      exact reads command args line
  · have line : ∀ instruction ∈ instructions (globalCommands firmware wiring)
        (beforeComment cmdline), instruction.endsLine = false := none
    have unchanged : (instructions (globalCommands firmware wiring)
          (beforeComment cmdline)).map
          (Instruction.withComment (comment cmdline)) =
        instructions (globalCommands firmware wiring) (beforeComment cmdline) :=
      (List.map_congr_left fun instruction member =>
        withComment_of_goesOn _ (line instruction member)).trans (List.map_id _)
    rw [unchanged]
    constructor
    · intro _ command args alone _
      have goesOn := line (.globalCommand command args) (by simp [alone])
      cases goesOn
    · intro _ shell
      rfl

theorem comment_reaches_led :
    ¬ ∀ (cmdline : List Byte) (shell : Shell Devices),
      executeCommandLine
          (globalCommandTable ⟨[], fun _ _ => 0⟩
            ⟨Slave.pulling [], fun _ => 0, false⟩)
          cmdline shell =
        executeCommandLine
          (globalCommandTable ⟨[], fun _ _ => 0⟩
            ⟨Slave.pulling [], fun _ => 0, false⟩)
          (beforeComment cmdline) shell := by
  intro always
  have same := congrArg
    (Option.map fun shell => shell.board.devices.led.curSeq)
    (always (text "led 3#note") (Shell.started ⟨[], fun _ _ => 0⟩))
  revert same
  decide +kernel

end BusNinja
