import BusNinja.CommandInstructions

/-!
# Brackets and the duplex mode

`duplex` is a static: `{` sets it, `]` and `}` clear it, and neither `[` nor
`bus_init` touches it.  So it says whether some `{` has not been closed yet,
which is not what the last bracket says.
-/

namespace BusNinja

variable {δ : Type}

/-- The brackets of a session so far: the last one since a bus was selected,
and whether there was a `{` after the last closing one. -/
structure Brackets where
  last : Option Byte
  unclosed : Bool
  deriving DecidableEq, Repr

def Brackets.start : Brackets := ⟨none, false⟩

def Brackets.observe : Instruction δ → Brackets → Brackets
  | .bracket c, brackets =>
      { last := some c
        unclosed :=
          if c = 0x7B then true else isOpening c && brackets.unclosed }
  | .globalCommand command _, brackets =>
      match command.kind with
      | .acts _ => brackets
      | .selects _ => { brackets with last := none }
      | .restarts _ => .start
  | _, brackets => brackets

def bracketsStep (instruction : Instruction δ) :
    Shell δ × Brackets → Shell δ × Brackets :=
  Run.observed instructionStep Brackets.observe instruction

/-- On a bus with both handlers a number is executed with `xact` if the last
bracket is `{`, and with `write` otherwise. -/
def FollowsBrackets (instruction : Instruction δ) (state : Shell δ × Brackets) :
    Prop :=
  match instruction with
  | .number _ count =>
      count ≠ 0 → ∀ bus ∈ state.1.currentBus,
        bus.write.isSome = true → bus.xact.isSome = true →
        (state.2.last = some 0x7B →
          state.1.duplex = true ∧ state.1.numberHandler = bus.xact) ∧
        (state.2.last ≠ some 0x7B →
          state.1.duplex = false ∧ state.1.numberHandler = bus.write)
  | _ => True

/-- On a bus with both handlers a number is executed while a `{` is unclosed
only if that is the last bracket. -/
def BraceLast (instruction : Instruction δ) (state : Shell δ × Brackets) : Prop :=
  match instruction with
  | .number _ count =>
      count ≠ 0 → ∀ bus ∈ state.1.currentBus,
        bus.write.isSome = true → bus.xact.isSome = true →
        state.2.unclosed = true → state.2.last = some 0x7B
  | _ => True

instance (instruction : Instruction δ) (state : Shell δ × Brackets) :
    Decidable (BraceLast instruction state) := by
  cases instruction with
  | number num count =>
      exact inferInstanceAs (Decidable (count ≠ 0 → ∀ bus ∈ _, _))
  | bracket | read | busCommand | globalCommand =>
      exact inferInstanceAs (Decidable True)

/-- The flag says whether a `{` is unclosed. -/
structure FlagAgrees (state : Shell δ × Brackets) : Prop where
  duplex : state.1.duplex = state.2.unclosed
  brace : state.2.last = some 0x7B → state.2.unclosed = true

@[simp] theorem call_duplex
    (handler : BusInterface δ → Option (Board δ → Board δ)) (shell : Shell δ) :
    (shell.call handler).duplex = shell.duplex := by
  unfold Shell.call
  cases shell.currentBus with
  | none => rfl
  | some bus =>
      dsimp only
      cases handler bus <;> rfl

@[simp] theorem busInit_duplex (bus : Option (BusInterface δ)) (shell : Shell δ) :
    (busInit bus shell).duplex = shell.duplex := by
  simp [busInit]

@[simp] theorem handleBusCommand_duplex (chars : List Byte) (count : BitVec 32)
    (shell : Shell δ) :
    (handleBusCommand chars count shell).2.duplex = shell.duplex := by
  unfold handleBusCommand
  cases shell.currentBus.bind BusInterface.command with
  | none => rfl
  | some command =>
      dsimp only
      split <;> rfl

theorem handler_duplex (kind : CommandKind δ) (args : List Byte)
    (shell : Shell δ) :
    (kind.handler args shell).2.duplex =
      match kind with
      | .restarts _ => false
      | _ => shell.duplex := by
  cases kind with
  | acts => rfl
  | selects bus => exact busInit_duplex _ shell
  | restarts boot => exact busInit_duplex none _

theorem instructionStep_duplex (instruction : Instruction δ) (shell : Shell δ) :
    (instructionStep instruction shell).duplex =
      match instruction with
      | .bracket c =>
          if c = 0x7B then true else isOpening c && shell.duplex
      | .globalCommand command _ =>
          match command.kind with
          | .restarts _ => false
          | _ => shell.duplex
      | _ => shell.duplex := by
  cases instruction with
  | bracket c =>
      by_cases brace : c = 0x7B
      · subst brace
        exact call_duplex _ _
      · simp only [instructionStep, openBracket, closeBracket, if_neg brace]
        cases opening : isOpening c <;> simp
  | number num count =>
      simp only [instructionStep]
      cases shell.numberHandler <;> rfl
  | read count =>
      simp only [instructionStep]
      cases shell.currentBus.bind BusInterface.read <;> rfl
  | busCommand chars count => exact handleBusCommand_duplex chars count shell
  | globalCommand command args =>
      simp only [instructionStep]
      rw [← handler_duplex command.kind args shell]
      split <;> rfl

theorem flagAgrees_step (instruction : Instruction δ) (state : Shell δ × Brackets)
    (agrees : FlagAgrees state) : FlagAgrees (bracketsStep instruction state) := by
  obtain ⟨duplex, brace⟩ := agrees
  constructor
  · change (instructionStep instruction state.1).duplex = _
    rw [instructionStep_duplex]
    cases instruction with
    | bracket c =>
        rw [duplex]
        rfl
    | globalCommand command args =>
        simp only [bracketsStep, Run.observed, Brackets.observe]
        cases command.kind with
        | acts | selects => exact duplex
        | restarts => rfl
    | number | read | busCommand => exact duplex
  · cases instruction with
    | bracket c =>
        intro last
        have brace : c = 0x7B := Option.some.inj last
        simp [bracketsStep, Run.observed, Brackets.observe, brace]
    | globalCommand command args =>
        simp only [bracketsStep, Run.observed, Brackets.observe]
        cases command.kind with
        | acts => exact brace
        | selects => simp
        | restarts => simp [Brackets.start]
    | number | read | busCommand => exact brace

theorem numberHandler_eq {shell : Shell δ} {bus : BusInterface δ}
    (selected : bus ∈ shell.currentBus) :
    shell.numberHandler = if shell.duplex then bus.xact else bus.write := by
  rw [Shell.numberHandler, Option.mem_def.mp selected]
  rfl

theorem followsBrackets_iff (instruction : Instruction δ)
    (state : Shell δ × Brackets) (agrees : FlagAgrees state) :
    FollowsBrackets instruction state ↔ BraceLast instruction state := by
  obtain ⟨duplex, brace⟩ := agrees
  cases instruction with
  | number num count =>
      unfold FollowsBrackets BraceLast
      refine imp_congr_right fun _ => forall_congr' fun bus =>
        imp_congr_right fun selected => imp_congr_right fun _ =>
        imp_congr_right fun _ => ?_
      rw [numberHandler_eq selected, duplex]
      by_cases last : state.2.last = some 0x7B
      · rw [brace last]
        refine ⟨fun _ _ => last, fun _ => ⟨fun _ => ⟨rfl, rfl⟩, ?_⟩⟩
        intro other
        exact absurd last other
      · constructor
        · intro follows unclosed
          have off := (follows.2 last).1
          rw [unclosed] at off
          cases off
        · intro only
          have closed : state.2.unclosed = false :=
            Bool.eq_false_iff.mpr fun unclosed => last (only unclosed)
          rw [closed]
          exact ⟨fun now => absurd now last, fun _ => ⟨rfl, rfl⟩⟩
  | bracket | read | busCommand | globalCommand => exact Iff.rfl

theorem meets_followsBrackets_iff (instructions : List (Instruction δ))
    (board : Board δ) :
    Run.Meets bracketsStep FollowsBrackets instructions
        (Shell.onBoard board, .start) ↔
      Run.Meets bracketsStep BraceLast instructions
        (Shell.onBoard board, .start) :=
  Run.meets_iff_of_invariant followsBrackets_iff
    (fun instruction state agrees _ => flagAgrees_step instruction state agrees)
    ⟨rfl, by simp [Brackets.start]⟩

theorem executeLines_brackets (commands : List (NamedCommand δ))
    (lines : List (List Byte)) (shell : Shell δ) :
    executeLines (commands.map NamedCommand.entry) lines shell =
      some (Run.run bracketsStep (session commands lines) (shell, .start)).1 := by
  rw [executeLines_session]
  exact congrArg (fun state => some state.1)
    (Run.run_observed Brackets.observe (session commands lines)
      (shell, Brackets.start)).symm

/-- In a session every number follows the brackets exactly if none is
executed while a `{` is unclosed that is not the last bracket. -/
theorem numbers_follow_brackets_iff (commands : List (NamedCommand δ))
    (lines : List (List Byte)) (board : Board δ) :
    executeLines (commands.map NamedCommand.entry) lines (Shell.onBoard board) =
        some (Run.run bracketsStep (session commands lines)
          (Shell.onBoard board, .start)).1 ∧
      (Run.Meets bracketsStep FollowsBrackets (session commands lines)
          (Shell.onBoard board, .start) ↔
        Run.Meets bracketsStep BraceLast (session commands lines)
          (Shell.onBoard board, .start)) :=
  ⟨executeLines_brackets commands lines _, meets_followsBrackets_iff _ board⟩

/-- `{ [ 1` on the SPI bus: the number is executed with `xact`. -/
theorem bracket_after_brace_stays_duplex :
    ¬ ∀ lines : List (List Byte),
      Run.Meets bracketsStep FollowsBrackets
        (session
          (globalCommands ⟨[], fun _ _ => 0⟩
            ⟨Slave.pulling [], fun _ => 0, false⟩)
          lines)
        (Shell.started ⟨[], fun _ _ => 0⟩, .start) := by
  intro always
  have run := always [text "spi", text "\x7b [ 1"]
  rw [started_onBoard, meets_followsBrackets_iff] at run
  revert run
  decide +kernel

end BusNinja
