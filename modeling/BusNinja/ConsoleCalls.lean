import BusNinja.Library.Run
import BusNinja.Source.CallStack

/-!
# Calls within calls

A command that waits for keys runs the drivers from inside
`execute_command_line`, with the console in key mode.  Key mode is all that
keeps a second line from being executed there, and the first one from being
written over.
-/

namespace BusNinja

/-- The command polls for keys, or is in a tick between two polls. -/
def CommandPoint.polls : CommandPoint → Bool
  | .dumpkeysPoll => true
  | .menuPoll _ => true
  | .bitbangPoll _ _ => true
  | .bitbangTicked _ _ => true
  | _ => false

/-- The calls below a command that waits for keys. -/
abbrev waiting (cmdline : List Byte) : List Frame :=
  [.execute cmdline true, .driverTick .lineDone]

/-- How the calls can be nested, and when the console has to be in key
mode. -/
inductive Nested (mode : ConsoleMode) : List Frame → Prop where
  | main : Nested mode []
  | tick (point : TickPoint) : Nested mode [.driverTick point]
  | execute (cmdline : List Byte) (called : Bool) :
      Nested mode [.execute cmdline called, .driverTick .lineDone]
  | command (point : CommandPoint) (cmdline : List Byte) :
      (point.polls = true → mode = .key) →
      Nested mode (.command point :: waiting cmdline)
  | tickInside (tick : TickPoint) (point : CommandPoint)
      (cmdline : List Byte) :
      point.polls = true → mode = .key →
      Nested mode (.driverTick tick :: .command point :: waiting cmdline)

def Frame.isExecute : Frame → Bool
  | .execute _ _ => true
  | _ => false

theorem Nested.single {mode : ConsoleMode} {frames : List Frame}
    (nested : Nested mode frames) :
    (frames.filter Frame.isExecute).length ≤ 1 := by
  cases nested with
  | main => exact Nat.zero_le 1
  | tick => exact Nat.zero_le 1
  | execute => exact Nat.le_refl 1
  | command => exact Nat.le_refl 1
  | tickInside => exact Nat.le_refl 1

section

variable {δ : Type}

def Holds (cmdline : List Byte) (input : ConsoleInput) : Prop :=
  input.bytes cmdline.length = cmdline

theorem Holds.of_cmdbuf {cmdline : List Byte} {before after : ConsoleInput}
    (holds : Holds cmdline before) (same : after.cmdbuf = before.cmdbuf) :
    Holds cmdline after := by
  unfold Holds ConsoleInput.bytes at holds ⊢
  rw [same]
  exact holds

theorem holds_cmdline (input : ConsoleInput) : Holds input.cmdline input := by
  unfold Holds
  rw [ConsoleInput.cmdline_length]
  rfl

/-- The calls are nested as they can be, and a line under execution is still
in `cmdbuf`. -/
structure Orderly (machine : Machine δ) : Prop where
  nested : Nested machine.ninja.input.mode machine.frames
  stable : ∀ cmdline called, Frame.execute cmdline called ∈ machine.frames →
    Holds cmdline machine.ninja.input

namespace Orderly

variable (ninja : Ninja δ)

theorem main : Orderly ⟨ninja, []⟩ := by
  refine ⟨.main, ?_⟩
  intro cmdline called member
  exact absurd member List.not_mem_nil

theorem tick (point : TickPoint) : Orderly ⟨ninja, [.driverTick point]⟩ := by
  refine ⟨.tick point, ?_⟩
  intro cmdline called member
  simp at member

variable {cmdline : List Byte} (holds : Holds cmdline ninja.input)
include holds

theorem execute (called : Bool) :
    Orderly ⟨ninja, [.execute cmdline called, .driverTick .lineDone]⟩ := by
  refine ⟨.execute cmdline called, ?_⟩
  intro line _ member
  obtain ⟨rfl, _⟩ : line = cmdline ∧ _ = called := by simpa using member
  exact holds

theorem command {point : CommandPoint}
    (key : point.polls = true → ninja.input.mode = .key) :
    Orderly ⟨ninja, .command point :: waiting cmdline⟩ := by
  refine ⟨.command point cmdline key, ?_⟩
  intro line _ member
  obtain ⟨rfl, _⟩ : line = cmdline ∧ _ = true := by simpa using member
  exact holds

theorem tickInside (tick : TickPoint) {point : CommandPoint}
    (polls : point.polls = true) (key : ninja.input.mode = .key) :
    Orderly ⟨ninja, .driverTick tick :: .command point :: waiting cmdline⟩ := by
  refine ⟨.tickInside tick point cmdline polls key, ?_⟩
  intro line _ member
  obtain ⟨rfl, _⟩ : line = cmdline ∧ _ = true := by simpa using member
  exact holds

end Orderly

/-- The console is in key mode and has kept its line. -/
def KeyKept (before after : Ninja δ) : Prop :=
  after.input.mode = .key ∧ after.input.cmdbuf = before.input.cmdbuf

theorem KeyKept.trans {before between after : Ninja δ}
    (earlier : KeyKept before between) (later : KeyKept between after) :
    KeyKept before after :=
  ⟨later.1, later.2.trans earlier.2⟩

theorem rx_keyKept {ninja : Ninja δ} (key : ninja.input.mode = .key)
    (c : Byte) : KeyKept ninja (ninja.rx c) := by
  unfold KeyKept
  rw [Ninja.rx_key key]
  exact ⟨key, rfl⟩

theorem cdcLoop_keyKept (rounds : Nat) {ninja : Ninja δ}
    (key : ninja.input.mode = .key) : KeyKept ninja (cdcLoop rounds ninja) := by
  induction rounds generalizing ninja with
  | zero => exact ⟨key, rfl⟩
  | succ rounds induction =>
      unfold cdcLoop
      split
      · exact ⟨key, rfl⟩
      · next c endpoint _ =>
          dsimp only
          split
          · split
            · have first : KeyKept ninja
                  ({ ninja with cdc.endpoint := endpoint }.rx c) :=
                rx_keyKept key c
              exact first.trans (induction first.1)
            · exact ⟨key, rfl⟩
          · exact ⟨key, rfl⟩

theorem keyPoll_keyKept {ninja : Ninja δ} (key : ninja.input.mode = .key) :
    KeyKept ninja ninja.keyPoll := by
  cases got : ninja.input.gotKey with
  | false =>
      rw [Ninja.keyPoll_none got]
      exact ⟨key, rfl⟩
  | true =>
      rw [Ninja.keyPoll_got got]
      exact ⟨key, rfl⟩

/-- In key mode a tick goes on or returns, and calls nothing. -/
theorem tickStep_key (received : Option Byte) (frames : List Frame)
    (point : TickPoint) {ninja : Ninja δ} (key : ninja.input.mode = .key) :
    KeyKept ninja (tickStep received frames ninja point).ninja ∧
      ((tickStep received frames ninja point).frames = frames ∨
        ∃ next, (tickStep received frames ninja point).frames =
          .driverTick next :: frames) := by
  cases point with
  | hwUartTick =>
      refine ⟨?_, .inr ⟨_, rfl⟩⟩
      change KeyKept ninja (hwUartTick received ninja)
      cases received with
      | none => exact ⟨key, rfl⟩
      | some c => exact rx_keyKept key c
  | usbdevTick =>
      simp only [tickStep]
      split
      · exact ⟨⟨key, rfl⟩, .inr ⟨_, rfl⟩⟩
      · exact ⟨⟨key, rfl⟩, .inr ⟨_, rfl⟩⟩
  | cdcRounds count =>
      cases count with
      | zero => exact ⟨⟨key, rfl⟩, .inr ⟨_, rfl⟩⟩
      | succ count =>
          simp only [tickStep]
          split
          · exact ⟨cdcLoop_keyKept 1 key, .inr ⟨_, rfl⟩⟩
          · exact ⟨⟨key, rfl⟩, .inr ⟨_, rfl⟩⟩
  | consoleTick =>
      simp only [tickStep, key]
      exact ⟨⟨key, rfl⟩, .inr ⟨_, rfl⟩⟩
  | lineDone => exact ⟨⟨key, rfl⟩, .inr ⟨_, rfl⟩⟩
  | ledTick => exact ⟨⟨key, rfl⟩, .inl rfl⟩

/-- A tick called from `main` may begin to execute the line in `cmdbuf`. -/
theorem orderly_tick (received : Option Byte) (point : TickPoint)
    (ninja : Ninja δ) : Orderly (tickStep received [] ninja point) := by
  cases point with
  | hwUartTick => apply Orderly.tick
  | usbdevTick =>
      simp only [tickStep]
      split <;> apply Orderly.tick
  | cdcRounds count =>
      cases count with
      | zero => apply Orderly.tick
      | succ count =>
          simp only [tickStep]
          split <;> apply Orderly.tick
  | consoleTick =>
      simp only [tickStep]
      split
      · split
        · split
          · apply Orderly.execute
            exact holds_cmdline ninja.input
          · apply Orderly.tick
        · apply Orderly.tick
      · apply Orderly.tick
  | lineDone => apply Orderly.tick
  | ledTick => apply Orderly.main

theorem orderly_execute
    (runs : List Byte → Shell δ → Option KeyCommand × Shell δ)
    {cmdline : List Byte} (called : Bool) {ninja : Ninja δ}
    (holds : Holds cmdline ninja.input) :
    Orderly (executeStep runs [.driverTick .lineDone] cmdline called ninja) := by
  simp only [executeStep]
  split
  · apply Orderly.tick
  · split
    · next command _ =>
        apply Orderly.command
        · exact holds
        · cases command <;> simp [KeyCommand.start, CommandPoint.polls]
    · apply Orderly.tick

/-- A poll that finds no key ticks in key mode; a key is handled in key mode. -/
theorem orderly_poll {cmdline : List Byte} {point : CommandPoint}
    (polls : point.polls = true) {handle : Byte → Ninja δ → Machine δ}
    {ninja : Ninja δ} (holds : Holds cmdline ninja.input)
    (key : ninja.input.mode = .key)
    (handled : ∀ c after, Holds cmdline after.input →
      after.input.mode = .key → Orderly (handle c after)) :
    Orderly (pollStep (waiting cmdline) ninja point handle) := by
  unfold pollStep
  split
  · exact Orderly.tickInside ninja holds .hwUartTick polls key
  · next c _ =>
      obtain ⟨mode, kept⟩ := keyPoll_keyKept key
      exact handled c ninja.keyPoll (holds.of_cmdbuf kept) mode

theorem orderly_command (garbage pinb : Byte) {point : CommandPoint}
    {cmdline : List Byte} {ninja : Ninja δ}
    (holds : Holds cmdline ninja.input)
    (key : point.polls = true → ninja.input.mode = .key) :
    Orderly (commandStep (waiting cmdline) ninja garbage pinb point) := by
  cases point with
  | dumpkeys =>
      apply Orderly.command
      · exact holds
      · exact fun _ => rfl
  | dumpkeysPoll =>
      unfold commandStep
      apply orderly_poll
      · rfl
      · exact holds
      · exact key rfl
      · intro c after held mode
        dsimp only
        split
        · apply Orderly.command
          · exact held
          · exact fun _ => mode
        · apply Orderly.execute
          exact held
  | menuShow menu =>
      apply Orderly.command
      · exact holds
      · exact fun _ => rfl
  | menuPoll menu =>
      unfold commandStep
      apply orderly_poll
      · rfl
      · exact holds
      · exact key rfl
      · intro c after held mode
        dsimp only
        split
        · apply Orderly.command
          · exact held
          · exact fun _ => mode
        · cases menu with
          | myMenu2 =>
              apply Orderly.command
              · exact held
              · simp [CommandPoint.polls]
          | myMenu =>
              apply Orderly.execute
              apply held.of_cmdbuf
              unfold Ninja.picked
              split <;> rfl
  | bitbang =>
      apply Orderly.command
      · exact holds
      · exact fun _ => rfl
  | bitbangPoll c exitCount =>
      unfold commandStep
      apply orderly_poll
      · rfl
      · exact holds
      · exact key rfl
      · intro c after held mode
        split
        · apply Orderly.command
          · exact held
          · exact fun _ => mode
        · apply Orderly.execute
          exact held
  | bitbangTicked c exitCount =>
      apply Orderly.command
      · exact holds
      · exact fun _ => key rfl

theorem orderly_tickInside (received : Option Byte) (tick : TickPoint)
    {point : CommandPoint} {cmdline : List Byte} {ninja : Ninja δ}
    (holds : Holds cmdline ninja.input) (polls : point.polls = true)
    (key : ninja.input.mode = .key) :
    Orderly (tickStep received (.command point :: waiting cmdline) ninja
      tick) := by
  obtain ⟨⟨mode, kept⟩, frames⟩ :=
    tickStep_key received (.command point :: waiting cmdline) tick key
  generalize tickStep received (.command point :: waiting cmdline) ninja tick =
    after at mode kept frames ⊢
  obtain ⟨ticked, frames'⟩ := after
  have held := holds.of_cmdbuf kept
  rcases frames with returned | ⟨next, goes⟩
  · subst returned
    exact Orderly.command _ held fun _ => mode
  · subst goes
    exact Orderly.tickInside _ held next polls mode

variable (runs : List Byte → Shell δ → Option KeyCommand × Shell δ)
  (cdcConsole : Bool)

theorem Orderly.step (event : MachineEvent) {machine : Machine δ}
    (orderly : Orderly machine) :
    Orderly (machineStep runs cdcConsole event machine) := by
  cases event with
  | arrive sent => exact ⟨orderly.nested, orderly.stable⟩
  | connect isConnected => exact ⟨orderly.nested, orderly.stable⟩
  | next received garbage pinb =>
      obtain ⟨ninja, frames⟩ := machine
      obtain ⟨nested, stable⟩ := orderly
      dsimp only at nested stable
      cases nested with
      | main => exact Orderly.tick ninja .hwUartTick
      | tick point => exact orderly_tick received point ninja
      | execute cmdline called =>
          apply orderly_execute
          exact stable cmdline called List.mem_cons_self
      | command point cmdline key =>
          apply orderly_command
          · exact stable cmdline true (by simp)
          · exact key
      | tickInside tick point cmdline polls key =>
          apply orderly_tickInside
          · exact stable cmdline true (by simp)
          · exact polls
          · exact key

def Reaches (received : Option Byte) (before after : Machine δ) : Prop :=
  ∃ steps : Nat,
    Run.run (machineStep runs cdcConsole)
      (List.replicate steps (.next received 0 0)) before = after

theorem Reaches.refl (received : Option Byte) (machine : Machine δ) :
    Reaches runs cdcConsole received machine machine := ⟨0, rfl⟩

variable {runs cdcConsole}

theorem Reaches.head {received : Option Byte} {before after : Machine δ}
    (rest : Reaches runs cdcConsole received
      (before.next runs received 0 0) after) :
    Reaches runs cdcConsole received before after := by
  obtain ⟨steps, reached⟩ := rest
  exact ⟨steps + 1, reached⟩

theorem Reaches.trans {received : Option Byte}
    {before between after : Machine δ}
    (first : Reaches runs cdcConsole received before between)
    (second : Reaches runs cdcConsole received between after) :
    Reaches runs cdcConsole received before after := by
  obtain ⟨steps, rfl⟩ := first
  obtain ⟨more, rfl⟩ := second
  refine ⟨steps + more, ?_⟩
  rw [List.replicate_add, Run.run_append]

/-- A round that receives a byte is followed by the other rounds, if there is
a callback for it. -/
theorem cdcLoop_succ (rounds : Nat) {ninja : Ninja δ}
    (receives : ninja.receives = true) :
    cdcLoop (rounds + 1) ninja =
      if ninja.cdc.rxCb then cdcLoop rounds (cdcLoop 1 ninja)
      else cdcLoop 1 ninja := by
  simp only [cdcLoop]
  split
  · next empty => simp [Ninja.receives, empty] at receives
  · next c endpoint waiting =>
      have ready : ninja.cdc.rxReadyCb = true ∧
          consoleRxReadyCallback ninja.input = true := by
        simpa [Ninja.receives, waiting] using receives
      rw [if_pos ready, if_pos ready]
      split <;> rfl

theorem reaches_cdcRounds (received : Option Byte) (frames : List Frame)
    (count : Nat) (ninja : Ninja δ) :
    Reaches runs cdcConsole received
      ⟨ninja, .driverTick (.cdcRounds count) :: frames⟩
      ⟨cdcLoop count ninja, .driverTick .consoleTick :: frames⟩ := by
  induction count generalizing ninja with
  | zero => exact .head (.refl runs cdcConsole received _)
  | succ count induction =>
      apply Reaches.head
      simp only [Machine.next, tickStep]
      cases receives : ninja.receives with
      | false =>
          rw [cdcLoop_idle (count + 1) receives, if_neg (by simp)]
          exact .refl runs cdcConsole received _
      | true =>
          rw [cdcLoop_succ count receives, if_pos rfl]
          cases called : ninja.cdc.rxCb with
          | false => exact .refl runs cdcConsole received _
          | true => exact induction (cdcLoop 1 ninja)

theorem reaches_consoleTick {execute : List Byte → Shell δ → Shell δ}
    (received : Option Byte) (frames : List Frame) (ninja : Ninja δ)
    (plain : ∀ cmdline shell,
      runs cmdline shell = (none, execute cmdline shell)) :
    Reaches runs cdcConsole received
      ⟨ninja, .driverTick .consoleTick :: frames⟩
      ⟨consoleTick execute ninja, .driverTick .ledTick :: frames⟩ := by
  have done : ∀ ninja : Ninja δ, Reaches runs cdcConsole received
      ⟨ninja, .driverTick .lineDone :: frames⟩
      ⟨ninja.finishLine, .driverTick .ledTick :: frames⟩ := fun ninja =>
    .head (.refl runs cdcConsole received _)
  apply Reaches.head
  cases mode : ninja.input.mode with
  | key =>
      simp only [Machine.next, tickStep, consoleTick, mode]
      exact .refl runs cdcConsole received _
  | line =>
      simp only [Machine.next, tickStep, consoleTick, mode]
      split
      · split
        · apply Reaches.head
          simp only [Machine.next, executeStep, plain, Bool.false_eq_true,
            if_false]
          exact done (ninja.executeLine execute)
        · apply done
      · exact .refl runs cdcConsole received _

/-- A tick whose line comes to no command that waits is `driver_tick`. -/
theorem reaches_driverTick {execute : List Byte → Shell δ → Shell δ}
    (received : Option Byte) (frames : List Frame) (ninja : Ninja δ)
    (plain : ∀ cmdline shell,
      runs cmdline shell = (none, execute cmdline shell)) :
    Reaches runs cdcConsole received
      ⟨ninja, .driverTick .hwUartTick :: frames⟩
      ⟨driverTick execute received ninja, frames⟩ := by
  have usb : Reaches runs cdcConsole received
      ⟨hwUartTick received ninja, .driverTick .usbdevTick :: frames⟩
      ⟨usbdevCdcTick (hwUartTick received ninja),
        .driverTick .consoleTick :: frames⟩ := by
    apply Reaches.head
    simp only [Machine.next, tickStep, usbdevCdcTick]
    cases connected : (hwUartTick received ninja).cdc.connected with
    | false => exact .refl runs cdcConsole received _
    | true => apply reaches_cdcRounds
  have console : Reaches runs cdcConsole received
      ⟨usbdevCdcTick (hwUartTick received ninja),
        .driverTick .consoleTick :: frames⟩
      ⟨driverTick execute received ninja, .driverTick .ledTick :: frames⟩ :=
    reaches_consoleTick received frames _ plain
  have returned : Reaches runs cdcConsole received
      ⟨driverTick execute received ninja, .driverTick .ledTick :: frames⟩
      ⟨driverTick execute received ninja, frames⟩ :=
    .head (.refl runs cdcConsole received _)
  exact .head ((usb.trans console).trans returned)

variable (runs cdcConsole)

/-- However the calls are nested, at most one of them is
`execute_command_line`, and its line is as it was passed. -/
theorem execution_not_reentered (shell : Shell δ)
    (events : List MachineEvent) :
    ∃ machine,
      machine = Run.run (machineStep runs cdcConsole) events
        (.powerOn shell) ∧
      (machine.frames.filter Frame.isExecute).length ≤ 1 ∧
      ∀ cmdline called, Frame.execute cmdline called ∈ machine.frames →
        machine.ninja.input.bytes cmdline.length = cmdline := by
  have orderly := Run.run_invariant
    (fun event _ => Orderly.step runs cdcConsole event) events
    (Orderly.main (Ninja.powerOn shell))
  exact ⟨_, rfl, orderly.nested.single, orderly.stable⟩

end

end BusNinja
