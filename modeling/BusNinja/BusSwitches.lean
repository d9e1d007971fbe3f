import BusNinja.BusI2cRuns
import BusNinja.CommandBrackets

/-!
# Leaving a bus

`bus_spi_close` turns the SPI hardware off and leaves the chip select as it
is, and `bus_i2c_close` does nothing.  So `bus_init` leaves a bus as the last
transaction on it was left: idle if that one was finished.
-/

namespace BusNinja

/-- The last thing sent on the I2C bus is a STOP. -/
def HwI2c.Stopped (hw : HwI2c) : Prop := hw.ops.getLast? = some .stop

/-- The I2C bus is free exactly after a STOP. -/
def HwI2c.Tracks (hw : HwI2c) : Prop := hw.grip = Grip.free ↔ hw.Stopped

theorem Grip.run_free_iff {new : List HwI2cOp} (issues : new ≠ [])
    (notInit : new.getLast? ≠ some .init) (grip : Grip) :
    Run.run Grip.after new grip = Grip.free ↔ new.getLast? = some .stop := by
  obtain ⟨op, last⟩ := Option.ne_none_iff_exists'.mp
    (List.getLast?_eq_none_iff.not.mpr issues)
  obtain ⟨earlier, rfl⟩ := List.getLast?_eq_some_iff.mp last
  rw [last] at notInit ⊢
  rw [Run.run_append]
  cases op with
  | init => exact absurd rfl notInit
  | stop => exact iff_of_true rfl rfl
  | start | tx | rx => simp [Grip.after, Grip.free]

theorem Moves.last_ne_init {call : BusI2cCall} {s s' : BusI2cState} {p p' : Byte}
    {new : List HwI2cOp} (moves : Moves call s p s' p' new) :
    new.getLast? ≠ some .init := by
  cases moves with
  | scanned count probed =>
      rw [probed.last (scanAddresses_ne_nil _)]
      simp
  | _ => simp [clearing]

section

variable (slave : Slave)

theorem tracks_of_issued {new : List HwI2cOp} {before after : HwI2c}
    (issued : Issued new before after) (issues : new ≠ [])
    (notInit : new.getLast? ≠ some .init) : after.Tracks := by
  obtain ⟨op, last⟩ := Option.ne_none_iff_exists'.mp
    (List.getLast?_eq_none_iff.not.mpr issues)
  rw [HwI2c.Tracks, HwI2c.Stopped, issued.grip,
    Grip.run_free_iff issues notInit, issued.ops, List.getLast?_append, last]
  rfl

theorem tracks_open (bus : BusI2c) : (busI2cOpen slave bus).hw.Tracks := by
  obtain ⟨acked, cleared⟩ :=
    hwI2cBusClear_issued slave (hwI2cInit slave bus.hw)
  exact tracks_of_issued cleared (by simp) (by simp)

theorem tracks_call (call : BusI2cCall) (bus : BusI2c)
    (tracks : bus.hw.Tracks) : (busI2cCall slave call bus).hw.Tracks := by
  obtain ⟨new, moves, performed⟩ := busI2cCall_step slave bus call
  by_cases issues : new = []
  · subst issues
    have ops := performed.issued.ops
    have grip := performed.issued.grip
    rw [List.append_nil] at ops
    rw [HwI2c.Tracks, HwI2c.Stopped, ops, grip]
    exact tracks
  · exact tracks_of_issued performed.issued issues moves.last_ne_init

end

section

variable {δ : Type}

/-- Numbers, reads and commands of the bus. -/
def Instruction.transfers : Instruction δ → Bool
  | .number _ _ => true
  | .read _ => true
  | .busCommand _ _ => true
  | _ => false

/-- What a transfer on the bus does to the board. -/
structure BusInterface.Keeps (keeps : Board δ → Board δ → Prop)
    (bus : BusInterface δ) : Prop where
  write : ∀ act ∈ bus.write, ∀ c board, keeps board (act c board)
  read : ∀ act ∈ bus.read, ∀ board, keeps board (act board)
  xact : ∀ act ∈ bus.xact, ∀ c board, keeps board (act c board)
  command : ∀ act ∈ bus.command, ∀ chars count board,
    keeps board (act chars count board).2

theorem transfers_keep {keeps : Board δ → Board δ → Prop}
    (refl : ∀ board, keeps board board)
    (trans : ∀ {before between after},
      keeps before between → keeps between after → keeps before after)
    (message : ∀ str (shell : Shell δ), keeps shell.board (shell.putLine str).board)
    {shell : Shell δ}
    (bus : ∀ bus ∈ shell.currentBus, bus.Keeps keeps)
    {instruction : Instruction δ} (transfer : instruction.transfers = true) :
    (instructionStep instruction shell).currentBus = shell.currentBus ∧
      keeps shell.board (instructionStep instruction shell).board := by
  have repeated : ∀ (act : Board δ → Board δ),
      (∀ board, keeps board (act board)) → ∀ count,
      keeps shell.board (repeatCall act count shell).board := by
    intro act once count
    exact Function.Iterate.rec (keeps shell.board) (refl _)
      (fun board sofar => trans sofar (once board)) count.toNat
  cases instruction with
  | number num count =>
      simp only [instructionStep]
      cases found : shell.numberHandler with
      | none => exact ⟨rfl, message _ shell⟩
      | some act =>
          refine ⟨rfl, repeated (act num) (fun board => ?_) count⟩
          cases current : shell.currentBus with
          | none => simp [Shell.numberHandler, current] at found
          | some selected =>
              have handlers := bus selected current
              rw [numberHandler_eq current] at found
              split at found
              · exact handlers.xact act found num board
              · exact handlers.write act found num board
  | read count =>
      simp only [instructionStep]
      cases found : shell.currentBus.bind BusInterface.read with
      | none => exact ⟨rfl, message _ shell⟩
      | some act =>
          obtain ⟨selected, current, handler⟩ := Option.bind_eq_some_iff.mp found
          exact ⟨rfl, repeated act ((bus selected current).read act handler) count⟩
  | busCommand chars count =>
      simp only [instructionStep, handleBusCommand]
      cases found : shell.currentBus.bind BusInterface.command with
      | none => exact ⟨rfl, message _ shell⟩
      | some act =>
          obtain ⟨selected, current, handler⟩ := Option.bind_eq_some_iff.mp found
          have once := (bus selected current).command act handler chars count
            shell.board
          dsimp only
          split
          · exact ⟨rfl, once⟩
          · exact ⟨rfl, trans once
              (message _ { shell with board := (act chars count shell.board).2 })⟩
  | bracket | globalCommand => cases transfer

end

/-- The last bracket is not an opening one. -/
def Brackets.Closed (brackets : Brackets) : Prop :=
  ∀ c ∈ brackets.last, isOpening c = false

def Instruction.selects {δ : Type} : Instruction δ → Option (BusInterface δ)
  | .globalCommand ⟨_, .selects bus⟩ _ => some bus
  | _ => none

section

variable (firmware : Firmware) (wiring : Wiring)

/-- Once SPI has been opened, which makes the chip select an output, it is
asserted only while SPI is selected. -/
def ChipSelectIdle (shell : Shell Devices) : Prop :=
  shell.board.devices.spi.ssDdr = true →
    shell.currentBus ≠ some (busSpi wiring) →
    shell.board.devices.spi.ss = true

/-- The chip select is idle after the instruction, and the I2C bus is free
when `bus_i2c_close` has run. -/
def LeavesIdle (instruction : Instruction Devices)
    (state : Shell Devices × Brackets) : Prop :=
  ChipSelectIdle wiring (instructionStep instruction state.1) ∧
    ∀ bus, instruction.selects = some bus →
      state.1.currentBus = some (busI2c wiring) →
      (state.1.call BusInterface.close).board.devices.i2c.grip = Grip.free

/-- SPI is left for another bus only when its last bracket is not an opening
one, and I2C only after a STOP. -/
def LeavesFinished (instruction : Instruction Devices)
    (state : Shell Devices × Brackets) : Prop :=
  ∀ bus, instruction.selects = some bus →
    (state.1.currentBus = some (busSpi wiring) → bus ≠ busSpi wiring →
      state.2.Closed) ∧
    (state.1.currentBus = some (busI2c wiring) →
      state.1.board.devices.i2c.Stopped)

/-- The chip select follows the brackets on SPI and is idle elsewhere, and
the hold on I2C follows the STOPs. -/
structure PinsFollow (state : Shell Devices × Brackets) : Prop where
  bus : state.1.currentBus = none ∨
    state.1.currentBus = some (busSpi wiring) ∨
    state.1.currentBus = some (busI2c wiring)
  opened : state.1.currentBus = some (busSpi wiring) →
    state.1.board.devices.spi.ssDdr = true
  select : state.1.board.devices.spi.ssDdr = true →
    (state.1.board.devices.spi.ss = true ↔
      (state.1.currentBus = some (busSpi wiring) → state.2.Closed))
  tracks : state.1.currentBus = some (busI2c wiring) →
    state.1.board.devices.i2c.Tracks

/-- What transfers on a bus leave alone. -/
structure Transferred (bus : Option (BusInterface Devices))
    (before after : Board Devices) : Prop where
  ssDdr : after.devices.spi.ssDdr = before.devices.spi.ssDdr
  ss : after.devices.spi.ss = before.devices.spi.ss
  tracks : bus = some (busI2c wiring) → before.devices.i2c.Tracks →
    after.devices.i2c.Tracks

variable {wiring}

theorem Transferred.refl (bus : Option (BusInterface Devices))
    (board : Board Devices) : Transferred wiring bus board board :=
  ⟨rfl, rfl, fun _ tracks => tracks⟩

theorem Transferred.trans {bus : Option (BusInterface Devices)}
    {before between after : Board Devices}
    (earlier : Transferred wiring bus before between)
    (later : Transferred wiring bus between after) :
    Transferred wiring bus before after where
  ssDdr := later.ssDdr.trans earlier.ssDdr
  ss := later.ss.trans earlier.ss
  tracks := fun selected tracks =>
    later.tracks selected (earlier.tracks selected tracks)

theorem busSpi_ne_busI2c : busSpi wiring ≠ busI2c wiring := by
  intro same
  have xact := congrArg (fun bus => bus.xact.isSome) same
  cases xact

theorem busSpi_keeps :
    (busSpi wiring).Keeps (Transferred wiring (some (busSpi wiring))) where
  write := by
    rintro act ⟨⟩ c board
    exact ⟨rfl, rfl, fun _ tracks => tracks⟩
  read := by
    rintro act ⟨⟩ board
    exact ⟨rfl, rfl, fun _ tracks => tracks⟩
  xact := by
    rintro act ⟨⟩ c board
    exact ⟨rfl, rfl, fun _ tracks => tracks⟩
  command := by
    rintro act ⟨⟩ chars count board
    exact ⟨rfl, rfl, fun _ tracks => tracks⟩

theorem busI2c_keeps :
    (busI2c wiring).Keeps (Transferred wiring (some (busI2c wiring))) where
  write := by
    rintro act ⟨⟩ c board
    exact ⟨rfl, rfl, fun _ => tracks_call wiring.i2cSlave (.write c) board.i2c⟩
  read := by
    rintro act ⟨⟩ board
    exact ⟨rfl, rfl, fun _ => tracks_call wiring.i2cSlave .read board.i2c⟩
  xact := by
    rintro act ⟨⟩
  command := by
    rintro act ⟨⟩ chars count board
    exact ⟨rfl, rfl, fun _ =>
      tracks_call wiring.i2cSlave (.command chars count) board.i2c⟩

theorem PinsFollow.keeps {state : Shell Devices × Brackets}
    (follow : PinsFollow wiring state) :
    ∀ bus ∈ state.1.currentBus,
      bus.Keeps (Transferred wiring state.1.currentBus) := by
  intro bus selected
  rcases follow.bus with none | spi | i2c
  · rw [none] at selected
    cases selected
  · rw [spi] at selected ⊢
    obtain rfl := Option.some.inj selected
    exact busSpi_keeps
  · rw [i2c] at selected ⊢
    obtain rfl := Option.some.inj selected
    exact busI2c_keeps

theorem PinsFollow.idle {state : Shell Devices × Brackets}
    (follow : PinsFollow wiring state) : ChipSelectIdle wiring state.1 := by
  intro output other
  exact (follow.select output).mpr fun selected => absurd selected other

theorem PinsFollow.onSpi {state : Shell Devices × Brackets}
    (bus : state.1.currentBus = some (busSpi wiring))
    (output : state.1.board.devices.spi.ssDdr = true)
    (select : state.1.board.devices.spi.ss = true ↔ state.2.Closed) :
    PinsFollow wiring state where
  bus := .inr (.inl bus)
  opened := fun _ => output
  select := fun _ =>
    select.trans ⟨fun closed _ => closed, fun closed => closed bus⟩
  tracks := fun i2c =>
    absurd (Option.some.inj (bus.symm.trans i2c)) busSpi_ne_busI2c

theorem PinsFollow.offSpi {state : Shell Devices × Brackets}
    (bus : state.1.currentBus = none ∨
      (state.1.currentBus = some (busI2c wiring) ∧
        state.1.board.devices.i2c.Tracks))
    (idle : state.1.board.devices.spi.ssDdr = true →
      state.1.board.devices.spi.ss = true) : PinsFollow wiring state := by
  have other : state.1.currentBus ≠ some (busSpi wiring) := by
    intro spi
    rcases bus with none | ⟨i2c, _⟩
    · rw [none] at spi
      cases spi
    · exact busSpi_ne_busI2c (Option.some.inj (spi.symm.trans i2c))
  constructor
  · exact bus.imp id fun i2c => .inr i2c.1
  · intro spi
    exact absurd spi other
  · intro output
    exact iff_of_true (idle output) fun spi => absurd spi other
  · intro i2c
    rcases bus with none | ⟨_, tracks⟩
    · rw [none] at i2c
      cases i2c
    · exact tracks

theorem PinsFollow.transferred {shell after : Shell Devices}
    {brackets next : Brackets} (follow : PinsFollow wiring (shell, brackets))
    (bus : after.currentBus = shell.currentBus)
    (board : Transferred wiring shell.currentBus shell.board after.board)
    (last : next.last = brackets.last) : PinsFollow wiring (after, next) := by
  obtain ⟨selected, opened, select, tracks⟩ := follow
  constructor
  · rw [bus]
    exact selected
  · rw [bus, board.ssDdr]
    exact opened
  · rw [bus, board.ssDdr, board.ss, Brackets.Closed, last]
    exact select
  · rw [bus]
    intro current
    exact board.tracks current (tracks current)

theorem bracket_step {δ : Type} (c : Byte) (shell : Shell δ) :
    ∃ duplex, instructionStep (.bracket c) shell =
      Shell.call { shell with duplex := duplex }
        (if isOpening c then BusInterface.start else BusInterface.stop) := by
  simp only [instructionStep, openBracket, closeBracket]
  cases isOpening c with
  | false => exact ⟨false, rfl⟩
  | true =>
      by_cases brace : c = 0x7B
      · refine ⟨true, ?_⟩
        rw [if_pos brace]
        rfl
      · refine ⟨shell.duplex, ?_⟩
        rw [if_neg brace]
        rfl

theorem PinsFollow.bracket {state : Shell Devices × Brackets}
    (follow : PinsFollow wiring state) (c : Byte) :
    PinsFollow wiring (bracketsStep (.bracket c) state) := by
  have idle := follow.idle
  obtain ⟨⟨board, currentBus, duplex⟩, brackets⟩ := state
  obtain ⟨selected, opened, -, tracks⟩ := follow
  obtain ⟨next, step⟩ := bracket_step c (⟨board, currentBus, duplex⟩ : Shell Devices)
  simp only [bracketsStep, Run.observed, step]
  simp only at selected opened tracks
  rcases selected with rfl | rfl | rfl
  · apply PinsFollow.offSpi (.inl rfl)
    intro output
    exact idle output (by simp)
  · cases opening : isOpening c with
    | false =>
        apply PinsFollow.onSpi rfl (opened rfl)
        refine iff_of_true rfl ?_
        rintro _ ⟨⟩
        exact opening
    | true =>
        apply PinsFollow.onSpi rfl (opened rfl)
        refine iff_of_false Bool.false_ne_true ?_
        intro closed
        have notOpening := closed c rfl
        rw [opening] at notOpening
        cases notOpening
  · have released : board.devices.spi.ssDdr = true →
        board.devices.spi.ss = true := by
      intro output
      apply idle output
      intro spi
      exact busSpi_ne_busI2c (Option.some.inj spi).symm
    cases isOpening c with
    | false =>
        exact .offSpi (.inr ⟨rfl, tracks_call wiring.i2cSlave .stop board.i2c
          (tracks rfl)⟩) released
    | true =>
        exact .offSpi (.inr ⟨rfl, tracks_call wiring.i2cSlave .start board.i2c
          (tracks rfl)⟩) released

/-- A close handler changes neither the chip select nor the I2C pins. -/
theorem PinsFollow.close {state : Shell Devices × Brackets}
    (follow : PinsFollow wiring state) :
    (state.1.call BusInterface.close).board.devices.spi.ssDdr =
        state.1.board.devices.spi.ssDdr ∧
      (state.1.call BusInterface.close).board.devices.spi.ss =
        state.1.board.devices.spi.ss ∧
      (state.1.call BusInterface.close).board.devices.i2c =
        state.1.board.devices.i2c := by
  obtain ⟨⟨board, currentBus, duplex⟩, brackets⟩ := state
  obtain ⟨selected, -, -, -⟩ := follow
  simp only at selected
  rcases selected with rfl | rfl | rfl <;> exact ⟨rfl, rfl, rfl⟩

theorem PinsFollow.selectSpi {state : Shell Devices × Brackets}
    (brackets : Brackets) :
    PinsFollow wiring
      (busInit (some (busSpi wiring)) state.1,
        { brackets with last := none }) := by
  apply PinsFollow.onSpi rfl rfl
  exact iff_of_true rfl fun c member => by cases member

theorem PinsFollow.selectI2c {state : Shell Devices × Brackets}
    (follow : PinsFollow wiring state)
    (finished : state.1.currentBus = some (busSpi wiring) → state.2.Closed)
    (brackets : Brackets) :
    PinsFollow wiring (busInit (some (busI2c wiring)) state.1, brackets) := by
  obtain ⟨ssDdr, ss, -⟩ := follow.close
  apply PinsFollow.offSpi (.inr ⟨rfl, tracks_open wiring.i2cSlave _⟩)
  intro output
  have before : state.1.board.devices.spi.ssDdr = true := ssDdr.symm.trans output
  exact ss.trans ((follow.select before).mpr finished)

theorem globalCommands_cases {command : NamedCommand Devices}
    (listed : command ∈ globalCommands firmware wiring) :
    (∃ handler, command.kind = .acts handler ∧ ∀ args board bus,
      Transferred wiring bus board (handler args board).2) ∨
    (∃ boot, command.kind = .restarts boot ∧ ∀ board,
      (boot board).devices.spi.ssDdr = false) ∨
    command.kind = .selects (busSpi wiring) ∨
    command.kind = .selects (busI2c wiring) := by
  simp only [globalCommands, List.mem_cons, List.not_mem_nil, or_false] at listed
  rcases listed with rfl | rfl | rfl | rfl | rfl | rfl
  · exact .inl ⟨_, rfl, fun args board bus => ⟨rfl, rfl, fun _ tracks => tracks⟩⟩
  · exact .inl ⟨_, rfl, fun args board bus => ⟨rfl, rfl, fun _ tracks => tracks⟩⟩
  · refine .inl ⟨_, rfl, fun args board bus => ?_⟩
    unfold globalCommandLed
    split
    · split <;> exact ⟨rfl, rfl, fun _ tracks => tracks⟩
    · exact Transferred.refl bus board
  · exact .inr (.inl ⟨_, rfl, fun board => rfl⟩)
  · exact .inr (.inr (.inl rfl))
  · exact .inr (.inr (.inr rfl))

/-- The global commands are entries of the table. -/
def Instruction.Listed (firmware : Firmware) (wiring : Wiring)
    (instruction : Instruction Devices) : Prop :=
  ∀ command args, instruction = .globalCommand command args →
    command ∈ globalCommands firmware wiring

theorem selects_listed {instruction : Instruction Devices}
    (listed : instruction.Listed firmware wiring)
    {bus : BusInterface Devices} (selects : instruction.selects = some bus) :
    (bus = busSpi wiring ∨ bus = busI2c wiring) ∧
      ∀ shell, instructionStep instruction shell = busInit (some bus) shell := by
  cases instruction with
  | globalCommand command args =>
      obtain ⟨name, kind⟩ := command
      cases kind with
      | acts | restarts => cases selects
      | selects selected =>
          obtain rfl := Option.some.inj selects
          refine ⟨?_, fun shell => rfl⟩
          rcases globalCommands_cases firmware (listed _ _ rfl) with
            ⟨_, other, _⟩ | ⟨_, other, _⟩ | spi | i2c
          · cases other
          · cases other
          · exact .inl (CommandKind.selects.inj spi)
          · exact .inr (CommandKind.selects.inj i2c)
  | bracket | number | read | busCommand => cases selects

theorem PinsFollow.step (instruction : Instruction Devices)
    (state : Shell Devices × Brackets)
    (listed : instruction.Listed firmware wiring)
    (follow : PinsFollow wiring state)
    (finished : LeavesFinished wiring instruction state) :
    PinsFollow wiring (bracketsStep instruction state) := by
  have transfer : instruction.transfers = true →
      (instructionStep instruction state.1).currentBus = state.1.currentBus ∧
        Transferred wiring state.1.currentBus state.1.board
          (instructionStep instruction state.1).board :=
    transfers_keep (Transferred.refl _) Transferred.trans
      (fun str shell => ⟨rfl, rfl, fun _ tracks => tracks⟩) follow.keeps
  cases instruction with
  | bracket c => exact follow.bracket c
  | number | read | busCommand =>
      obtain ⟨bus, board⟩ := transfer rfl
      exact follow.transferred bus board rfl
  | globalCommand command args =>
      obtain ⟨name, kind⟩ := command
      rcases globalCommands_cases firmware (listed _ _ rfl) with
        ⟨handler, acts, keeps⟩ | ⟨boot, restarts, released⟩ | spi | i2c
      · simp only at acts
        subst acts
        have board := keeps args state.1.board state.1.currentBus
        rcases result : handler args state.1.board with ⟨ok, after⟩
        rw [result] at board
        simp only [bracketsStep, Run.observed, instructionStep,
          CommandKind.handler, result]
        cases ok with
        | false =>
            exact follow.transferred rfl
              (board.trans ⟨rfl, rfl, fun _ tracks => tracks⟩) rfl
        | true => exact follow.transferred rfl board rfl
      · simp only at restarts
        subst restarts
        apply PinsFollow.offSpi (.inl rfl)
        intro output
        have input := released state.1.board
        exact absurd (input.symm.trans output) Bool.false_ne_true
      · simp only at spi
        subst spi
        exact .selectSpi state.2
      · simp only at i2c
        subst i2c
        have closed := (finished (busI2c wiring) rfl).1
        exact follow.selectI2c
          (fun spi => closed spi busSpi_ne_busI2c.symm) _

/-- Where the invariant holds, a switch leaves the old bus idle exactly if
its last transaction is finished. -/
theorem leavesIdle_iff (instruction : Instruction Devices)
    (state : Shell Devices × Brackets)
    (listed : instruction.Listed firmware wiring)
    (follow : PinsFollow wiring state) :
    LeavesIdle wiring instruction state ↔
      LeavesFinished wiring instruction state := by
  obtain ⟨ssDdr, ss, i2c⟩ := follow.close
  constructor
  · rintro ⟨idle, free⟩ bus selects
    obtain ⟨either, step⟩ := selects_listed firmware listed selects
    refine ⟨fun spi other => ?_, fun current => ?_⟩
    · obtain rfl := either.resolve_left other
      rw [step] at idle
      have deasserted : state.1.board.devices.spi.ss = true := by
        rw [← ss]
        apply idle
        · exact ssDdr.trans (follow.opened spi)
        · intro selected
          exact busSpi_ne_busI2c (Option.some.inj selected).symm
      exact (follow.select (follow.opened spi)).mp deasserted spi
    · have released := free bus selects current
      rw [i2c] at released
      exact (follow.tracks current).mp released
  · intro finished
    refine ⟨(follow.step firmware instruction state listed finished).idle, ?_⟩
    intro bus selects current
    rw [i2c]
    exact (follow.tracks current).mpr ((finished bus selects).2 current)

theorem pinsFollow_started :
    PinsFollow wiring (Shell.started firmware, Brackets.start) := by
  apply PinsFollow.offSpi (.inl rfl)
  intro output
  cases output

end

/-- In a session every bus is left idle exactly if SPI is left only when its
last bracket is not an opening one, and I2C only after a STOP. -/
theorem switches_leave_idle_iff (firmware : Firmware) (wiring : Wiring)
    (lines : List (List Byte)) :
    executeLines (globalCommandTable firmware wiring) lines
          (Shell.started firmware) =
        some (Run.run bracketsStep (session (globalCommands firmware wiring) lines)
          (Shell.started firmware, .start)).1 ∧
      (Run.Meets bracketsStep (LeavesIdle wiring)
          (session (globalCommands firmware wiring) lines)
          (Shell.started firmware, .start) ↔
        Run.Meets bracketsStep (LeavesFinished wiring)
          (session (globalCommands firmware wiring) lines)
          (Shell.started firmware, .start)) := by
  have listed : ∀ instruction ∈ session (globalCommands firmware wiring) lines,
      instruction.Listed firmware wiring := by
    rintro _ member command args rfl
    exact session_listed _ lines command args member
  constructor
  · exact executeLines_brackets _ lines _
  · exact Run.meets_iff_of_allowed (leavesIdle_iff firmware)
      (fun instruction state listed follow finished =>
        follow.step firmware instruction state listed finished)
      listed (pinsFollow_started firmware)

/-- A `[` that is left open on SPI: the slave is still selected on I2C. -/
theorem open_bracket_keeps_slave_selected :
    ¬ ∀ (lines : List (List Byte)) (shell : Shell Devices),
      executeLines
          (globalCommandTable ⟨[], fun _ _ => 0⟩
            ⟨Slave.pulling [], fun _ => 0, false⟩)
          lines (Shell.started ⟨[], fun _ _ => 0⟩) = some shell →
        ChipSelectIdle ⟨Slave.pulling [], fun _ => 0, false⟩ shell := by
  intro always
  have run : (executeLines
        (globalCommandTable ⟨[], fun _ _ => 0⟩
          ⟨Slave.pulling [], fun _ => 0, false⟩)
        [text "spi", text "[", text "i2c"]
        (Shell.started ⟨[], fun _ _ => 0⟩)).map
      (fun shell => (shell.board.devices.spi.ssDdr, shell.board.devices.spi.ss,
        shell.currentBus.map fun bus => bus.xact.isSome)) =
      some (true, false, some false) := by
    decide +kernel
  obtain ⟨shell, executed, facts⟩ := Option.map_eq_some_iff.mp run
  simp only [Prod.mk.injEq] at facts
  obtain ⟨output, asserted, bus⟩ := facts
  have other : shell.currentBus ≠
      some (busSpi ⟨Slave.pulling [], fun _ => 0, false⟩) := by
    intro spi
    rw [spi] at bus
    cases bus
  have idle := always _ shell executed output other
  rw [asserted] at idle
  cases idle

end BusNinja
