import BusNinja.ConsoleSessions
import BusNinja.Source.DriverTick

/-!
# The console beside the LED

The sequence of the LED plays while lines are typed and executed.  The buses
neither read nor write its statics, and of the commands only `led` and `reset`
write them.  So the program ticks as it would without `led_tick`, but for how
far the selected sequence has played.
-/

namespace BusNinja

/-- The handler leaves the LED alone. -/
def Unlit (act : Board Devices → Board Devices) : Prop :=
  ∀ led board, act (board.setLed led) = (act board).setLed led

theorem Unlit.led {act : Board Devices → Board Devices} (unlit : Unlit act)
    (board : Board Devices) : (act board).devices.led = board.devices.led :=
  congrArg (fun board => board.devices.led) (unlit board.devices.led board)

theorem Unlit.iterate {act : Board Devices → Board Devices} (unlit : Unlit act)
    (count : Nat) : Unlit act^[count] := by
  induction count with
  | zero => exact fun _ _ => rfl
  | succ count induction =>
      intro led board
      rw [Function.iterate_succ_apply, unlit, induction]
      rfl

structure BusInterface.Unlit (bus : BusInterface Devices) : Prop where
  openBus : ∀ act ∈ bus.openBus, BusNinja.Unlit act
  close : ∀ act ∈ bus.close, BusNinja.Unlit act
  start : ∀ act ∈ bus.start, BusNinja.Unlit act
  stop : ∀ act ∈ bus.stop, BusNinja.Unlit act
  write : ∀ act ∈ bus.write, ∀ c, BusNinja.Unlit (act c)
  read : ∀ act ∈ bus.read, BusNinja.Unlit act
  xact : ∀ act ∈ bus.xact, ∀ c, BusNinja.Unlit (act c)
  command : ∀ act ∈ bus.command, ∀ chars count led board,
    act chars count (board.setLed led) =
      ((act chars count board).1, (act chars count board).2.setLed led)

theorem onSpi_unlit (act : BusSpi → BusSpi) : Unlit (onSpi act) :=
  fun _ _ => rfl

theorem onI2c_unlit (act : BusI2c → BusI2c) : Unlit (onI2c act) :=
  fun _ _ => rfl

theorem busSpi_unlit (wiring : Wiring) : (busSpi wiring).Unlit where
  openBus := by
    rintro act ⟨⟩ led board
    simp only [claimPins]
    split <;> rfl
  close := by
    rintro act ⟨⟩
    exact onSpi_unlit _
  start := by
    rintro act ⟨⟩
    exact onSpi_unlit _
  stop := by
    rintro act ⟨⟩
    exact onSpi_unlit _
  write := by
    rintro act ⟨⟩ c
    exact onSpi_unlit _
  read := by
    rintro act ⟨⟩
    exact onSpi_unlit _
  xact := by
    rintro act ⟨⟩ c
    exact onSpi_unlit _
  command := by
    rintro act ⟨⟩ chars count led board
    rfl

theorem busI2c_unlit (wiring : Wiring) : (busI2c wiring).Unlit where
  openBus := by
    rintro act ⟨⟩
    exact onI2c_unlit _
  close := by
    rintro act ⟨⟩
    exact onI2c_unlit _
  start := by
    rintro act ⟨⟩
    exact onI2c_unlit _
  stop := by
    rintro act ⟨⟩
    exact onI2c_unlit _
  write := by
    rintro act ⟨⟩ c
    exact onI2c_unlit _
  read := by
    rintro act ⟨⟩
    exact onI2c_unlit _
  xact := by rintro act ⟨⟩
  command := by
    rintro act ⟨⟩ chars count led board
    rfl

/-- The boards are the same, but for how far the sequence has played. -/
structure Board.ButLed (lit board : Board Devices) : Prop where
  setLed : lit = board.setLed lit.devices.led
  curSeq : lit.devices.led.curSeq = board.devices.led.curSeq

theorem Board.ButLed.cases {lit board : Board Devices} (same : lit.ButLed board) :
    ∃ led, lit = board.setLed led ∧ led.curSeq = board.devices.led.curSeq :=
  ⟨lit.devices.led, same.setLed, same.curSeq⟩

theorem Unlit.keeps {act : Board Devices → Board Devices} (unlit : Unlit act)
    {lit board : Board Devices} (same : lit.ButLed board) :
    (act lit).ButLed (act board) := by
  obtain ⟨led, rfl, curSeq⟩ := same.cases
  rw [unlit]
  exact ⟨rfl, curSeq.trans (congrArg Led.curSeq (unlit.led board).symm)⟩

/-- The command keeps boards the same, and answers alike. -/
inductive CommandKind.KeepsButLed : CommandKind Devices → Prop where
  | acts {handler : List Byte → Board Devices → Bool × Board Devices} :
      (∀ args {lit board : Board Devices}, lit.ButLed board →
        (handler args lit).1 = (handler args board).1 ∧
          (handler args lit).2.ButLed (handler args board).2) →
      KeepsButLed (.acts handler)
  | selects {bus : BusInterface Devices} : bus.Unlit → KeepsButLed (.selects bus)
  | restarts {boot : Board Devices → Board Devices} :
      (∀ {lit board : Board Devices}, lit.ButLed board →
        (boot lit).ButLed (boot board)) →
      KeepsButLed (.restarts boot)

theorem putLines_unlit (names : List String) :
    Unlit fun board =>
      names.foldl (fun board name => board.putLine (text name)) board := by
  induction names with
  | nil => exact fun _ _ => rfl
  | cons name names induction =>
      intro led board
      exact induction led (board.putLine (text name))

theorem globalCommandLed_keepsButLed :
    CommandKind.KeepsButLed (.acts globalCommandLed) := by
  refine .acts fun args lit board same => ?_
  obtain ⟨led, rfl, curSeq⟩ := same.cases
  unfold globalCommandLed
  split
  · split
    · exact ⟨rfl, rfl, curSeq⟩
    · exact ⟨rfl, rfl, rfl⟩
  · exact ⟨rfl, rfl, curSeq⟩

section

variable (firmware : Firmware)

theorem cpuReset_keepsButLed :
    CommandKind.KeepsButLed (.restarts (cpuReset firmware)) := by
  refine .restarts fun same => ?_
  obtain ⟨led, rfl, -⟩ := same.cases
  exact ⟨rfl, rfl⟩

theorem globalCommands_keepButLed (wiring : Wiring) :
    ∀ command ∈ globalCommands firmware wiring, command.kind.KeepsButLed := by
  intro command listed
  simp only [globalCommands, List.mem_cons, List.not_mem_nil, or_false] at listed
  rcases listed with rfl | rfl | rfl | rfl | rfl | rfl
  · have unlit : Unlit (Board.putLine firmware.version) := fun _ _ => rfl
    exact .acts fun _ _ _ same => ⟨rfl, unlit.keeps same⟩
  · exact .acts fun _ _ _ same =>
      ⟨rfl, (putLines_unlit commandNames).keeps same⟩
  · exact globalCommandLed_keepsButLed
  · exact cpuReset_keepsButLed firmware
  · exact .selects (busSpi_unlit wiring)
  · exact .selects (busI2c_unlit wiring)

end

/-- The shells are the same but for the LED, on a bus that leaves it alone. -/
structure Shell.ButLed (lit shell : Shell Devices) : Prop where
  setLed : lit = shell.setLed lit.board.devices.led
  curSeq : lit.board.devices.led.curSeq = shell.board.devices.led.curSeq
  unlit : ∀ bus ∈ shell.currentBus, bus.Unlit

theorem Shell.ButLed.cases {lit shell : Shell Devices} (same : lit.ButLed shell) :
    ∃ led, lit = shell.setLed led ∧ led.curSeq = shell.board.devices.led.curSeq :=
  ⟨lit.board.devices.led, same.setLed, same.curSeq⟩

/-- What the LED has no part in. -/
theorem Shell.ButLed.act {act : Shell Devices → Shell Devices}
    {lit shell : Shell Devices} (same : lit.ButLed shell)
    (unlit : ∀ led, act (shell.setLed led) = (act shell).setLed led)
    (selected : (act shell).currentBus = shell.currentBus) :
    (act lit).ButLed (act shell) := by
  have led : (act shell).board.devices.led = shell.board.devices.led :=
    congrArg (fun shell => shell.board.devices.led)
      (unlit shell.board.devices.led)
  obtain ⟨played, rfl, curSeq⟩ := same.cases
  rw [unlit]
  exact ⟨rfl, curSeq.trans (congrArg Led.curSeq led.symm),
    selected ▸ same.unlit⟩

theorem Shell.call_setLed {shell : Shell Devices}
    {handler : BusInterface Devices → Option (Board Devices → Board Devices)}
    (unlit : ∀ bus ∈ shell.currentBus, ∀ act ∈ handler bus, Unlit act)
    (led : Led) :
    (shell.setLed led).call handler = (shell.call handler).setLed led ∧
      (shell.call handler).currentBus = shell.currentBus := by
  obtain ⟨board, currentBus, duplex⟩ := shell
  unfold Shell.call
  cases currentBus with
  | none => exact ⟨rfl, rfl⟩
  | some bus =>
      dsimp only [Shell.setLed]
      cases found : handler bus with
      | none => exact ⟨rfl, rfl⟩
      | some act =>
          have same := unlit bus rfl act found led board
          exact ⟨by simp only [same], rfl⟩

namespace Shell.ButLed

variable {lit shell : Shell Devices} (same : lit.ButLed shell)

include same

theorem call {handler : BusInterface Devices → Option (Board Devices → Board Devices)}
    (unlit : ∀ bus : BusInterface Devices, bus.Unlit → ∀ act ∈ handler bus,
      Unlit act) :
    (lit.call handler).ButLed (shell.call handler) := by
  have here := fun bus current => unlit bus (same.unlit bus current)
  exact @act (fun shell => shell.call handler) _ _ same
    (fun led => (call_setLed here led).1)
    (call_setLed here lit.board.devices.led).2

theorem busInit {bus : Option (BusInterface Devices)}
    (selected : ∀ next ∈ bus, next.Unlit) :
    (busInit bus lit).ButLed (busInit bus shell) := by
  have closed := same.call fun bus unlit => unlit.close
  obtain ⟨led, set, curSeq⟩ := closed.cases
  have changed : ButLed { lit.call BusInterface.close with currentBus := bus }
      { shell.call BusInterface.close with currentBus := bus } := by
    rw [set]
    exact ⟨rfl, curSeq, selected⟩
  exact changed.call fun bus unlit => unlit.openBus

theorem putLine (str : String) : (lit.putLine str).ButLed (shell.putLine str) :=
  same.act (fun _ => rfl) rfl

theorem badCmd : (BusNinja.badCmd lit).2.ButLed (BusNinja.badCmd shell).2 :=
  same.putLine "BadCmd"

theorem repeatCall {act : Board Devices → Board Devices} (unlit : Unlit act)
    (count : BitVec 32) :
    (repeatCall act count lit).ButLed (BusNinja.repeatCall act count shell) := by
  refine same.act (fun led => ?_) rfl
  simp only [BusNinja.repeatCall, Shell.setLed, unlit.iterate count.toNat led]

theorem bracket (c : Byte) :
    (instructionStep (.bracket c) lit).ButLed
      (instructionStep (.bracket c) shell) := by
  have duplex : ∀ duplex, ButLed { lit with duplex := duplex }
      { shell with duplex := duplex } := fun duplex =>
    @act (fun shell => { shell with duplex := duplex }) _ _ same
      (fun _ => rfl) rfl
  simp only [instructionStep]
  split
  · unfold openBracket
    split
    · exact (duplex true).call fun bus unlit => unlit.start
    · exact same.call fun bus unlit => unlit.start
  · exact (duplex false).call fun bus unlit => unlit.stop

theorem currentBus : lit.currentBus = shell.currentBus := by
  rw [same.setLed]
  rfl

theorem number (num : Byte) (count : BitVec 32) :
    (instructionStep (.number num count) lit).ButLed
      (instructionStep (.number num count) shell) := by
  have handlers : lit.numberHandler = shell.numberHandler := by
    rw [same.setLed]
    rfl
  simp only [instructionStep, handlers]
  cases found : shell.numberHandler with
  | none => exact same.badCmd
  | some act =>
      obtain ⟨bus, current, handler⟩ := Option.bind_eq_some_iff.mp found
      have unlit := same.unlit bus current
      refine same.repeatCall ?_ count
      split at handler
      · exact unlit.xact act handler num
      · exact unlit.write act handler num

theorem read (count : BitVec 32) :
    (instructionStep (.read count) lit).ButLed
      (instructionStep (.read count) shell) := by
  simp only [instructionStep, same.currentBus]
  cases found : shell.currentBus.bind BusInterface.read with
  | none => exact same.badCmd
  | some act =>
      obtain ⟨bus, current, handler⟩ := Option.bind_eq_some_iff.mp found
      exact same.repeatCall ((same.unlit bus current).read act handler) count

theorem busCommand (chars : List Byte) (count : BitVec 32) :
    (instructionStep (.busCommand chars count) lit).ButLed
      (instructionStep (.busCommand chars count) shell) := by
  simp only [instructionStep, handleBusCommand, same.currentBus]
  cases found : shell.currentBus.bind BusInterface.command with
  | none => exact same.badCmd
  | some act =>
      obtain ⟨bus, current, handler⟩ := Option.bind_eq_some_iff.mp found
      have unlit := (same.unlit bus current).command act handler chars count
      have performed : ButLed
          { lit with board := (act chars count lit.board).2 }
          { shell with board := (act chars count shell.board).2 } := by
        refine @Shell.ButLed.act (fun shell =>
          { shell with board := (act chars count shell.board).2 }) _ _ same
          (fun led => ?_) rfl
        simp only [Shell.setLed, unlit led]
      have answer : (act chars count lit.board).1 =
          (act chars count shell.board).1 := by
        rw [same.setLed, Shell.setLed, unlit]
      rw [same.currentBus] at performed
      simp only [answer]
      split
      · exact performed
      · exact performed.badCmd

theorem board : lit.board.ButLed shell.board :=
  ⟨congrArg Shell.board same.setLed, same.curSeq⟩

theorem globalCommand {command : NamedCommand Devices}
    (keeps : command.kind.KeepsButLed) (args : List Byte) :
    (instructionStep (.globalCommand command args) lit).ButLed
      (instructionStep (.globalCommand command args) shell) := by
  obtain ⟨name, kind⟩ := command
  cases keeps with
  | @acts handler alike =>
      obtain ⟨answer, board⟩ := alike args same.board
      have performed : ButLed { lit with board := (handler args lit.board).2 }
          { shell with board := (handler args shell.board).2 } := by
        obtain ⟨led, set, curSeq⟩ := board.cases
        obtain ⟨played, rfl, -⟩ := same.cases
        rw [set]
        exact ⟨rfl, curSeq, same.unlit⟩
      simp only [instructionStep, CommandKind.handler, answer]
      by_cases ok : (handler args shell.board).1 = true
      · simp only [ok]
        exact performed
      · simp only [ok]
        exact performed.putLine "Error"
  | selects unlit =>
      exact same.busInit fun next selected => Option.some.inj selected ▸ unlit
  | @restarts boot keeps =>
      have restarted : ButLed
          { board := boot lit.board, currentBus := none, duplex := false }
          { board := boot shell.board, currentBus := none, duplex := false } := by
        obtain ⟨led, set, curSeq⟩ := (keeps same.board).cases
        rw [set]
        exact ⟨rfl, curSeq, by simp⟩
      have none : ∀ next ∈ (none : Option (BusInterface Devices)),
          next.Unlit := by
        intro next selected
        cases selected
      exact restarted.busInit none

theorem step {instruction : Instruction Devices}
    (keeps : ∀ command args, instruction = .globalCommand command args →
      command.kind.KeepsButLed) :
    (instructionStep instruction lit).ButLed
      (instructionStep instruction shell) := by
  cases instruction with
  | bracket c => exact same.bracket c
  | number num count => exact same.number num count
  | read count => exact same.read count
  | busCommand chars count => exact same.busCommand chars count
  | globalCommand command args =>
      exact same.globalCommand (keeps command args rfl) args

end Shell.ButLed

theorem commandLine_butLed {commands : List (NamedCommand Devices)}
    (keep : ∀ command ∈ commands, command.kind.KeepsButLed) (line : List Byte)
    {lit shell : Shell Devices} (same : lit.ButLed shell) :
    (commandLine commands line lit).ButLed (commandLine commands line shell) := by
  rw [commandLine_run, commandLine_run]
  refine Run.run_related (fun instruction lit shell listed same => ?_)
    (fun instruction member => member) same
  refine same.step fun command args global => keep command ?_
  subst global
  refine session_listed commands [line] command args ?_
  simpa [session] using listed

/-- The programs are the same but for the LED. -/
structure Ninja.ButLed (lit ninja : Ninja Devices) : Prop where
  outside : lit = { ninja with shell := lit.shell }
  shell : lit.shell.ButLed ninja.shell

namespace Ninja.ButLed

variable {lit ninja : Ninja Devices} (same : lit.ButLed ninja)

include same

theorem cases : ∃ led, lit = ninja.setLed led ∧
    led.curSeq = ninja.shell.board.devices.led.curSeq := by
  obtain ⟨led, set, curSeq⟩ := same.shell.cases
  refine ⟨led, ?_, curSeq⟩
  rw [same.outside, set]
  rfl

theorem cdc : lit.cdc = ninja.cdc := by
  rw [same.outside]

theorem input : lit.input = ninja.input := by
  rw [same.outside]

theorem act {act : Ninja Devices → Ninja Devices}
    (unlit : ∀ led, act (ninja.setLed led) = (act ninja).setLed led)
    (selected : (act ninja).shell.currentBus = ninja.shell.currentBus) :
    (act lit).ButLed (act ninja) := by
  have led : (act ninja).shell.board.devices.led =
      ninja.shell.board.devices.led :=
    congrArg (fun ninja => ninja.shell.board.devices.led)
      (unlit ninja.shell.board.devices.led)
  obtain ⟨played, rfl, curSeq⟩ := same.cases
  rw [unlit]
  exact ⟨rfl, rfl, curSeq.trans (congrArg Led.curSeq led.symm),
    selected ▸ same.shell.unlit⟩

theorem rx (c : Byte) : (lit.rx c).ButLed (ninja.rx c) :=
  same.act (fun _ => rfl) rfl

theorem finishLine : lit.finishLine.ButLed ninja.finishLine :=
  same.act (fun _ => rfl) rfl

theorem keyPoll : lit.keyPoll.ButLed ninja.keyPoll := same.act (fun _ => rfl) rfl

omit same in
theorem cdcLoop (rounds : Nat) {lit ninja : Ninja Devices}
    (same : lit.ButLed ninja) :
    (cdcLoop rounds lit).ButLed (BusNinja.cdcLoop rounds ninja) := by
  induction rounds generalizing lit ninja with
  | zero => exact same
  | succ rounds induction =>
      have rest : ∀ endpoint, ButLed { lit with cdc.endpoint := endpoint }
          { ninja with cdc.endpoint := endpoint } := fun endpoint =>
        @act _ _ same (fun ninja => { ninja with cdc.endpoint := endpoint })
          (fun _ => rfl) rfl
      unfold BusNinja.cdcLoop
      rw [same.cdc, same.input] at rest
      rw [same.cdc, same.input]
      cases ninja.cdc.endpoint with
      | nil => exact same
      | cons c endpoint =>
          dsimp only
          split
          · split
            · exact induction ((rest endpoint).rx c)
            · exact @act _ _ (rest endpoint)
                (fun ninja => { ninja with taken := ninja.taken ++ [c] })
                (fun _ => rfl) rfl
          · exact same

section

variable {execute : List Byte → Shell Devices → Shell Devices}
  (keeps : ∀ line {lit shell : Shell Devices}, lit.ButLed shell →
    (execute line lit).ButLed (execute line shell))

include keeps

theorem consoleTick :
    (consoleTick execute lit).ButLed (BusNinja.consoleTick execute ninja) := by
  have executed : (lit.executeLine execute).ButLed (ninja.executeLine execute) := by
    obtain ⟨led, rfl, -⟩ := same.cases
    exact ⟨rfl, keeps ninja.input.cmdline same.shell⟩
  unfold BusNinja.consoleTick
  rw [same.input]
  split
  · split
    · split
      · exact executed.finishLine
      · exact same.finishLine
    · exact same
  · exact same

theorem driverTick (received : Option Byte) :
    (driverTick execute received lit).ButLed
      (BusNinja.driverTick execute received ninja) := by
  have uart : (hwUartTick received lit).ButLed (hwUartTick received ninja) := by
    cases received with
    | none => exact same
    | some c => exact same.rx c
  have usb : (usbdevCdcTick (hwUartTick received lit)).ButLed
      (usbdevCdcTick (hwUartTick received ninja)) := by
    unfold usbdevCdcTick
    rw [uart.cdc]
    split
    · exact uart
    · exact uart.cdcLoop cdcBufsize
  exact usb.consoleTick keeps

theorem inputStep (cdcConsole : Bool) (event : InputEvent) :
    (inputStep execute cdcConsole event lit).ButLed
      (BusNinja.inputStep execute cdcConsole event ninja) := by
  cases event with
  | arrive sent => exact same.act (fun _ => rfl) rfl
  | connect isConnected => exact same.act (fun _ => rfl) rfl
  | driverTick received => exact same.driverTick keeps received
  | keyPoll => exact same.keyPoll

end

end Ninja.ButLed

/-- A tick of the LED does not select another sequence. -/
theorem ledTick_curSeq (fCpu ticks tickGet : BitVec 32) (driver : LedDriver) :
    (ledTick fCpu ticks tickGet driver).led.curSeq = driver.led.curSeq := by
  unfold ledTick
  split
  · unfold ledSeqTick
    dsimp only
    split <;> rfl
  · rfl

section

variable {execute : List Byte → Shell Devices → Shell Devices}
  (keeps : ∀ line {lit shell : Shell Devices}, lit.ButLed shell →
    (execute line lit).ButLed (execute line shell))

include keeps

theorem clockedStep_butLed (fCpu : BitVec 32) (cdcConsole : Bool)
    (clocked : ClockedEvent) {program : LedNinja} {ninja : Ninja Devices}
    (same : program.ninja.ButLed ninja) :
    (clockedStep execute fCpu cdcConsole clocked program).ninja.ButLed
      (inputStep execute cdcConsole clocked.event ninja) := by
  obtain ⟨event, ticks, tickGet⟩ := clocked
  cases event with
  | arrive sent => exact same.inputStep keeps cdcConsole (.arrive sent)
  | connect isConnected =>
      exact same.inputStep keeps cdcConsole (.connect isConnected)
  | keyPoll => exact same.inputStep keeps cdcConsole .keyPoll
  | driverTick received =>
      have ticked := same.driverTick keeps received
      obtain ⟨led, set, curSeq⟩ := ticked.cases
      refine ⟨?_, ?_, ?_, ticked.shell.unlit⟩
      · simp only [clockedStep, driverTickLed, LedNinja.setDriver, set]
        rfl
      · simp only [clockedStep, driverTickLed, LedNinja.setDriver, set]
        rfl
      · refine (ledTick_curSeq fCpu ticks tickGet _).trans ?_
        exact ticked.shell.curSeq

/-- The program runs as without `led_tick`, but for how far the sequence has
played. -/
theorem clocked_run_butLed (fCpu : BitVec 32) (cdcConsole : Bool)
    (events : List ClockedEvent) {program : LedNinja} {ninja : Ninja Devices}
    (same : program.ninja.ButLed ninja) :
    (Run.run (clockedStep execute fCpu cdcConsole) events program).ninja.ButLed
      (Run.run (inputStep execute cdcConsole) (events.map ClockedEvent.event)
        ninja) := by
  induction events generalizing program ninja with
  | nil => exact same
  | cons clocked events induction =>
      exact induction (clockedStep_butLed keeps fCpu cdcConsole clocked same)

end

/-- Without the LED: the host types lines, in whatever packets and with
whatever ticks between, and all has been taken. -/
theorem sent_lines_agree (firmware : Firmware) (wiring : Wiring)
    {lines : List (List Byte)} {events : List InputEvent} {ticks : Nat}
    (typeable : ∀ line ∈ lines, Typeable (globalCommands firmware wiring) line)
    (overUsb : ∀ event ∈ events, event.overUsb = true)
    (sent : sentBytes events = typedText lines)
    (enough : (typedText lines).length ≤ ticks) :
    (Run.run (inputStep (commandLine (globalCommands firmware wiring)) true)
        (.connect true :: events ++ List.replicate ticks (.driverTick none))
        (.powerOn (Shell.started firmware))).shell.Agrees
      (Run.run instructionStep (session (globalCommands firmware wiring) lines)
        (Shell.started firmware)) := by
  obtain ⟨ninja, ran, _, typed⟩ :=
    sent_typed (commandLine (globalCommands firmware wiring))
      (Shell.started firmware) overUsb (sent ▸ enough)
  have started : (Shell.started firmware).Agrees (Shell.started firmware) :=
    ⟨⟨rfl, rfl⟩, rfl, rfl, nofun⟩
  obtain ⟨repl, shown, _, agrees⟩ :=
    typed_lines_agree (globalCommands_agreeing firmware wiring) typeable started
  rw [sent, typedAt, shown] at typed
  rw [typed] at agrees
  rw [← ran]
  exact agrees

/-- The host types lines, in whatever packets and with whatever ticks between,
while the LED plays: when all has been taken, the devices but for how far the
selected sequence has played, the selected bus, the `duplex` flag and the bytes
handed on are those after executing the lines. -/
theorem typed_lines_reach_buses (firmware : Firmware) (wiring : Wiring)
    (fCpu : BitVec 32) {lines : List (List Byte)}
    {events ticks : List ClockedEvent}
    (typeable : ∀ line ∈ lines, Typeable (globalCommands firmware wiring) line)
    (overUsb : ∀ clocked ∈ events, clocked.event.overUsb = true)
    (sent : sentBytes (events.map ClockedEvent.event) = typedText lines)
    (ticking : ∀ clocked ∈ ticks, clocked.event = .driverTick none)
    (enough : (typedText lines).length ≤ ticks.length) :
    ∃ program after,
      program = Run.run
        (clockedStep (commandLine (globalCommands firmware wiring)) fCpu true)
        (⟨.connect true, 0, 0⟩ :: events ++ ticks)
        (.powerOn (Shell.started firmware)) ∧
      executeLines (globalCommandTable firmware wiring) lines
        (Shell.started firmware) = some after ∧
      { program.ninja.shell.board.devices with
        led := after.board.devices.led } = after.board.devices ∧
      program.ninja.shell.board.devices.led.curSeq =
        after.board.devices.led.curSeq ∧
      program.ninja.shell.board.out.handed = after.board.out.handed ∧
      program.ninja.shell.currentBus = after.currentBus ∧
      program.ninja.shell.duplex = after.duplex := by
  have usb : ∀ event ∈ events.map ClockedEvent.event, event.overUsb = true :=
    List.forall_mem_map.mpr overUsb
  have idle : ticks.map ClockedEvent.event =
      List.replicate ticks.length (.driverTick none) :=
    List.map_eq_replicate_iff.mpr ticking
  have agrees := sent_lines_agree firmware wiring typeable usb sent enough
  have started : (LedNinja.powerOn (Shell.started firmware)).ninja.ButLed
      (.powerOn (Shell.started firmware)) := ⟨rfl, rfl, rfl, nofun⟩
  have same := clocked_run_butLed
    (commandLine_butLed (globalCommands_keepButLed firmware wiring)) fCpu true
    (⟨.connect true, 0, 0⟩ :: events ++ ticks) started
  rw [List.cons_append, List.map_cons, List.map_append, idle] at same
  obtain ⟨led, set, -⟩ := same.cases
  refine ⟨_, _, rfl, executeLines_session lines _, ?_, ?_, ?_, ?_, ?_⟩
  · rw [List.cons_append, set, ← agrees.board.devices]
    rfl
  · rw [List.cons_append, ← agrees.board.devices]
    exact same.shell.curSeq
  · rw [List.cons_append, set, ← agrees.board.handed]
    rfl
  · rw [List.cons_append, set, ← agrees.currentBus]
    rfl
  · rw [List.cons_append, set, ← agrees.duplex]
    rfl

/-- `spi` and `r:2` in three packets, at 16 MHz and a step of the LED between
most ticks. -/
theorem typed_lines_reach_buses_spi :
    ∃ program after,
      program = Run.run
        (clockedStep (commandLine (globalCommands ⟨[], fun _ _ => 0⟩
          ⟨Slave.pulling [], fun _ => 0x9F, false⟩)) 16000000 true)
        (⟨.connect true, 0, 0⟩ ::
            [⟨.arrive (text "sp"), 0, 0⟩, ⟨.driverTick none, 1, 1⟩,
              ⟨.arrive (0x69 :: 0x0D :: text "r:"), 0, 0⟩,
              ⟨.arrive [0x32, 0x0D], 0, 0⟩] ++
          (List.range 8).map fun n =>
            ⟨.driverTick none, BitVec.ofNat 32 (300 * n), BitVec.ofNat 32 (300 * n)⟩)
        (.powerOn (Shell.started ⟨[], fun _ _ => 0⟩)) ∧
      executeLines (globalCommandTable ⟨[], fun _ _ => 0⟩
          ⟨Slave.pulling [], fun _ => 0x9F, false⟩) [text "spi", text "r:2"]
        (Shell.started ⟨[], fun _ _ => 0⟩) = some after ∧
      { program.ninja.shell.board.devices with
        led := after.board.devices.led } = after.board.devices ∧
      program.ninja.shell.board.devices.led.curSeq =
        after.board.devices.led.curSeq ∧
      program.ninja.shell.board.out.handed = after.board.out.handed ∧
      program.ninja.shell.currentBus = after.currentBus ∧
      program.ninja.shell.duplex = after.duplex := by
  refine typed_lines_reach_buses _ _ 16000000 ?_ (by decide) (by decide)
    (by decide) (by decide)
  refine List.forall_mem_cons.mpr ⟨?_, List.forall_mem_singleton.mpr ?_⟩
  · exact ⟨by decide, by decide, by decide +kernel⟩
  · exact ⟨by decide, by decide, by decide +kernel⟩

end BusNinja
