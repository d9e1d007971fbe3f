import BusNinja.BusI2cSteps
import BusNinja.BusSwitches
import BusNinja.Source.OutputCommands

/-!
# What the output settings cannot change

The mode of the output, the log flag and the silence of the console say what
is printed, and nothing else.  Two boards that differ only in these, and in
what was printed, do the same on both buses and hand on the same bytes,
whatever lines are executed.
-/

namespace BusNinja

variable {δ : Type}

/-- The boards differ at most in the settings and in what was printed. -/
structure Board.Agrees (left right : Board δ) : Prop where
  devices : left.devices = right.devices
  handed : left.out.handed = right.out.handed

/-- A handler does the same to boards that agree. -/
def Agreeing (act : Board δ → Board δ) : Prop :=
  ∀ left right, left.Agrees right → (act left).Agrees (act right)

theorem Agreeing.iterate {act : Board δ → Board δ} (agreeing : Agreeing act)
    (count : Nat) : Agreeing act^[count] := by
  induction count with
  | zero => exact fun _ _ agrees => agrees
  | succ count induction =>
      intro left right agrees
      exact induction _ _ (agreeing left right agrees)

structure BusInterface.Agreeing (bus : BusInterface δ) : Prop where
  openBus : ∀ act ∈ bus.openBus, BusNinja.Agreeing act
  close : ∀ act ∈ bus.close, BusNinja.Agreeing act
  start : ∀ act ∈ bus.start, BusNinja.Agreeing act
  stop : ∀ act ∈ bus.stop, BusNinja.Agreeing act
  write : ∀ act ∈ bus.write, ∀ c, BusNinja.Agreeing (act c)
  read : ∀ act ∈ bus.read, BusNinja.Agreeing act
  xact : ∀ act ∈ bus.xact, ∀ c, BusNinja.Agreeing (act c)
  command : ∀ act ∈ bus.command, ∀ chars count left right, left.Agrees right →
    (act chars count left).1 = (act chars count right).1 ∧
      (act chars count left).2.Agrees (act chars count right).2

section

variable (out : BusOutput)

@[simp] theorem busLogPutsP_handed (str : String) :
    (busLogPutsP str out).handed = out.handed := busLog_handed _ _

@[simp] theorem busLogPut0x8_handed (c : Byte) :
    (busLogPut0x8 c out).handed = out.handed := busLog_handed _ _

@[simp] theorem busLogNewline_handed :
    (busLogNewline out).handed = out.handed := busLog_handed _ _

end

theorem onSpi_agreeing {act : BusSpi → BusSpi}
    (same : ∀ hw left right, left.handed = right.handed →
      (act ⟨hw, left⟩).hw = (act ⟨hw, right⟩).hw ∧
        (act ⟨hw, left⟩).out.handed = (act ⟨hw, right⟩).out.handed) :
    Agreeing (onSpi act) := by
  rintro ⟨left, devices⟩ ⟨right, _⟩ ⟨rfl, handed⟩
  obtain ⟨hw, out⟩ := same devices.spi left right handed
  refine ⟨?_, out⟩
  simp only [onSpi, Board.setSpi, Board.spi, hw]

section

open BusSpi

theorem busSpi_agreeing (wiring : Wiring) : (busSpi wiring).Agreeing where
  openBus := by
    rintro act ⟨⟩ ⟨left, devices⟩ ⟨right, _⟩ ⟨rfl, handed⟩
    dsimp only [claimPins]
    split <;> exact ⟨rfl, handed⟩
  close := by
    rintro act ⟨⟩
    exact onSpi_agreeing fun hw left right handed => ⟨rfl, handed⟩
  start := by
    rintro act ⟨⟩
    refine onSpi_agreeing fun hw left right handed => ⟨rfl, ?_⟩
    simpa [busSpiStart, puts, newline] using handed
  stop := by
    rintro act ⟨⟩
    refine onSpi_agreeing fun hw left right handed => ⟨rfl, ?_⟩
    simpa [busSpiStop, puts, newline] using handed
  write := by
    rintro act ⟨⟩ c
    refine onSpi_agreeing fun hw left right handed => ⟨rfl, ?_⟩
    simpa [busSpiWrite, write8, puts, puthex8, newline] using handed
  read := by
    rintro act ⟨⟩
    refine onSpi_agreeing fun hw left right handed => ⟨rfl, ?_⟩
    simpa [busSpiRead, write8, puts, hand, newline] using handed
  xact := by
    rintro act ⟨⟩ c
    refine onSpi_agreeing fun hw left right handed => ⟨rfl, ?_⟩
    simpa [busSpiXact, write8, puts, hand, newline] using handed
  command := by
    rintro act ⟨⟩ chars count ⟨left, devices⟩ ⟨right, _⟩ ⟨rfl, handed⟩
    exact ⟨rfl, rfl, handed⟩

end

/-- The drivers differ at most in the settings and in what was printed. -/
structure BusI2c.Agrees (left right : BusI2c) : Prop where
  state : left.state = right.state
  pendingData : left.pendingData = right.pendingData
  hw : left.hw = right.hw
  handed : left.out.handed = right.out.handed

section

variable (slave : Slave) {left right : BusI2c} (agrees : left.Agrees right)

include agrees

open BusI2c

theorem busI2cStop_agrees :
    (busI2cStop slave left).Agrees (busI2cStop slave right) := by
  obtain ⟨state, pendingData, hw, left⟩ := left
  obtain ⟨_, _, _, right⟩ := right
  obtain ⟨rfl, rfl, rfl, handed⟩ := agrees
  dsimp only at handed
  unfold busI2cStop
  cases state with
  | startPending =>
      dsimp only [masterStart]
      split <;>
        exact ⟨rfl, rfl, rfl, by simpa [masterStop, puts, newline] using handed⟩
  | writeDataPending =>
      dsimp only [masterTx, putsWrite, puts, put0x8]
      split <;>
        exact ⟨rfl, rfl, rfl, by simpa [masterStop, newline] using handed⟩
  | readDataPending =>
      dsimp only [masterRx, puts]
      split <;>
        exact ⟨rfl, rfl, rfl, by simpa [masterStop, hand, newline] using handed⟩
  | init | addrPending | error => exact ⟨rfl, rfl, rfl, handed⟩

theorem busI2cWrite_agrees (c : Byte) :
    (busI2cWrite slave c left).Agrees (busI2cWrite slave c right) := by
  obtain ⟨state, pendingData, hw, left⟩ := left
  obtain ⟨_, _, _, right⟩ := right
  obtain ⟨rfl, rfl, rfl, handed⟩ := agrees
  dsimp only at handed
  unfold busI2cWrite
  cases state with
  | startPending =>
      dsimp only [masterStart, putsWrite, puts, put0x8, newline]
      split <;> exact ⟨rfl, rfl, rfl, by simpa [busClear] using handed⟩
  | writeDataPending =>
      dsimp only [masterTx, putsWrite, puts, put0x8, newline]
      split <;> exact ⟨rfl, rfl, rfl, by simpa [busClear] using handed⟩
  | init | addrPending | readDataPending | error =>
      exact ⟨rfl, rfl, rfl, handed⟩

theorem busI2cRead_agrees :
    (busI2cRead slave left).Agrees (busI2cRead slave right) := by
  obtain ⟨state, pendingData, hw, left⟩ := left
  obtain ⟨_, _, _, right⟩ := right
  obtain ⟨rfl, rfl, rfl, handed⟩ := agrees
  dsimp only at handed
  unfold busI2cRead
  cases state with
  | startPending =>
      dsimp only [masterStart, puts, newline]
      split <;> exact ⟨rfl, rfl, rfl, by simpa [busClear] using handed⟩
  | readDataPending =>
      dsimp only [masterRx, puts, newline]
      split <;> exact ⟨rfl, rfl, rfl, by simpa [busClear, hand] using handed⟩
  | init | addrPending | writeDataPending | error =>
      exact ⟨rfl, rfl, rfl, handed⟩

theorem scanLoop_agrees (i : Nat) :
    (scanLoop slave i left).Agrees (scanLoop slave i right) := by
  have probe : ∀ address {left right : BusI2c}, left.Agrees right →
      (scanAddress slave address left).Agrees
        (scanAddress slave address right) := by
    rintro address ⟨state, pendingData, hw, left⟩ ⟨_, _, _, right⟩
      ⟨rfl, rfl, rfl, handed⟩
    have found := fun out => putsFound_frame ⟨state, pendingData, hw, out⟩ address
      (hwI2cMasterStart slave address (rdwrOf address) hw).2
    by_cases acked : (hwI2cMasterStart slave address (rdwrOf address) hw).1 = true
    · simp only [scanAddress, masterStart, if_pos acked, (found left).1,
        (found right).1]
      exact ⟨rfl, rfl, rfl, (found left).2.trans
        (handed.trans (found right).2.symm)⟩
    · simp only [scanAddress, masterStart, acked]
      exact ⟨rfl, rfl, rfl, handed⟩
  induction i generalizing left right with
  | zero => exact probe 0 agrees
  | succ i induction => exact induction (probe _ agrees)

end

theorem onI2c_agreeing {act : BusI2c → BusI2c}
    (same : ∀ {left right : BusI2c}, left.Agrees right →
      (act left).Agrees (act right)) : Agreeing (onI2c act) := by
  rintro ⟨left, devices⟩ ⟨right, _⟩ ⟨rfl, handed⟩
  have after := @same (Board.i2c ⟨left, devices⟩) (Board.i2c ⟨right, devices⟩)
    ⟨rfl, rfl, rfl, handed⟩
  refine ⟨?_, after.handed⟩
  simp only [onI2c, Board.setI2c, after.state, after.pendingData, after.hw]

theorem busI2c_agreeing (wiring : Wiring) : (busI2c wiring).Agreeing where
  openBus := by
    rintro act ⟨⟩
    refine onI2c_agreeing ?_
    rintro ⟨state, pendingData, hw, left⟩ ⟨_, _, _, right⟩
      ⟨rfl, rfl, rfl, handed⟩
    refine ⟨rfl, rfl, rfl, ?_⟩
    simpa [busI2cOpen, BusI2c.puts, BusI2c.newline, BusI2c.busClear] using handed
  close := by
    rintro act ⟨⟩
    refine onI2c_agreeing ?_
    rintro left right ⟨state, pendingData, hw, handed⟩
    exact ⟨state, pendingData, congrArg hwI2cShutdown hw, handed⟩
  start := by
    rintro act ⟨⟩
    refine onI2c_agreeing ?_
    rintro left right ⟨_, pendingData, hw, handed⟩
    exact ⟨rfl, pendingData, hw, handed⟩
  stop := by
    rintro act ⟨⟩
    exact onI2c_agreeing (busI2cStop_agrees wiring.i2cSlave)
  write := by
    rintro act ⟨⟩ c
    exact onI2c_agreeing fun agrees => busI2cWrite_agrees wiring.i2cSlave agrees c
  read := by
    rintro act ⟨⟩
    exact onI2c_agreeing (busI2cRead_agrees wiring.i2cSlave)
  xact := by rintro act ⟨⟩
  command := by
    rintro act ⟨⟩ chars count left right agrees
    by_cases scans : chars = [0x73]
    · simp only [busI2cCommand, if_pos scans]
      exact ⟨trivial, onI2c_agreeing (fun agrees =>
        scanLoop_agrees wiring.i2cSlave agrees 0xFF) left right agrees⟩
    · simp only [busI2cCommand, if_neg scans]
      exact ⟨trivial, agrees⟩

/-- The command does the same to boards that agree, and answers alike. -/
inductive CommandKind.Agreeing : CommandKind δ → Prop where
  | acts {handler : List Byte → Board δ → Bool × Board δ} :
      (∀ args left right, left.Agrees right →
        (handler args left).1 = (handler args right).1 ∧
          (handler args left).2.Agrees (handler args right).2) →
      Agreeing (.acts handler)
  | selects {bus : BusInterface δ} : bus.Agreeing → Agreeing (.selects bus)
  | restarts {boot : Board δ → Board δ} :
      BusNinja.Agreeing boot → Agreeing (.restarts boot)

theorem putLines_agrees (names : List String)
    {left right : Board Devices} (agrees : left.Agrees right) :
    (names.foldl (fun board name => board.putLine (text name)) left).Agrees
      (names.foldl (fun board name => board.putLine (text name)) right) := by
  induction names generalizing left right with
  | nil => exact agrees
  | cons name names induction => exact induction ⟨agrees.devices, agrees.handed⟩

theorem flagCommand_agrees {set : Bool → Board δ → Board δ}
    (agreeing : ∀ flag board, (set flag board).Agrees board) (args : List Byte)
    (board : Board δ) : (flagCommand set args board).2.Agrees board := by
  unfold flagCommand
  split
  · exact agreeing _ _
  · exact ⟨rfl, rfl⟩

theorem flagCommand_answer {σ : Type} (set : Bool → σ → σ) (args : List Byte)
    (left right : σ) :
    (flagCommand set args left).1 = (flagCommand set args right).1 := by
  unfold flagCommand
  split <;> rfl

theorem CommandKind.Agreeing.flag {set : Bool → Board δ → Board δ}
    (same : ∀ flag board, (set flag board).Agrees board) :
    CommandKind.Agreeing (.acts (flagCommand set)) := by
  refine .acts fun args left right agrees =>
    ⟨flagCommand_answer set args left right, ?_⟩
  have setLeft := flagCommand_agrees same args left
  have setRight := flagCommand_agrees same args right
  exact ⟨setLeft.devices.trans (agrees.devices.trans setRight.devices.symm),
    setLeft.handed.trans (agrees.handed.trans setRight.handed.symm)⟩

theorem globalCommandLed_agreeing :
    CommandKind.Agreeing (.acts globalCommandLed) := by
  refine .acts fun args left right agrees => ?_
  unfold globalCommandLed
  split
  · split
    · exact ⟨rfl, agrees⟩
    · refine ⟨rfl, ?_, agrees.handed⟩
      simp only [Board.setSeq, agrees.devices]
  · exact ⟨rfl, agrees⟩

section

variable (firmware : Firmware)

theorem globalCommandVersion_agreeing :
    CommandKind.Agreeing (.acts (globalCommandVersion firmware)) :=
  .acts fun _ _ _ agrees => ⟨rfl, agrees.devices, agrees.handed⟩

theorem cpuReset_agreeing :
    CommandKind.Agreeing (.restarts (cpuReset firmware)) := by
  refine .restarts fun left right agrees => ⟨?_, agrees.handed⟩
  simp only [cpuReset, mainStart, Board.reset, agrees.devices]

variable (wiring : Wiring)

theorem globalCommands_agreeing :
    ∀ command ∈ globalCommands firmware wiring, command.kind.Agreeing := by
  intro command listed
  simp only [globalCommands, List.mem_cons, List.not_mem_nil, or_false] at listed
  rcases listed with rfl | rfl | rfl | rfl | rfl | rfl
  · exact globalCommandVersion_agreeing firmware
  · exact .acts fun _ _ _ agrees => ⟨rfl, putLines_agrees commandNames agrees⟩
  · exact globalCommandLed_agreeing
  · exact cpuReset_agreeing firmware
  · exact .selects (busSpi_agreeing wiring)
  · exact .selects (busI2c_agreeing wiring)

theorem flagCommands_agreeing :
    ∀ command ∈ flagCommands firmware wiring, command.kind.Agreeing := by
  intro command listed
  simp only [flagCommands, List.mem_cons, List.not_mem_nil, or_false] at listed
  rcases listed with rfl | rfl | rfl | rfl | rfl | rfl | rfl | rfl
  · exact globalCommandVersion_agreeing firmware
  · exact .acts fun _ _ _ agrees =>
      ⟨rfl, putLines_agrees flagCommandNames agrees⟩
  · exact .flag fun flag board => ⟨rfl, rfl⟩
  · exact globalCommandLed_agreeing
  · exact .flag fun flag board => ⟨rfl, rfl⟩
  · exact cpuReset_agreeing firmware
  · exact .selects (busSpi_agreeing wiring)
  · exact .selects (busI2c_agreeing wiring)

end

/-- The shells agree, on a bus whose handlers do the same to boards that
agree. -/
structure Shell.Agrees (left right : Shell δ) : Prop where
  board : left.board.Agrees right.board
  currentBus : left.currentBus = right.currentBus
  duplex : left.duplex = right.duplex
  agreeing : ∀ bus ∈ left.currentBus, bus.Agreeing

def Instruction.Agreeing (instruction : Instruction δ) : Prop :=
  ∀ command args, instruction = .globalCommand command args →
    command.kind.Agreeing

namespace Shell.Agrees

variable {left right : Shell δ} (agrees : left.Agrees right)

include agrees

theorem call {handler : BusInterface δ → Option (Board δ → Board δ)}
    (same : ∀ bus : BusInterface δ, bus.Agreeing → ∀ act ∈ handler bus,
      BusNinja.Agreeing act) :
    (left.call handler).Agrees (right.call handler) := by
  obtain ⟨left, currentBus, duplex⟩ := left
  obtain ⟨right, _, _⟩ := right
  obtain ⟨board, rfl, rfl, agreeing⟩ := agrees
  dsimp only at board agreeing
  unfold Shell.call
  cases currentBus with
  | none => exact ⟨board, rfl, rfl, agreeing⟩
  | some bus =>
      dsimp only
      cases found : handler bus with
      | none => exact ⟨board, rfl, rfl, agreeing⟩
      | some act =>
          have once := same bus (agreeing bus rfl) act found
          exact ⟨once _ _ board, rfl, rfl, agreeing⟩

theorem busInit {bus : Option (BusInterface δ)}
    (selected : ∀ next ∈ bus, next.Agreeing) :
    (busInit bus left).Agrees (busInit bus right) := by
  have closes : ∀ bus : BusInterface δ, bus.Agreeing → ∀ act ∈ bus.close,
      BusNinja.Agreeing act := fun bus agreeing => agreeing.close
  have opens : ∀ bus : BusInterface δ, bus.Agreeing → ∀ act ∈ bus.openBus,
      BusNinja.Agreeing act := fun bus agreeing => agreeing.openBus
  have closed := agrees.call closes
  have changed : Agrees { left.call BusInterface.close with currentBus := bus }
      { right.call BusInterface.close with currentBus := bus } :=
    ⟨closed.board, rfl, closed.duplex, selected⟩
  exact changed.call opens

theorem putLine (str : String) :
    (left.putLine str).Agrees (right.putLine str) :=
  ⟨⟨agrees.board.devices, agrees.board.handed⟩, agrees.currentBus,
    agrees.duplex, agrees.agreeing⟩

theorem badCmd :
    (BusNinja.badCmd left).2.Agrees (BusNinja.badCmd right).2 :=
  agrees.putLine "BadCmd"

theorem repeatCall {act : Board δ → Board δ} (agreeing : BusNinja.Agreeing act)
    (count : BitVec 32) :
    (repeatCall act count left).Agrees (BusNinja.repeatCall act count right) :=
  ⟨agreeing.iterate count.toNat _ _ agrees.board, agrees.currentBus,
    agrees.duplex, agrees.agreeing⟩

theorem bracket (c : Byte) :
    (instructionStep (.bracket c) left).Agrees
      (instructionStep (.bracket c) right) := by
  have starts : ∀ bus : BusInterface δ, bus.Agreeing → ∀ act ∈ bus.start,
      BusNinja.Agreeing act := fun bus agreeing => agreeing.start
  have stops : ∀ bus : BusInterface δ, bus.Agreeing → ∀ act ∈ bus.stop,
      BusNinja.Agreeing act := fun bus agreeing => agreeing.stop
  have duplex : ∀ duplex, Agrees { left with duplex := duplex }
      { right with duplex := duplex } := fun _ =>
    ⟨agrees.board, agrees.currentBus, rfl, agrees.agreeing⟩
  simp only [instructionStep]
  split
  · unfold openBracket
    split
    · exact (duplex true).call starts
    · exact agrees.call starts
  · exact (duplex false).call stops

theorem number (num : Byte) (count : BitVec 32) :
    (instructionStep (.number num count) left).Agrees
      (instructionStep (.number num count) right) := by
  have same : right.numberHandler = left.numberHandler := by
    rw [Shell.numberHandler, Shell.numberHandler, agrees.currentBus,
      agrees.duplex]
  simp only [instructionStep, same]
  cases found : left.numberHandler with
  | none => exact agrees.badCmd
  | some act =>
      obtain ⟨bus, current, handler⟩ := Option.bind_eq_some_iff.mp found
      have agreeing := agrees.agreeing bus current
      refine agrees.repeatCall ?_ count
      split at handler
      · exact agreeing.xact act handler num
      · exact agreeing.write act handler num

theorem read (count : BitVec 32) :
    (instructionStep (.read count) left).Agrees
      (instructionStep (.read count) right) := by
  simp only [instructionStep, ← agrees.currentBus]
  cases found : left.currentBus.bind BusInterface.read with
  | none => exact agrees.badCmd
  | some act =>
      obtain ⟨bus, current, handler⟩ := Option.bind_eq_some_iff.mp found
      exact agrees.repeatCall ((agrees.agreeing bus current).read act handler)
        count

theorem busCommand (chars : List Byte) (count : BitVec 32) :
    (instructionStep (.busCommand chars count) left).Agrees
      (instructionStep (.busCommand chars count) right) := by
  simp only [instructionStep, handleBusCommand, ← agrees.currentBus]
  cases found : left.currentBus.bind BusInterface.command with
  | none => exact agrees.badCmd
  | some act =>
      obtain ⟨bus, current, handler⟩ := Option.bind_eq_some_iff.mp found
      obtain ⟨answer, board⟩ := (agrees.agreeing bus current).command act handler
        chars count left.board right.board agrees.board
      have performed : Agrees
          { left with board := (act chars count left.board).2 }
          { right with
            board := (act chars count right.board).2
            currentBus := left.currentBus } :=
        ⟨board, rfl, agrees.duplex, agrees.agreeing⟩
      simp only [← answer]
      split
      · exact performed
      · exact performed.badCmd

theorem globalCommand {command : NamedCommand δ}
    (agreeing : command.kind.Agreeing) (args : List Byte) :
    (instructionStep (.globalCommand command args) left).Agrees
      (instructionStep (.globalCommand command args) right) := by
  obtain ⟨name, kind⟩ := command
  cases agreeing with
  | @acts handler same =>
      obtain ⟨answer, board⟩ := same args left.board right.board agrees.board
      have performed : Agrees { left with board := (handler args left.board).2 }
          { right with board := (handler args right.board).2 } :=
        ⟨board, agrees.currentBus, agrees.duplex, agrees.agreeing⟩
      simp only [instructionStep, CommandKind.handler, ← answer]
      by_cases ok : (handler args left.board).1 = true
      · simp only [ok]
        exact performed
      · simp only [ok]
        exact performed.putLine "Error"
  | @selects bus same =>
      exact agrees.busInit fun next selected => Option.some.inj selected ▸ same
  | @restarts boot same =>
      have none : ∀ next ∈ (none : Option (BusInterface δ)), next.Agreeing := by
        intro next selected
        cases selected
      have restarted : Agrees
          { board := boot left.board, currentBus := .none, duplex := false }
          { board := boot right.board, currentBus := .none, duplex := false } :=
        ⟨same _ _ agrees.board, rfl, rfl, none⟩
      exact restarted.busInit none

theorem step {instruction : Instruction δ} (agreeing : instruction.Agreeing) :
    (instructionStep instruction left).Agrees
      (instructionStep instruction right) := by
  cases instruction with
  | bracket c => exact agrees.bracket c
  | number num count => exact agrees.number num count
  | read count => exact agrees.read count
  | busCommand chars count => exact agrees.busCommand chars count
  | globalCommand command args =>
      exact agrees.globalCommand (agreeing command args rfl) args

end Shell.Agrees

theorem Shell.Agrees.line {commands : List (NamedCommand δ)}
    (agreeing : ∀ command ∈ commands, command.kind.Agreeing)
    {left right : Shell δ} (agrees : left.Agrees right) (line : List Byte) :
    (Run.run instructionStep (instructions commands line) left).Agrees
      (Run.run instructionStep (instructions commands line) right) := by
  have kept : ∀ (instruction : Instruction δ) (left right : Shell δ),
      instruction.Agreeing → left.Agrees right →
      (instructionStep instruction left).Agrees
        (instructionStep instruction right) :=
    fun _ _ _ same agrees => agrees.step same
  refine Run.run_related kept (fun instruction member => ?_) agrees
  rintro command args rfl
  refine agreeing command (session_listed commands [line] command args ?_)
  simpa [session] using member

section

variable (firmware : Firmware) (wiring : Wiring)

def isFlagName (chars : List Byte) : Bool :=
  chars == text "log" || chars == text "silent"

theorem isFlagName_other :
    ∀ name ∈ commandNames, isFlagName (text name) = false := by
  decide +kernel

def setsOutput (line : List Byte) : Bool :=
  match instructions (flagCommands firmware wiring) line with
  | [.globalCommand command _] => isFlagName command.name.chars
  | _ => false

variable {firmware wiring}

theorem Shell.Agrees.setLeft {set : Bool → Board δ → Board δ}
    (same : ∀ flag board, (set flag board).Agrees board) (name : FlashName)
    (args : List Byte) {left right : Shell δ} (agrees : left.Agrees right) :
    (instructionStep (.globalCommand ⟨name, .acts (flagCommand set)⟩ args)
      left).Agrees right := by
  have board := flagCommand_agrees same args left.board
  have devices := board.devices.trans agrees.board.devices
  have handed := board.handed.trans agrees.board.handed
  simp only [instructionStep, CommandKind.handler]
  by_cases ok : (flagCommand set args left.board).1 = true
  · simp only [ok]
    exact ⟨⟨devices, handed⟩, agrees.currentBus, agrees.duplex, agrees.agreeing⟩
  · simp only [ok]
    exact ⟨⟨devices, handed⟩, agrees.currentBus, agrees.duplex, agrees.agreeing⟩

/-- The commands `log` and `silent` do nothing that the agreement sees. -/
theorem Shell.Agrees.setsLeft {line : List Byte}
    (sets : setsOutput firmware wiring line = true)
    {left right : Shell Devices} (agrees : left.Agrees right) :
    (Run.run instructionStep (instructions (flagCommands firmware wiring) line)
      left).Agrees right := by
  unfold setsOutput at sets
  split at sets
  case h_2 => cases sets
  case h_1 command args alone =>
    have member : .globalCommand command args ∈
        session (flagCommands firmware wiring) [line] := by
      simp [session, alone]
    have listed := session_listed _ [line] command args member
    rw [alone, Run.run_cons, Run.run_nil]
    simp only [flagCommands, List.mem_cons, List.not_mem_nil, or_false] at listed
    rcases listed with rfl | rfl | rfl | rfl | rfl | rfl | rfl | rfl
    case inr.inr.inl =>
      exact @Shell.Agrees.setLeft _ busEnableLog (fun _ _ => ⟨rfl, rfl⟩) _ args
        _ _ agrees
    case inr.inr.inr.inr.inl =>
      exact @Shell.Agrees.setLeft _ consoleSetSilent (fun _ _ => ⟨rfl, rfl⟩) _
        args _ _ agrees
    all_goals
      refine absurd (sets.symm.trans (isFlagName_other _ ?_)) (by decide)
      simp [commandNames]

theorem executeLines_agrees (lines : List (List Byte))
    {left right : Shell Devices} (agrees : left.Agrees right) :
    ∃ left' right',
      executeLines (flagCommandTable firmware wiring) lines left = some left' ∧
      executeLines (flagCommandTable firmware wiring)
        (lines.filter fun line => !setsOutput firmware wiring line) right =
          some right' ∧
      left'.Agrees right' := by
  simp only [flagCommandTable, executeLines_session]
  refine ⟨_, _, rfl, rfl, ?_⟩
  induction lines generalizing left right with
  | nil => exact agrees
  | cons line lines induction =>
      cases sets : setsOutput firmware wiring line with
      | true =>
          rw [List.filter_cons_of_neg (by simp [sets])]
          simp only [session, List.flatMap_cons, Run.run_append]
          exact induction (agrees.setsLeft sets)
      | false =>
          rw [List.filter_cons_of_pos (by simp [sets])]
          simp only [session, List.flatMap_cons, Run.run_append]
          exact induction
            (agrees.line (flagCommands_agreeing firmware wiring) line)

/-- The settings of the output and the lines that change them make no
difference to the devices, to the selected bus, or to the bytes handed on:
a session does there what it does without these lines. -/
theorem settings_do_not_reach_buses (lines : List (List Byte))
    {left right : Shell Devices}
    (devices : left.board.devices = right.board.devices)
    (handed : left.board.out.handed = right.board.out.handed)
    (currentBus : left.currentBus = right.currentBus)
    (duplex : left.duplex = right.duplex)
    (selected : left.currentBus = none ∨
      left.currentBus = some (busSpi wiring) ∨
      left.currentBus = some (busI2c wiring)) :
    ∃ left' right',
      executeLines (flagCommandTable firmware wiring) lines left = some left' ∧
      executeLines (flagCommandTable firmware wiring)
        (lines.filter fun line => !setsOutput firmware wiring line) right =
          some right' ∧
      left'.board.devices = right'.board.devices ∧
      left'.board.out.handed = right'.board.out.handed ∧
      left'.currentBus = right'.currentBus ∧ left'.duplex = right'.duplex := by
  have agreeing : ∀ bus ∈ left.currentBus, bus.Agreeing := by
    intro bus current
    rcases selected with none | spi | i2c
    · rw [none] at current
      cases current
    · obtain rfl := Option.some.inj (spi.symm.trans current)
      exact busSpi_agreeing wiring
    · obtain rfl := Option.some.inj (i2c.symm.trans current)
      exact busI2c_agreeing wiring
  obtain ⟨left', right', ran, filtered, agrees⟩ :=
    executeLines_agrees lines ⟨⟨devices, handed⟩, currentBus, duplex, agreeing⟩
  exact ⟨left', right', ran, filtered, agrees.board.devices,
    agrees.board.handed, agrees.currentBus, agrees.duplex⟩

/-- `log 0` before `i2c`, on a board that prints and on one that is silent. -/
theorem settings_do_not_reach_buses_silent :
    ∃ left' right',
      executeLines (flagCommandTable ⟨[], fun _ _ => 0⟩
          ⟨Slave.pulling [], fun _ => 0x9F, false⟩)
        [text "log 0", text "i2c", text "[0xA0 1]", text "silent 1"]
        (Shell.onBoard (Shell.powerOn Devices.powerOn).board) = some left' ∧
      executeLines (flagCommandTable ⟨[], fun _ _ => 0⟩
          ⟨Slave.pulling [], fun _ => 0x9F, false⟩)
        ([text "log 0", text "i2c", text "[0xA0 1]", text "silent 1"].filter
          fun line => !setsOutput ⟨[], fun _ _ => 0⟩
            ⟨Slave.pulling [], fun _ => 0x9F, false⟩ line)
        (Shell.onBoard (consoleSetSilent true
          (busSetOutmode .ascii (Shell.powerOn Devices.powerOn).board))) =
          some right' ∧
      left'.board.devices = right'.board.devices ∧
      left'.board.out.handed = right'.board.out.handed ∧
      left'.currentBus = right'.currentBus ∧ left'.duplex = right'.duplex :=
  settings_do_not_reach_buses _ rfl rfl rfl rfl (.inl rfl)

end

end BusNinja
