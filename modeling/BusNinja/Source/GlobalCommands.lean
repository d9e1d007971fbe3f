import BusNinja.Source.BusI2c
import BusNinja.Source.BusSpi
import BusNinja.Source.Commands
import BusNinja.Source.Led

/-!
# The global commands

`tok` and `tok_num` of `parse.c`, and `global_commands.c` with the table that
all configurations build, over the two buses it selects.
-/

namespace BusNinja

/-- The whitespace between arguments, without the comma. -/
def isSpace (c : Byte) : Bool := c == 0x20 || c == 0x09

/-- Both loops of `tok`: on from index `i` while `skips` holds, with `rounds`
bytes to go. -/
def tokLoop (args : List Byte) (skips : Byte → Bool) : Nat → Nat → Option Nat
  | 0, i => some i
  | rounds + 1, i => do
      let c ← args[i]?
      if skips c then tokLoop args skips rounds (i + 1) else some i

/-- Whether there is a token, and where it starts and ends. -/
def tok (args : List Byte) (tokStart : Nat) : Option (Bool × Nat × Nat) := do
  -- skip whitespace on front
  let tokStart ← tokLoop args isSpace (args.length - tokStart) tokStart
  -- skip to end of token
  let tokEnd ← tokLoop args (!isSpace ·) (args.length - tokStart) tokStart
  some (tokEnd != tokStart, tokStart, tokEnd)

/-- Whether the next token is a number, `tok_start` and `tok_end` after the
call, and the number, which replaces `i` only if there is a token. -/
def tokNum (args : List Byte) (tokStart : Nat) (i : BitVec 32) :
    Option (Bool × Nat × Nat × BitVec 32) := do
  let (found, tokStart, tokEnd) ← tok args tokStart
  if found then
    let (ok, i) ←
      parseNumber args tokStart (BitVec.ofNat 8 (tokEnd - tokStart))
    if ok then some (true, tokEnd, tokEnd, i)  -- skip past token
    else some (false, tokStart, tokEnd, i)
  else some (false, tokStart, tokEnd, i)

/-- The statics of the drivers with the pins they act on. -/
structure Devices where
  i2cState : BusI2cState
  pendingData : Byte
  i2c : HwI2c
  spi : HwSpi
  led : Led
  deriving DecidableEq, Repr

def Devices.powerOn : Devices where
  i2cState := .init
  pendingData := 0
  i2c := .powerOn
  spi := .powerOn
  led := .powerOn

/-- What is attached to the buses, and whether SCL and SDA are the pins
SCLK and MOSI of the SPI bus, as on the AT90USB162. -/
structure Wiring where
  i2cSlave : Slave
  spiSlave : SpiSlave
  sharedPins : Bool

def Board.i2c (board : Board Devices) : BusI2c where
  state := board.devices.i2cState
  pendingData := board.devices.pendingData
  hw := board.devices.i2c
  out := board.out

def Board.setI2c (bus : BusI2c) (board : Board Devices) : Board Devices where
  out := bus.out
  devices :=
    { board.devices with
      i2cState := bus.state
      pendingData := bus.pendingData
      i2c := bus.hw }

def Board.spi (board : Board Devices) : BusSpi where
  hw := board.devices.spi
  out := board.out

def Board.setSpi (bus : BusSpi) (board : Board Devices) : Board Devices where
  out := bus.out
  devices := { board.devices with spi := bus.hw }

def onI2c (act : BusI2c → BusI2c) (board : Board Devices) : Board Devices :=
  board.setI2c (act board.i2c)

def onSpi (act : BusSpi → BusSpi) (board : Board Devices) : Board Devices :=
  board.setSpi (act board.spi)

section

variable (wiring : Wiring)

/-- `hw_spi_init` makes SCLK and MOSI outputs, whatever else they are. -/
def claimPins (board : Board Devices) : Board Devices :=
  if wiring.sharedPins then
    { board with
      devices :=
        { board.devices with
          i2c := { board.devices.i2c with sdaDdr := true, sclDdr := true } } }
  else board

def busSpi : BusInterface Devices where
  openBus := some fun board => onSpi busSpiOpen (claimPins wiring board)
  close := some (onSpi busSpiClose)
  start := some (onSpi busSpiStart)
  stop := some (onSpi busSpiStop)
  write := some fun c => onSpi (busSpiWrite wiring.spiSlave c)
  read := some (onSpi (busSpiRead wiring.spiSlave))
  xact := some fun c => onSpi (busSpiXact wiring.spiSlave c)
  command := some fun start count board =>
    let (ok, bus) := busSpiCommand start count board.spi
    (ok, board.setSpi bus)

def busI2c : BusInterface Devices where
  openBus := some (onI2c (busI2cOpen wiring.i2cSlave))
  close := some (onI2c busI2cClose)
  start := some (onI2c busI2cStart)
  stop := some (onI2c (busI2cStop wiring.i2cSlave))
  write := some fun c => onI2c (busI2cWrite wiring.i2cSlave c)
  read := some (onI2c (busI2cRead wiring.i2cSlave))
  xact := none
  command := some fun start count board =>
    let (ok, bus) := busI2cCommand wiring.i2cSlave start count board.i2c
    (ok, board.setI2c bus)

end

/-- A handler acts on the board, or calls `bus_init`, or restarts the
processor; none of them sees the statics of `commands.c`. -/
inductive CommandKind (δ : Type) where
  | acts (handler : List Byte → Board δ → Bool × Board δ)
  | selects (bus : BusInterface δ)
  | restarts (boot : Board δ → Board δ)

variable {δ : Type}

def CommandKind.handler :
    CommandKind δ → List Byte → Shell δ → Bool × Shell δ
  | .acts handler, args, shell =>
      let (ok, board) := handler args shell.board
      (ok, { shell with board := board })
  | .selects bus, _, shell => (true, busInit (some bus) shell)
  | .restarts boot, _, shell =>
      (true, busInit none
        { board := boot shell.board, currentBus := none, duplex := false })

structure NamedCommand (δ : Type) where
  name : FlashName
  kind : CommandKind δ

def NamedCommand.entry (command : NamedCommand δ) : GlobalCommand δ where
  name := command.name
  handler := command.kind.handler

/-- What the build puts in flash: `VERSION_STR`, and whatever follows the
names of the commands. -/
structure Firmware where
  version : List Byte
  after : String → Nat → Byte

/-- `console_puts_P` and `console_newline`. -/
def Board.putLine (str : List Byte) (board : Board δ) : Board δ :=
  { board with
    out :=
      { board.out with
        console := consoleNewline (consolePutsP str board.out.console) } }

def Board.setSeq (seq : Byte) (board : Board Devices) : Board Devices :=
  { board with
    devices := { board.devices with led := ledSetSeq seq board.devices.led } }

def commandNames : List String := ["version", "help", "led", "reset", "spi", "i2c"]

def globalCommandVersion (firmware : Firmware) (_args : List Byte)
    (board : Board Devices) : Bool × Board Devices :=
  (true, board.putLine firmware.version)

def globalCommandHelp (_args : List Byte) (board : Board Devices) :
    Bool × Board Devices :=
  (true, commandNames.foldl (fun board name => board.putLine (text name)) board)

def globalCommandLed (args : List Byte) (board : Board Devices) :
    Bool × Board Devices :=
  match tokNum args 0 0 with
  | some (true, _, _, num) =>
      if num ≥ ledSeqMax then (false, board)
      else (true, board.setSeq (num.setWidth 8))
  | _ => (false, board)

/-- The statics and the pins after a reset; the records go on. -/
def Board.reset (board : Board Devices) : Board Devices where
  out :=
    { outmode := .hex0x8
      logEnabled := true
      console := { board.out.console with silent := false }
      handed := board.out.handed }
  devices :=
    { i2cState := .init
      pendingData := 0
      i2c :=
        { HwI2c.powerOn with
          falls := board.devices.i2c.falls
          samples := board.devices.i2c.samples
          ops := board.devices.i2c.ops }
      spi := { HwSpi.powerOn with sent := board.devices.spi.sent }
      led := { Led.powerOn with reads := board.devices.led.reads } }

/-- `main` before its loop, as far as it acts on the board. -/
def mainStart (firmware : Firmware) (board : Board Devices) : Board Devices :=
  let led := ledInit board.devices.led
  let console := consoleNewline (consoleNewline (consoleNewline board.out.console))
  let console := consoleNewline (consolePutsP (text "*") console)
  let console :=
    consoleNewline
      (consolePutsP (text "* Bus ninja ver. " ++ firmware.version) console)
  let console := consoleNewline (consolePutsP (text "*") console)
  let console := consolePutsP (text "> ") (consoleNewline console)
  { out := { board.out with console := console }
    devices :=
      { board.devices with
        led := ledSetSeq 5 led
        i2c := board.devices.i2c.cpuEnableInt } }

/-- `cpu_reset` waits for the watchdog, which starts `main` again. -/
def cpuReset (firmware : Firmware) (board : Board Devices) : Board Devices :=
  mainStart firmware board.reset

section

variable (firmware : Firmware) (wiring : Wiring)

def globalCommands : List (NamedCommand Devices) :=
  let name := fun str => { chars := text str, after := firmware.after str }
  [⟨name "version", .acts (globalCommandVersion firmware)⟩,
    ⟨name "help", .acts globalCommandHelp⟩,
    ⟨name "led", .acts globalCommandLed⟩,
    ⟨name "reset", .restarts (cpuReset firmware)⟩,
    ⟨name "spi", .selects (busSpi wiring)⟩,
    ⟨name "i2c", .selects (busI2c wiring)⟩]

def globalCommandTable : List (GlobalCommand Devices) :=
  (globalCommands firmware wiring).map NamedCommand.entry

/-- The shell when `main` enters its loop. -/
def Shell.started : Shell Devices :=
  busInit none
    { Shell.powerOn Devices.powerOn with
      board := mainStart firmware (Shell.powerOn Devices.powerOn).board }

end

end BusNinja
