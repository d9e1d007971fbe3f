import BusNinja.Source.ConsoleInput
import BusNinja.Source.GlobalCommands

/-!
# Commands that set a flag

`silent`, `echo` and `log` of `global_commands.c`, which a build with
`COMMAND_SILENT`, `COMMAND_ECHO` and `COMMAND_LOG` has, and `bus_set_outmode`.
-/

namespace BusNinja

variable {δ : Type}

def consoleSetSilent (newsilent : Bool) (board : Board δ) : Board δ :=
  { board with out.console.silent := newsilent }

def consoleSetEcho (newecho : Bool) (input : ConsoleInput) : ConsoleInput :=
  { input with echo := newecho }

def busEnableLog (enable : Bool) (board : Board δ) : Board δ :=
  { board with out.logEnabled := enable }

def busSetOutmode (mode : Outmode) (board : Board δ) : Board δ :=
  { board with out.outmode := mode }

/-- The flag is set for the number 1 only. -/
def flagCommand {σ : Type} (set : Bool → σ → σ) (args : List Byte)
    (state : σ) : Bool × σ :=
  match tokNum args 0 0 with
  | some (true, _, _, num) => (true, set (num == 1) state)
  | _ => (false, state)

def globalCommandSilent : List Byte → Board δ → Bool × Board δ :=
  flagCommand consoleSetSilent

def globalCommandEcho : List Byte → ConsoleInput → Bool × ConsoleInput :=
  flagCommand consoleSetEcho

def globalCommandLog : List Byte → Board δ → Bool × Board δ :=
  flagCommand busEnableLog

/-- The names of the table in a build with `COMMAND_LOG` and
`COMMAND_SILENT`. -/
def flagCommandNames : List String :=
  ["version", "help", "log", "led", "silent", "reset", "spi", "i2c"]

/-- `help` in that build. -/
def flagCommandHelp (_args : List Byte) (board : Board Devices) :
    Bool × Board Devices :=
  (true,
    flagCommandNames.foldl (fun board name => board.putLine (text name)) board)

/-- The table of that build. -/
def flagCommands (firmware : Firmware) (wiring : Wiring) :
    List (NamedCommand Devices) :=
  let name := fun str => { chars := text str, after := firmware.after str }
  [⟨name "version", .acts (globalCommandVersion firmware)⟩,
    ⟨name "help", .acts flagCommandHelp⟩,
    ⟨name "log", .acts globalCommandLog⟩,
    ⟨name "led", .acts globalCommandLed⟩,
    ⟨name "silent", .acts globalCommandSilent⟩,
    ⟨name "reset", .restarts (cpuReset firmware)⟩,
    ⟨name "spi", .selects (busSpi wiring)⟩,
    ⟨name "i2c", .selects (busI2c wiring)⟩]

def flagCommandTable (firmware : Firmware) (wiring : Wiring) :
    List (GlobalCommand Devices) :=
  (flagCommands firmware wiring).map NamedCommand.entry

end BusNinja
