import BusNinja.Source.GlobalCommands
import BusNinja.Source.LedTimer
import BusNinja.Source.Ninja

/-!
# The whole tick

`driver_tick` of `ninja.c` ends with `led_tick(tick_get())`.  The sequence it
plays is among the devices of the board, which the other drivers and the
commands act on.
-/

namespace BusNinja

def Board.setLed (led : Led) (board : Board Devices) : Board Devices :=
  { board with devices := { board.devices with led := led } }

def Shell.setLed (led : Led) (shell : Shell Devices) : Shell Devices :=
  { shell with board := shell.board.setLed led }

def Ninja.setLed (led : Led) (ninja : Ninja Devices) : Ninja Devices :=
  { ninja with shell := ninja.shell.setLed led }

/-- The program with `step_timer` and `hw_led_brightness`, which only the tick
of the LED sets; `steps` counts the calls of `led_seq_tick`. -/
structure LedNinja where
  ninja : Ninja Devices
  stepTimer : BitVec 32
  brightness : Byte
  steps : Nat

namespace LedNinja

def driver (program : LedNinja) : LedDriver where
  led := program.ninja.shell.board.devices.led
  stepTimer := program.stepTimer
  brightness := program.brightness
  steps := program.steps

def setDriver (driver : LedDriver) (program : LedNinja) : LedNinja where
  ninja := program.ninja.setLed driver.led
  stepTimer := driver.stepTimer
  brightness := driver.brightness
  steps := driver.steps

/-- The program when `main` starts to tick. -/
def powerOn (shell : Shell Devices) : LedNinja where
  ninja := .powerOn shell
  stepTimer := LedDriver.powerOn.stepTimer
  brightness := LedDriver.powerOn.brightness
  steps := LedDriver.powerOn.steps

end LedNinja

section

variable (execute : List Byte → Shell Devices → Shell Devices) (fCpu : BitVec 32)

/-- `driver_tick`, but for the watchdog.  `tick_get` returns `ticks` to it,
and `tickGet` to `led_tick`. -/
def driverTickLed (received : Option Byte) (ticks tickGet : BitVec 32)
    (program : LedNinja) : LedNinja :=
  let program :=
    { program with ninja := driverTick execute received program.ninja }
  program.setDriver (ledTick fCpu ticks tickGet program.driver)

/-- An event, with the counts that `tick_get` returns if it is a tick. -/
structure ClockedEvent where
  event : InputEvent
  ticks : BitVec 32
  tickGet : BitVec 32
  deriving DecidableEq, Repr

def clockedStep (cdcConsole : Bool) (clocked : ClockedEvent)
    (program : LedNinja) : LedNinja :=
  match clocked.event with
  | .driverTick received =>
      driverTickLed execute fCpu received clocked.ticks clocked.tickGet program
  | event =>
      { program with ninja := inputStep execute cdcConsole event program.ninja }

end

end BusNinja
