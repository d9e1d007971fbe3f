import BusNinja.Source.Console

/-!
# The selected bus

`bus.h` and the bus selection of `bus.c`.  A bus is a table of handlers, any
of which may be missing; what they act on besides the output is left open.
-/

namespace BusNinja

structure Board (δ : Type) where
  out : BusOutput
  devices : δ

/-- A `bus_interface_t`; `none` is a NULL handler. -/
structure BusInterface (δ : Type) where
  openBus : Option (Board δ → Board δ)
  close : Option (Board δ → Board δ)
  start : Option (Board δ → Board δ)
  stop : Option (Board δ → Board δ)
  write : Option (Byte → Board δ → Board δ)
  read : Option (Board δ → Board δ)
  xact : Option (Byte → Board δ → Board δ)
  command : Option (List Byte → BitVec 32 → Board δ → Bool × Board δ)

/-- `current_bus`, the `duplex` flag of `commands.c`, and the board. -/
structure Shell (δ : Type) where
  board : Board δ
  currentBus : Option (BusInterface δ)
  duplex : Bool

variable {δ : Type}

/-- The statics before `main`. -/
def Shell.powerOn (devices : δ) : Shell δ where
  board :=
    { out :=
        { outmode := .hex0x8
          logEnabled := true
          console := { silent := false, output := [] }
          handed := [] }
      devices := devices }
  currentBus := none
  duplex := false

/-- Call a handler of the current bus, if there is a bus and it has one. -/
def Shell.call (shell : Shell δ)
    (handler : BusInterface δ → Option (Board δ → Board δ)) : Shell δ :=
  match shell.currentBus with
  | some bus =>
      match handler bus with
      | some act => { shell with board := act shell.board }
      | none => shell
  | none => shell

def busInit (bus : Option (BusInterface δ)) (shell : Shell δ) : Shell δ :=
  let shell := shell.call BusInterface.close
  let shell := { shell with currentBus := bus }
  shell.call BusInterface.openBus

end BusNinja
