import BusNinja.Source.Ninja

/-!
# The calls under way

`driver_tick` once more, step by step, with the commands that call it again:
`dumpkeys` of `global_commands.c`, `menu.c` and `command_bitbang.c`.  Each of
them sets key mode, polls for keys and sets line mode.
-/

namespace BusNinja

/-- The commands that wait for keys. -/
inductive KeyCommand where
  | dumpkeys
  | menutest
  | bitbang
  deriving DecidableEq, Repr

/-- `my_menu2`, then `my_menu`. -/
inductive Menu where
  | myMenu2
  | myMenu
  deriving DecidableEq, Repr

def Menu.items : Menu → List String
  | .myMenu2 => ["pig", "bat", "whole universe"]
  | .myMenu => ["rat", "cat", "dog"]

/-- Where a call of `driver_tick` is; `lineDone` is after the return of
`execute_command_line`. -/
inductive TickPoint where
  | hwUartTick
  | usbdevTick
  | cdcRounds (count : Nat)
  | consoleTick
  | lineDone
  | ledTick
  deriving DecidableEq, Repr

/-- Where a command that waits for keys is. -/
inductive CommandPoint where
  | dumpkeys
  | dumpkeysPoll
  | menuShow (menu : Menu)
  | menuPoll (menu : Menu)
  | bitbang
  | bitbangPoll (c exitCount : Byte)
  | bitbangTicked (c exitCount : Byte)
  deriving DecidableEq, Repr

/-- A call under way.  `execute` is `execute_command_line` with the bytes it
was given; the flag says that it has called a command that waits for keys. -/
inductive Frame where
  | driverTick (point : TickPoint)
  | execute (cmdline : List Byte) (called : Bool)
  | command (point : CommandPoint)
  deriving DecidableEq, Repr

/-- The innermost call is first; with none, `main` is about to tick. -/
structure Machine (δ : Type) where
  ninja : Ninja δ
  frames : List Frame

namespace Ninja

variable {δ : Type}

def setMode (mode : ConsoleMode) (ninja : Ninja δ) : Ninja δ :=
  { ninja with input := consoleSetMode mode ninja.input }

def putLine (str : String) (ninja : Ninja δ) : Ninja δ :=
  ninja.print fun console => consoleNewline (consolePutsP (text str) console)

def menuShow (menu : Menu) (ninja : Ninja δ) : Ninja δ :=
  ninja.print fun console =>
    menu.items.zipIdx.foldl
      (fun console (str, index) =>
        consoleNewline (consolePutsP (text str) (consolePutc 0x20
          (consolePutc 0x2E (consolePutdec (BitVec.ofNat 32 index) console)))))
      console

/-- What `mymenu` says about the second pick. -/
def picked (c : Byte) (ninja : Ninja δ) : Ninja δ :=
  match c - 0x30 with
  | 0 => ninja.print (consolePutsP (text "picked rat"))
  | 1 => ninja.print (consolePutsP (text "picked cat"))
  | 2 => ninja.print (consolePutsP (text "picked dog"))
  | _ => ninja

end Ninja

section

variable {δ : Type} (received : Option Byte) (frames : List Frame)
  (ninja : Ninja δ)

def tickStep : TickPoint → Machine δ
  | .hwUartTick =>
      ⟨hwUartTick received ninja, .driverTick .usbdevTick :: frames⟩
  | .usbdevTick =>
      if ninja.cdc.connected then
        ⟨ninja, .driverTick (.cdcRounds cdcBufsize) :: frames⟩
      else ⟨ninja, .driverTick .consoleTick :: frames⟩
  | .cdcRounds 0 => ⟨ninja, .driverTick .consoleTick :: frames⟩
  | .cdcRounds (count + 1) =>
      if ninja.receives then
        ⟨cdcLoop 1 ninja,
          .driverTick (if ninja.cdc.rxCb then .cdcRounds count
            else .consoleTick) :: frames⟩
      else ⟨ninja, .driverTick .consoleTick :: frames⟩
  | .consoleTick =>
      match ninja.input.mode with
      | .line =>
          if ninja.input.gotLine then
            if 0 < ninja.input.cmdbufLen.val then
              ⟨{ ninja with
                  executed := ninja.executed ++ [ninja.input.cmdline] },
                .execute ninja.input.cmdline false ::
                  .driverTick .lineDone :: frames⟩
            else ⟨ninja, .driverTick .lineDone :: frames⟩
          else ⟨ninja, .driverTick .ledTick :: frames⟩
      | .key => ⟨ninja, .driverTick .ledTick :: frames⟩
  | .lineDone => ⟨ninja.finishLine, .driverTick .ledTick :: frames⟩
  | .ledTick => ⟨ninja, frames⟩

/-- `while(!console_key_poll(&c)) driver_tick();` and what follows it: a tick
returns to `point`, and a key goes to `handle`. -/
def pollStep (point : CommandPoint) (handle : Byte → Ninja δ → Machine δ) :
    Machine δ :=
  match (consoleKeyPoll ninja.input).1 with
  | none =>
      ⟨ninja, .driverTick .hwUartTick :: .command point :: frames⟩
  | some c => handle c ninja.keyPoll

/-- `garbage` is what the `c` of `command_bitbang` holds before the first
key, and `pinb` is the port it shows. -/
def commandStep (garbage pinb : Byte) : CommandPoint → Machine δ
  | .dumpkeys =>
      ⟨(ninja.setMode .key).putLine "Space to quit",
        .command .dumpkeysPoll :: frames⟩
  | .dumpkeysPoll =>
      pollStep frames ninja .dumpkeysPoll fun c ninja =>
        let ninja := ninja.print fun console =>
          consoleNewline (consolePuthex8 c console)
        if c ≠ 0x20 then ⟨ninja, .command .dumpkeysPoll :: frames⟩
        else ⟨ninja.setMode .line, frames⟩
  | .menuShow menu =>
      ⟨(ninja.menuShow menu).setMode .key, .command (.menuPoll menu) :: frames⟩
  | .menuPoll menu =>
      pollStep frames ninja (.menuPoll menu) fun c ninja =>
        if c.toNat < 0x30 ∨ c.toNat ≥ 0x30 + menu.items.length then
          ⟨ninja, .command (.menuPoll menu) :: frames⟩
        else
          let ninja := ninja.print fun console =>
            consoleNewline (consolePutc c console)
          let ninja := ninja.setMode .line
          match menu with
          | .myMenu2 => ⟨ninja, .command (.menuShow .myMenu) :: frames⟩
          | .myMenu => ⟨ninja.picked c, frames⟩
  | .bitbang =>
      ⟨(ninja.print (consolePutsP
          (text "Entering binary bitbang mode, +++ to exit"))).setMode .key,
        .command (.bitbangPoll garbage 0) :: frames⟩
  | .bitbangPoll c exitCount =>
      pollStep frames ninja (.bitbangTicked c exitCount) fun c ninja =>
        if exitCount < 3 then
          ⟨ninja, .command (.bitbangPoll c exitCount) :: frames⟩
        else ⟨ninja.setMode .line, frames⟩
  | .bitbangTicked c exitCount =>
      ⟨ninja.print (consolePutc pinb),
        .command (.bitbangPoll c (if c = 0x2B then exitCount + 1 else 0)) ::
          frames⟩

end

def KeyCommand.start : KeyCommand → CommandPoint
  | .dumpkeys => .dumpkeys
  | .menutest => .menuShow .myMenu2
  | .bitbang => .bitbang

/-- The program makes its next step, or something happens around it. -/
inductive MachineEvent where
  | arrive (sent : List Byte)
  | connect (isConnected : Bool)
  | next (received : Option Byte) (garbage pinb : Byte)
  deriving DecidableEq, Repr

section

variable {δ : Type}
  (runs : List Byte → Shell δ → Option KeyCommand × Shell δ)

/-- `runs` is what `execute_command_line` does up to the command that waits
for keys, if it comes to one; the rest of the line is ignored then. -/
def executeStep (frames : List Frame) (cmdline : List Byte) (called : Bool)
    (ninja : Ninja δ) : Machine δ :=
  if called then ⟨ninja, frames⟩
  else
    let (command, shell) := runs cmdline ninja.shell
    let ninja := { ninja with shell := shell }
    match command with
    | some command =>
        ⟨ninja, .command command.start :: .execute cmdline true :: frames⟩
    | none => ⟨ninja, frames⟩

def Machine.next (received : Option Byte) (garbage pinb : Byte)
    (machine : Machine δ) : Machine δ :=
  match machine.frames with
  | [] => ⟨machine.ninja, [.driverTick .hwUartTick]⟩
  | .driverTick point :: frames =>
      tickStep received frames machine.ninja point
  | .execute cmdline called :: frames =>
      executeStep runs frames cmdline called machine.ninja
  | .command point :: frames =>
      commandStep frames machine.ninja garbage pinb point

def machineStep (cdcConsole : Bool) : MachineEvent → Machine δ → Machine δ
  | .arrive sent, machine =>
      { machine with
        ninja.cdc.endpoint := machine.ninja.cdc.endpoint ++ sent }
  | .connect isConnected, machine =>
      { machine with
        ninja.cdc :=
          usbdevCdcDeviceConnect cdcConsole isConnected machine.ninja.cdc }
  | .next received garbage pinb, machine =>
      machine.next runs received garbage pinb

def Machine.powerOn (shell : Shell δ) : Machine δ := ⟨.powerOn shell, []⟩

end

end BusNinja
