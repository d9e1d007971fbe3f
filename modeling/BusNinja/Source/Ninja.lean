import BusNinja.Source.Bus
import BusNinja.Source.ConsoleInput

/-!
# The tick of the drivers

`driver_tick` of `ninja.c`, with the receiving halves of `usbdev_cdc.c` and
`hw_uart.c`.  What a command line does is a parameter.
-/

namespace BusNinja

/-- The statics of `usbdev_cdc.c`; a callback is either NULL or the one of
the console.  `endpoint` holds the bytes the host has sent that are still to
be received. -/
structure UsbdevCdc where
  connected : Bool
  rxCb : Bool
  rxReadyCb : Bool
  endpoint : List Byte
  deriving DecidableEq, Repr

def UsbdevCdc.powerOn : UsbdevCdc where
  connected := false
  rxCb := false
  rxReadyCb := false
  endpoint := []

/-- `cdcConsole` is `CONFIG_USBDEV_CDC_CONSOLE`. -/
def usbdevCdcDeviceConnect (cdcConsole isConnected : Bool) (cdc : UsbdevCdc) :
    UsbdevCdc :=
  let cdc := { cdc with connected := isConnected }
  if cdcConsole then { cdc with rxCb := isConnected, rxReadyCb := isConnected }
  else cdc

def cdcBufsize : Nat := 16

/-- The program, with a record of the bytes taken from the devices, of the
lines executed, of the prompts and of the keys polled. -/
structure Ninja (δ : Type) where
  input : ConsoleInput
  cdc : UsbdevCdc
  shell : Shell δ
  taken : List Byte
  executed : List (List Byte)
  prompts : Nat
  polled : List Byte

namespace Ninja

variable {δ : Type}

def print (put : Console → Console) (ninja : Ninja δ) : Ninja δ :=
  { ninja with
    shell :=
      { ninja.shell with
        board :=
          { ninja.shell.board with
            out :=
              { ninja.shell.board.out with
                console := put ninja.shell.board.out.console } } } }

/-- A byte taken from a device is handed to `console_rx_callback`. -/
def rx (c : Byte) (ninja : Ninja δ) : Ninja δ :=
  let (input, console) :=
    consoleRxCallback c ninja.input ninja.shell.board.out.console
  { ninja with input := input, taken := ninja.taken ++ [c] }.print
    fun _ => console

/-- In key mode a byte becomes the last key, whatever else is pending. -/
theorem rx_key {ninja : Ninja δ} (key : ninja.input.mode = .key) (c : Byte) :
    (ninja.rx c).input =
      { ninja.input with gotKey := true, lastKey := c } := by
  change (consoleRxCallback c ninja.input ninja.shell.board.out.console).1 = _
  simp [consoleRxCallback, key]

def keyPoll (ninja : Ninja δ) : Ninja δ :=
  let (key, input) := consoleKeyPoll ninja.input
  { ninja with input := input, polled := ninja.polled ++ key.toList }

theorem keyPoll_got {ninja : Ninja δ} (got : ninja.input.gotKey = true) :
    ninja.keyPoll =
      { ninja with
        input.gotKey := false
        polled := ninja.polled ++ [ninja.input.lastKey] } := by
  simp [keyPoll, consoleKeyPoll, got]

theorem keyPoll_none {ninja : Ninja δ} (none : ninja.input.gotKey = false) :
    ninja.keyPoll = ninja := by
  simp [keyPoll, consoleKeyPoll, none]

/-- The receive loop finds a byte and a console that is ready. -/
def receives (ninja : Ninja δ) : Bool :=
  !ninja.cdc.endpoint.isEmpty && ninja.cdc.rxReadyCb &&
    consoleRxReadyCallback ninja.input

end Ninja

section

variable {δ : Type} (execute : List Byte → Shell δ → Shell δ)

/-- `received` is what the data register holds, if anything has come. -/
def hwUartTick (received : Option Byte) (ninja : Ninja δ) : Ninja δ :=
  match received with
  | some c => ninja.rx c
  | none => ninja

/-- The receive loop for at most `rounds` rounds.  A byte that comes while it
polls is received as if it had been there at the start. -/
def cdcLoop : Nat → Ninja δ → Ninja δ
  | 0, ninja => ninja
  | rounds + 1, ninja =>
      match ninja.cdc.endpoint with
      | [] => ninja
      | c :: endpoint =>
          if ninja.cdc.rxReadyCb ∧ consoleRxReadyCallback ninja.input then
            let ninja := { ninja with cdc.endpoint := endpoint }
            if ninja.cdc.rxCb then cdcLoop rounds (ninja.rx c)
            else { ninja with taken := ninja.taken ++ [c] }
          else ninja

theorem cdcLoop_idle (rounds : Nat) {ninja : Ninja δ}
    (idle : ninja.receives = false) : cdcLoop rounds ninja = ninja := by
  cases rounds with
  | zero => rfl
  | succ rounds =>
      unfold cdcLoop
      split
      · rfl
      · next c endpoint waiting =>
          have closed : ¬ (ninja.cdc.rxReadyCb = true ∧
              consoleRxReadyCallback ninja.input = true) := by
            simpa [Ninja.receives, waiting] using idle
          rw [if_neg closed]

def usbdevCdcTick (ninja : Ninja δ) : Ninja δ :=
  if !ninja.cdc.connected then ninja else cdcLoop cdcBufsize ninja

/-- Of the statics of the device the loop changes only what waits. -/
theorem cdcLoop_cdc (rounds : Nat) (ninja : Ninja δ) :
    ∃ endpoint, (cdcLoop rounds ninja).cdc =
      { ninja.cdc with endpoint := endpoint } := by
  induction rounds generalizing ninja with
  | zero => exact ⟨_, rfl⟩
  | succ rounds induction =>
      unfold cdcLoop
      split
      · exact ⟨_, rfl⟩
      · dsimp only
        split
        · split
          · exact induction _
          · exact ⟨_, rfl⟩
        · exact ⟨_, rfl⟩

theorem usbdevCdcTick_cdc (ninja : Ninja δ) :
    ∃ endpoint, (usbdevCdcTick ninja).cdc =
      { ninja.cdc with endpoint := endpoint } := by
  unfold usbdevCdcTick
  split
  · exact ⟨_, rfl⟩
  · exact cdcLoop_cdc cdcBufsize ninja

/-- `execute_command_line` on the line got. -/
def Ninja.executeLine (ninja : Ninja δ) : Ninja δ :=
  { ninja with
    shell := execute ninja.input.cmdline ninja.shell
    executed := ninja.executed ++ [ninja.input.cmdline] }

def Ninja.finishLine (ninja : Ninja δ) : Ninja δ :=
  let ninja := { ninja with input := ninja.input.startLine }
  let ninja := { ninja.print prompt with prompts := ninja.prompts + 1 }
  { ninja with input.gotLine := false }

def consoleTick (ninja : Ninja δ) : Ninja δ :=
  match ninja.input.mode with
  | .line =>
      if ninja.input.gotLine then
        if 0 < ninja.input.cmdbufLen.val then
          (ninja.executeLine execute).finishLine
        else ninja.finishLine
      else ninja
  | .key => ninja

/-- `driver_tick` as far as the console: the watchdog is left out, and
`led_tick`, which comes last, is in `driverTickLed`. -/
def driverTick (received : Option Byte) (ninja : Ninja δ) : Ninja δ :=
  consoleTick execute (usbdevCdcTick (hwUartTick received ninja))

/-- What happens around the console: the host sends bytes or connects, the
drivers tick, or a handler polls for a key. -/
inductive InputEvent where
  | arrive (sent : List Byte)
  | connect (isConnected : Bool)
  | driverTick (received : Option Byte)
  | keyPoll
  deriving DecidableEq, Repr

def inputStep (cdcConsole : Bool) : InputEvent → Ninja δ → Ninja δ
  | .arrive sent, ninja =>
      { ninja with cdc.endpoint := ninja.cdc.endpoint ++ sent }
  | .connect isConnected, ninja =>
      { ninja with
        cdc := usbdevCdcDeviceConnect cdcConsole isConnected ninja.cdc }
  | .driverTick received, ninja => driverTick execute received ninja
  | .keyPoll, ninja => ninja.keyPoll

/-- The program when `main` starts to tick. -/
def Ninja.powerOn (shell : Shell δ) : Ninja δ where
  input := consoleInit .powerOn
  cdc := .powerOn
  shell := shell
  taken := []
  executed := []
  prompts := 0
  polled := []

end

end BusNinja
