import Mathlib.Data.List.Basic

/-!
# Console output

The output half of `console.c` and the bus output of `bus.c`.  Every byte
that reaches the attached sink is appended to `output`.
-/

namespace BusNinja

abbrev Byte := BitVec 8

/-- The bytes of a NUL-terminated text in flash, without the terminator. -/
def text (str : String) : List Byte :=
  str.toList.map fun c => BitVec.ofNat 8 c.toNat

/-- `console.c`: whether output is muted, and what was put out. -/
structure Console where
  silent : Bool
  output : List Byte
  deriving DecidableEq, Repr

def consolePutc (c : Byte) (console : Console) : Console :=
  if !console.silent then
    { console with output := console.output ++ [c] }
  else console

def consolePutsP (str : List Byte) (console : Console) : Console :=
  str.foldl (fun console c => consolePutc c console) console

def consoleNewline (console : Console) : Console :=
  consolePutc 0x0A (consolePutc 0x0D console)

def nibbleToChar (nibble : Byte) : Byte :=
  if nibble < 0xA then nibble + 0x30 else nibble - 0xA + 0x41

def consolePuthex8 (h : Byte) (console : Console) : Console :=
  consolePutc (nibbleToChar (h &&& 0x0F))
    (consolePutc (nibbleToChar ((h &&& 0xF0) >>> 4)) console)

def consolePut0x8 (h : Byte) (console : Console) : Console :=
  consolePuthex8 h (consolePutc 0x78 (consolePutc 0x30 console))

/-- The loop of `console_putdec` over `m = 1000000000, ..., 10`; the digit
after the loop is put out when `m` has reached 1. -/
def putdecLoop (n m : BitVec 32) (inLeadingZeroes : Bool) :
    Nat → Console → Console
  | 0, console => consolePutc (nibbleToChar (n.setWidth 8)) console
  | rounds + 1, console =>
      let inLeadingZeroes := if n / m ≠ 0 then false else inLeadingZeroes
      let console :=
        if !inLeadingZeroes then
          consolePutc (nibbleToChar ((n / m).setWidth 8)) console
        else console
      putdecLoop (n % m) (m / 10) inLeadingZeroes rounds console

/-- Nine rounds take `m` from 1000000000 down to 1. -/
def consolePutdec (n : BitVec 32) (console : Console) : Console :=
  putdecLoop n 1000000000 true 9 console

def consolePutbin (b : Byte) (console : Console) : Console :=
  [0x80#8, 0x40, 0x20, 0x10, 0x08, 0x04, 0x02, 0x01].foldl
    (fun console mask =>
      if b &&& mask ≠ 0 then consolePutc 0x31 console
      else consolePutc 0x30 console)
    (consolePutc 0x62 console)

/-- Formatting mode for `bus_out`. -/
inductive Outmode where
  | hex0x8
  | ascii
  | bin
  | dec
  | hex8
  | silent
  deriving DecidableEq, Repr

/-- `bus.c`: how bus data and bus messages are put out.  `handed` lists the
arguments `bus_out` was called with. -/
structure BusOutput where
  outmode : Outmode
  logEnabled : Bool
  console : Console
  handed : List Byte
  deriving DecidableEq, Repr

def busOut (c : Byte) (out : BusOutput) : BusOutput :=
  let console :=
    match out.outmode with
    | .ascii => consolePutc c out.console
    | .bin => consolePutbin c out.console
    | .dec => consolePutdec (c.setWidth 32) out.console
    | .hex8 => consolePuthex8 c out.console
    | .hex0x8 => consolePut0x8 c out.console
    | .silent => out.console
  let console :=
    if !out.logEnabled then consolePutc 0x20 console else console
  { out with console := console, handed := out.handed ++ [c] }

/-- A `bus_log_*` function: put out only while logging is enabled. -/
def busLog (put : Console → Console) (out : BusOutput) : BusOutput :=
  if out.logEnabled then { out with console := put out.console } else out

def busLogPutc (c : Byte) : BusOutput → BusOutput := busLog (consolePutc c)

def busLogPut0x8 (c : Byte) : BusOutput → BusOutput :=
  busLog (consolePut0x8 c)

def busLogPutsP (str : String) : BusOutput → BusOutput :=
  busLog (consolePutsP (text str))

def busLogNewline : BusOutput → BusOutput := busLog consoleNewline

theorem consolePutsP_append (first second : List Byte) (console : Console) :
    consolePutsP (first ++ second) console =
      consolePutsP second (consolePutsP first console) :=
  List.foldl_append

theorem consolePutsP_silent (str : List Byte) (console : Console) :
    (consolePutsP str console).silent = console.silent := by
  induction str generalizing console with
  | nil => rfl
  | cons c str induction =>
      have put : (consolePutc c console).silent = console.silent := by
        unfold consolePutc
        split <;> rfl
      exact (induction _).trans put

theorem consolePutsP_output (str : List Byte) {console : Console}
    (audible : console.silent = false) :
    (consolePutsP str console).output = console.output ++ str := by
  unfold consolePutsP
  induction str generalizing console with
  | nil => simp
  | cons c str induction =>
      have next : consolePutc c console =
          { console with output := console.output ++ [c] } := by
        simp [consolePutc, audible]
      rw [List.foldl_cons, next, induction]
      · simp
      · exact audible

@[simp] theorem busOut_handed (c : Byte) (out : BusOutput) :
    (busOut c out).handed = out.handed ++ [c] := rfl

@[simp] theorem busLog_handed (put : Console → Console) (out : BusOutput) :
    (busLog put out).handed = out.handed := by
  unfold busLog
  split <;> rfl

end BusNinja
