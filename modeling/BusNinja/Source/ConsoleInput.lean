import BusNinja.Source.Console

/-!
# Console input

The input half of `console.c`: a line editor in line mode, and a mailbox for
one key in key mode.
-/

namespace BusNinja

inductive ConsoleMode where
  | line
  | key
  deriving DecidableEq, Repr

abbrev cmdbufSiz : Nat := 64

/-- The statics of `console.c`, less those of the output half.  `discarded`
records the bytes thrown away while a line was waiting. -/
structure ConsoleInput where
  mode : ConsoleMode
  cmdbufLen : Fin cmdbufSiz
  cmdbuf : Vector Byte cmdbufSiz
  gotLine : Bool
  echo : Bool
  gotKey : Bool
  lastKey : Byte
  discarded : List Byte
  deriving DecidableEq, Repr

namespace ConsoleInput

def powerOn : ConsoleInput where
  mode := .line
  cmdbufLen := 0
  cmdbuf := Vector.replicate cmdbufSiz 0
  gotLine := false
  echo := true
  gotKey := false
  lastKey := 0
  discarded := []

/-- The first `len` bytes of `cmdbuf`. -/
def bytes (len : Nat) (input : ConsoleInput) : List Byte :=
  input.cmdbuf.toList.take len

/-- `cmdbuf_len = 0` -/
def startLine (input : ConsoleInput) : ConsoleInput := { input with cmdbufLen := 0 }

/-- `cmdbuf[cmdbuf_len++] = c` -/
def store (c : Byte) (input : ConsoleInput)
    (room : input.cmdbufLen.val < cmdbufSiz - 1) : ConsoleInput :=
  { input with
    cmdbuf := input.cmdbuf.set input.cmdbufLen c
    cmdbufLen := ⟨input.cmdbufLen.val + 1, Nat.add_lt_of_lt_sub room⟩ }

/-- The bytes of the line so far. -/
def cmdline (input : ConsoleInput) : List Byte := input.bytes input.cmdbufLen

@[simp] theorem cmdline_length (input : ConsoleInput) :
    input.cmdline.length = input.cmdbufLen := by
  have bound := input.cmdbufLen.isLt
  simp only [cmdline, bytes, List.length_take, Vector.length_toList]
  omega

theorem cmdline_ne_nil (input : ConsoleInput) :
    input.cmdline ≠ [] ↔ 0 < input.cmdbufLen.val := by
  rw [← List.length_pos_iff, cmdline_length]

end ConsoleInput

def consoleSetMode (mode : ConsoleMode) (input : ConsoleInput) :
    ConsoleInput :=
  match mode with
  | .line => { input.startLine with mode := mode, gotLine := false }
  | .key => { input with mode := mode, gotKey := false }

def consoleInit (input : ConsoleInput) : ConsoleInput :=
  consoleSetMode .line input

/-- The key, if one was got. -/
def consoleKeyPoll (input : ConsoleInput) : Option Byte × ConsoleInput :=
  if input.gotKey then
    (some input.lastKey, { input with gotKey := false })
  else (none, input)

def consoleRxReadyCallback (input : ConsoleInput) : Bool :=
  match input.mode with
  | .line => !input.gotLine
  | .key => true

/-- Backspace and delete. -/
def isErase (c : Byte) : Bool := c == 0x08 || c == 0x7F

def consoleRxCallback (c : Byte) (input : ConsoleInput) (console : Console) :
    ConsoleInput × Console :=
  match input.mode with
  | .key => ({ input with gotKey := true, lastKey := c }, console)
  | .line =>
      if input.gotLine then  -- throw away chars until the line is handled
        ({ input with discarded := input.discarded ++ [c] }, console)
      else if c = 0x0D then
        ({ input with gotLine := true }, consoleNewline console)
      else if isErase c then
        if 0 < input.cmdbufLen.val then
          ({ input with cmdbufLen := input.cmdbufLen - 1 },
            consolePutc 0x08 (consolePutc 0x20 (consolePutc 0x08 console)))
        else (input, console)
      else if room : input.cmdbufLen.val < cmdbufSiz - 1 then
        (input.store c room,
          if input.echo then consolePutc c console else console)
      else (input, consolePutc 0x07 console)  -- bell

def prompt (console : Console) : Console := consolePutsP (text "> ") console

end BusNinja
