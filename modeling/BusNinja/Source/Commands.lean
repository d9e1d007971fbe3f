import Mathlib.Logic.Function.Iterate
import BusNinja.Source.Bus
import BusNinja.Source.Parse

/-!
# The command line

`commands.c`.  The line is the list of its bytes and pointers are positions
in it.  The table of global commands is a parameter.
-/

namespace BusNinja

/-- A name in flash: its characters, the terminator, and whatever follows. -/
structure FlashName where
  chars : List Byte
  after : Nat → Byte

def FlashName.byte (name : FlashName) (i : Nat) : Byte :=
  if i < name.chars.length then name.chars.getD i 0
  else if i = name.chars.length then 0
  else name.after (i - name.chars.length - 1)

/-- A handler is given the line from the end of the command's name on. -/
structure GlobalCommand (δ : Type) where
  name : FlashName
  handler : List Byte → Shell δ → Bool × Shell δ

variable {δ : Type}

/-- `console_puts_P` and `console_newline`. -/
def Shell.putLine (str : String) (shell : Shell δ) : Shell δ :=
  { shell with
    board :=
      { shell.board with
        out :=
          { shell.board.out with
            console :=
              consoleNewline
                (consolePutsP (text str) shell.board.out.console) } } }

/-- `memcmp_P(...) == 0` over `len` bytes from index `i` on. -/
def memcmpP (cmdline : List Byte) (cmdname : Nat) (name : FlashName) :
    Nat → Nat → Option Bool
  | 0, _ => some true
  | len + 1, i => do
      let c ← cmdline[cmdname + i]?
      if c = name.byte i then memcmpP cmdline cmdname name len (i + 1)
      else some false

def handleGlobalCommand (cmdline : List Byte) (cmdname len : Nat) :
    List (GlobalCommand δ) → Shell δ → Option (Bool × Shell δ)
  | [], shell => some (false, shell)
  | cmd :: table, shell => do
      let same ← memcmpP cmdline cmdname cmd.name len 0
      if same ∧ cmd.name.chars.length ≤ len then
        let (ok, shell) := cmd.handler (cmdline.drop (cmdname + len)) shell
        some (true, if !ok then shell.putLine "Error" else shell)
      else handleGlobalCommand cmdline cmdname len table shell

/-- The loop over the repeat suffix, `A:5`, from `ptr` on with `rounds` bytes
to go: the end of the token without its suffix, and the count. -/
def findRepeat (cmdline : List Byte) (start : Nat) :
    Nat → Nat → BitVec 32 → Option (Nat × BitVec 32)
  | 0, ptr, count => some (ptr, count)
  | rounds + 1, ptr, count => do
      let c ← cmdline[ptr]?
      if c = 0x3A ∧ 0 < ptr - start then
        let (ok, num) ←
          parseNumber cmdline (ptr + 1) (BitVec.ofNat 8 rounds)
        if ok then some (ptr, num)
        else findRepeat cmdline start rounds (ptr + 1) 0
      else findRepeat cmdline start rounds (ptr + 1) count

/-- `while(repeat--)` around a handler. -/
def repeatCall (act : Board δ → Board δ) (count : BitVec 32)
    (shell : Shell δ) : Shell δ :=
  { shell with board := act^[count.toNat] shell.board }

/-- The handler of a number: `xact` in duplex mode, else `write`. -/
def Shell.numberHandler (shell : Shell δ) :
    Option (Byte → Board δ → Board δ) := do
  let bus ← shell.currentBus
  if shell.duplex then bus.xact else bus.write

/-- The token is `r` or `R`. -/
def isRead (cmdline : List Byte) (start len : Nat) : Option Bool :=
  if len = 1 then do
    let c ← cmdline[start]?
    some (decide (c = 0x72 ∨ c = 0x52))
  else some false

def badCmd (shell : Shell δ) : Bool × Shell δ :=
  (false, shell.putLine "BadCmd")

section

variable (table : List (GlobalCommand δ))

/-- The commands of the bus come after the global commands. -/
def handleBusCommand (chars : List Byte) (count : BitVec 32)
    (shell : Shell δ) : Bool × Shell δ :=
  match shell.currentBus.bind BusInterface.command with
  | some command =>
      let (ok, board) := command chars count shell.board
      let shell := { shell with board := board }
      if ok then (false, shell) else badCmd shell
  | none => badCmd shell

/-- `TRUE` says that the rest of the line should be ignored. -/
def handleCommand (cmdline : List Byte) (start tokenEnd : Nat) (firstToken : Bool)
    (shell : Shell δ) : Option (Bool × Shell δ) := do
  let (tokenEnd, count) ← findRepeat cmdline start (tokenEnd - start) start 1
  let len := tokenEnd - start
  let (isNumber, num) ← parseNumber cmdline start (BitVec.ofNat 8 len)
  if isNumber then
    match shell.numberHandler with
    | some act => some (false, repeatCall (act (num.setWidth 8)) count shell)
    | none => some (badCmd shell)
  else do
    let reads ← isRead cmdline start len
    if reads then
      match shell.currentBus.bind BusInterface.read with
      | some act => some (false, repeatCall act count shell)
      | none => some (badCmd shell)
    else do
      let (found, shell) ←
        if firstToken then handleGlobalCommand cmdline start len table shell
        else some (false, shell)
      if found then some (true, shell)
      else
        some (handleBusCommand ((cmdline.drop start).take len) count shell)

inductive LineState where
  | searching
  | inToken
  deriving DecidableEq, Repr

/-- Whitespace between tokens: blank, tab and comma. -/
def isBlank (c : Byte) : Bool := c == 0x20 || c == 0x09 || c == 0x2C

def isOpening (c : Byte) : Bool := c == 0x7B || c == 0x5B

def isClosing (c : Byte) : Bool := c == 0x5D || c == 0x7D

/-- The characters that end a token. -/
def endsToken (c : Byte) : Bool :=
  isBlank c || isOpening c || isClosing c || c == 0x23

/-- `[`, or `{` with duplex set first. -/
def openBracket (c : Byte) (shell : Shell δ) : Shell δ :=
  let shell := if c = 0x7B then { shell with duplex := true } else shell
  shell.call BusInterface.start

/-- `]` and `}`. -/
def closeBracket (shell : Shell δ) : Shell δ :=
  { shell with duplex := false }.call BusInterface.stop

/-- The loop of `execute_command_line` for at most `fuel` rounds. -/
def executeLoop (cmdline : List Byte) :
    Nat → LineState → Nat → Nat → Bool → Shell δ → Option (Shell δ)
  | 0, _, _, _, _, _ => none
  | fuel + 1, state, str, tokenStart, firstToken, shell =>
      if str = cmdline.length then
        match state with
        | .inToken => do
            let (_, shell) ←
              handleCommand table cmdline tokenStart cmdline.length firstToken shell
            some shell
        | .searching => some shell
      else do
        let c ← cmdline[str]?
        match state with
        | .searching =>
            if c = 0x23 then some shell  -- comment, ignore the rest
            else if isBlank c then
              executeLoop cmdline fuel .searching (str + 1) tokenStart firstToken
                shell
            else if isOpening c then
              executeLoop cmdline fuel .searching (str + 1) tokenStart false
                (openBracket c shell)
            else if isClosing c then
              executeLoop cmdline fuel .searching (str + 1) tokenStart false
                (closeBracket shell)
            else
              executeLoop cmdline fuel .inToken (str + 1) str firstToken shell
        | .inToken =>
            if endsToken c then do
              let (done, shell) ←
                handleCommand table cmdline tokenStart str firstToken shell
              if done then some shell
              else executeLoop cmdline fuel .searching str tokenStart false shell
            else
              executeLoop cmdline fuel .inToken (str + 1) tokenStart firstToken
                shell

/-- Every byte is looked at most twice: once as the end of a token. -/
def executeCommandLine (cmdline : List Byte) (shell : Shell δ) :
    Option (Shell δ) :=
  executeLoop table cmdline (2 * cmdline.length + 1) .searching 0 0 true shell

end

end BusNinja
