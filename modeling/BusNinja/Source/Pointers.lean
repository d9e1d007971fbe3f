import BusNinja.Library.Traced
import BusNinja.Source.GlobalCommands

/-!
# The command line through pointers

The scanners of `commands.c` and `parse.c` once more, over a memory that goes
on behind the line.  Pointers are compared with `!=` only, and a loop runs for
at most `fuel` rounds.  What is read through a pointer into the line and the
lengths given to `parse_number` are recorded.
-/

namespace BusNinja.Pointers

open Tracing

/-- A byte read at `ptr`, or the length with which `parse_number` is called
for the bytes from `str` up to `stop`. -/
inductive Access where
  | read (ptr : Nat)
  | number (str stop : Nat) (len : Byte)
  deriving DecidableEq, Repr

section

variable (memory : Nat → Byte)

def readByte (ptr : Nat) : Traced Access Byte := do
  record (.read ptr)
  pure (memory ptr)

/-- What a callee outside these files is given. -/
def bytesBetween (start stop : Nat) : List Byte :=
  (List.range (stop - start)).map fun i => memory (start + i)

def parseLoop (str : Nat) (len : Byte) :
    Nat → Byte → Byte → BitVec 32 → Traced Access (Bool × BitVec 32)
  | 0, _, _, _ => unfinished
  | rounds + 1, i, base, result =>
      if i < len then do
        let c ← readByte memory (str + i.toNat)
        if result = 0 ∧ (i = 0 ∨ i = 1) ∧ c = 0x62 then
          if len < 2 then pure (false, result)
          else parseLoop str len rounds (i + 1) 2 result
        else if result = 0 ∧ i = 0 ∧ c = 0x68 then
          if len < 2 then pure (false, result)
          else parseLoop str len rounds (i + 1) 16 result
        else if result = 0 ∧ i = 1 ∧ c = 0x78 then
          if len < 3 then pure (false, result)
          else parseLoop str len rounds (i + 1) 16 result
        else if digitToInt c < base then
          parseLoop str len rounds (i + 1) base
            (result * base.setWidth 32 + (digitToInt c).setWidth 32)
        else pure (false, result)
      else pure (true, result)

variable (fuel : Nat)

/-- `parse_number(str, stop-str, ...)` -/
def parseNumber (str stop : Nat) : Traced Access (Bool × BitVec 32) := do
  let len := BitVec.ofInt 8 ((stop : Int) - str)
  record (.number str stop len)
  parseLoop memory str len fuel 0 10 0

/-- Both loops of `tok`: on from `ptr` while `skips` holds. -/
def tokLoop (skips : Byte → Bool) (lineEnd : Nat) : Nat → Nat → Traced Access Nat
  | 0, _ => unfinished
  | rounds + 1, ptr =>
      if ptr ≠ lineEnd then do
        let c ← readByte memory ptr
        if skips c then tokLoop skips lineEnd rounds (ptr + 1) else pure ptr
      else pure ptr

def tok (tokStart lineEnd : Nat) : Traced Access (Bool × Nat × Nat) := do
  let tokStart ← tokLoop memory isSpace lineEnd fuel tokStart
  let tokEnd ← tokLoop memory (!isSpace ·) lineEnd fuel tokStart
  pure (tokEnd != tokStart, tokStart, tokEnd)

def tokNum (tokStart lineEnd : Nat) (i : BitVec 32) :
    Traced Access (Bool × Nat × Nat × BitVec 32) := do
  let (found, tokStart, tokEnd) ← tok memory fuel tokStart lineEnd
  if found then do
    let (ok, i) ← parseNumber memory fuel tokStart tokEnd
    if ok then pure (true, tokEnd, tokEnd, i)
    else pure (false, tokStart, tokEnd, i)
  else pure (false, tokStart, tokEnd, i)

end

/-- The `led` command, with what `led_set_seq` does, or a handler that
returns and reads the line in its own ways. -/
inductive LineHandler (δ : Type) where
  | led (setSeq : Byte → Board δ → Board δ)
  | returns (handler : List Byte → Shell δ → Bool × Shell δ)

structure LineCommand (δ : Type) where
  name : FlashName
  handler : LineHandler δ

variable {δ : Type}

section

variable (memory : Nat → Byte) (fuel : Nat)

def globalCommandLed (setSeq : Byte → Board δ → Board δ) (tokStart lineEnd : Nat)
    (shell : Shell δ) : Traced Access (Bool × Shell δ) := do
  let (ok, _, _, num) ← tokNum memory fuel tokStart lineEnd 0
  if ok then
    if num ≥ ledSeqMax then pure (false, shell)
    else
      pure (true, { shell with board := setSeq (num.setWidth 8) shell.board })
  else pure (false, shell)

def LineHandler.call (tokStart lineEnd : Nat) (shell : Shell δ) :
    LineHandler δ → Traced Access (Bool × Shell δ)
  | .led setSeq => globalCommandLed memory fuel setSeq tokStart lineEnd shell
  | .returns handler => pure (handler (bytesBetween memory tokStart lineEnd) shell)

/-- `memcmp_P(...) == 0` over `len` bytes from index `i` on. -/
def memcmpP (cmdname : Nat) (name : FlashName) : Nat → Nat → Traced Access Bool
  | 0, _ => pure true
  | len + 1, i => do
      let c ← readByte memory (cmdname + i)
      if c = name.byte i then memcmpP cmdname name len (i + 1) else pure false

def handleGlobalCommand (cmdname len lineEnd : Nat) :
    List (LineCommand δ) → Shell δ → Traced Access (Bool × Shell δ)
  | [], shell => pure (false, shell)
  | cmd :: table, shell => do
      let same ← memcmpP memory cmdname cmd.name len 0
      if same ∧ cmd.name.chars.length ≤ len then do
        let (ok, shell) ← cmd.handler.call memory fuel (cmdname + len) lineEnd shell
        pure (true, if !ok then shell.putLine "Error" else shell)
      else handleGlobalCommand cmdname len lineEnd table shell

/-- The loop over the repeat suffix, `A:5`. -/
def findRepeat (start stop : Nat) :
    Nat → Nat → BitVec 32 → Traced Access (Nat × BitVec 32)
  | 0, _, _ => unfinished
  | rounds + 1, ptr, count =>
      if ptr ≠ stop then do
        let c ← readByte memory ptr
        if c = 0x3A ∧ 0 < (ptr : Int) - start then do
          let (ok, num) ← parseNumber memory fuel (ptr + 1) stop
          if ok then pure (ptr, num)
          else findRepeat start stop rounds (ptr + 1) 0
        else findRepeat start stop rounds (ptr + 1) count
      else pure (stop, count)

/-- The token is `r` or `R`. -/
def isRead (start tokenEnd : Nat) : Traced Access Bool :=
  if (tokenEnd : Int) - start = 1 then do
    let c ← readByte memory start
    pure (decide (c = 0x72 ∨ c = 0x52))
  else pure false

variable (table : List (LineCommand δ))

def handleCommand (start tokenEnd : Nat) (firstToken : Bool) (lineEnd : Nat)
    (shell : Shell δ) : Traced Access (Bool × Shell δ) := do
  let (tokenEnd, count) ← findRepeat memory fuel start tokenEnd fuel start 1
  let (isNumber, num) ← parseNumber memory fuel start tokenEnd
  if isNumber then
    match shell.numberHandler with
    | some act => pure (false, repeatCall (act (num.setWidth 8)) count shell)
    | none => pure (badCmd shell)
  else do
    let reads ← isRead memory start tokenEnd
    if reads then
      match shell.currentBus.bind BusInterface.read with
      | some act => pure (false, repeatCall act count shell)
      | none => pure (badCmd shell)
    else do
      let (found, shell) ←
        if firstToken then
          handleGlobalCommand memory fuel start (tokenEnd - start) lineEnd table shell
        else pure (false, shell)
      if found then pure (true, shell)
      else
        pure (handleBusCommand (bytesBetween memory start tokenEnd) count shell)

/-- The loop of `execute_command_line`, with its end pointer. -/
def executeLoop (lineEnd : Nat) :
    Nat → LineState → Nat → Nat → Bool → Shell δ → Traced Access (Shell δ)
  | 0, _, _, _, _, _ => unfinished
  | rounds + 1, state, str, tokenStart, firstToken, shell =>
      if str ≠ lineEnd then do
        let c ← readByte memory str
        match state with
        | .searching =>
            if c = 0x23 then pure shell  -- comment, ignore the rest
            else if isBlank c then
              executeLoop lineEnd rounds .searching (str + 1) tokenStart firstToken
                shell
            else if isOpening c then
              executeLoop lineEnd rounds .searching (str + 1) tokenStart false
                (openBracket c shell)
            else if isClosing c then
              executeLoop lineEnd rounds .searching (str + 1) tokenStart false
                (closeBracket shell)
            else
              executeLoop lineEnd rounds .inToken (str + 1) str firstToken shell
        | .inToken =>
            if endsToken c then do
              let (done, shell) ← handleCommand memory fuel table tokenStart str
                firstToken lineEnd shell
              if done then pure shell
              else executeLoop lineEnd rounds .searching str tokenStart false shell
            else
              executeLoop lineEnd rounds .inToken (str + 1) tokenStart firstToken
                shell
      else
        match state with
        | .inToken => do
            let (_, shell) ← handleCommand memory fuel table tokenStart lineEnd
              firstToken lineEnd shell
            pure shell
        | .searching => pure shell

/-- The line starts at index 0. -/
def executeCommandLine (len : Nat) (shell : Shell δ) : Traced Access (Shell δ) :=
  executeLoop memory fuel table len fuel .searching 0 0 true shell

end

end BusNinja.Pointers
