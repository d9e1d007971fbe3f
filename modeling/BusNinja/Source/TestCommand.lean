import BusNinja.Source.GlobalCommands

/-!
# The test command

`test` of `global_commands.c`, which a build with `CONFIG_COMMAND_TEST` has.
-/

namespace BusNinja

variable {δ : Type}

/-- `console_putsmem` from index `a` on, with `rounds` bytes to go. -/
def consolePutsmem (args : List Byte) : Nat → Nat → Console → Option Console
  | 0, _, console => some console
  | rounds + 1, a, console => do
      let c ← args[a]?
      consolePutsmem args rounds (a + 1) (consolePutc c console)

/-- The loop of the command for at most `fuel` rounds. -/
def testLoop (args : List Byte) :
    Nat → Nat → BitVec 32 → Console → Option Console
  | 0, _, _, _ => none
  | fuel + 1, tokStart, num, console =>
      if tokStart = args.length then some console
      else do
        let (isNumber, tokStart, tokEnd, num) ← tokNum args tokStart num
        if isNumber then
          let console := consolePutsP (text "number: ") console
          let console := consolePutdec num console
          testLoop args fuel tokStart num (consoleNewline console)
        else do
          let console := consolePutsP (text "string: ") console
          let console ← consolePutsmem args (tokEnd - tokStart) tokStart console
          testLoop args fuel tokEnd num (consoleNewline console)

/-- `num` is not initialised.  Every round but the last moves `tok_start`. -/
def globalCommandTest (num : BitVec 32) (args : List Byte) (board : Board δ) :
    Option (Bool × Board δ) := do
  let console ← testLoop args (args.length + 1) 0 num board.out.console
  some (true, { board with out := { board.out with console := console } })

end BusNinja
