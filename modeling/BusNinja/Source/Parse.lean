import BusNinja.Source.Console

/-!
# Reading numbers

`parse_number` of `parse.c`.  A pointer into the command line is a position
in the list of its bytes; reading a byte outside the line has no result.
-/

namespace BusNinja

/-- The value of a digit, in eight bits. -/
def digitToInt (ch : Byte) : Byte :=
  let r :=
    if 0x61 ≤ ch then 0x61 - 10
    else if 0x41 ≤ ch then 0x41 - 10
    else if ch ≤ 0x39 then 0x30
    else 0
  ch - r

/-- The loop of `parse_number` from index `i` on, with `rounds` bytes to go.
The number read so far is the result also when the parse fails. -/
def parseLoop (cmdline : List Byte) (str : Nat) (len : Byte) :
    Nat → Nat → Byte → BitVec 32 → Option (Bool × BitVec 32)
  | 0, _, _, result => some (true, result)
  | rounds + 1, i, base, result => do
      let c ← cmdline[str + i]?
      if result = 0 ∧ (i = 0 ∨ i = 1) ∧ c = 0x62 then
        if len < 2 then some (false, result)
        else parseLoop cmdline str len rounds (i + 1) 2 result
      else if result = 0 ∧ i = 0 ∧ c = 0x68 then
        if len < 2 then some (false, result)
        else parseLoop cmdline str len rounds (i + 1) 16 result
      else if result = 0 ∧ i = 1 ∧ c = 0x78 then
        if len < 3 then some (false, result)
        else parseLoop cmdline str len rounds (i + 1) 16 result
      else if digitToInt c < base then
        parseLoop cmdline str len rounds (i + 1) base
          (result * base.setWidth 32 + (digitToInt c).setWidth 32)
      else some (false, result)

/-- What `parse_number` returns and stores; its length has eight bits. -/
def parseNumber (cmdline : List Byte) (str : Nat) (len : Byte) :
    Option (Bool × BitVec 32) :=
  parseLoop cmdline str len len.toNat 0 10 0

end BusNinja
