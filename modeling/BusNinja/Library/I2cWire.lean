import Mathlib.Data.List.Basic

/-!
# An observer of the two I2C lines

The observer sees nothing but the levels of SDA and SCL.  A fall of SDA
while SCL stays high is a START, a rise is a STOP, and SDA is sampled at
every rise of SCL.  Nine samples make a byte with its acknowledge bit; what
was sampled of an incomplete byte is forgotten at a START or a STOP.
-/

namespace I2cWire

/-- The levels of both lines, `true` for high. -/
structure Level where
  sda : Bool
  scl : Bool
  deriving DecidableEq, Repr

inductive Event where
  | start
  | byte (value : BitVec 8) (acked : Bool)
  | stop
  deriving DecidableEq, Repr

structure Observer where
  level : Level
  bits : List Bool
  events : List Event
  deriving DecidableEq, Repr

def Observer.idle : Observer := ⟨⟨true, true⟩, [], []⟩

/-- Shift one bit into a byte, most significant bit first. -/
def shiftIn (value : BitVec 8) (bit : Bool) : BitVec 8 :=
  (value <<< 1) ||| (if bit then 1#8 else 0#8)

/-- The byte sampled most significant bit first. -/
def byteOfBits (bits : List Bool) : BitVec 8 := bits.foldl shiftIn 0#8

/-- The first bits of a byte in wire order. -/
def topBits : Nat → BitVec 8 → List Bool
  | 0, _ => []
  | bits + 1, value => value.msb :: topBits bits (value <<< 1)

namespace Observer

/-- One sample of SDA.  The ninth one is the acknowledge bit, low for ACK. -/
def clock (seen : Observer) (bit : Bool) : Observer :=
  if seen.bits.length = 8 then
    { seen with
      bits := []
      events := seen.events ++ [.byte (byteOfBits seen.bits) (!bit)] }
  else
    { seen with bits := seen.bits ++ [bit] }

/-- A START or a STOP: an incomplete byte is discarded. -/
def condition (seen : Observer) (event : Event) : Observer :=
  { seen with bits := [], events := seen.events ++ [event] }

/-- The observer after it has seen the lines at `next`. -/
def see (seen : Observer) (next : Level) : Observer :=
  let noticed :=
    if seen.level.scl && next.scl then
      if seen.level.sda && !next.sda then seen.condition .start
      else if !seen.level.sda && next.sda then seen.condition .stop
      else seen
    else if !seen.level.scl && next.scl then seen.clock next.sda
    else seen
  { noticed with level := next }

def watch (seen : Observer) (levels : List Level) : Observer :=
  levels.foldl see seen

@[simp] theorem watch_nil (seen : Observer) : seen.watch [] = seen := rfl

@[simp] theorem watch_cons (seen : Observer) (next : Level)
    (levels : List Level) :
    seen.watch (next :: levels) = (seen.see next).watch levels := rfl

theorem watch_append (seen : Observer) (first second : List Level) :
    seen.watch (first ++ second) = (seen.watch first).watch second :=
  List.foldl_append

theorem clock_short (seen : Observer) (bit : Bool)
    (short : seen.bits.length < 8) :
    seen.clock bit = { seen with bits := seen.bits ++ [bit] } := by
  rw [clock, if_neg (Nat.ne_of_lt short)]

theorem clock_ninth (seen : Observer) (bit : Bool)
    (full : seen.bits.length = 8) :
    seen.clock bit =
      { seen with
        bits := []
        events := seen.events ++ [.byte (byteOfBits seen.bits) (!bit)] } := by
  rw [clock, if_pos full]

/-- SDA may do anything while SCL is low. -/
theorem see_low (seen : Observer) (sda : Bool) :
    seen.see ⟨sda, false⟩ = { seen with level := ⟨sda, false⟩ } := by
  simp [see]

theorem see_rise (seen : Observer) (sda : Bool)
    (low : seen.level.scl = false) :
    seen.see ⟨sda, true⟩ = { seen.clock sda with level := ⟨sda, true⟩ } := by
  simp [see, low]

theorem see_start (seen : Observer) (idle : seen.level = ⟨true, true⟩) :
    seen.see ⟨false, true⟩ =
      { seen.condition .start with level := ⟨false, true⟩ } := by
  simp [see, idle]

theorem see_stop (seen : Observer) (held : seen.level = ⟨false, true⟩) :
    seen.see ⟨true, true⟩ =
      { seen.condition .stop with level := ⟨true, true⟩ } := by
  simp [see, held]

end Observer

/-- The events an observer of an initially idle bus decodes. -/
def decode (levels : List Level) : List Event :=
  (Observer.idle.watch levels).events

/-- The wire order is read back by the observer. -/
theorem byteOfBits_topBits (value : BitVec 8) :
    byteOfBits (topBits 8 value) = value := by
  revert value
  decide +kernel

end I2cWire
