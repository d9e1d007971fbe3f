import BusNinja.Source.Led

/-!
# The step timer

The interrupt of `tick.c` counts ticks, and `led_tick` takes a step of the
selected sequence whenever the count is past the deadline it set at the last
one.
-/

namespace BusNinja

/-- The interrupt on `TIMER0_OVF_vect`, as it changes `ticks`. -/
def timer0Ovf (ticks : BitVec 32) : BitVec 32 := ticks + 1

def ticksPerSec (fCpu : BitVec 32) : BitVec 32 := fCpu / 256

/-- `STEP_TIME`, the number of ticks in a step. -/
def stepTime (fCpu : BitVec 32) : BitVec 32 := ticksPerSec fCpu / 256

/-- The statics of `led.c` and `hw_led_brightness`; `steps` counts the calls
of `led_seq_tick`. -/
structure LedDriver where
  led : Led
  stepTimer : BitVec 32
  brightness : Byte
  steps : Nat
  deriving DecidableEq, Repr

def hwLedSet (v : Byte) (driver : LedDriver) : LedDriver :=
  { driver with brightness := v }

def ledSeqTick (driver : LedDriver) : LedDriver :=
  let driver := { driver with steps := driver.steps + 1 }
  let led := driver.led
  let t : BitVec 16 := led.t.setWidth 16
  if t ≥ led.seqDur then
    { driver with led := ledSeqNext led }
  else
    let v :=
      (led.seqInterpA * (led.seqDur - t) + led.seqInterpB * t) / led.seqDur
    let driver := hwLedSet (v.setWidth 8) driver
    { driver with led := { led with t := led.t + 1 } }

@[simp] theorem ledSeqTick_steps (driver : LedDriver) :
    (ledSeqTick driver).steps = driver.steps + 1 := by
  unfold ledSeqTick
  dsimp only
  split <;> rfl

/-- `tickGet` is the count that `tick_get` returns during the call. -/
def ledTick (fCpu ticks tickGet : BitVec 32) (driver : LedDriver) : LedDriver :=
  if ticks > driver.stepTimer then
    { ledSeqTick driver with stepTimer := tickGet + stepTime fCpu }
  else driver

/-- The statics before `main`. -/
def LedDriver.powerOn : LedDriver where
  led := Led.powerOn
  stepTimer := 0
  brightness := 0xFF
  steps := 0

end BusNinja
