import BusNinja.Source.LedTimer

/-!
# The LED pin

`hw_led.c`, and the interrupt of `tick.c` in a build with
`CONFIG_HW_LED_ALIVE_CHECK`, which drives the pin.
-/

namespace BusNinja

/-- `ticks`, `hw_led_brightness`, and whether the LED is enabled. -/
structure HwLed where
  ticks : BitVec 32
  brightness : Byte
  lit : Bool
  deriving DecidableEq, Repr

/-- The cases of the switch of `hw_led_tick`. -/
def hwLedCases : List (BitVec 32) :=
  [0x1, 0x2, 0x4, 0x8, 0x10, 0x20, 0x40, 0x80]

def hwLedTick (ticks : BitVec 32) (led : HwLed) : HwLed :=
  let ticks := ticks &&& 0xFF
  if ticks ∈ hwLedCases then
    { led with lit := decide (led.brightness.setWidth 32 &&& ticks ≠ 0) }
  else led

/-- The interrupt counts, and shows the next bit when it is due. -/
def hwLedInterrupt (led : HwLed) : HwLed :=
  let ticks := timer0Ovf led.ticks
  hwLedTick ticks { led with ticks := ticks }

/-- What the pin sees: the timer interrupts, or the brightness is set. -/
inductive HwLedEvent where
  | interrupt
  | set (v : Byte)
  deriving DecidableEq, Repr

def hwLedEvent : HwLedEvent → HwLed → HwLed
  | .interrupt, led => hwLedInterrupt led
  | .set v, led => { led with brightness := v }

/-- The statics before `main`, with the pin low. -/
def HwLed.powerOn : HwLed where
  ticks := 0
  brightness := 0xFF
  lit := false

end BusNinja
