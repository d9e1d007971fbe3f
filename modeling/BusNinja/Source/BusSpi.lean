import BusNinja.Source.Console

/-!
# The SPI bus

`hw_spi.c` and `bus_spi.c`.
-/

namespace BusNinja

/-- What the slave answers, by everything clocked out so far. -/
abbrev SpiSlave := List Byte → Byte

/-- The chip select is active low: `ssDdr` is the direction bit of its pin,
`ss` its level.  `spe` is the enable bit of `SPCR`, and `sent` records the
bytes clocked out. -/
structure HwSpi where
  ssDdr : Bool
  ss : Bool
  misoPullUp : Bool
  spe : Bool
  sent : List Byte
  deriving DecidableEq, Repr

def HwSpi.powerOn : HwSpi where
  ssDdr := false
  ss := false
  misoPullUp := false
  spe := false
  sent := []

def hwSpiCsAssert (hw : HwSpi) : HwSpi := { hw with ss := false }

def hwSpiCsDeassert (hw : HwSpi) : HwSpi := { hw with ss := true }

def hwSpiInit (hw : HwSpi) : HwSpi :=
  let hw := hwSpiCsDeassert { hw with ssDdr := true }
  { hw with misoPullUp := true, spe := true }

def hwSpiShutdown (hw : HwSpi) : HwSpi := { hw with spe := false }

/-- clock a byte in and out -/
def hwSpiWrite8 (slave : SpiSlave) (data : Byte) (hw : HwSpi) : Byte × HwSpi :=
  let sent := hw.sent ++ [data]
  (slave sent, { hw with sent := sent })

/-- What the handlers of `bus_spi` act on. -/
structure BusSpi where
  hw : HwSpi
  out : BusOutput
  deriving DecidableEq, Repr

namespace BusSpi

def puts (str : String) (bus : BusSpi) : BusSpi :=
  { bus with out := busLogPutsP str bus.out }

def newline (bus : BusSpi) : BusSpi := { bus with out := busLogNewline bus.out }

/-- `bus_log_puthex8` -/
def puthex8 (c : Byte) (bus : BusSpi) : BusSpi :=
  { bus with out := busLog (consolePuthex8 c) bus.out }

def hand (c : Byte) (bus : BusSpi) : BusSpi := { bus with out := busOut c bus.out }

def write8 (slave : SpiSlave) (data : Byte) (bus : BusSpi) : Byte × BusSpi :=
  let (r, hw) := hwSpiWrite8 slave data bus.hw
  (r, { bus with hw := hw })

end BusSpi

def busSpiOpen (bus : BusSpi) : BusSpi := { bus with hw := hwSpiInit bus.hw }

def busSpiClose (bus : BusSpi) : BusSpi :=
  { bus with hw := hwSpiShutdown bus.hw }

def busSpiStart (bus : BusSpi) : BusSpi :=
  ({ bus with hw := hwSpiCsAssert bus.hw }.puts "CS ENABLED").newline

def busSpiStop (bus : BusSpi) : BusSpi :=
  ({ bus with hw := hwSpiCsDeassert bus.hw }.puts "CS DISABLED").newline

section

variable (slave : SpiSlave)

def busSpiWrite (c : Byte) (bus : BusSpi) : BusSpi :=
  let (_, bus) := bus.write8 slave c
  ((bus.puts "WRITE: ").puthex8 c).newline

def busSpiRead (bus : BusSpi) : BusSpi :=
  let (c, bus) := bus.write8 slave 0xFF
  ((bus.puts "READ: ").hand c).newline

def busSpiXact (c : Byte) (bus : BusSpi) : BusSpi :=
  let (r, bus) := bus.write8 slave c
  let bus := ((bus.puts "WRITE: ").hand c).newline
  ((bus.puts "READ: ").hand r).newline

end

def busSpiCommand (_start : List Byte) (_repeat : BitVec 32) (bus : BusSpi) :
    Bool × BusSpi :=
  (false, bus)

end BusNinja
