import BusNinja.Library.I2cWire
import BusNinja.Source.Console

/-!
# The bit-level I2C master

`hw_i2c.c` without `USE_HARDWARE_I2C`.  Both lines are open drain: a line is
low when the master drives it low through its `DDR` bit or when the slave
pulls it.  Delays only space the line changes out and are left out.
-/

namespace BusNinja

open I2cWire

/-- What the slave does in one run.  It changes SDA when SCL has fallen, so
its pulls are indexed by the number of falls of SCL; `stretches` counts the
polls for which it keeps SCL low after the master has released it. -/
structure Slave where
  pullsSda : Nat → Bool
  stretches : Nat → Nat

/-- A slave that pulls SDA after the given falls of SCL only and never
stretches. -/
def Slave.pulling (slots : List Nat) : Slave :=
  ⟨fun fall => slots.contains fall, fun _ => 0⟩

/-- The levels of the lines, with the master's `DDR` bits and the interrupt
flag at that moment. -/
structure Sample where
  level : Level
  sdaDdr : Bool
  sclDdr : Bool
  intEnabled : Bool
  deriving DecidableEq, Repr

inductive HwI2cRdwr where
  | wr
  | rd
  deriving DecidableEq, Repr

def HwI2cRdwr.bit : HwI2cRdwr → Byte
  | .wr => 0
  | .rd => 1

/-- The calls of the master, a transfer of several bytes with one entry for
each: `acked` is the slave's answer, `ack` the answer the master gave. -/
inductive HwI2cOp where
  | init
  | start (address : Byte) (rdwr : HwI2cRdwr) (acked : Bool)
  | stop
  | tx (data : Byte) (acked : Bool)
  | rx (data : Byte) (ack : Bool)
  deriving DecidableEq, Repr

/-- The pins, the interrupt flag and `hold_bus`.  `falls` and `stretching`
are the slave's clock, `samples` and `ops` record the run. -/
structure HwI2c where
  sdaDdr : Bool
  sclDdr : Bool
  sdaOut : Bool
  sclOut : Bool
  holdBus : Bool
  intEnabled : Bool
  falls : Nat
  stretching : Nat
  samples : List Sample
  ops : List HwI2cOp
  deriving DecidableEq, Repr

namespace HwI2c

def powerOn : HwI2c where
  sdaDdr := false
  sclDdr := false
  sdaOut := false
  sclOut := false
  holdBus := false
  intEnabled := false
  falls := 0
  stretching := 0
  samples := []
  ops := []

variable (slave : Slave)

/-- `SDA_IN`: low if driven low or pulled. -/
def sdaIn (hw : HwI2c) : Bool :=
  !(hw.sdaDdr && !hw.sdaOut) && !slave.pullsSda hw.falls

/-- `SCL_IN`: low if driven low or stretched. -/
def sclIn (hw : HwI2c) : Bool :=
  !(hw.sclDdr && !hw.sclOut) && hw.stretching == 0

def sample (hw : HwI2c) : HwI2c :=
  { hw with
    samples := hw.samples ++
      [⟨⟨hw.sdaIn slave, hw.sclIn⟩, hw.sdaDdr, hw.sclDdr, hw.intEnabled⟩] }

def sdaLow (hw : HwI2c) : HwI2c := sample slave { hw with sdaDdr := true }

def sdaHi (hw : HwI2c) : HwI2c := sample slave { hw with sdaDdr := false }

def sclHi (hw : HwI2c) : HwI2c :=
  sample slave
    { hw with sclDdr := false, stretching := slave.stretches hw.falls }

/-- A fall of the line lets the slave change SDA. -/
def sclLow (hw : HwI2c) : HwI2c :=
  let low := sample slave { hw with sclDdr := true }
  if hw.sclIn && !low.sclIn then
    sample slave { low with falls := low.falls + 1 }
  else low

def cpuDisableInt (hw : HwI2c) : HwI2c := { hw with intEnabled := false }

def cpuEnableInt (hw : HwI2c) : HwI2c := { hw with intEnabled := true }

def log (op : HwI2cOp) (hw : HwI2c) : HwI2c :=
  { hw with ops := hw.ops ++ [op] }

end HwI2c

section

variable (slave : Slave)

open HwI2c

def hwI2cInit (hw : HwI2c) : HwI2c :=
  let hw := sclHi slave (sdaHi slave hw)
  let hw := sample slave { hw with sdaOut := false }
  let hw := sample slave { hw with sclOut := false }
  log .init { hw with holdBus := false }

def hwI2cShutdown (hw : HwI2c) : HwI2c := hw

/-- The loop of `hw_i2c_write_byte`, with `bits` rounds to go. -/
def writeBits : Nat → Byte → HwI2c → HwI2c
  | 0, _, hw => hw
  | bits + 1, data, hw =>
      let hw := if data &&& 0x80 ≠ 0 then sdaHi slave hw else sdaLow slave hw
      let hw := sclLow slave (sclHi slave hw)
      writeBits bits (data <<< 1) hw

def hwI2cWriteByte (data : Byte) (hw : HwI2c) : HwI2c :=
  cpuEnableInt (writeBits slave 8 data (cpuDisableInt hw))

/-- The polls that find `SCL_IN` low: the slave stretches the clock. -/
def waitScl : Nat → HwI2c → HwI2c
  | 0, hw => hw
  | polls + 1, hw => waitScl polls (sample slave { hw with stretching := polls })

def hwI2cReadBit (hw : HwI2c) : Byte × HwI2c :=
  let hw := sclHi slave (sdaHi slave (cpuDisableInt hw))
  let hw := waitScl slave hw.stretching hw
  let bit := if hw.sdaIn slave then 1 else 0
  (bit, cpuEnableInt (sclLow slave hw))

def hwI2cMasterStart (address : Byte) (rdwr : HwI2cRdwr) (hw : HwI2c) :
    Bool × HwI2c :=
  let hw := cpuDisableInt hw
  let hw := if hw.holdBus then sclHi slave (sdaHi slave hw) else hw
  let hw := sclLow slave (sdaLow slave hw)
  let hw := { hw with holdBus := true }
  let hw := hwI2cWriteByte slave ((address &&& 0xfe) ||| rdwr.bit) hw
  let (bit, hw) := hwI2cReadBit slave hw
  (bit == 0, log (.start address rdwr (bit == 0)) hw)

def hwI2cMasterStop (hw : HwI2c) : HwI2c :=
  let hw := sdaLow slave (sclLow slave (cpuDisableInt hw))
  let hw := sdaHi slave (sclHi slave hw)
  log .stop (cpuEnableInt { hw with holdBus := false })

def hwI2cBusClear (hw : HwI2c) : HwI2c :=
  hwI2cMasterStop slave (hwI2cMasterStart slave 0 .rd hw).2

/-- The loop of `hw_i2c_master_tx`; the flag is its local `error`. -/
def txLoop : List Byte → Bool → HwI2c → Bool × HwI2c
  | [], error, hw => (error, hw)
  | data :: buf, error, hw =>
      if !error then
        let hw := hwI2cWriteByte slave data hw
        let (bit, hw) := hwI2cReadBit slave hw
        txLoop buf (bit != 0) (log (.tx data (bit == 0)) hw)
      else (error, hw)

/-- `buf` holds the `buf_len` bytes to send. -/
def hwI2cMasterTx (buf : List Byte) (hw : HwI2c) : Bool × HwI2c :=
  let (error, hw) := txLoop slave buf false (cpuDisableInt hw)
  (!error, cpuEnableInt hw)

/-- The loop over the eight data bits in `hw_i2c_master_rx`. -/
def readBits : Nat → Byte → HwI2c → Byte × HwI2c
  | 0, data, hw => (data, hw)
  | bits + 1, data, hw =>
      let (bit, hw) := hwI2cReadBit slave hw
      readBits bits ((data <<< 1) ||| bit) hw

/-- The loop of `hw_i2c_master_rx` with `bufLen` bytes to go; its local
`error` is never set. -/
def rxLoop (ack : Bool) : Nat → HwI2c → List Byte × HwI2c
  | 0, hw => ([], hw)
  | bufLen + 1, hw =>
      let sendAck := decide (bufLen + 1 > 1) || ack
      let (data, hw) := readBits slave 8 0 hw
      let hw := if sendAck then sdaLow slave hw else sdaHi slave hw
      let hw := sdaHi slave (sclLow slave (sclHi slave hw))
      let (buf, hw) := rxLoop ack bufLen (log (.rx data sendAck) hw)
      (data :: buf, hw)

/-- The result and the bytes stored in `buf`. -/
def hwI2cMasterRx (bufLen : Nat) (ack : Bool) (hw : HwI2c) :
    Bool × List Byte × HwI2c :=
  let (buf, hw) := rxLoop slave ack bufLen (cpuDisableInt hw)
  (true, buf, cpuEnableInt hw)

end

end BusNinja
