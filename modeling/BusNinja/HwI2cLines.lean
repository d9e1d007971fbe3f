import BusNinja.HwI2cReference

/-!
# What an observer of the lines sees of each byte

The master either drives SCL low in some slot or has released it.  Each pin
function moves an observer of the lines in a known way, and a byte is a
sequence of them.
-/

namespace BusNinja

open I2cWire

namespace HwI2c

/-- What an observer has made of the lines so far. -/
def seen (hw : HwI2c) : Observer :=
  Observer.idle.watch (hw.samples.map Sample.level)

theorem sample_seen (slave : Slave) (hw : HwI2c) :
    (hw.sample slave).seen = hw.seen.see ⟨hw.sdaIn slave, hw.sclIn⟩ := by
  simp [seen, sample, Observer.watch_append]

/-- SCL is driven low in slot `p`. -/
structure LowAt (hw : HwI2c) (hold : Bool) (p : Nat) (bits : List Bool)
    (events : List Event) : Prop where
  sdaOut : hw.sdaOut = false
  sclOut : hw.sclOut = false
  sclDdr : hw.sclDdr = true
  holdBus : hw.holdBus = hold
  falls : hw.falls = p
  scl : hw.seen.level.scl = false
  bits : hw.seen.bits = bits
  events : hw.seen.events = events

/-- SCL is released and high in slot `p`. -/
structure HighAt (hw : HwI2c) (hold : Bool) (p : Nat) (sda : Bool)
    (bits : List Bool) (events : List Event) : Prop where
  sdaOut : hw.sdaOut = false
  sclOut : hw.sclOut = false
  sclDdr : hw.sclDdr = false
  holdBus : hw.holdBus = hold
  stretching : hw.stretching = 0
  falls : hw.falls = p
  level : hw.seen.level = ⟨sda, true⟩
  bits : hw.seen.bits = bits
  events : hw.seen.events = events

variable (slave : Slave) {hw : HwI2c} {hold sda : Bool} {p : Nat}
  {bits : List Bool} {events : List Event}

namespace LowAt

theorem frame (low : LowAt hw hold p bits events) (sdaDdr intEnabled : Bool)
    (ops : List HwI2cOp) :
    LowAt { hw with sdaDdr := sdaDdr, intEnabled := intEnabled, ops := ops }
      hold p bits events :=
  ⟨low.sdaOut, low.sclOut, low.sclDdr, low.holdBus, low.falls, low.scl,
    low.bits, low.events⟩

theorem cpuDisableInt (low : LowAt hw hold p bits events) :
    LowAt hw.cpuDisableInt hold p bits events :=
  low.frame _ _ _

theorem cpuEnableInt (low : LowAt hw hold p bits events) :
    LowAt hw.cpuEnableInt hold p bits events :=
  low.frame _ _ _

theorem log (low : LowAt hw hold p bits events) (op : HwI2cOp) :
    LowAt (hw.log op) hold p bits events :=
  low.frame _ _ _

theorem sample (low : LowAt hw hold p bits events) :
    LowAt (hw.sample slave) hold p bits events := by
  have scl : hw.sclIn = false := by simp [sclIn, low.sclDdr, low.sclOut]
  have seen : (hw.sample slave).seen =
      { hw.seen with level := ⟨hw.sdaIn slave, false⟩ } := by
    rw [sample_seen, scl, Observer.see_low]
  exact ⟨low.sdaOut, low.sclOut, low.sclDdr, low.holdBus, low.falls,
    by rw [seen], by rw [seen]; exact low.bits, by rw [seen]; exact low.events⟩

theorem sdaHi (low : LowAt hw hold p bits events) :
    LowAt (hw.sdaHi slave) hold p bits events :=
  (low.frame false hw.intEnabled hw.ops).sample slave

theorem sdaLow (low : LowAt hw hold p bits events) :
    LowAt (hw.sdaLow slave) hold p bits events :=
  (low.frame true hw.intEnabled hw.ops).sample slave

/-- A line that is low already does not fall. -/
theorem sclLow (low : LowAt hw hold p bits events) :
    LowAt (hw.sclLow slave) hold p bits events := by
  have scl : hw.sclIn = false := by simp [sclIn, low.sclDdr, low.sclOut]
  have same : { hw with sclDdr := true } = hw := by rw [← low.sclDdr]
  simp only [HwI2c.sclLow, scl, same, Bool.false_and, Bool.false_eq_true,
    if_false]
  exact low.sample slave

theorem sdaIn_eq (low : LowAt hw hold p bits events) :
    hw.sdaIn slave = (!hw.sdaDdr && !slave.pullsSda p) := by
  simp [HwI2c.sdaIn, low.sdaOut, low.falls]

theorem sclHi_seen (low : LowAt hw hold p bits events)
    (never : ∀ fall, slave.stretches fall = 0) :
    (hw.sclHi slave).seen =
      { hw.seen.clock (hw.sdaIn slave) with
        level := ⟨hw.sdaIn slave, true⟩ } := by
  have scl : ({ hw with
      sclDdr := false
      stretching := slave.stretches hw.falls } : HwI2c).sclIn = true := by
    simp [sclIn, never]
  rw [HwI2c.sclHi, sample_seen, scl]
  exact Observer.see_rise _ _ low.scl

theorem rise (low : LowAt hw hold p bits events)
    (never : ∀ fall, slave.stretches fall = 0) (short : bits.length < 8) :
    HighAt (hw.sclHi slave) hold p (hw.sdaIn slave)
      (bits ++ [hw.sdaIn slave]) events := by
  have seen := low.sclHi_seen slave never
  rw [Observer.clock_short _ _ (by rw [low.bits]; exact short)] at seen
  exact ⟨low.sdaOut, low.sclOut, rfl, low.holdBus, never _, low.falls,
    by rw [seen], by rw [seen, low.bits], by rw [seen, low.events]⟩

theorem riseNinth (low : LowAt hw hold p bits events)
    (never : ∀ fall, slave.stretches fall = 0) (full : bits.length = 8) :
    HighAt (hw.sclHi slave) hold p (hw.sdaIn slave) []
      (events ++ [.byte (byteOfBits bits) (!hw.sdaIn slave)]) := by
  have seen := low.sclHi_seen slave never
  rw [Observer.clock_ninth _ _ (by rw [low.bits]; exact full)] at seen
  exact ⟨low.sdaOut, low.sclOut, rfl, low.holdBus, never _, low.falls,
    by rw [seen], by rw [seen], by rw [seen, low.bits, low.events]⟩

end LowAt

namespace HighAt

/-- SCL falls, and the next slot begins. -/
theorem sclLow (high : HighAt hw hold p sda bits events) :
    LowAt (hw.sclLow slave) hold (p + 1) bits events := by
  have scl : hw.sclIn = true := by
    simp [sclIn, high.sclDdr, high.stretching]
  have driven : ∀ hw' : HwI2c, hw'.sclDdr = true → hw'.sclOut = false →
      hw'.sclIn = false := by
    intro hw' ddr out
    simp [sclIn, ddr, out]
  have seen : (HwI2c.sample slave { hw with sclDdr := true }).seen =
      { hw.seen with
        level := ⟨({ hw with sclDdr := true } : HwI2c).sdaIn slave, false⟩ } := by
    rw [sample_seen, driven { hw with sclDdr := true } rfl high.sclOut,
      Observer.see_low]
    rfl
  have fallen : LowAt
      { HwI2c.sample slave { hw with sclDdr := true } with
        falls := hw.falls + 1 } hold (p + 1) bits events := by
    refine ⟨high.sdaOut, high.sclOut, rfl, high.holdBus,
      congrArg (· + 1) high.falls, ?_, ?_, ?_⟩
    · exact congrArg (fun seen => seen.level.scl) seen
    · exact (congrArg Observer.bits seen).trans high.bits
    · exact (congrArg Observer.events seen).trans high.events
  simp only [HwI2c.sclLow, scl,
    driven (HwI2c.sample slave { hw with sclDdr := true }) rfl high.sclOut,
    Bool.not_false, Bool.and_self, if_true]
  exact fallen.sample slave

theorem frame (high : HighAt hw hold p sda bits events)
    (sdaDdr intEnabled : Bool) (ops : List HwI2cOp) :
    HighAt { hw with sdaDdr := sdaDdr, intEnabled := intEnabled, ops := ops }
      hold p sda bits events :=
  ⟨high.sdaOut, high.sclOut, high.sclDdr, high.holdBus, high.stretching,
    high.falls, high.level, high.bits, high.events⟩

/-- SDA falls while SCL is high. -/
theorem start (high : HighAt hw hold p true bits events) :
    HighAt (hw.sdaLow slave) hold p false [] (events ++ [.start]) := by
  have scl : ({ hw with sdaDdr := true } : HwI2c).sclIn = true := by
    simp [sclIn, high.sclDdr, high.stretching]
  have sda : ({ hw with sdaDdr := true } : HwI2c).sdaIn slave = false := by
    simp [sdaIn, high.sdaOut]
  have seen : (hw.sdaLow slave).seen =
      { hw.seen.condition .start with level := ⟨false, true⟩ } := by
    rw [HwI2c.sdaLow, sample_seen, scl, sda]
    exact Observer.see_start _ high.level
  exact ⟨high.sdaOut, high.sclOut, high.sclDdr, high.holdBus, high.stretching,
    high.falls, by rw [seen], by rw [seen]; rfl,
    by rw [seen, ← high.events]; rfl⟩

/-- SDA rises while SCL is high. -/
theorem stop (high : HighAt hw hold p false bits events)
    (quiet : slave.pullsSda p = false) :
    HighAt (hw.sdaHi slave) hold p true [] (events ++ [.stop]) := by
  have scl : ({ hw with sdaDdr := false } : HwI2c).sclIn = true := by
    simp [sclIn, high.sclDdr, high.stretching]
  have sda : ({ hw with sdaDdr := false } : HwI2c).sdaIn slave = true := by
    simp [sdaIn, high.falls, quiet]
  have seen : (hw.sdaHi slave).seen =
      { hw.seen.condition .stop with level := ⟨true, true⟩ } := by
    rw [HwI2c.sdaHi, sample_seen, scl, sda]
    exact Observer.see_stop _ high.level
  exact ⟨high.sdaOut, high.sclOut, high.sclDdr, high.holdBus, high.stretching,
    high.falls, by rw [seen], by rw [seen]; rfl,
    by rw [seen, ← high.events]; rfl⟩

end HighAt

end HwI2c

theorem mask_msb (data : Byte) : data &&& 0x80 ≠ 0 ↔ data.msb = true := by
  revert data
  decide +kernel

def bitByte (bit : Bool) : Byte := if bit then 1 else 0

theorem bitByte_eq_zero (bit : Bool) : (bitByte bit == 0) = !bit := by
  cases bit <;> rfl

section

open HwI2c

variable {slave : Slave} {hw : HwI2c} {hold : Bool} {p : Nat}
  {bits : List Bool} {events : List Event}
  (never : ∀ fall, slave.stretches fall = 0)

include never

/-- In slots the slave leaves alone, the master's bits are sampled. -/
theorem writeBits_lowAt (rounds : Nat) (data : Byte)
    (low : LowAt hw hold p bits events) (room : bits.length + rounds ≤ 8)
    (quiet : ∀ i, i < rounds → slave.pullsSda (p + i) = false) :
    LowAt (writeBits slave rounds data hw) hold (p + rounds)
      (bits ++ topBits rounds data) events := by
  induction rounds generalizing hw p bits data with
  | zero => simpa [writeBits, topBits] using low
  | succ rounds induction =>
      have free : slave.pullsSda p = false := quiet 0 (Nat.succ_pos _)
      have driven : ∃ driven, LowAt driven hold p bits events ∧
          driven.sdaIn slave = data.msb ∧
          (if data &&& 0x80 ≠ 0 then sdaHi slave hw else sdaLow slave hw) =
            driven := by
        refine ⟨_, ?_, ?_, rfl⟩
        · split
          · exact low.sdaHi slave
          · exact low.sdaLow slave
        · split
          · next high =>
              rw [(low.sdaHi slave).sdaIn_eq, free, (mask_msb data).mp high]
              rfl
          · next clear =>
              rw [(low.sdaLow slave).sdaIn_eq, free]
              have zero := mt (mask_msb data).mpr clear
              simp only [Bool.not_eq_true] at zero
              rw [zero]
              rfl
      obtain ⟨driven, lowDriven, sampled, drive⟩ := driven
      have clocked := (lowDriven.rise slave never (by omega)).sclLow slave
      rw [sampled] at clocked
      have rest := induction (data <<< 1) clocked
        (by simp only [List.length_append, List.length_singleton]; omega)
        (fun i inside => by
          rw [Nat.add_assoc, Nat.add_comm 1]
          exact quiet (i + 1) (by omega))
      simp only [writeBits, drive]
      rw [topBits, List.append_cons, Nat.add_comm rounds, ← Nat.add_assoc]
      exact rest

theorem hwI2cWriteByte_lowAt (data : Byte)
    (low : LowAt hw hold p [] events)
    (quiet : ∀ i, i < 8 → slave.pullsSda (p + i) = false) :
    LowAt (hwI2cWriteByte slave data hw) hold (p + 8) (topBits 8 data)
      events :=
  (writeBits_lowAt never 8 data low.cpuDisableInt (by simp) quiet).cpuEnableInt

/-- What `hw_i2c_read_bit` returns, and the lines when SCL is high. -/
theorem hwI2cReadBit_rise (low : LowAt hw hold p bits events) :
    ∃ high, hwI2cReadBit slave hw =
        (bitByte (!slave.pullsSda p),
          cpuEnableInt (sclLow slave (sclHi slave high))) ∧
      LowAt high hold p bits events ∧
      high.sdaIn slave = !slave.pullsSda p := by
  let high := sdaHi slave (cpuDisableInt hw)
  have lowHigh : LowAt high hold p bits events :=
    low.cpuDisableInt.sdaHi slave
  have sampled : high.sdaIn slave = !slave.pullsSda p := by
    rw [lowHigh.sdaIn_eq]
    rfl
  have risen : (sclHi slave high).sdaIn slave = !slave.pullsSda p := sampled
  have stretching : (sclHi slave high).stretching = 0 := never _
  refine ⟨high, ?_, lowHigh, sampled⟩
  simp only [hwI2cReadBit]
  simp only [high] at stretching risen ⊢
  rw [stretching]
  simp only [waitScl, risen]
  rfl

theorem hwI2cReadBit_lowAt (low : LowAt hw hold p bits events)
    (short : bits.length < 8) :
    ∃ after, hwI2cReadBit slave hw = (bitByte (!slave.pullsSda p), after) ∧
      LowAt after hold (p + 1) (bits ++ [!slave.pullsSda p]) events := by
  obtain ⟨high, result, lowHigh, sampled⟩ := hwI2cReadBit_rise never low
  have clocked := (lowHigh.rise slave never short).sclLow slave
  rw [sampled] at clocked
  exact ⟨_, result, clocked.cpuEnableInt⟩

theorem hwI2cReadBit_ninth (low : LowAt hw hold p bits events)
    (full : bits.length = 8) :
    ∃ after, hwI2cReadBit slave hw = (bitByte (!slave.pullsSda p), after) ∧
      LowAt after hold (p + 1) []
        (events ++ [.byte (byteOfBits bits) (slave.pullsSda p)]) := by
  obtain ⟨high, result, lowHigh, sampled⟩ := hwI2cReadBit_rise never low
  have clocked := (lowHigh.riseNinth slave never full).sclLow slave
  rw [sampled, Bool.not_not] at clocked
  exact ⟨_, result, clocked.cpuEnableInt⟩

theorem sendByte_lowAt (data : Byte) (low : LowAt hw hold p [] events)
    (quiet : ∀ i, i < 8 → slave.pullsSda (p + i) = false) :
    ∃ after, hwI2cReadBit slave (hwI2cWriteByte slave data hw) =
        (bitByte (!slave.pullsSda (p + 8)), after) ∧
      LowAt after hold (p + 9) []
        (events ++ [.byte data (slave.pullsSda (p + 8))]) := by
  have written := hwI2cWriteByte_lowAt never data low quiet
  have answered := hwI2cReadBit_ninth never written rfl
  rwa [byteOfBits_topBits] at answered

/-- The data bits of a byte read are what the slave shows. -/
theorem readBits_lowAt (rounds : Nat) (data : Byte)
    (low : LowAt hw hold p bits events) (room : bits.length + rounds ≤ 8) :
    ∃ after, readBits slave rounds data hw =
        ((Course.shown slave.pullsSda rounds p).foldl shiftIn data, after) ∧
      LowAt after hold (p + rounds)
        (bits ++ Course.shown slave.pullsSda rounds p) events := by
  induction rounds generalizing hw p bits data with
  | zero => exact ⟨hw, rfl, by simpa [Course.shown] using low⟩
  | succ rounds induction =>
      obtain ⟨read, result, lowRead⟩ :=
        hwI2cReadBit_lowAt never low (by omega)
      obtain ⟨after, rest, lowAfter⟩ := induction
        ((data <<< 1) ||| bitByte (!slave.pullsSda p)) lowRead
        (by simp only [List.length_append, List.length_singleton]; omega)
      refine ⟨after, ?_, ?_⟩
      · simp only [readBits, result, rest, Course.shown, List.foldl_cons]
        rfl
      · rw [Course.shown, List.append_cons, Nat.add_comm rounds,
          ← Nat.add_assoc]
        exact lowAfter

end

end BusNinja
