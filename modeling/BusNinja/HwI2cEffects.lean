import BusNinja.Library.Run
import BusNinja.Source.HwI2c

/-!
# What the callers of the I2C master rely on

Seen from a caller, the master either holds the bus or not, drives each line
low or releases it, and has issued a list of operations.  `Issued` says that
a call has issued exactly the given operations and has left the lines and
`hold_bus` as these operations do; it composes along a sequence of calls.
-/

namespace BusNinja

/-- The master's hold on the bus between two calls. -/
structure Grip where
  holdBus : Bool
  sdaDdr : Bool
  sclDdr : Bool
  deriving DecidableEq, Repr

namespace Grip

def free : Grip := ⟨false, false, false⟩

/-- The hold an operation leaves behind. -/
def after : HwI2cOp → Grip → Grip
  | .init, _ => free
  | .start _ _ _, _ => ⟨true, false, true⟩
  | .stop, _ => free
  | .tx _ _, grip => ⟨grip.holdBus, false, true⟩
  | .rx _ _, grip => ⟨grip.holdBus, false, true⟩

/-- SDA is released between two calls, and a held bus has SCL low. -/
def Sound (grip : Grip) : Prop :=
  grip.sdaDdr = false ∧ (grip.holdBus = true → grip.sclDdr = true)

theorem sound_after (op : HwI2cOp) (grip : Grip) : Sound (after op grip) := by
  cases op with
  | init => exact ⟨rfl, by simp [after, free]⟩
  | start => exact ⟨rfl, fun _ => rfl⟩
  | stop => exact ⟨rfl, by simp [after, free]⟩
  | tx => exact ⟨rfl, fun _ => rfl⟩
  | rx => exact ⟨rfl, fun _ => rfl⟩

/-- Of a sound grip, released SCL means that nothing is held. -/
theorem free_of_sclDdr {grip : Grip} (sound : Sound grip)
    (released : grip.sclDdr = false) : grip = free := by
  rcases grip with ⟨holdBus, sdaDdr, sclDdr⟩
  obtain ⟨sda, held⟩ := sound
  simp only at sda held released
  subst sda released
  cases holdBus with
  | false => rfl
  | true => exact absurd (held rfl) (by decide)

end Grip

namespace HwI2c

def grip (hw : HwI2c) : Grip := ⟨hw.holdBus, hw.sdaDdr, hw.sclDdr⟩

section Pins

variable (slave : Slave) (hw : HwI2c)

@[simp] theorem sdaLow_ops : (hw.sdaLow slave).ops = hw.ops := rfl
@[simp] theorem sdaHi_ops : (hw.sdaHi slave).ops = hw.ops := rfl
@[simp] theorem sclHi_ops : (hw.sclHi slave).ops = hw.ops := rfl

@[simp] theorem sdaHi_grip :
    (hw.sdaHi slave).grip = { hw.grip with sdaDdr := false } := rfl

@[simp] theorem sclHi_grip :
    (hw.sclHi slave).grip = { hw.grip with sclDdr := false } := rfl

@[simp] theorem sclLow_ops : (hw.sclLow slave).ops = hw.ops := by
  simp only [sclLow]
  split <;> rfl

@[simp] theorem sclLow_grip :
    (hw.sclLow slave).grip = { hw.grip with sclDdr := true } := by
  simp only [sclLow]
  split <;> rfl

@[simp] theorem cpuDisableInt_ops : hw.cpuDisableInt.ops = hw.ops := rfl
@[simp] theorem cpuDisableInt_grip : hw.cpuDisableInt.grip = hw.grip := rfl
@[simp] theorem cpuEnableInt_ops : hw.cpuEnableInt.ops = hw.ops := rfl
@[simp] theorem cpuEnableInt_grip : hw.cpuEnableInt.grip = hw.grip := rfl

@[simp] theorem log_ops (op : HwI2cOp) : (hw.log op).ops = hw.ops ++ [op] := rfl
@[simp] theorem log_grip (op : HwI2cOp) : (hw.log op).grip = hw.grip := rfl

end Pins

end HwI2c

section Frames

variable (slave : Slave)

open HwI2c

theorem writeBits_frame (bits : Nat) (data : Byte) (hw : HwI2c) :
    (writeBits slave bits data hw).ops = hw.ops ∧
      (writeBits slave bits data hw).holdBus = hw.holdBus := by
  induction bits generalizing data hw with
  | zero => exact ⟨rfl, rfl⟩
  | succ bits induction =>
      let driven :=
        if data &&& 0x80 ≠ 0 then sdaHi slave hw else sdaLow slave hw
      let clocked := sclLow slave (sclHi slave driven)
      have drivenFrame : driven.ops = hw.ops ∧ driven.holdBus = hw.holdBus := by
        simp only [driven]
        split <;> exact ⟨rfl, rfl⟩
      have clockedGrip : clocked.grip = { driven.grip with sclDdr := true } := by
        simp [clocked]
      obtain ⟨ops, hold⟩ := induction (data <<< 1) clocked
      refine ⟨ops.trans ?_, hold.trans ?_⟩
      · simp [clocked, drivenFrame.1]
      · exact (congrArg Grip.holdBus clockedGrip).trans drivenFrame.2

theorem hwI2cWriteByte_frame (data : Byte) (hw : HwI2c) :
    (hwI2cWriteByte slave data hw).ops = hw.ops ∧
      (hwI2cWriteByte slave data hw).holdBus = hw.holdBus :=
  writeBits_frame slave 8 data (cpuDisableInt hw)

theorem waitScl_frame (polls : Nat) (hw : HwI2c) :
    (waitScl slave polls hw).ops = hw.ops ∧
      (waitScl slave polls hw).grip = hw.grip := by
  induction polls generalizing hw with
  | zero => exact ⟨rfl, rfl⟩
  | succ polls induction => exact induction _

theorem hwI2cReadBit_frame (hw : HwI2c) :
    (hwI2cReadBit slave hw).2.ops = hw.ops ∧
      (hwI2cReadBit slave hw).2.grip = ⟨hw.holdBus, false, true⟩ := by
  have waited := waitScl_frame slave
    (sclHi slave (sdaHi slave (cpuDisableInt hw))).stretching
    (sclHi slave (sdaHi slave (cpuDisableInt hw)))
  simp only [hwI2cReadBit, cpuEnableInt_ops, sclLow_ops, cpuEnableInt_grip,
    sclLow_grip, waited]
  exact ⟨rfl, rfl⟩

theorem readBits_frame (bits : Nat) (data : Byte) (hw : HwI2c) :
    (readBits slave bits data hw).2.ops = hw.ops ∧
      (readBits slave bits data hw).2.holdBus = hw.holdBus := by
  induction bits generalizing data hw with
  | zero => exact ⟨rfl, rfl⟩
  | succ bits induction =>
      obtain ⟨ops, hold⟩ := induction
        ((data <<< 1) ||| (hwI2cReadBit slave hw).1) (hwI2cReadBit slave hw).2
      obtain ⟨readOps, readGrip⟩ := hwI2cReadBit_frame slave hw
      exact ⟨ops.trans readOps,
        hold.trans (congrArg Grip.holdBus readGrip)⟩

end Frames

/-- A call has issued exactly `new`. -/
structure Issued (new : List HwI2cOp) (before after : HwI2c) : Prop where
  ops : after.ops = before.ops ++ new
  grip : after.grip = Run.run Grip.after new before.grip

namespace Issued

theorem none (hw : HwI2c) : Issued [] hw hw := ⟨by simp, rfl⟩

theorem trans {first second : List HwI2cOp} {before between after : HwI2c}
    (earlier : Issued first before between)
    (later : Issued second between after) :
    Issued (first ++ second) before after where
  ops := by rw [later.ops, earlier.ops, List.append_assoc]
  grip := by rw [later.grip, earlier.grip, Run.run_append]

theorem free_of_stop {new : List HwI2cOp} {before after : HwI2c}
    (issued : Issued new before after) (stopped : new.getLast? = some .stop) :
    after.grip = Grip.free := by
  obtain ⟨earlier, rfl⟩ := List.getLast?_eq_some_iff.mp stopped
  rw [issued.grip, Run.run_append]
  rfl

theorem sound {new : List HwI2cOp} {before after : HwI2c}
    (issued : Issued new before after) (initial : before.grip.Sound) :
    after.grip.Sound := by
  rw [issued.grip]
  exact Run.run_invariant
    (fun op grip _ => Grip.sound_after op grip) new initial

end Issued

section Calls

variable (slave : Slave) (hw : HwI2c)

open HwI2c

theorem hwI2cInit_issued : Issued [.init] hw (hwI2cInit slave hw) :=
  ⟨rfl, rfl⟩

theorem hwI2cMasterStart_issued (address : Byte) (rdwr : HwI2cRdwr) :
    Issued [.start address rdwr (hwI2cMasterStart slave address rdwr hw).1] hw
      (hwI2cMasterStart slave address rdwr hw).2 := by
  simp only [hwI2cMasterStart]
  generalize conditioned :
    (if (cpuDisableInt hw).holdBus = true then
      sclHi slave (sdaHi slave (cpuDisableInt hw)) else cpuDisableInt hw) = freed
  have freedOps : freed.ops = hw.ops := by
    rw [← conditioned]
    split <;> rfl
  generalize starting :
    ({ sclLow slave (sdaLow slave freed) with holdBus := true } : HwI2c) = held
  have heldOps : held.ops = hw.ops := by
    simp [← starting, freedOps]
  have heldHold : held.holdBus = true := by
    simp [← starting]
  obtain ⟨writtenOps, writtenHold⟩ := hwI2cWriteByte_frame slave
    ((address &&& 0xfe) ||| rdwr.bit) held
  obtain ⟨readOps, readGrip⟩ := hwI2cReadBit_frame slave
    (hwI2cWriteByte slave ((address &&& 0xfe) ||| rdwr.bit) held)
  constructor
  · rw [log_ops, readOps, writtenOps, heldOps]
  · rw [log_grip, readGrip, writtenHold, heldHold]
    rfl

theorem hwI2cMasterStop_issued : Issued [.stop] hw (hwI2cMasterStop slave hw) := by
  constructor
  · simp [hwI2cMasterStop, cpuEnableInt, cpuDisableInt]
  · simp only [hwI2cMasterStop, log_grip, cpuEnableInt_grip]
    rfl

/-- The answer to the address byte 0x01 of a bus clear does not matter. -/
theorem hwI2cBusClear_issued :
    ∃ acked, Issued [.start 0 .rd acked, .stop] hw (hwI2cBusClear slave hw) :=
  ⟨_, (hwI2cMasterStart_issued slave hw 0 .rd).trans
    (hwI2cMasterStop_issued slave (hwI2cMasterStart slave 0 .rd hw).2)⟩

theorem hwI2cMasterTx_issued (data : Byte) :
    Issued [.tx data (hwI2cMasterTx slave [data] hw).1] hw
      (hwI2cMasterTx slave [data] hw).2 := by
  obtain ⟨writtenOps, writtenHold⟩ :=
    hwI2cWriteByte_frame slave data (cpuDisableInt hw)
  obtain ⟨readOps, readGrip⟩ := hwI2cReadBit_frame slave
    (hwI2cWriteByte slave data (cpuDisableInt hw))
  have answer : ∀ bit : Byte, (!(bit != 0)) = (bit == 0) := by
    simp [bne]
  simp only [hwI2cMasterTx, txLoop, Bool.not_false, if_true, answer]
  constructor
  · rw [cpuEnableInt_ops, log_ops, readOps, writtenOps, cpuDisableInt_ops]
  · rw [cpuEnableInt_grip, log_grip, readGrip, writtenHold]
    rfl

theorem hwI2cMasterRx_issued (ack : Bool) :
    ∃ data received, hwI2cMasterRx slave 1 ack hw = (true, [data], received) ∧
      Issued [.rx data ack] hw received := by
  refine ⟨(readBits slave 8 0 (cpuDisableInt hw)).1,
    (hwI2cMasterRx slave 1 ack hw).2.2, rfl, ?_⟩
  obtain ⟨readOps, readHold⟩ := readBits_frame slave 8 0 (cpuDisableInt hw)
  simp only [hwI2cMasterRx, rxLoop, Nat.zero_add, gt_iff_lt, Nat.lt_irrefl,
    decide_false, Bool.false_or]
  generalize driving :
    (if ack = true then sdaLow slave (readBits slave 8 0 (cpuDisableInt hw)).2
      else sdaHi slave (readBits slave 8 0 (cpuDisableInt hw)).2) = driven
  have drivenFrame : driven.ops = hw.ops ∧ driven.holdBus = hw.holdBus := by
    rw [← driving]
    split
    · exact ⟨readOps, readHold⟩
    · exact ⟨readOps, readHold⟩
  constructor
  · simp [drivenFrame.1]
  · simp only [cpuEnableInt_grip, log_grip, sdaHi_grip, sclLow_grip, sclHi_grip]
    simp [HwI2c.grip, Run.run, Grip.after, drivenFrame.2]

end Calls

end BusNinja
