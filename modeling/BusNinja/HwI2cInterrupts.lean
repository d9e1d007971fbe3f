import BusNinja.HwI2cEffects
import BusNinja.HwI2cReference

/-!
# Interrupts and the bit timing

The helpers of the I2C master enable interrupts at their own end, whether
their caller has disabled them or not.  All changes of the lines are made with
interrupts disabled but those of a receive call behind its data bits.
-/

namespace BusNinja

/-- What the master drives low: SDA and SCL. -/
abbrev Ddr := Bool × Bool

def Sample.ddr (sample : Sample) : Ddr := (sample.sdaDdr, sample.sclDdr)

def HwI2c.ddr (hw : HwI2c) : Ddr := (hw.sdaDdr, hw.sclDdr)

/-- Whenever a sample shows that the master has changed a line, interrupts are
disabled. -/
def Uninterrupted : Ddr → List Sample → Prop
  | _, [] => True
  | ddr, sample :: samples =>
      (sample.ddr ≠ ddr → sample.intEnabled = false) ∧
        Uninterrupted sample.ddr samples

/-- The call changes the lines with interrupts disabled only, and enables
them. -/
structure CallUninterrupted (slave : Slave) (call : HwI2cCall) (hw : HwI2c) :
    Prop where
  changes : ∃ new, (hwI2cCall slave hw call).2.samples = hw.samples ++ new ∧
    Uninterrupted hw.ddr new
  enabled : (hwI2cCall slave hw call).2.intEnabled = true

/-- The call receives at least one byte. -/
def HwI2cCall.receives : HwI2cCall → Bool
  | .rx bufLen _ => decide (0 < bufLen)
  | _ => false

def lastDdr (ddr : Ddr) (samples : List Sample) : Ddr :=
  samples.foldl (fun _ sample => sample.ddr) ddr

theorem uninterrupted_append (ddr : Ddr) (first second : List Sample) :
    Uninterrupted ddr (first ++ second) ↔
      Uninterrupted ddr first ∧ Uninterrupted (lastDdr ddr first) second := by
  induction first generalizing ddr with
  | nil => simp [Uninterrupted, lastDdr]
  | cons sample first induction =>
      rw [List.cons_append, Uninterrupted, Uninterrupted, induction, and_assoc]
      rfl

theorem uninterrupted_masked {samples : List Sample}
    (masked : ∀ sample ∈ samples, sample.intEnabled = false) (ddr : Ddr) :
    Uninterrupted ddr samples := by
  induction samples generalizing ddr with
  | nil => trivial
  | cons sample samples induction =>
      obtain ⟨now, later⟩ := List.forall_mem_cons.mp masked
      exact ⟨fun _ => now, induction later sample.ddr⟩

/-- The samples `new` have been taken, each with interrupts as `enabled`. -/
structure Sampled (enabled : Bool) (new : List Sample) (before after : HwI2c) :
    Prop where
  samples : after.samples = before.samples ++ new
  ddr : after.ddr = lastDdr before.ddr new
  flags : ∀ sample ∈ new, sample.intEnabled = enabled

namespace Sampled

variable {enabled : Bool} {first second new : List Sample}
  {before between after : HwI2c}

theorem trans (earlier : Sampled enabled first before between)
    (later : Sampled enabled second between after) :
    Sampled enabled (first ++ second) before after where
  samples := by rw [later.samples, earlier.samples, List.append_assoc]
  ddr := by rw [later.ddr, earlier.ddr, lastDdr, lastDdr, lastDdr,
    List.foldl_append]
  flags := fun sample member =>
    (List.mem_append.mp member).elim (earlier.flags sample) (later.flags sample)

theorem none (enabled : Bool) (hw : HwI2c) : Sampled enabled [] hw hw :=
  ⟨(List.append_nil _).symm, rfl, fun _ member => absurd member List.not_mem_nil⟩

end Sampled

/-- Some samples have been taken, each with interrupts as they were and still
are. -/
structure Steady (before after : HwI2c) : Prop where
  sampled : ∃ new, Sampled before.intEnabled new before after
  intEnabled : after.intEnabled = before.intEnabled

theorem Steady.refl (hw : HwI2c) : Steady hw hw := ⟨⟨[], .none _ hw⟩, rfl⟩

theorem Steady.grows {before after : HwI2c} (steady : Steady before after) :
    before.samples <+: after.samples := by
  obtain ⟨new, sampled⟩ := steady.sampled
  exact ⟨new, sampled.samples.symm⟩

theorem Steady.trans {before between after : HwI2c}
    (earlier : Steady before between) (later : Steady between after) :
    Steady before after := by
  obtain ⟨first, sampled⟩ := earlier.sampled
  obtain ⟨second, resampled⟩ := later.sampled
  rw [earlier.intEnabled] at resampled
  exact ⟨⟨_, sampled.trans resampled⟩, later.intEnabled.trans earlier.intEnabled⟩

/-- Samples have been taken, all of them with interrupts disabled. -/
def Masked (before after : HwI2c) : Prop := ∃ new, Sampled false new before after

namespace Masked

variable {before between after : HwI2c}

theorem trans (earlier : Masked before between) (later : Masked between after) :
    Masked before after := by
  obtain ⟨first, sampled⟩ := earlier
  obtain ⟨second, resampled⟩ := later
  exact ⟨_, sampled.trans resampled⟩

theorem refl (hw : HwI2c) : Masked hw hw := ⟨[], .none false hw⟩

theorem grows (masked : Masked before after) :
    before.samples <+: after.samples := by
  obtain ⟨new, sampled⟩ := masked
  exact ⟨new, sampled.samples.symm⟩

/-- Between `cpu_disable_int` and `cpu_enable_int`. -/
theorem of_steady (steady : Steady before.cpuDisableInt after) :
    Masked before after := by
  obtain ⟨new, samples, ddr, flags⟩ := steady.sampled
  exact ⟨new, samples, ddr, flags⟩

/-- What is not on the lines does not matter. -/
theorem frame {after' : HwI2c} (masked : Masked before after)
    (samples : after'.samples = after.samples) (ddr : after'.ddr = after.ddr) :
    Masked before after' := by
  obtain ⟨new, sampled⟩ := masked
  exact ⟨new, samples.trans sampled.samples, ddr.trans sampled.ddr,
    sampled.flags⟩

theorem rebase (before' : HwI2c) (masked : Masked before after)
    (samples : before.samples = before'.samples)
    (ddr : before.ddr = before'.ddr) : Masked before' after := by
  obtain ⟨new, sampled⟩ := masked
  exact ⟨new, samples ▸ sampled.samples, ddr ▸ sampled.ddr, sampled.flags⟩

end Masked

section

open HwI2c

variable (slave : Slave)

theorem sample_steady (hw : HwI2c) {before : HwI2c}
    (samples : before.samples = hw.samples)
    (flag : hw.intEnabled = before.intEnabled) :
    Steady before (sample slave hw) := by
  refine ⟨⟨[⟨⟨hw.sdaIn slave, hw.sclIn⟩, hw.sdaDdr, hw.sclDdr, hw.intEnabled⟩],
    ?_, rfl, ?_⟩, flag⟩
  · rw [samples]
    rfl
  · intro sample member
    rw [List.mem_singleton.mp member]
    exact flag

theorem sdaLow_steady (hw : HwI2c) : Steady hw (sdaLow slave hw) :=
  sample_steady slave _ rfl rfl

theorem sdaHi_steady (hw : HwI2c) : Steady hw (sdaHi slave hw) :=
  sample_steady slave _ rfl rfl

theorem sclHi_steady (hw : HwI2c) : Steady hw (sclHi slave hw) :=
  sample_steady slave _ rfl rfl

theorem sclLow_steady (hw : HwI2c) : Steady hw (sclLow slave hw) := by
  have low : Steady hw (sample slave { hw with sclDdr := true }) :=
    sample_steady slave _ rfl rfl
  simp only [sclLow]
  split
  · exact low.trans (sample_steady slave _ rfl rfl)
  · exact low

theorem waitScl_steady (polls : Nat) (hw : HwI2c) :
    Steady hw (waitScl slave polls hw) := by
  induction polls generalizing hw with
  | zero => exact .refl hw
  | succ polls induction =>
      have polled : Steady hw (sample slave { hw with stretching := polls }) :=
        sample_steady slave _ rfl rfl
      exact polled.trans (induction _)

theorem writeBits_steady (bits : Nat) (data : Byte) (hw : HwI2c) :
    Steady hw (writeBits slave bits data hw) := by
  induction bits generalizing data hw with
  | zero => exact .refl hw
  | succ bits induction =>
      rw [writeBits]
      generalize driving :
        (if data &&& 0x80 ≠ 0 then sdaHi slave hw else sdaLow slave hw) = driven
      have drives : Steady hw driven := by
        rw [← driving]
        split
        · exact sdaHi_steady slave hw
        · exact sdaLow_steady slave hw
      have clocks : Steady driven (sclLow slave (sclHi slave driven)) :=
        (sclHi_steady slave driven).trans (sclLow_steady slave _)
      exact drives.trans (clocks.trans (induction _ _))

theorem hwI2cWriteByte_masked (data : Byte) (hw : HwI2c) :
    Masked hw (hwI2cWriteByte slave data hw) :=
  (Masked.of_steady (writeBits_steady slave 8 data hw.cpuDisableInt)).frame
    rfl rfl

theorem hwI2cReadBit_masked (hw : HwI2c) :
    Masked hw (hwI2cReadBit slave hw).2 := by
  have released := (sdaHi_steady slave hw.cpuDisableInt).trans
    (sclHi_steady slave _)
  have waited := released.trans (waitScl_steady slave
    (sclHi slave (sdaHi slave hw.cpuDisableInt)).stretching _)
  exact (Masked.of_steady (waited.trans (sclLow_steady slave _))).frame rfl rfl

theorem readBits_masked (bits : Nat) (data : Byte) (hw : HwI2c) :
    Masked hw (readBits slave bits data hw).2 := by
  induction bits generalizing data hw with
  | zero => exact .refl hw
  | succ bits induction =>
      exact (hwI2cReadBit_masked slave hw).trans (induction _ _)

/-- A bit read leaves interrupts enabled, SDA released and SCL low. -/
theorem readBits_enabled (bits : Nat) (data : Byte) (hw : HwI2c) :
    (readBits slave (bits + 1) data hw).2.intEnabled = true ∧
      (readBits slave (bits + 1) data hw).2.ddr = (false, true) := by
  induction bits generalizing data hw with
  | zero =>
      have grip := (hwI2cReadBit_frame slave hw).2
      exact ⟨rfl, congrArg (fun grip => (grip.sdaDdr, grip.sclDdr)) grip⟩
  | succ bits induction =>
      exact induction _ _

theorem hwI2cMasterStart_masked (address : Byte) (rdwr : HwI2cRdwr)
    (hw : HwI2c) : Masked hw (hwI2cMasterStart slave address rdwr hw).2 := by
  simp only [hwI2cMasterStart]
  generalize conditioned :
    (if (cpuDisableInt hw).holdBus = true then
      sclHi slave (sdaHi slave (cpuDisableInt hw)) else cpuDisableInt hw) = freed
  have frees : Steady hw.cpuDisableInt freed := by
    rw [← conditioned]
    split
    · exact (sdaHi_steady slave _).trans (sclHi_steady slave _)
    · exact .refl _
  have starts := frees.trans
    ((sdaLow_steady slave freed).trans (sclLow_steady slave _))
  have held : Masked hw
      { sclLow slave (sdaLow slave freed) with holdBus := true } :=
    (Masked.of_steady starts).frame rfl rfl
  have sent := held.trans
    ((hwI2cWriteByte_masked slave ((address &&& 0xfe) ||| rdwr.bit) _).trans
      (hwI2cReadBit_masked slave _))
  exact sent.frame rfl rfl

theorem hwI2cMasterStop_masked (hw : HwI2c) :
    Masked hw (hwI2cMasterStop slave hw) := by
  have pulled := (sclLow_steady slave hw.cpuDisableInt).trans
    (sdaLow_steady slave _)
  have stopped := pulled.trans ((sclHi_steady slave _).trans (sdaHi_steady slave _))
  exact (Masked.of_steady stopped).frame rfl rfl

theorem txLoop_masked (buf : List Byte) (error : Bool) (hw : HwI2c) :
    Masked hw (txLoop slave buf error hw).2 := by
  induction buf generalizing error hw with
  | nil => exact .refl hw
  | cons data buf induction =>
      cases error with
      | true => exact .refl hw
      | false =>
          have sent := (hwI2cWriteByte_masked slave data hw).trans
            (hwI2cReadBit_masked slave _)
          have logged : Masked hw
              (log (.tx data ((hwI2cReadBit slave
                (hwI2cWriteByte slave data hw)).1 == 0))
                (hwI2cReadBit slave (hwI2cWriteByte slave data hw)).2) :=
            sent.frame rfl rfl
          exact logged.trans (induction _ _)

/-- Behind the data bits of a byte the master answers and raises SCL. -/
def answerBit (sendAck : Bool) (hw : HwI2c) : HwI2c :=
  sclHi slave (if sendAck then sdaLow slave hw else sdaHi slave hw)

def rxRound (sendAck : Bool) (hw : HwI2c) : HwI2c :=
  let (data, hw) := readBits slave 8 0 hw
  log (.rx data sendAck) (sdaHi slave (sclLow slave (answerBit slave sendAck hw)))

theorem rxLoop_round (ack : Bool) (bufLen : Nat) (hw : HwI2c) :
    (rxLoop slave ack (bufLen + 1) hw).2 =
      (rxLoop slave ack bufLen
        (rxRound slave (decide (bufLen + 1 > 1) || ack) hw)).2 :=
  rfl

theorem rxRound_answers (sendAck : Bool) (hw : HwI2c) :
    (answerBit slave sendAck (readBits slave 8 0 hw).2).samples <+:
      (rxRound slave sendAck hw).samples :=
  ((sclLow_steady slave _).trans (sdaHi_steady slave _)).grows

theorem answerBit_grows (sendAck : Bool) (hw : HwI2c) :
    hw.samples <+: (answerBit slave sendAck hw).samples := by
  have clocked := (sclHi_steady slave
    (if sendAck then sdaLow slave hw else sdaHi slave hw)).grows
  refine List.IsPrefix.trans ?_ clocked
  split
  · exact (sdaLow_steady slave hw).grows
  · exact (sdaHi_steady slave hw).grows

theorem rxLoop_grows (ack : Bool) (bufLen : Nat) (hw : HwI2c) :
    hw.samples <+: (rxLoop slave ack bufLen hw).2.samples := by
  induction bufLen generalizing hw with
  | zero => exact List.prefix_rfl
  | succ bufLen induction =>
      have read := (readBits_masked slave 8 0 hw).grows
      have answered := answerBit_grows slave (decide (bufLen + 1 > 1) || ack)
        (readBits slave 8 0 hw).2
      have round := rxRound_answers slave (decide (bufLen + 1 > 1) || ack) hw
      rw [rxLoop_round]
      exact ((read.trans answered).trans round).trans (induction _)

/-- The answer changes a line, and is given with interrupts enabled. -/
theorem answerBit_interrupted (sendAck : Bool) {hw : HwI2c}
    (enabled : hw.intEnabled = true) (ddr : hw.ddr = (false, true)) :
    ∃ new, (answerBit slave sendAck hw).samples = hw.samples ++ new ∧
      ¬ Uninterrupted (false, true) new := by
  cases sendAck with
  | true =>
      refine ⟨_, List.append_assoc _ _ _, ?_⟩
      rintro ⟨low, -⟩
      have changed : ((true, hw.sclDdr) : Ddr) ≠ (false, true) := by simp
      have masked : hw.intEnabled = false := low changed
      rw [enabled] at masked
      contradiction
  | false =>
      refine ⟨_, List.append_assoc _ _ _, ?_⟩
      rintro ⟨-, high, -⟩
      have held : hw.sclDdr = true := congrArg Prod.snd ddr
      have changed : ((false, false) : Ddr) ≠ (false, hw.sclDdr) := by
        simp [held]
      have masked : hw.intEnabled = false := high changed
      rw [enabled] at masked
      contradiction

end

section

variable (slave : Slave) (hw : HwI2c)

theorem CallUninterrupted.of_masked {slave : Slave} {call : HwI2cCall}
    {hw : HwI2c} (masked : Masked hw (hwI2cCall slave hw call).2)
    (enabled : (hwI2cCall slave hw call).2.intEnabled = true) :
    CallUninterrupted slave call hw := by
  obtain ⟨new, sampled⟩ := masked
  exact ⟨⟨new, sampled.samples, uninterrupted_masked sampled.flags hw.ddr⟩,
    enabled⟩

theorem receive_interrupted (bufLen : Nat) (ack : Bool) :
    ¬ CallUninterrupted slave (.rx (bufLen + 1) ack) hw := by
  rintro ⟨⟨new, samples, uninterrupted⟩, -⟩
  have masked : Masked hw (readBits slave 8 0 hw.cpuDisableInt).2 :=
    (readBits_masked slave 8 0 hw.cpuDisableInt).rebase hw rfl rfl
  obtain ⟨bits, read⟩ := masked
  obtain ⟨enabled, ddr⟩ := readBits_enabled slave 7 0 hw.cpuDisableInt
  obtain ⟨answer, answered, interrupted⟩ := answerBit_interrupted slave
    (decide (bufLen + 1 > 1) || ack) enabled ddr
  obtain ⟨rest, rested⟩ := (rxRound_answers slave
    (decide (bufLen + 1 > 1) || ack) hw.cpuDisableInt).trans
    (rxLoop_grows slave ack bufLen _)
  have whole : (hwI2cCall slave hw (.rx (bufLen + 1) ack)).2.samples =
      hw.samples ++ (bits ++ answer ++ rest) := by
    rw [← List.append_assoc, ← List.append_assoc, ← read.samples, ← answered,
      rested]
    rfl
  have same : new = bits ++ answer ++ rest :=
    List.append_cancel_left (samples.symm.trans whole)
  rw [same, List.append_assoc, uninterrupted_append, ← read.ddr] at uninterrupted
  have behind := (uninterrupted_append _ _ _).mp uninterrupted.2
  rw [ddr] at behind
  exact interrupted behind.1

theorem callUninterrupted_iff (call : HwI2cCall) :
    CallUninterrupted slave call hw ↔ call.receives = false := by
  cases call with
  | start address rdwr =>
      refine iff_of_true (.of_masked ?_ rfl) rfl
      exact hwI2cMasterStart_masked slave address rdwr hw
  | stop =>
      exact iff_of_true (.of_masked (hwI2cMasterStop_masked slave hw) rfl) rfl
  | tx buf =>
      refine iff_of_true (.of_masked ?_ rfl) rfl
      have sent := txLoop_masked slave buf false hw.cpuDisableInt
      exact (sent.rebase hw rfl rfl).frame rfl rfl
  | rx bufLen ack =>
      cases bufLen with
      | zero =>
          refine iff_of_true (.of_masked ?_ rfl) rfl
          exact (Masked.refl hw).frame rfl rfl
      | succ bufLen =>
          exact iff_of_false (receive_interrupted slave hw bufLen ack)
            (by simp [HwI2cCall.receives])

/-- In a sequence of calls every change of the lines is made with interrupts
disabled, and interrupts are enabled after every call, if and only if none of
them receives a byte. -/
theorem bit_timing_uninterrupted_iff (calls : List HwI2cCall) :
    Run.Meets (fun call hw => (hwI2cCall slave hw call).2)
        (CallUninterrupted slave) calls hw ↔
      ∀ call ∈ calls, call.receives = false := by
  induction calls generalizing hw with
  | nil => simp [Run.Meets]
  | cons call calls induction =>
      rw [Run.Meets, induction, callUninterrupted_iff, List.forall_mem_cons]

end

/-- One byte is read from a device. -/
theorem receive_answers_interrupted :
    ¬ ∀ (slave : Slave) (calls : List HwI2cCall) (hw : HwI2c),
      Run.Meets (fun call hw => (hwI2cCall slave hw call).2)
        (CallUninterrupted slave) calls hw := by
  intro always
  have reads := always (.pulling [9]) [.start 0xA7 .rd, .rx 1 false, .stop]
    .powerOn
  exact receive_interrupted _ _ 0 false reads.2.1

end BusNinja
