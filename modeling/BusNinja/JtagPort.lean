import BusNinja.JtagPacked
import BusNinja.JtagRequests
import BusNinja.Library.Attached
import BusNinja.Library.Run

/-!
# How the JTAG port changes

Whatever the host sends, in whatever order the adapter is initialised,
connected, configured and polled: TCK only ever changes by itself, the other
lines only while it is low, and the three input pins are never driven.
-/

namespace BusNinja

open Attached

/-- TCK changes alone or is low, and bits 5 to 7 stay 0. -/
def Permitted (before after : Byte) : Prop :=
  after &&& 0xE0 = 0 ∧
    (before ^^^ after = 0x10 ∨ (before &&& 0x10 = 0 ∧ after &&& 0x10 = 0))

instance (before after : Byte) : Decidable (Permitted before after) :=
  inferInstanceAs (Decidable (_ ∧ _))

/-- TCK is low, and the input pins are not driven. -/
def Jtag.Idle (jtag : Jtag) : Prop := jtag.out &&& 0xF0 = 0

/-- The port was driven as permitted, and is idle again. -/
structure Driven (before after : Jtag) : Prop where
  written : ∃ new, after.writes = before.writes ++ new ∧
    after.out = new.getLastD before.out ∧ Changed Permitted before.out new
  idle : after.Idle

theorem Driven.none {jtag : Jtag} (idle : jtag.Idle) : Driven jtag jtag :=
  ⟨⟨[], by simp, rfl, .nil _⟩, idle⟩

theorem Driven.trans {before between after : Jtag}
    (earlier : Driven before between) (later : Driven between after) :
    Driven before after := by
  obtain ⟨⟨first, writes, out, changed⟩, -⟩ := earlier
  obtain ⟨⟨second, writesLater, outLater, changedLater⟩, idle⟩ := later
  rw [out] at changedLater outLater
  refine ⟨⟨first ++ second, ?_, ?_, changed.append changedLater⟩, idle⟩
  · rw [writesLater, writes, List.append_assoc]
  · rw [outLater, getLastD_append]

section

variable {jtag : Jtag} (idle : jtag.Idle)

theorem and_low {value : Byte} (low : value &&& 0xF0 = 0) :
    value &&& 0xE0 = 0 ∧ value &&& 0x10 = 0 := by
  revert value
  decide +kernel

include idle

theorem driven_write {value : Byte} (low : value &&& 0xF0 = 0) :
    Driven jtag (jtag.write value) := by
  obtain ⟨inputs, clock⟩ := and_low low
  have changes : Permitted jtag.out value :=
    ⟨inputs, .inr ⟨(and_low idle).2, clock⟩⟩
  exact ⟨⟨[value], rfl, rfl, .cons changes (.nil _)⟩, low⟩

omit idle in
theorem pairLevel (out pair : Byte) (low : out &&& 0xF0 = 0) :
    ((out &&& 0xFC) ||| (pair &&& 0x03)) &&& 0xF0 = 0 := by
  have kept : (out &&& 0xFC) &&& 0xF0 = out &&& 0xF0 := by
    rw [BitVec.and_assoc]
    rfl
  have pairBits : (pair &&& 0x03) &&& 0xF0 = 0 := by
    rw [BitVec.and_assoc]
    exact BitVec.and_zero
  rw [BitVec.and_or_distrib_right, kept, low, pairBits]
  rfl

omit idle in
theorem level_pulsed {level : Byte} (low : level &&& 0xF0 = 0) :
    Permitted level (level ||| 0x10) ∧
      Permitted (level ||| 0x10) (level &&& 0xEF) ∧
      (level &&& 0xEF) &&& 0xF0 = 0 := by
  revert level
  decide +kernel

theorem driven_clockPair (engine : TapEngine) (pair : Byte) :
    Driven jtag (engine.clockPair (pair &&& 0x03) jtag) := by
  have level := pairLevel jtag.out pair idle
  obtain ⟨inputs, clock⟩ := and_low level
  have setUp : Permitted jtag.out ((jtag.out &&& 0xFC) ||| (pair &&& 0x03)) :=
    ⟨inputs, .inr ⟨(and_low idle).2, clock⟩⟩
  obtain ⟨rises, falls, low⟩ := level_pulsed level
  obtain ⟨out, writes⟩ := engine.clockPair_port (pair &&& 0x03) jtag
  refine ⟨⟨_, writes, out, ?_⟩, ?_⟩
  · exact .cons setUp (.cons rises (.cons falls (.nil _)))
  · rw [Jtag.Idle, out]
    exact low

theorem driven_clockPairs (engine : TapEngine) (bytes : Nat → Byte)
    (outBuffer taps : Nat) :
    Driven jtag
      (engine.clockPairs (packedPair bytes outBuffer) jtag taps) := by
  induction taps with
  | zero => exact .none idle
  | succ taps induction =>
      exact induction.trans (driven_clockPair induction.idle engine _)

end

section

variable (pins : List Byte → Byte) {usb : UsbdevJtag} (idle : usb.jtag.Idle)

include idle

theorem driven_tapOutput (engine : TapEngine) :
    Driven usb.jtag (usb.tapOutput (jtagTapOutput pins engine)).jtag := by
  obtain ⟨filled, output, -⟩ := jtagTapOutput_reference pins engine 3 0
    (tapPairs (usb.memory.bytes 2) usb.dataFromHostSize) usb.jtag usb.memory
    (engine.keepsUnread_of_le _ (by decide))
  have jtag : (usb.tapOutput (jtagTapOutput pins engine)).jtag =
      engine.clockPairs (packedPair usb.memory.bytes 3) usb.jtag
        (clocked (tapPairs (usb.memory.bytes 2) usb.dataFromHostSize)) := by
    simp only [UsbdevJtag.tapOutput, dataFromHost, dataToHost, output]
  rw [jtag]
  exact driven_clockPairs idle engine _ _ _

omit idle in
theorem resets_out (out : Byte) {trst srst : Byte}
    (trstLevel : trst ∈ [0#8, 1]) (srstLevel : srst ∈ [0#8, 1]) :
    ((out &&& 0xFB) ||| (trst <<< 2)) &&& 0xFB = out &&& 0xFB ∧
      ((out &&& 0xFB) ||| (trst <<< 2)).getLsbD 2 = trst.getLsbD 0 ∧
      ((out &&& 0xF7) ||| (srst <<< 3)) &&& 0xF7 = out &&& 0xF7 ∧
      ((out &&& 0xF7) ||| (srst <<< 3)).getLsbD 3 = srst.getLsbD 0 ∧
      (((out &&& 0xF3) ||| (srst <<< 3)) ||| (trst <<< 2)) &&& 0xF3 =
        out &&& 0xF3 ∧
      (((out &&& 0xF3) ||| (srst <<< 3)) ||| (trst <<< 2)).getLsbD 2 =
        trst.getLsbD 0 ∧
      (((out &&& 0xF3) ||| (srst <<< 3)) ||| (trst <<< 2)).getLsbD 3 =
        srst.getLsbD 0 := by
  simp only [List.mem_cons, List.not_mem_nil, or_false] at trstLevel srstLevel
  rcases trstLevel with rfl | rfl <;> rcases srstLevel with rfl | rfl <;>
    simp [BitVec.and_or_distrib_right, BitVec.and_assoc]

omit idle in
theorem low_of_masked : ∀ out value mask : Byte,
    mask ∈ [0xFB#8, 0xF7, 0xF3] → value &&& mask = out &&& mask →
    out &&& 0xF0 = 0 → value &&& 0xF0 = 0 := by
  intro out value mask among same low
  have within : mask &&& 0xF0 = 0xF0 := by
    simp only [List.mem_cons, List.not_mem_nil, or_false] at among
    rcases among with rfl | rfl | rfl <;> rfl
  rw [← within, ← BitVec.and_assoc, same, BitVec.and_assoc, within, low]

omit idle in
theorem masked_level : ∀ argument : Byte, argument &&& 1 ∈ [0#8, 1] := by
  decide +kernel

omit idle in
theorem chosen_level (condition : Prop) [Decidable condition] :
    (if condition then 1 else 0 : Byte) ∈ [0#8, 1] := by
  split <;> decide

theorem driven_command : Driven usb.jtag (jtagCommand pins usb).jtag := by
  have argument := masked_level (usb.memory.bytes 3)
  have second := chosen_level (usb.memory.bytes 3 &&& 2 ≠ 0)
  have alone := resets_out usb.jtag.out argument argument
  have both := resets_out usb.jtag.out second argument
  unfold jtagCommand
  dsimp only
  split
  · split
    · exact driven_tapOutput pins idle withDelay
    · exact driven_tapOutput pins idle maxSpeed
  · exact driven_tapOutput pins idle emu
  · exact .none idle
  · exact driven_write idle
      (low_of_masked _ _ 0xF7 (by decide) alone.2.2.1 idle)
  · exact driven_write idle (low_of_masked _ _ 0xFB (by decide) alone.1 idle)
  · exact ⟨(Driven.none idle).written, idle⟩
  · exact driven_write idle
      (low_of_masked _ _ 0xF3 (by decide) both.2.2.2.2.1 idle)
  · exact .none idle

theorem driven_tick (endpoints : Endpoints) :
    Driven usb.jtag (usbdevJtagTick pins endpoints usb).jtag := by
  by_cases taken : usb.connected = true ∧
      ∃ packet ∈ endpoints.packet, 1 ≤ packet.length.toNat
  · obtain ⟨connected, packet, arrived, nonempty⟩ := taken
    have same : (commanded endpoints packet usb).jtag = usb.jtag :=
      (sendReply_rest endpoints.inReady usb).2
    have driven := @driven_command pins (commanded endpoints packet usb)
      (by rw [same]; exact idle)
    rw [same, ← tick_command pins endpoints usb packet connected arrived
      nonempty] at driven
    exact driven
  · have kept := tick_kept pins endpoints usb (by
      by_cases connected : usb.connected = true
      · right
        intro packet arrived
        by_contra nonempty
        exact taken ⟨connected, packet, arrived, Nat.pos_of_ne_zero nonempty⟩
      · left
        exact Bool.eq_false_iff.mpr connected)
    rw [kept.2]
    exact .none idle

theorem driven_event (event : JtagEvent) :
    Driven usb.jtag (jtagEvent pins event usb).jtag := by
  cases event with
  | init =>
      have cleared := @driven_write usb.jtag idle 0 rfl
      exact cleared.trans (driven_write cleared.idle rfl)
  | deviceConnect => exact .none idle
  | deviceConfigurationChanged => exact driven_write idle rfl
  | tick endpoints => exact driven_tick pins idle endpoints

end

theorem driven_run (pins : List Byte → Byte) (events : List JtagEvent) {usb : UsbdevJtag}
    (idle : usb.jtag.Idle) :
    Driven usb.jtag (Run.run (jtagEvent pins) events usb).jtag := by
  induction events generalizing usb with
  | nil => exact .none idle
  | cons event events induction =>
      have now := driven_event pins idle event
      exact now.trans (induction now.idle)

/-- Whatever is called and whatever the host sends, the port has only changed
as permitted since power on, and TCK is low between the calls. -/
theorem jtag_port_discipline (pins : List Byte → Byte)
    (events : List JtagEvent) :
    Changed Permitted 0
        (Run.run (jtagEvent pins) events UsbdevJtag.powerOn).jtag.writes ∧
      (Run.run (jtagEvent pins) events UsbdevJtag.powerOn).jtag.Idle := by
  obtain ⟨⟨new, writes, -, changed⟩, idle⟩ :=
    @driven_run pins events UsbdevJtag.powerOn rfl
  refine ⟨?_, idle⟩
  rw [writes]
  exact changed

end BusNinja
