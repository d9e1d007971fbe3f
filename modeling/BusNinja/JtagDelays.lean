import Mathlib.Algebra.Order.Ring.Nat
import BusNinja.JtagReference
import BusNinja.JtagRequests
import BusNinja.Library.Run

/-!
# The configured delay

A tap command waits twice for every pair.  `jtag_delay` is passed to the delay
loop as it is, and only the plain tap command looks for a delay of 0, for
which the loop goes round as often as for 65536.
-/

namespace BusNinja

/-- The iterations of `_delay_loop_2`, as avr-libc documents them. -/
def delayIterations (count : BitVec 16) : Nat :=
  if count = 0 then 65536 else count.toNat

def iterations (delays : List (BitVec 16)) : Nat :=
  (delays.map delayIterations).sum

theorem iterations_replicate (count : Nat) (delay : BitVec 16) :
    iterations (List.replicate count delay) = count * delayIterations delay := by
  simp [iterations]

/-- Two delays for every pair, or none. -/
theorem clockPairs_delays {engine : TapEngine} (pairs : Nat → Byte)
    (jtag : Jtag) (taps : Nat) :
    (engine.pause = id →
      (engine.clockPairs pairs jtag taps).delays = jtag.delays ∧
        (engine.clockPairs pairs jtag taps).delay = jtag.delay) ∧
    (engine.pause = Jtag.delayLoop →
      (engine.clockPairs pairs jtag taps).delays =
          jtag.delays ++ List.replicate (2 * taps) jtag.delay ∧
        (engine.clockPairs pairs jtag taps).delay = jtag.delay) := by
  induction taps with
  | zero => simp [TapEngine.clockPairs]
  | succ taps induction =>
      obtain ⟨quick, slow⟩ := induction
      constructor
      · intro pause
        rw [TapEngine.clockPairs, TapEngine.clockPair, pause]
        exact quick pause
      · intro pause
        obtain ⟨delays, delay⟩ := slow pause
        have two : 2 * (taps + 1) = 2 * taps + 1 + 1 := by omega
        rw [TapEngine.clockPairs, TapEngine.clockPair, pause]
        simp only [Jtag.delayLoop, Jtag.write, delays, delay, two,
          List.replicate_succ', List.append_assoc, and_self]

theorem tapEngine_pause (command : Byte) (delay : BitVec 16) :
    ((tapEngine command delay).pause = id ∧ command ≠ 4 ∧ delay = 0) ∨
      ((tapEngine command delay).pause = Jtag.delayLoop ∧
        (command = 4 ∨ delay ≠ 0)) := by
  unfold tapEngine
  split_ifs with extended set
  · exact .inr ⟨rfl, .inl extended⟩
  · exact .inr ⟨rfl, .inr set⟩
  · exact .inl ⟨rfl, extended, not_not.mp set⟩

section

variable (pins : List Byte → Byte)

def tickDelays (endpoints : Endpoints) (usb : UsbdevJtag) : List (BitVec 16) :=
  (usbdevJtagTick pins endpoints usb).jtag.delays.drop usb.jtag.delays.length

theorem tick_tap_clocks (endpoints : Endpoints) (usb : UsbdevJtag)
    (packet : HostPacket) (connected : usb.connected = true)
    (arrived : endpoints.packet = some packet)
    (nonempty : 1 ≤ packet.length.toNat) (tap : packet.IsTap) :
    ∃ pairs, (usbdevJtagTick pins endpoints usb).jtag =
      (tapEngine packet.command usb.jtag.delay).clockPairs pairs usb.jtag
        (clocked packet.pairs) := by
  obtain ⟨command, -, -⟩ := commanded_memory endpoints packet usb nonempty
  obtain ⟨-, jtag⟩ := sendReply_rest endpoints.inReady usb
  have before : (commanded endpoints packet usb).jtag = usb.jtag := jtag
  have called := jtagCommand_engine pins (commanded endpoints packet usb)
    (by rw [command]; exact tap)
  rw [command, before] at called
  obtain ⟨filled, output, -⟩ := jtagTapOutput_reference pins
    (tapEngine packet.command usb.jtag.delay) (dataFromHost + 1) dataToHost
    packet.pairs usb.jtag (commanded endpoints packet usb).memory
    (TapEngine.keepsUnread_of_le _ _ (by decide))
  refine ⟨packedPair (commanded endpoints packet usb).memory.bytes
    (dataFromHost + 1), ?_⟩
  rw [tick_command pins endpoints usb packet connected arrived nonempty, called]
  have pairs : tapPairs ((commanded endpoints packet usb).memory.bytes
      dataFromHost) (commanded endpoints packet usb).dataFromHostSize =
        packet.pairs := by
    change tapPairs ((commanded endpoints packet usb).memory.bytes 2) _ = _
    rw [command]
    rfl
  simp only [UsbdevJtag.tapOutput, pairs, before]
  exact congrArg (fun result => result.2.1) output

/-- Only `SET_DELAY` sets the delay. -/
theorem jtagCommand_delay (usb : UsbdevJtag)
    (other : ¬ (usb.memory.bytes 2 &&& 0x0F = 0 ∨
      usb.memory.bytes 2 &&& 0x0F = 4)) :
    (jtagCommand pins usb).jtag.delay =
      if usb.memory.bytes 2 &&& 0x0F = 5 then
        (usb.memory.bytes 3).setWidth 16 * 256
      else usb.jtag.delay := by
  have five : usb.memory.bytes 2 &&& 0x0F = 5 ↔
      (usb.memory.bytes 2 &&& 0x0F).toNat = 5 :=
    (BitVec.toNat_inj (y := 5)).symm
  rw [if_congr five rfl rfl]
  unfold jtagCommand
  dsimp only [dataFromHost]
  split
  · next code =>
      apply absurd _ other
      left
      exact BitVec.eq_of_toNat_eq code
  · next code =>
      apply absurd _ other
      right
      exact BitVec.eq_of_toNat_eq code
  all_goals first
    | next code => rw [code]; rfl
    | next notFive _ => rw [if_neg notFive]

/-- `TAP_OUTPUT_EMU` is not received while the delay is 0. -/
def EmuDelayed (endpoints : Endpoints) (usb : UsbdevJtag) : Prop :=
  ∀ packet ∈ endpoints.packet, usb.connected = true →
    1 ≤ packet.length.toNat → packet.command = 4 → usb.jtag.delay ≠ 0

/-- `SET_DELAY` sets the delay, nothing else changes it, and a tap command
waits twice that long for every pulse of TCK. -/
structure HonoursDelay (endpoints : Endpoints) (usb : UsbdevJtag) : Prop where
  set : ∀ packet ∈ endpoints.packet, usb.connected = true →
    2 ≤ packet.length.toNat → packet.command = 5 →
    (usbdevJtagTick pins endpoints usb).jtag.delay =
      (packet.body 1).setWidth 16 * 256
  kept : (∀ packet ∈ endpoints.packet, usb.connected = true →
      1 ≤ packet.length.toNat → packet.command ≠ 5) →
    (usbdevJtagTick pins endpoints usb).jtag.delay = usb.jtag.delay
  spent : ∀ packet ∈ endpoints.packet, usb.connected = true →
    1 ≤ packet.length.toNat → packet.IsTap →
    iterations (tickDelays pins endpoints usb) =
      2 * usb.jtag.delay.toNat *
        tckPulses usb.jtag.out (tickWrites pins endpoints usb)

theorem tick_tap_delay (endpoints : Endpoints) (usb : UsbdevJtag)
    (packet : HostPacket) (connected : usb.connected = true)
    (arrived : endpoints.packet = some packet)
    (nonempty : 1 ≤ packet.length.toNat) (tap : packet.IsTap) :
    (usbdevJtagTick pins endpoints usb).jtag.delay = usb.jtag.delay := by
  obtain ⟨pairs, clocks⟩ := tick_tap_clocks pins endpoints usb packet connected
    arrived nonempty tap
  rw [clocks]
  obtain ⟨pause, -⟩ | ⟨pause, -⟩ :=
    tapEngine_pause packet.command usb.jtag.delay
  · exact ((clockPairs_delays pairs usb.jtag _).1 pause).2
  · exact ((clockPairs_delays pairs usb.jtag _).2 pause).2

theorem tick_tap_iterations (endpoints : Endpoints) (usb : UsbdevJtag)
    (packet : HostPacket) (connected : usb.connected = true)
    (arrived : endpoints.packet = some packet)
    (nonempty : 1 ≤ packet.length.toNat) (tap : packet.IsTap) :
    iterations (tickDelays pins endpoints usb) =
      if packet.command = 4 ∨ usb.jtag.delay ≠ 0 then
        2 * clocked packet.pairs * delayIterations usb.jtag.delay
      else 0 := by
  obtain ⟨pairs, clocks⟩ := tick_tap_clocks pins endpoints usb packet connected
    arrived nonempty tap
  rw [tickDelays, clocks]
  obtain ⟨pause, plain, unset⟩ | ⟨pause, waits⟩ :=
    tapEngine_pause packet.command usb.jtag.delay
  · rw [((clockPairs_delays pairs usb.jtag _).1 pause).1, List.drop_length,
      if_neg (not_or.mpr ⟨plain, not_not.mpr unset⟩)]
    rfl
  · rw [((clockPairs_delays pairs usb.jtag _).2 pause).1, List.drop_left,
      if_pos waits]
    exact iterations_replicate _ _

/-- A tap command waits as configured unless it is `TAP_OUTPUT_EMU` and the
delay is 0. -/
theorem tick_spent_iff (endpoints : Endpoints) (usb : UsbdevJtag)
    (packet : HostPacket) (connected : usb.connected = true)
    (arrived : endpoints.packet = some packet)
    (nonempty : 1 ≤ packet.length.toNat) (tap : packet.IsTap) :
    iterations (tickDelays pins endpoints usb) =
        2 * usb.jtag.delay.toNat *
          tckPulses usb.jtag.out (tickWrites pins endpoints usb) ↔
      (packet.command = 4 → usb.jtag.delay ≠ 0) := by
  rw [tick_pulses pins endpoints usb packet connected arrived nonempty tap,
    tick_tap_iterations pins endpoints usb packet connected arrived nonempty
      tap]
  by_cases unset : usb.jtag.delay = 0
  · by_cases emu : packet.command = 4
    · have some : 1 ≤ clocked packet.pairs := le_max_left _ _
      rw [if_pos (.inl emu), unset]
      have none : (0 : BitVec 16).toNat = 0 := rfl
      simp only [delayIterations, if_true, none, Nat.mul_zero, Nat.zero_mul,
        emu, ne_eq, not_true_eq_false, imp_false, iff_false]
      omega
    · have none : usb.jtag.delay.toNat = 0 := by rw [unset]; rfl
      rw [if_neg (not_or.mpr ⟨emu, not_not.mpr unset⟩), none, Nat.mul_zero,
        Nat.zero_mul]
      exact iff_of_true rfl (fun command => absurd command emu)
  · rw [if_pos (.inr unset), delayIterations, if_neg unset]
    exact iff_of_true (Nat.mul_right_comm _ _ _) (fun _ => unset)

theorem tick_other_delay (endpoints : Endpoints) (usb : UsbdevJtag)
    (packet : HostPacket) (connected : usb.connected = true)
    (arrived : endpoints.packet = some packet)
    (nonempty : 1 ≤ packet.length.toNat) (other : ¬ packet.IsTap) :
    (usbdevJtagTick pins endpoints usb).jtag.delay =
      if packet.command = 5 then
        ((commanded endpoints packet usb).memory.bytes 3).setWidth 16 * 256
      else usb.jtag.delay := by
  obtain ⟨command, -, -⟩ := commanded_memory endpoints packet usb nonempty
  obtain ⟨-, jtag⟩ := sendReply_rest endpoints.inReady usb
  have before : (commanded endpoints packet usb).jtag = usb.jtag := jtag
  have delay := jtagCommand_delay pins (commanded endpoints packet usb)
    (by rw [command]; exact other)
  rw [command, before] at delay
  rw [tick_command pins endpoints usb packet connected arrived nonempty]
  exact delay

theorem tick_set_delay (endpoints : Endpoints) (usb : UsbdevJtag)
    (packet : HostPacket) (connected : usb.connected = true)
    (arrived : endpoints.packet = some packet)
    (argument : 2 ≤ packet.length.toNat) (set : packet.command = 5) :
    (usbdevJtagTick pins endpoints usb).jtag.delay =
      (packet.body 1).setWidth 16 * 256 := by
  have other : ¬ packet.IsTap := by
    rintro (tap | tap)
    all_goals
      rw [set] at tap
      exact absurd tap (by decide)
  obtain ⟨-, -, received⟩ :=
    readStream_spec packet.body 2 packet.length.toNat usb.memory
  have second : (commanded endpoints packet usb).memory.bytes 3 =
      packet.body 1 := received 1 (by omega)
  rw [tick_other_delay pins endpoints usb packet connected arrived (by omega)
    other, if_pos set, second]

theorem tick_kept_delay (endpoints : Endpoints) (usb : UsbdevJtag)
    (unset : ∀ packet ∈ endpoints.packet, usb.connected = true →
      1 ≤ packet.length.toNat → packet.command ≠ 5) :
    (usbdevJtagTick pins endpoints usb).jtag.delay = usb.jtag.delay := by
  by_cases nothing : usb.connected = false ∨
      ∀ packet ∈ endpoints.packet, packet.length.toNat = 0
  · rw [(tick_kept pins endpoints usb nothing).2]
  · push Not at nothing
    obtain ⟨on, packet, arrived, filled⟩ := nothing
    have connected : usb.connected = true := by simpa using on
    have nonempty : 1 ≤ packet.length.toNat := by omega
    by_cases tap : packet.IsTap
    · exact tick_tap_delay pins endpoints usb packet connected arrived nonempty
        tap
    · rw [tick_other_delay pins endpoints usb packet connected arrived nonempty
        tap]
      exact if_neg (unset packet arrived connected nonempty)

theorem honoursDelay_iff (endpoints : Endpoints) (usb : UsbdevJtag) :
    HonoursDelay pins endpoints usb ↔ EmuDelayed endpoints usb := by
  constructor
  · rintro ⟨-, -, spent⟩ packet arrived connected nonempty emu
    have tap : packet.IsTap := .inr emu
    exact (tick_spent_iff pins endpoints usb packet connected arrived nonempty
      tap).mp (spent packet arrived connected nonempty tap) emu
  · intro delayed
    refine ⟨?_, tick_kept_delay pins endpoints usb, ?_⟩
    · intro packet arrived connected
      exact tick_set_delay pins endpoints usb packet connected arrived
    · intro packet arrived connected nonempty tap
      exact (tick_spent_iff pins endpoints usb packet connected arrived nonempty
        tap).mpr (delayed packet arrived connected nonempty)

/-- The delay is honoured throughout a run if and only if `TAP_OUTPUT_EMU` is
never received while the delay is 0. -/
theorem jtag_delay_honoured_iff (ticks : List Endpoints) (usb : UsbdevJtag) :
    Run.Meets (usbdevJtagTick pins) (HonoursDelay pins) ticks usb ↔
      Run.Meets (usbdevJtagTick pins) EmuDelayed ticks usb := by
  rw [Run.meets_iff_of_split, Run.meets_iff_of_split]
  simp only [honoursDelay_iff]

/-- The adapter has just been attached: its delay is 0, and one pair waits
131072 times. -/
theorem emu_waits_at_delay_zero :
    ¬ ∀ (pins : List Byte → Byte) (ticks : List Endpoints) (usb : UsbdevJtag),
      Run.Meets (usbdevJtagTick pins) (HonoursDelay pins) ticks usb := by
  intro always
  have meets := always (fun _ => 0)
    [{ inReady := true
       packet := some { length := 2, body := fun i => if i = 0 then 0x14 else 0 } }]
    UsbdevJtag.attached
  have spent := meets.1.spent _ rfl rfl (by decide) (.inr (by decide))
  exact absurd spent (by decide +kernel)

end

end BusNinja
