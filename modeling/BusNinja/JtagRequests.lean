import BusNinja.JtagTaps
import BusNinja.Source.UsbdevJtag

/-!
# What a JTAG request stores, reads and clocks

A tick that takes a packet receives it and switches over its command.  For
every packet, whatever its length word and its command byte, this gives the
bytes stored, the bytes read as tap data and the pulses of TCK.
-/

namespace BusNinja

namespace HostPacket

def command (packet : HostPacket) : Byte := packet.body 0 &&& 0x0F

def nibble (packet : HostPacket) : Nat :=
  ((packet.body 0 &&& 0xF0) >>> 4).toNat

/-- `TAP_OUTPUT` or `TAP_OUTPUT_EMU`. -/
def IsTap (packet : HostPacket) : Prop :=
  packet.command = 0 ∨ packet.command = 4

/-- The number of pairs the tap functions are called with. -/
def pairs (packet : HostPacket) : BitVec 16 :=
  tapPairs (packet.body 0) (packet.length - 1)

/-- The packet fits the buffer, and a tap command carries the pairs it is
charged with. -/
def Fits (packet : HostPacket) : Prop :=
  packet.length.toNat ≤ 128 ∧
    (packet.length.toNat = 0 ∨ ¬ packet.IsTap ∨
      (2 ≤ packet.length.toNat ∧ packet.nibble ≤ 4))

theorem rest_toNat (packet : HostPacket) (nonempty : 1 ≤ packet.length.toNat) :
    (packet.length - 1).toNat = packet.length.toNat - 1 := by
  have one : (1 : BitVec 16).toNat = 1 := rfl
  have bound := packet.length.isLt
  rw [BitVec.toNat_sub, one]
  omega

end HostPacket

theorem nibble_ne_zero (command : Byte) :
    command &&& 0xF0 ≠ 0 ↔ ((command &&& 0xF0) >>> 4).toNat ≠ 0 := by
  revert command
  decide +kernel

theorem nibble_lt (command : Byte) : ((command &&& 0xF0) >>> 4).toNat < 16 := by
  revert command
  decide +kernel

theorem tapPairs_toNat (command : Byte) (size : BitVec 16)
    (short : size.toNat ≤ 127) :
    (tapPairs command size).toNat =
      if ((command &&& 0xF0) >>> 4).toNat ≠ 0 then
        (4 * size.toNat + ((command &&& 0xF0) >>> 4).toNat + 65532) % 65536
      else 4 * size.toNat := by
  have small := nibble_lt command
  have four : (4 : BitVec 16).toNat = 4 := rfl
  have product : (size * 4).toNat = 4 * size.toNat := by
    rw [BitVec.toNat_mul, four]
    omega
  unfold tapPairs
  simp only [nibble_ne_zero]
  split
  · rw [BitVec.toNat_sub, BitVec.toNat_sub, product, BitVec.toNat_setWidth, four]
    omega
  · exact product

theorem pairs_toNat (packet : HostPacket) (nonempty : 1 ≤ packet.length.toNat)
    (short : packet.length.toNat ≤ 128) :
    packet.pairs.toNat =
      if packet.nibble ≠ 0 then
        (4 * (packet.length.toNat - 1) + packet.nibble + 65532) % 65536
      else 4 * (packet.length.toNat - 1) := by
  have rest := packet.rest_toNat nonempty
  have pairs := tapPairs_toNat (packet.body 0) (packet.length - 1)
    (by rw [rest]; omega)
  rw [rest] at pairs
  exact pairs

/-- No more pairs are clocked than were received exactly if some were, and
the nibble does not add any. -/
theorem clocked_le_iff (packet : HostPacket) (nonempty : 1 ≤ packet.length.toNat)
    (short : packet.length.toNat ≤ 128) :
    clocked packet.pairs ≤ 4 * (packet.length.toNat - 1) ↔
      2 ≤ packet.length.toNat ∧ packet.nibble ≤ 4 := by
  have small : packet.nibble < 16 := nibble_lt (packet.body 0)
  rw [clocked, pairs_toNat packet nonempty short]
  split <;> omega

theorem readStream_spec (body : Nat → Byte) (address size : Nat)
    (memory : Memory) :
    (readStream body address size memory).tapReads = memory.tapReads ∧
      (readStream body address size memory).stores =
        memory.stores ++ List.range' address size ∧
      ∀ i, i < size →
        (readStream body address size memory).bytes (address + i) = body i := by
  induction size with
  | zero => simp [readStream]
  | succ size induction =>
      obtain ⟨tapReads, stores, bytes⟩ := induction
      refine ⟨tapReads, ?_, ?_⟩
      · rw [List.range'_1_concat, ← List.append_assoc, ← stores]
        rfl
      · intro i inside
        by_cases last : i = size
        · simp [readStream, Memory.store, last]
        · have earlier := bytes i (by omega)
          simpa [readStream, Memory.store, last] using earlier

section

variable (pins : List Byte → Byte)

theorem tapOutput_spec (engine : TapEngine) (usb : UsbdevJtag)
    (outLength : BitVec 16)
    (pairs : tapPairs (usb.memory.bytes 2) usb.dataFromHostSize = outLength) :
    Pulsed (clocked outLength) usb.jtag
        (usb.tapOutput (jtagTapOutput pins engine)).jtag ∧
      (usb.tapOutput (jtagTapOutput pins engine)).memory.tapReads =
        usb.memory.tapReads ++
          List.range' 3 ((clocked outLength + 3) / 4) ∧
      (usb.tapOutput (jtagTapOutput pins engine)).memory.stores =
        usb.memory.stores ++
          List.range' 0 (engine.bytesFor (clocked outLength)) := by
  have spec : ∃ size after filled,
      jtagTapOutput pins engine 3 0 outLength usb.jtag usb.memory =
        (size, after, filled) ∧ _ ∧ _ ∧ _ :=
    jtagTapOutput_spec outLength usb.jtag usb.memory
  obtain ⟨size, after, filled, result, pulsed, tapReads, stores⟩ := spec
  have output : usb.tapOutput (jtagTapOutput pins engine) =
      { usb with
        dataFromHostSize := outLength
        dataToHostSize := size.setWidth 16
        jtag := after
        memory := filled } := by
    simp only [UsbdevJtag.tapOutput, dataFromHost, dataToHost, pairs, result]
  rw [output]
  exact ⟨pulsed, tapReads, stores⟩

/-- The tap output function that a tap command calls. -/
def tapEngine (command : Byte) (delay : BitVec 16) : TapEngine :=
  if command = 4 then emu
  else if delay ≠ 0 then withDelay
  else maxSpeed

theorem jtagCommand_engine (usb : UsbdevJtag)
    (tap : usb.memory.bytes 2 &&& 0x0F = 0 ∨ usb.memory.bytes 2 &&& 0x0F = 4) :
    jtagCommand pins usb =
      usb.tapOutput (jtagTapOutput pins
        (tapEngine (usb.memory.bytes 2 &&& 0x0F) usb.jtag.delay)) := by
  rcases tap with command | command
  · rw [command]
    by_cases delay : usb.jtag.delay ≠ 0
    · have engine : tapEngine 0 usb.jtag.delay = withDelay := if_pos delay
      rw [engine]
      simp only [jtagCommand, dataFromHost, command, jtagTapOutputWithDelay]
      exact if_pos delay
    · have engine : tapEngine 0 usb.jtag.delay = maxSpeed := if_neg delay
      rw [engine]
      simp only [jtagCommand, dataFromHost, command, jtagTapOutputMaxSpeed]
      exact if_neg delay
  · rw [command]
    simp only [jtagCommand, dataFromHost, command, jtagTapOutputEmu]
    rfl

theorem jtagCommand_tap (usb : UsbdevJtag)
    (tap : usb.memory.bytes 2 &&& 0x0F = 0 ∨ usb.memory.bytes 2 &&& 0x0F = 4) :
    ∃ engine, jtagCommand pins usb =
      usb.tapOutput (jtagTapOutput pins engine) :=
  ⟨_, jtagCommand_engine pins usb tap⟩

/-- The other commands read no tap data and store at most the first byte. -/
theorem jtagCommand_other (usb : UsbdevJtag)
    (other : ¬ (usb.memory.bytes 2 &&& 0x0F = 0 ∨
      usb.memory.bytes 2 &&& 0x0F = 4)) :
    (jtagCommand pins usb).memory.tapReads = usb.memory.tapReads ∧
      ∃ replied, replied <+: [0] ∧
        (jtagCommand pins usb).memory.stores = usb.memory.stores ++ replied := by
  unfold jtagCommand
  dsimp only
  split
  · next code =>
      apply absurd _ other
      left
      exact BitVec.eq_of_toNat_eq code
  · next code =>
      apply absurd _ other
      right
      exact BitVec.eq_of_toNat_eq code
  all_goals first
    | exact ⟨rfl, [0], List.prefix_rfl, rfl⟩
    | exact ⟨rfl, [], List.nil_prefix, (List.append_nil _).symm⟩

def tickStores (endpoints : Endpoints) (usb : UsbdevJtag) : List Nat :=
  (usbdevJtagTick pins endpoints usb).memory.stores.drop
    usb.memory.stores.length

def tickTapReads (endpoints : Endpoints) (usb : UsbdevJtag) : List Nat :=
  (usbdevJtagTick pins endpoints usb).memory.tapReads.drop
    usb.memory.tapReads.length

def tickWrites (endpoints : Endpoints) (usb : UsbdevJtag) : List Byte :=
  (usbdevJtagTick pins endpoints usb).jtag.writes.drop usb.jtag.writes.length

/-- The state in which a tick switches over the command of a packet. -/
def commanded (endpoints : Endpoints) (packet : HostPacket) (usb : UsbdevJtag) :
    UsbdevJtag :=
  { sendReply endpoints.inReady usb with
    dataFromHostSize := packet.length - 1
    dataToHostSize := 0
    memory := readStream packet.body 2 packet.length.toNat usb.memory }

theorem sendReply_rest (inReady : Bool) (usb : UsbdevJtag) :
    (sendReply inReady usb).memory = usb.memory ∧
      (sendReply inReady usb).jtag = usb.jtag := by
  unfold sendReply
  split <;> exact ⟨rfl, rfl⟩

/-- No packet is received, or one without a command byte, which is dropped. -/
theorem tick_kept (endpoints : Endpoints) (usb : UsbdevJtag)
    (nothing : usb.connected = false ∨
      ∀ packet ∈ endpoints.packet, packet.length.toNat = 0) :
    (usbdevJtagTick pins endpoints usb).memory = usb.memory ∧
      (usbdevJtagTick pins endpoints usb).jtag = usb.jtag := by
  obtain ⟨memory, jtag⟩ := sendReply_rest endpoints.inReady usb
  unfold usbdevJtagTick
  split
  · next connected =>
      rcases nothing with off | empty
      · rw [off] at connected
        contradiction
      · cases arrived : endpoints.packet with
        | none => exact ⟨memory, jtag⟩
        | some packet =>
            simp only [receivePacket, empty packet arrived, readStream]
            exact ⟨memory, jtag⟩
  · exact ⟨rfl, rfl⟩

theorem tick_command (endpoints : Endpoints) (usb : UsbdevJtag)
    (packet : HostPacket) (connected : usb.connected = true)
    (arrived : endpoints.packet = some packet)
    (nonempty : 1 ≤ packet.length.toNat) :
    usbdevJtagTick pins endpoints usb =
      jtagCommand pins (commanded endpoints packet usb) := by
  obtain ⟨memory, -⟩ := sendReply_rest endpoints.inReady usb
  unfold usbdevJtagTick
  rw [if_pos connected]
  simp only [arrived, receivePacket, memory]
  exact if_pos nonempty

theorem tick_nothing (endpoints : Endpoints) (usb : UsbdevJtag)
    (nothing : usb.connected = false ∨
      ∀ packet ∈ endpoints.packet, packet.length.toNat = 0) :
    tickStores pins endpoints usb = [] ∧
      tickTapReads pins endpoints usb = [] := by
  unfold tickStores tickTapReads
  rw [(tick_kept pins endpoints usb nothing).1]
  exact ⟨List.drop_length, List.drop_length⟩

theorem commanded_memory (endpoints : Endpoints) (packet : HostPacket)
    (usb : UsbdevJtag) (nonempty : 1 ≤ packet.length.toNat) :
    (commanded endpoints packet usb).memory.bytes 2 = packet.body 0 ∧
      (commanded endpoints packet usb).memory.tapReads = usb.memory.tapReads ∧
      (commanded endpoints packet usb).memory.stores = usb.memory.stores ++
        List.range' 2 packet.length.toNat := by
  obtain ⟨tapReads, stores, bytes⟩ :=
    readStream_spec packet.body 2 packet.length.toNat usb.memory
  exact ⟨bytes 0 nonempty, tapReads, stores⟩

theorem tick_tap (endpoints : Endpoints) (usb : UsbdevJtag)
    (packet : HostPacket) (connected : usb.connected = true)
    (arrived : endpoints.packet = some packet)
    (nonempty : 1 ≤ packet.length.toNat) (tap : packet.IsTap) :
    ∃ engine : TapEngine,
      tickStores pins endpoints usb =
        List.range' 2 packet.length.toNat ++
          List.range' 0 (engine.bytesFor (clocked packet.pairs)) ∧
      tickTapReads pins endpoints usb =
        List.range' 3 ((clocked packet.pairs + 3) / 4) ∧
      Pulsed (clocked packet.pairs) usb.jtag
        (usbdevJtagTick pins endpoints usb).jtag := by
  obtain ⟨command, tapReads, stores⟩ :=
    commanded_memory endpoints packet usb nonempty
  obtain ⟨engine, called⟩ := jtagCommand_tap pins
    (commanded endpoints packet usb) (by rw [command]; exact tap)
  have pairs : tapPairs ((commanded endpoints packet usb).memory.bytes 2)
      (commanded endpoints packet usb).dataFromHostSize = packet.pairs := by
    rw [command]
    rfl
  have spec := tapOutput_spec pins engine (commanded endpoints packet usb)
    packet.pairs pairs
  obtain ⟨-, jtag⟩ := sendReply_rest endpoints.inReady usb
  have before : (commanded endpoints packet usb).jtag = usb.jtag := jtag
  rw [tapReads, stores, before, ← called,
    ← tick_command pins endpoints usb packet connected arrived nonempty] at spec
  obtain ⟨pulsed, tapReads, stores⟩ := spec
  refine ⟨engine, ?_, ?_, pulsed⟩
  · rw [tickStores, stores, List.append_assoc, List.drop_left]
  · rw [tickTapReads, tapReads, List.drop_left]

theorem tick_pulses (endpoints : Endpoints) (usb : UsbdevJtag)
    (packet : HostPacket) (connected : usb.connected = true)
    (arrived : endpoints.packet = some packet)
    (nonempty : 1 ≤ packet.length.toNat) (tap : packet.IsTap) :
    tckPulses usb.jtag.out (tickWrites pins endpoints usb) =
      clocked packet.pairs := by
  obtain ⟨-, -, -, new, written, -, pulses⟩ :=
    tick_tap pins endpoints usb packet connected arrived nonempty tap
  rw [tickWrites, written, List.drop_left, pulses]

theorem tick_other (endpoints : Endpoints) (usb : UsbdevJtag)
    (packet : HostPacket) (connected : usb.connected = true)
    (arrived : endpoints.packet = some packet)
    (nonempty : 1 ≤ packet.length.toNat) (other : ¬ packet.IsTap) :
    tickTapReads pins endpoints usb = [] ∧
      ∃ replied, replied <+: [0] ∧
        tickStores pins endpoints usb =
          List.range' 2 packet.length.toNat ++ replied := by
  obtain ⟨command, tapReads, stores⟩ :=
    commanded_memory endpoints packet usb nonempty
  have spec := jtagCommand_other pins (commanded endpoints packet usb)
    (by rw [command]; exact other)
  rw [tapReads, stores,
    ← tick_command pins endpoints usb packet connected arrived nonempty] at spec
  obtain ⟨tapReads, replied, short, stores⟩ := spec
  refine ⟨?_, replied, short, ?_⟩
  · rw [tickTapReads, tapReads, List.drop_length]
  · rw [tickStores, stores, List.append_assoc, List.drop_left]

end

end BusNinja
