import BusNinja.JtagRequests

/-!
# Which JTAG requests stay inside the buffer

The length word and the high nibble of the command byte come from the host
and are not checked.  They decide whether a request leaves the buffer, and
whether it clocks pairs that were not received.
-/

namespace BusNinja

section

variable (pins : List Byte → Byte)

def Endpoints.received (endpoints : Endpoints) : Nat :=
  match endpoints.packet with
  | some packet => packet.length.toNat
  | none => 0

/-- A tick stores inside the buffer, and reads tap data from the part of it
that was received. -/
structure StaysInside (endpoints : Endpoints) (usb : UsbdevJtag) : Prop where
  stores : ∀ address ∈ tickStores pins endpoints usb, address < usbBufferSize
  tapReads : ∀ address ∈ tickTapReads pins endpoints usb,
    dataFromHost ≤ address ∧ address < dataFromHost + endpoints.received

theorem bytesFor_le (engine : TapEngine) (taps : Nat) :
    engine.bytesFor taps ≤ taps / 4 + 1 := by
  have four : 4 ≤ engine.tapsPerByte := by
    rcases engine.tapsPerByte_cases with taps | taps <;> omega
  have fewer : taps / engine.tapsPerByte ≤ taps / 4 :=
    Nat.div_le_div_left four (by decide)
  unfold TapEngine.bytesFor
  split <;> omega

variable {pins}

theorem StaysInside.short {endpoints : Endpoints} {usb : UsbdevJtag}
    {length : Nat} {replied : List Nat}
    (inside : StaysInside pins endpoints usb)
    (stores : tickStores pins endpoints usb =
      List.range' 2 length ++ replied)
    (nonempty : 1 ≤ length) : length ≤ 128 := by
  have last := inside.stores (2 + (length - 1)) (by
    rw [stores]
    apply List.mem_append_left
    rw [List.mem_range'_1]
    omega)
  unfold usbBufferSize at last
  omega

variable (pins)

theorem staysInside_other (endpoints : Endpoints) (usb : UsbdevJtag)
    (packet : HostPacket) (connected : usb.connected = true)
    (arrived : endpoints.packet = some packet)
    (nonempty : 1 ≤ packet.length.toNat) (other : ¬ packet.IsTap) :
    StaysInside pins endpoints usb ↔ packet.length.toNat ≤ 128 := by
  obtain ⟨tapReads, replied, short, stores⟩ :=
    tick_other pins endpoints usb packet connected arrived nonempty other
  constructor
  · intro inside
    exact inside.short stores nonempty
  · intro fits
    constructor
    · intro address stored
      rw [stores, List.mem_append, List.mem_range'_1] at stored
      unfold usbBufferSize
      rcases stored with received | first
      · omega
      · have zero := List.mem_singleton.mp (short.subset first)
        omega
    · intro address read
      rw [tapReads] at read
      contradiction

theorem staysInside_tap (endpoints : Endpoints) (usb : UsbdevJtag)
    (packet : HostPacket) (connected : usb.connected = true)
    (arrived : endpoints.packet = some packet)
    (nonempty : 1 ≤ packet.length.toNat) (tap : packet.IsTap) :
    StaysInside pins endpoints usb ↔
      packet.length.toNat ≤ 128 ∧ 2 ≤ packet.length.toNat ∧
        packet.nibble ≤ 4 := by
  obtain ⟨engine, stores, tapReads, -⟩ :=
    tick_tap pins endpoints usb packet connected arrived nonempty tap
  have received : endpoints.received = packet.length.toNat := by
    rw [Endpoints.received, arrived]
  have size := bytesFor_le engine (clocked packet.pairs)
  constructor
  · intro inside
    have short := inside.short stores nonempty
    refine ⟨short, ?_⟩
    rw [← clocked_le_iff packet nonempty short]
    by_contra! more
    have beyond := inside.tapReads (3 + (packet.length.toNat - 1)) (by
      rw [tapReads, List.mem_range'_1]
      omega)
    unfold dataFromHost at beyond
    omega
  · rintro ⟨short, carried⟩
    rw [← clocked_le_iff packet nonempty short] at carried
    constructor
    · intro address stored
      rw [stores, List.mem_append, List.mem_range'_1, List.mem_range'_1] at stored
      unfold usbBufferSize
      rcases stored with request | reply <;> omega
    · intro address read
      rw [tapReads, List.mem_range'_1] at read
      unfold dataFromHost
      omega

/-- A tick of the connected adapter stays inside the buffer if and only if
the packet it takes fits. -/
theorem jtag_tick_inside_iff (endpoints : Endpoints) (usb : UsbdevJtag) :
    StaysInside pins endpoints usb ↔
      (usb.connected = true → ∀ packet ∈ endpoints.packet, packet.Fits) := by
  have idle : (usb.connected = false ∨
      ∀ packet ∈ endpoints.packet, packet.length.toNat = 0) →
      StaysInside pins endpoints usb := by
    intro nothing
    obtain ⟨stores, tapReads⟩ := tick_nothing pins endpoints usb nothing
    constructor
    · rw [stores]
      exact List.forall_mem_nil _
    · rw [tapReads]
      exact List.forall_mem_nil _
  by_cases connected : usb.connected = true
  · cases arrived : endpoints.packet with
    | none => simp [idle, arrived]
    | some packet =>
        simp only [connected, Option.mem_some_iff, forall_eq', true_imp_iff,
          HostPacket.Fits]
        by_cases empty : packet.length.toNat = 0
        · have nothing := idle (.inr (by simp [arrived, empty]))
          simp [nothing, empty]
        · have nonempty : 1 ≤ packet.length.toNat := by omega
          by_cases tap : packet.IsTap
          · rw [staysInside_tap pins endpoints usb packet connected arrived
              nonempty tap]
            simp only [empty, tap, not_true_eq_false, false_or]
          · rw [staysInside_other pins endpoints usb packet connected arrived
              nonempty tap]
            simp only [tap, not_false_eq_true, true_or, or_true, and_true]
  · rw [Bool.not_eq_true] at connected
    simp [idle, connected]

/-- A packet of 129 bytes is received one byte past the buffer. -/
theorem long_packet_leaves_buffer :
    ¬ ∀ (pins : List Byte → Byte) (endpoints : Endpoints) (usb : UsbdevJtag),
      StaysInside pins endpoints usb := by
  intro always
  have inside := always (fun _ => 0)
    { inReady := true
      packet := some { length := 129, body := fun _ => 3 } }
    UsbdevJtag.attached
  exact absurd (inside.stores 130 (by decide +kernel)) (by decide)

/-- A tap command without a byte of taps reads the byte after the packet. -/
example : tickTapReads (fun _ => 0)
    { inReady := true
      packet := some { length := 1, body := fun _ => 0 } }
    UsbdevJtag.attached = [3] := by
  decide +kernel

/-- A tick clocks the pairs its packet carries, less those the nibble takes
off the last byte. -/
structure ClocksItsTaps (packet : HostPacket) (pulses : Nat) : Prop where
  received : pulses ≤ 4 * (packet.length.toNat - 1)
  whole : packet.nibble = 0 → pulses = 4 * (packet.length.toNat - 1)
  partly : 1 ≤ packet.nibble → packet.nibble ≤ 3 → 2 ≤ packet.length.toNat →
    pulses = 4 * (packet.length.toNat - 1) - (4 - packet.nibble)
  empty : packet.length.toNat = 1 → pulses = 0

theorem clocksItsTaps_iff (packet : HostPacket)
    (nonempty : 1 ≤ packet.length.toNat) (short : packet.length.toNat ≤ 128) :
    ClocksItsTaps packet (clocked packet.pairs) ↔
      2 ≤ packet.length.toNat ∧ packet.nibble ≤ 4 := by
  constructor
  · intro clocks
    exact (clocked_le_iff packet nonempty short).mp clocks.received
  · intro carried
    have pairs := pairs_toNat packet nonempty short
    refine ⟨(clocked_le_iff packet nonempty short).mpr carried, ?_, ?_, ?_⟩
    · intro all
      rw [clocked, pairs, if_neg (not_not_intro all)]
      omega
    · intro some few many
      rw [clocked, pairs, if_pos (by omega)]
      omega
    · omega

/-- A tap command clocks its pairs if and only if it carries some and its
nibble does not add any. -/
theorem jtag_tick_taps_iff (endpoints : Endpoints) (usb : UsbdevJtag)
    (packet : HostPacket) (connected : usb.connected = true)
    (arrived : endpoints.packet = some packet) (tap : packet.IsTap)
    (nonempty : 1 ≤ packet.length.toNat) (short : packet.length.toNat ≤ 128) :
    ClocksItsTaps packet
        (tckPulses usb.jtag.out (tickWrites pins endpoints usb)) ↔
      2 ≤ packet.length.toNat ∧ packet.nibble ≤ 4 := by
  rw [tick_pulses pins endpoints usb packet connected arrived nonempty tap]
  exact clocksItsTaps_iff packet nonempty short

theorem jtag_tick_taps_four :
    ClocksItsTaps { length := 2, body := fun _ => 0 }
      (tckPulses UsbdevJtag.attached.jtag.out
        (tickWrites (fun _ => 0)
          { inReady := true
            packet := some { length := 2, body := fun _ => 0 } }
          UsbdevJtag.attached)) :=
  (jtag_tick_taps_iff (fun _ => 0) _ UsbdevJtag.attached
    { length := 2, body := fun _ => 0 } rfl rfl (.inl (by decide)) (by decide)
    (by decide)).mpr (by decide)

/-- A command byte alone is clocked once. -/
theorem empty_tap_command_clocks :
    ¬ ∀ (pins : List Byte → Byte) (endpoints : Endpoints) (usb : UsbdevJtag)
      (packet : HostPacket), usb.connected = true →
      endpoints.packet = some packet → packet.IsTap →
      1 ≤ packet.length.toNat → packet.length.toNat ≤ 128 →
      ClocksItsTaps packet
        (tckPulses usb.jtag.out (tickWrites pins endpoints usb)) := by
  intro always
  have clocks := always (fun _ => 0)
    { inReady := true
      packet := some { length := 1, body := fun _ => 0 } }
    UsbdevJtag.attached { length := 1, body := fun _ => 0 } rfl rfl
    (.inl (by decide)) (by decide) (by decide)
  exact absurd (clocks.empty (by decide)) (by decide +kernel)

end

end BusNinja
