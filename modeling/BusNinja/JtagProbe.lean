import BusNinja.JtagEmu
import BusNinja.JtagPort
import BusNinja.Library.Packing

/-!
# The adapter is transparent

What the adapter is for: the host clocks a target and reads what it answers,
and sets its reset lines, without any port in between.  The firmware with
the target attached to its port does the same, reply by reply.
-/

namespace BusNinja

open Attached

structure TapPair where
  tms : Bool
  tdi : Bool
  deriving DecidableEq, Repr

/-- A target: what it does at the edges of TCK and when the levels of TRST and
SRST change, and what it shows on TDO and EMU. -/
structure JtagTarget (σ : Type) where
  initial : σ
  rises : TapPair → σ → σ
  falls : σ → σ
  resets : Bool → Bool → σ → σ
  tdo : σ → Bool
  emu : σ → Bool

namespace JtagTarget

variable {σ : Type} (target : JtagTarget σ)

def clock (pair : TapPair) (state : σ) : σ :=
  target.falls (target.rises pair state)

/-- TDO and EMU after each of the pairs. -/
def levels : List TapPair → σ → List (Bool × Bool)
  | [], _ => []
  | pair :: pairs, state =>
      let state := target.clock pair state
      (target.tdo state, target.emu state) :: levels pairs state

theorem levels_append (first second : List TapPair) (state : σ) :
    target.levels (first ++ second) state =
      target.levels first state ++
        target.levels second (Run.run target.clock first state) := by
  induction first generalizing state with
  | nil => rfl
  | cons pair pairs induction => exact congrArg (_ :: ·) (induction _)

end JtagTarget

inductive JtagRequest where
  | taps (emu : Bool) (pairs : List TapPair)
  | readInput
  | setTrst (high : Bool)
  | setSrst (high : Bool)
  | setTrstSrst (trst srst : Bool)
  | setDelay
  | unknown

def TapPair.ofByte (pair : Byte) : TapPair where
  tms := pair.getLsbD 1
  tdi := pair.getLsbD 0

namespace HostPacket

def tapPairs (packet : HostPacket) : List TapPair :=
  (List.range packet.pairs.toNat).map fun k =>
    .ofByte (packedPair packet.body 1 k)

/-- What a packet with a command byte asks for. -/
def request (packet : HostPacket) : JtagRequest :=
  match packet.command.toNat with
  | 0 => .taps false packet.tapPairs
  | 4 => .taps true packet.tapPairs
  | 3 => .readInput
  | 1 => .setTrst ((packet.body 1).getLsbD 0)
  | 2 => .setSrst ((packet.body 1).getLsbD 0)
  | 5 => .setDelay
  | 6 => .setTrstSrst ((packet.body 1).getLsbD 1) ((packet.body 1).getLsbD 0)
  | _ => .unknown

/-- The packet fits the buffer, and carries its pairs or its argument. -/
structure Complete (packet : HostPacket) : Prop where
  fits : packet.Fits
  argument : packet.command.toNat ∈ [1, 2, 5, 6] → packet.length.toNat ≠ 1

end HostPacket

/-- The target and its reset lines, the reply that waits (none is empty), and
the replies fetched. -/
structure JtagProbe (σ : Type) where
  state : σ
  trst : Bool
  srst : Bool
  connected : Bool
  reply : List Byte
  sent : List (List Byte)

namespace JtagProbe

variable {σ : Type} (target : JtagTarget σ)

def setResets (trst srst : Bool) (probe : JtagProbe σ) : JtagProbe σ :=
  { probe with
    state :=
      if probe.trst = trst ∧ probe.srst = srst then probe.state
      else target.resets trst srst probe.state
    trst := trst
    srst := srst }

/-- The bits of a reply: TDO, or TDO and EMU, after each pair. -/
def answer (emu : Bool) (levels : List (Bool × Bool)) : List Bool :=
  if emu then levels.flatMap fun level => [level.1, level.2]
  else levels.map Prod.fst

def perform (probe : JtagProbe σ) : JtagRequest → JtagProbe σ
  | .taps emu pairs =>
      { probe with
        state := Run.run target.clock pairs probe.state
        reply := Packing.packed (answer emu (target.levels pairs probe.state)) }
  | .readInput =>
      { probe with
        reply := Packing.packed [target.tdo probe.state, target.emu probe.state] }
  | .setTrst high =>
      { probe.setResets target high probe.srst with reply := [0] }
  | .setSrst high =>
      { probe.setResets target probe.trst high with reply := [0] }
  | .setTrstSrst trst srst =>
      { probe.setResets target trst srst with reply := [0] }
  | .setDelay => { probe with reply := [0] }
  | .unknown => { probe with reply := [] }

theorem perform_reply (probe : JtagProbe σ) (reply : List Byte)
    (request : JtagRequest) :
    ({ probe with reply := reply } : JtagProbe σ).perform target request =
      probe.perform target request := by
  cases request <;> rfl

/-- The reply that waits is fetched if the host takes it; then the next
request is performed. -/
def tick (endpoints : Endpoints) (probe : JtagProbe σ) : JtagProbe σ :=
  if probe.connected then
    let probe :=
      if probe.reply ≠ [] ∧ endpoints.inReady = true then
        { probe with reply := [], sent := probe.sent ++ [probe.reply] }
      else probe
    match endpoints.packet with
    | some packet =>
        if packet.length.toNat > 0 then probe.perform target packet.request
        else probe
    | none => probe
  else probe

def event : JtagEvent → JtagProbe σ → JtagProbe σ
  | .init, probe =>
      { (probe.setResets target false false).setResets target true true with
        reply := [] }
  | .deviceConnect isConnected, probe => { probe with connected := isConnected }
  | .deviceConfigurationChanged, probe => probe.setResets target true true
  | .tick endpoints, probe => probe.tick target endpoints

def powerOn : JtagProbe σ where
  state := target.initial
  trst := false
  srst := false
  connected := false
  reply := []
  sent := []

end JtagProbe

namespace JtagTarget

variable {σ : Type} (target : JtagTarget σ)

def react (before after : Byte) (state : σ) : σ :=
  let state :=
    if before.getLsbD 2 = after.getLsbD 2 ∧
        before.getLsbD 3 = after.getLsbD 3 then state
    else target.resets (after.getLsbD 2) (after.getLsbD 3) state
  match before.getLsbD 4, after.getLsbD 4 with
  | false, true => target.rises (.ofByte after) state
  | true, false => target.falls state
  | _, _ => state

/-- The target after all that was written to the port. -/
def seen (writes : List Byte) : σ := feed target.react 0 writes target.initial

/-- TDO and EMU are wired to pins 5 and 6. -/
structure Wired (pins : List Byte → Byte) : Prop where
  tdo : ∀ writes, (pins writes).getLsbD 5 = target.tdo (target.seen writes)
  emu : ∀ writes, (pins writes).getLsbD 6 = target.emu (target.seen writes)

variable {target} {jtag : Jtag} (held : jtag.out = jtag.writes.getLastD 0)

theorem react_low {before after : Byte} (lowBefore : before.getLsbD 4 = false)
    (lowAfter : after.getLsbD 4 = false) (state : σ) :
    target.react before after state =
      if before.getLsbD 2 = after.getLsbD 2 ∧
          before.getLsbD 3 = after.getLsbD 3 then state
      else target.resets (after.getLsbD 2) (after.getLsbD 3) state := by
  simp only [react, lowBefore, lowAfter]

theorem low_bit {value : Byte} (low : value &&& 0xF0 = 0) :
    value.getLsbD 4 = false := by
  revert value
  decide +kernel

include held

theorem seen_append (new : List Byte) :
    target.seen (jtag.writes ++ new) =
      feed target.react jtag.out new (target.seen jtag.writes) := by
  rw [seen, feed_append, ← held, seen]

theorem seen_clockPair (engine : TapEngine) (idle : jtag.Idle) (pair : Byte) :
    target.seen (engine.clockPair (pair &&& 0x03) jtag).writes =
      target.clock (.ofByte (pair &&& 0x03)) (target.seen jtag.writes) := by
  obtain ⟨-, writes⟩ := engine.clockPair_port (pair &&& 0x03) jtag
  rw [writes, seen_append held]
  have low : jtag.out[4] = false := low_bit idle
  simp [pairWrites, react, clock, low, TapPair.ofByte]

theorem seen_clockPairs (engine : TapEngine) (idle : jtag.Idle)
    (bytes : Nat → Byte) (outBuffer taps : Nat) :
    target.seen
        (engine.clockPairs (packedPair bytes outBuffer) jtag taps).writes =
      Run.run target.clock
        ((List.range taps).map fun k => .ofByte (packedPair bytes outBuffer k))
        (target.seen jtag.writes) := by
  induction taps with
  | zero => rfl
  | succ taps induction =>
      obtain ⟨⟨new, writes, out, -⟩, idle⟩ :=
        driven_clockPairs idle engine bytes outBuffer taps
      have heldNow : (engine.clockPairs (packedPair bytes outBuffer) jtag
          taps).out = (engine.clockPairs (packedPair bytes outBuffer) jtag
          taps).writes.getLastD 0 := by
        rw [out, writes, getLastD_append, ← held]
      rw [TapEngine.clockPairs, packedPair, seen_clockPair heldNow engine idle,
        induction, List.range_succ, List.map_append, Run.run_append]
      rfl

theorem levels_clockPairs (engine : TapEngine) (idle : jtag.Idle)
    (bytes : Nat → Byte) (outBuffer taps : Nat) :
    target.levels
        ((List.range taps).map fun k => .ofByte (packedPair bytes outBuffer k))
        (target.seen jtag.writes) =
      (List.range taps).map fun k =>
        (target.tdo (target.seen (engine.clockPairs
            (packedPair bytes outBuffer) jtag (k + 1)).writes),
          target.emu (target.seen (engine.clockPairs
            (packedPair bytes outBuffer) jtag (k + 1)).writes)) := by
  induction taps with
  | zero => rfl
  | succ taps induction =>
      have next := @seen_clockPairs _ target _ held engine idle bytes outBuffer
        (taps + 1)
      rw [List.range_succ, List.map_append, Run.run_append] at next
      rw [List.range_succ, List.map_append, levels_append, induction,
        List.map_append]
      simp only [List.map_cons, List.map_nil, next]
      rfl

end JtagTarget

section

variable {σ : Type} {target : JtagTarget σ} {pins : List Byte → Byte}
  (wired : target.Wired pins) {jtag : Jtag}
  (held : jtag.out = jtag.writes.getLastD 0) (idle : jtag.Idle)
  (bytes : Nat → Byte) (outBuffer taps : Nat)

include wired held idle

theorem tdo_reply {engine : TapEngine} (samples : engine.SamplesTdo) :
    (List.range (engine.bytesFor taps)).map
        (engine.replyByte pins (packedPair bytes outBuffer) jtag taps) =
      Packing.packed (JtagProbe.answer false (target.levels
        ((List.range taps).map fun k => .ofByte (packedPair bytes outBuffer k))
        (target.seen jtag.writes))) := by
  rw [JtagTarget.levels_clockPairs held engine idle, JtagProbe.answer,
    if_neg Bool.false_ne_true, List.map_map, Packing.packed, List.length_map,
    List.length_range, samples.bytesFor_eq]
  apply List.map_congr_left
  intro j inside
  have within := List.mem_range.mp inside
  apply Packing.eq_byte
  · intro i small used
    rw [List.length_map, List.length_range] at used
    have bit := samples.replyByte_bit pins (packedPair bytes outBuffer) jtag used
    have byte : (8 * j + i) / 8 = j := by omega
    have index : (8 * j + i) % 8 = i := by omega
    rw [byte, index] at bit
    rw [bit, List.getD_eq_getElem _ _ (by simpa using used), List.getElem_map,
      List.getElem_range]
    exact wired.tdo _
  · intro i small unused
    rw [List.length_map, List.length_range] at unused
    have bit := samples.replyByte_unused pins (packedPair bytes outBuffer) jtag
      unused (by omega)
    have byte : (8 * j + i) / 8 = j := by omega
    have index : (8 * j + i) % 8 = i := by omega
    rw [byte, index] at bit
    exact bit

theorem emu_reply :
    (List.range (emu.bytesFor taps)).map
        (emu.replyByte pins (packedPair bytes outBuffer) jtag taps) =
      Packing.packed (JtagProbe.answer true (target.levels
        ((List.range taps).map fun k => .ofByte (packedPair bytes outBuffer k))
        (target.seen jtag.writes))) := by
  have length : ∀ first second : Nat → Bool, ((List.range taps).flatMap
      fun k => [first k, second k]).length = 2 * taps := by
    intro first second
    simp [List.length_flatMap, List.map_const', Nat.mul_comm]
  rw [JtagTarget.levels_clockPairs held emu idle, JtagProbe.answer, if_pos rfl,
    List.flatMap_map, Packing.packed, length, TapEngine.emu_bytesFor]
  have size : (taps + 3) / 4 = (2 * taps + 7) / 8 := by omega
  rw [size]
  apply List.map_congr_left
  intro j inside
  have within := List.mem_range.mp inside
  apply Packing.eq_byte
  · intro i small used
    rw [length] at used
    have half : 8 * j + i = 2 * ((8 * j + i) / 2) + i % 2 := by omega
    have bit := TapEngine.emu_replyByte_bit pins (packedPair bytes outBuffer) jtag
      (by omega : (8 * j + i) / 2 < taps) (by omega : i % 2 < 2)
    have byte : (8 * j + i) / 2 / 4 = j := by omega
    have index : 2 * ((8 * j + i) / 2 % 4) + i % 2 = i := by omega
    rw [byte, index] at bit
    rw [bit, half, Packing.getD_pairs _ _ (by omega) (by omega), ← half]
    rcases (by omega : i % 2 = 0 ∨ i % 2 = 1) with line | line
    · rw [line, if_pos rfl]
      exact wired.tdo _
    · rw [line, if_neg (by decide)]
      exact wired.emu _
  · intro i small unused
    rw [length] at unused
    have bit := TapEngine.emu_replyByte_unused pins (packedPair bytes outBuffer)
      jtag unused (by omega)
    have byte : (8 * j + i) / 8 = j := by omega
    have index : (8 * j + i) % 8 = i := by omega
    rw [byte, index] at bit
    exact bit

end

/-- The adapter with the target at its port has done what the probe has. -/
structure Proxies {σ : Type} (target : JtagTarget σ) (usb : UsbdevJtag)
    (probe : JtagProbe σ) : Prop where
  held : usb.jtag.out = usb.jtag.writes.getLastD 0
  idle : usb.jtag.Idle
  state : probe.state = target.seen usb.jtag.writes
  trst : probe.trst = usb.jtag.out.getLsbD 2
  srst : probe.srst = usb.jtag.out.getLsbD 3
  connected : probe.connected = usb.connected
  reply : probe.reply = usb.reply
  sent : probe.sent = usb.sent

theorem UsbdevJtag.reply_nonempty (usb : UsbdevJtag) :
    usb.reply ≠ [] ↔ usb.dataToHostSize ≠ 0 := by
  have zero : usb.dataToHostSize.toNat = 0 ↔ usb.dataToHostSize = 0 :=
    ⟨fun none => BitVec.eq_of_toNat_eq none, fun none => none ▸ rfl⟩
  rw [UsbdevJtag.reply, ne_eq, List.map_eq_nil_iff, List.range_eq_nil, zero]

theorem held_of_driven {before after : Jtag} (driven : Driven before after)
    (held : before.out = before.writes.getLastD 0) :
    after.out = after.writes.getLastD 0 := by
  obtain ⟨⟨new, writes, out, -⟩, -⟩ := driven
  rw [out, writes, getLastD_append, ← held]

theorem masked_bit : ∀ argument : Byte,
    (argument &&& 1).getLsbD 0 = argument.getLsbD 0 ∧
      (if argument &&& 2 ≠ 0 then 1 else 0 : Byte).getLsbD 0 =
        argument.getLsbD 1 := by
  decide +kernel

theorem readInput_packed : ∀ pins : Byte,
    Packing.packed [pins.getLsbD 5, pins.getLsbD 6] =
      [((pins >>> 5) &&& 1) ||| (((pins >>> 6) &&& 1) <<< 1)] := by
  decide +kernel

namespace Proxies

variable {σ : Type} {target : JtagTarget σ} {usb : UsbdevJtag}
  {probe : JtagProbe σ} (proxies : Proxies target usb probe)

include proxies

/-- Only the reset lines, and what does not reach the target, are changed. -/
theorem write {value : Byte} (low : value &&& 0xF0 = 0) :
    Proxies target { usb with jtag := usb.jtag.write value }
      (probe.setResets target (value.getLsbD 2) (value.getLsbD 3)) where
  held := held_of_driven (driven_write proxies.idle low) proxies.held
  idle := low
  state := by
    change _ = target.seen (usb.jtag.writes ++ [value])
    rw [JtagTarget.seen_append proxies.held, feed_cons, feed_nil,
      JtagTarget.react_low (JtagTarget.low_bit proxies.idle)
        (JtagTarget.low_bit low), ← proxies.trst, ← proxies.srst,
      ← proxies.state]
    rfl
  trst := rfl
  srst := rfl
  connected := proxies.connected
  reply := proxies.reply
  sent := proxies.sent

theorem replied {memory : Memory} {size : BitVec 16} {reply : List Byte}
    {hostSize : BitVec 16}
    (fills : reply = (List.range size.toNat).map memory.bytes) :
    Proxies target
      { usb with
        memory := memory
        dataToHostSize := size
        dataFromHostSize := hostSize }
      { probe with reply := reply } where
  held := proxies.held
  idle := proxies.idle
  state := proxies.state
  trst := proxies.trst
  srst := proxies.srst
  connected := proxies.connected
  reply := by
    rw [fills]
    apply List.map_congr_left
    intro i _
    exact congrArg memory.bytes (Nat.zero_add i).symm
  sent := proxies.sent

theorem replyByte (value : Byte) :
    Proxies target (usb.replyByte value) { probe with reply := [value] } := by
  apply proxies.replied
  rfl

theorem fetched (inReady : Bool) :
    Proxies target (sendReply inReady usb)
      (if probe.reply ≠ [] ∧ inReady = true then
        { probe with reply := [], sent := probe.sent ++ [probe.reply] }
      else probe) := by
  have waits : probe.reply ≠ [] ∧ inReady = true ↔
      usb.dataToHostSize ≠ 0 ∧ inReady = true := by
    rw [proxies.reply, UsbdevJtag.reply_nonempty]
  unfold sendReply
  by_cases sends : usb.dataToHostSize ≠ 0 ∧ inReady = true
  · rw [if_pos sends, if_pos (waits.mpr sends), proxies.reply, proxies.sent]
    exact { proxies with
      reply := rfl
      sent := rfl }
  · rw [if_neg sends, if_neg (mt waits.mp sends)]
    exact proxies

variable {pins : List Byte → Byte}

/-- A tap output function clocks the target with the pairs in the buffer and
replies what it answers. -/
theorem tapped {engine : TapEngine} {emu : Bool} {pairs : BitVec 16}
    (sized : tapPairs (usb.memory.bytes 2) usb.dataFromHostSize = pairs)
    (nonempty : 1 ≤ pairs.toNat)
    (size : (engine.replySize pairs).toNat = engine.bytesFor pairs.toNat)
    (replies : (List.range (engine.bytesFor pairs.toNat)).map
        (engine.replyByte pins (packedPair usb.memory.bytes 3) usb.jtag
          pairs.toNat) =
      Packing.packed (JtagProbe.answer emu (target.levels
        ((List.range pairs.toNat).map fun k =>
          .ofByte (packedPair usb.memory.bytes 3 k))
        (target.seen usb.jtag.writes)))) :
    Proxies target (usb.tapOutput (jtagTapOutput pins engine))
      (probe.perform target (.taps emu ((List.range pairs.toNat).map fun k =>
        .ofByte (packedPair usb.memory.bytes 3 k)))) := by
  have keeps : ∀ taps, engine.KeepsUnread 3 0 taps :=
    fun taps => engine.keepsUnread_of_le taps (by decide)
  obtain ⟨filled, output, bytes⟩ := jtagTapOutput_reference pins engine 3 0
    pairs usb.jtag usb.memory (keeps _)
  have all : clocked pairs = pairs.toNat := Nat.max_eq_right nonempty
  rw [all] at output bytes
  have driven := driven_clockPairs proxies.idle engine usb.memory.bytes 3
    pairs.toNat
  have tapped : usb.tapOutput (jtagTapOutput pins engine) =
      { usb with
        dataFromHostSize := pairs
        dataToHostSize := (engine.replySize pairs).setWidth 16
        jtag := engine.clockPairs (packedPair usb.memory.bytes 3) usb.jtag
          pairs.toNat
        memory := filled } := by
    simp only [UsbdevJtag.tapOutput, dataFromHost, dataToHost, sized, output]
  have resets : ∀ line ∈ [2, 3],
      (engine.clockPairs (packedPair usb.memory.bytes 3) usb.jtag
        pairs.toNat).out.getLsbD line = usb.jtag.out.getLsbD line := by
    intro line among
    have out := (engine.clockPairs_port (packedPair usb.memory.bytes 3) usb.jtag
      pairs.toNat).1
    have others := packedPort_otherPins usb.memory.bytes 3 usb.jtag.out
      pairs.toNat
    rw [← out] at others
    have same := congrArg (BitVec.getLsbD · line) others
    simp only [List.mem_cons, List.not_mem_nil, or_false] at among
    rcases among with rfl | rfl <;> simpa [otherPins] using same
  have filledReply : (List.range (engine.bytesFor pairs.toNat)).map filled.bytes =
      (List.range (engine.bytesFor pairs.toNat)).map
        (engine.replyByte pins (packedPair usb.memory.bytes 3) usb.jtag
          pairs.toNat) := by
    apply List.map_congr_left
    intro j inside
    have within := List.mem_range.mp inside
    rw [bytes j, if_pos ⟨Nat.zero_le _, by omega⟩, Nat.sub_zero]
  have clockedTarget : Proxies target
      { usb with
        jtag := engine.clockPairs (packedPair usb.memory.bytes 3) usb.jtag
          pairs.toNat }
      { probe with
        state := Run.run target.clock ((List.range pairs.toNat).map fun k =>
          .ofByte (packedPair usb.memory.bytes 3 k)) probe.state } :=
    { proxies with
      held := held_of_driven driven proxies.held
      idle := driven.idle
      state := by
        rw [proxies.state]
        exact (JtagTarget.seen_clockPairs proxies.held engine proxies.idle _ 3
          _).symm
      trst := proxies.trst.trans (resets 2 (by decide)).symm
      srst := proxies.srst.trans (resets 3 (by decide)).symm }
  rw [tapped]
  apply clockedTarget.replied
  rw [BitVec.toNat_setWidth_of_le (by decide), size, filledReply, replies,
    proxies.state]

/-- A reset line takes the level asked for, and the other one stays. -/
theorem setTrst (argument : Byte) :
    Proxies target { usb with jtag := jtagSetTrst (argument &&& 1) usb.jtag }
      (probe.setResets target (argument.getLsbD 0) probe.srst) := by
  have level := masked_level argument
  obtain ⟨others, trst, -⟩ := resets_out usb.jtag.out level level
  have srst : ((usb.jtag.out &&& 0xFB) ||| ((argument &&& 1) <<< 2)).getLsbD 3 =
      usb.jtag.out.getLsbD 3 := by
    simp
  have written := proxies.write
    (low_of_masked _ _ 0xFB (by decide) others proxies.idle)
  rw [trst, srst, (masked_bit argument).1, ← proxies.srst] at written
  exact written

theorem setSrst (argument : Byte) :
    Proxies target { usb with jtag := jtagSetSrst (argument &&& 1) usb.jtag }
      (probe.setResets target probe.trst (argument.getLsbD 0)) := by
  have level := masked_level argument
  obtain ⟨-, -, others, srst, -⟩ := resets_out usb.jtag.out level level
  have trst : ((usb.jtag.out &&& 0xF7) ||| ((argument &&& 1) <<< 3)).getLsbD 2 =
      usb.jtag.out.getLsbD 2 := by
    simp
  have written := proxies.write
    (low_of_masked _ _ 0xF7 (by decide) others proxies.idle)
  rw [trst, srst, (masked_bit argument).1, ← proxies.trst] at written
  exact written

theorem setTrstSrst (argument : Byte) :
    Proxies target
      { usb with
        jtag := jtagSetTrstSrst (if argument &&& 2 ≠ 0 then 1 else 0)
          (argument &&& 1) usb.jtag }
      (probe.setResets target (argument.getLsbD 1) (argument.getLsbD 0)) := by
  obtain ⟨-, -, -, -, others, trst, srst⟩ := resets_out usb.jtag.out
    (chosen_level (argument &&& 2 ≠ 0)) (masked_level argument)
  have written := proxies.write
    (low_of_masked _ _ 0xF3 (by decide) others proxies.idle)
  rw [trst, srst, (masked_bit argument).1, (masked_bit argument).2] at written
  exact written

variable (wired : target.Wired pins) {packet : HostPacket}
  (command : usb.memory.bytes 2 = packet.body 0)
  (size : usb.dataFromHostSize = packet.length - 1)

include wired command size

theorem performed_tap (fits : packet.Fits) (nonempty : 1 ≤ packet.length.toNat)
    (received : ∀ i < packet.length.toNat,
      usb.memory.bytes (2 + i) = packet.body i)
    (tap : packet.IsTap) :
    Proxies target (jtagCommand pins usb)
      (probe.perform target packet.request) := by
  obtain ⟨short, charged⟩ := fits
  obtain ⟨carried, nibble⟩ : 2 ≤ packet.length.toNat ∧ packet.nibble ≤ 4 := by
    rcases charged with empty | other | carries
    · omega
    · exact absurd tap other
    · exact carries
  have sized : tapPairs (usb.memory.bytes 2) usb.dataFromHostSize =
      packet.pairs := by
    rw [command, size]
    rfl
  have count := pairs_toNat packet nonempty short
  obtain ⟨some, few⟩ : 1 ≤ packet.pairs.toNat ∧
      packet.pairs.toNat ≤ 4 * (packet.length.toNat - 1) := by
    rw [count]
    split <;> omega
  have pairs : ((List.range packet.pairs.toNat).map fun k =>
      TapPair.ofByte (packedPair usb.memory.bytes 3 k)) = packet.tapPairs := by
    apply List.map_congr_left
    intro k inside
    have within := List.mem_range.mp inside
    have byte := received (1 + k / 4) (by omega)
    rw [packedPair, packedPair, ← byte, ← Nat.add_assoc]
  have engine := jtagCommand_engine pins usb (by rw [command]; exact tap)
  rw [engine]
  rcases tap with code | code
  · have request : packet.request = .taps false packet.tapPairs := by
      rw [HostPacket.request, code]
      rfl
    have samples : (tapEngine (usb.memory.bytes 2 &&& 0x0F)
        usb.jtag.delay).SamplesTdo := by
      rw [command, ← HostPacket.command, code, tapEngine, if_neg (by decide)]
      split
      · exact withDelay_samplesTdo
      · exact maxSpeed_samplesTdo
    rw [request, ← pairs]
    apply proxies.tapped sized some
    · rw [samples.replySize_toNat (by omega), samples.bytesFor_eq]
    · exact tdo_reply wired proxies.held proxies.idle _ 3 _ samples
  · have request : packet.request = .taps true packet.tapPairs := by
      rw [HostPacket.request, code]
      rfl
    have emulates : tapEngine (usb.memory.bytes 2 &&& 0x0F) usb.jtag.delay =
        emu := by
      rw [command, ← HostPacket.command, code, tapEngine, if_pos rfl]
    rw [request, ← pairs, emulates]
    apply proxies.tapped sized some
    · rw [TapEngine.emu_replySize (by omega), TapEngine.emu_bytesFor]
    · exact emu_reply wired proxies.held proxies.idle _ 3 _

theorem performed (complete : packet.Complete)
    (nonempty : 1 ≤ packet.length.toNat)
    (received : ∀ i < packet.length.toNat,
      usb.memory.bytes (2 + i) = packet.body i)
    (cleared : usb.dataToHostSize = 0) :
    Proxies target (jtagCommand pins usb)
      (probe.perform target packet.request) := by
  by_cases tap : packet.IsTap
  · exact performed_tap proxies wired command size complete.fits nonempty
      received tap
  · have noReply : usb.reply = [] := by
      rw [UsbdevJtag.reply, cleared]
      rfl
    have argument : packet.command.toNat ∈ [1, 2, 5, 6] →
        usb.memory.bytes 3 = packet.body 1 := by
      intro among
      have carried := complete.argument among
      exact received 1 (by omega)
    have same : (usb.memory.bytes 2 &&& 0x0F).toNat = packet.command.toNat := by
      rw [command, HostPacket.command]
    unfold jtagCommand HostPacket.request
    dsimp only [dataFromHost]
    rw [same]
    split
    · next code => exact absurd (.inl (BitVec.eq_of_toNat_eq code)) tap
    · next code => exact absurd (.inr (BitVec.eq_of_toNat_eq code)) tap
    · next code =>
        have read : Packing.packed
            [target.tdo probe.state, target.emu probe.state] =
              [jtagReadInput pins usb.jtag] := by
          rw [proxies.state, ← wired.tdo, ← wired.emu, readInput_packed]
          rfl
        rw [code]
        dsimp only [JtagProbe.perform]
        rw [read]
        exact proxies.replyByte _
    · next code =>
        rw [← argument (by rw [code]; decide), code]
        exact (proxies.setSrst _).replyByte 0
    · next code =>
        rw [← argument (by rw [code]; decide), code]
        exact (proxies.setTrst _).replyByte 0
    · next code =>
        rw [code]
        exact { proxies.replyByte 0 with }
    · next code =>
        rw [← argument (by rw [code]; decide), code]
        exact (proxies.setTrstSrst _).replyByte 0
    · split
      all_goals first
        | contradiction
        | exact { proxies with reply := noReply.symm }

omit command size in
theorem receivePacket (complete : packet.Complete) :
    Proxies target (receivePacket pins packet usb)
      (if packet.length.toNat > 0 then probe.perform target packet.request
      else probe) := by
  obtain ⟨-, -, bytes⟩ :=
    readStream_spec packet.body 2 packet.length.toNat usb.memory
  unfold BusNinja.receivePacket
  dsimp only
  by_cases nonempty : packet.length.toNat > 0
  · rw [if_pos nonempty, if_pos nonempty]
    have cleared : Proxies target
        { usb with
          dataFromHostSize := packet.length - 1
          dataToHostSize := 0
          memory := readStream packet.body 2 packet.length.toNat usb.memory }
        { probe with reply := [] } := proxies.replied rfl
    rw [← probe.perform_reply target []]
    exact cleared.performed wired (bytes 0 nonempty) rfl complete nonempty bytes
      rfl
  · have empty : packet.length.toNat = 0 := Nat.eq_zero_of_not_pos nonempty
    rw [if_neg nonempty, if_neg nonempty, empty]
    exact { proxies with reply := proxies.reply }

omit command size in
theorem tick (endpoints : Endpoints)
    (complete : ∀ packet ∈ endpoints.packet, packet.Complete) :
    Proxies target (usbdevJtagTick pins endpoints usb)
      (probe.tick target endpoints) := by
  have fetched := proxies.fetched endpoints.inReady
  unfold usbdevJtagTick JtagProbe.tick
  by_cases connected : usb.connected = true
  · rw [if_pos connected, if_pos (proxies.connected.trans connected)]
    dsimp only
    cases arrived : endpoints.packet with
    | none => exact fetched
    | some packet =>
        exact fetched.receivePacket wired (complete packet arrived)
  · rw [if_neg connected, if_neg (by rw [proxies.connected]; exact connected)]
    exact proxies

omit command size in
theorem event (event : JtagEvent)
    (complete : ∀ endpoints, event = .tick endpoints →
      ∀ packet ∈ endpoints.packet, packet.Complete) :
    Proxies target (jtagEvent pins event usb) (probe.event target event) := by
  cases event with
  | init =>
      have cleared := @Proxies.write _ _ _ _ proxies 0 rfl
      have high := @Proxies.write _ _ _ _ cleared 0x0C rfl
      exact { high with reply := rfl }
  | deviceConnect isConnected => exact { proxies with connected := rfl }
  | deviceConfigurationChanged => exact proxies.write rfl
  | tick endpoints => exact proxies.tick wired endpoints (complete endpoints rfl)

end Proxies

/-- In every run in which the packets are complete, the replies sent and the
one that waits are those of the abstract adapter, and the target attached to
the port is where the abstract adapter has brought it. -/
theorem jtag_adapter_is_transparent {σ : Type} {target : JtagTarget σ}
    {pins : List Byte → Byte} (wired : target.Wired pins)
    {events : List JtagEvent}
    (complete : ∀ endpoints, .tick endpoints ∈ events →
      ∀ packet ∈ endpoints.packet, packet.Complete) :
    ∃ usb probe,
      usb = Run.run (jtagEvent pins) events UsbdevJtag.powerOn ∧
      probe = Run.run (JtagProbe.event target) events (.powerOn target) ∧
      usb.sent = probe.sent ∧ usb.reply = probe.reply ∧
      target.seen usb.jtag.writes = probe.state := by
  have initial : Proxies target UsbdevJtag.powerOn (.powerOn target) :=
    ⟨rfl, rfl, rfl, rfl, rfl, rfl, rfl, rfl⟩
  have proxies := @Run.run_related _ _ (jtagEvent pins) _
    (JtagProbe.event target) (Proxies target)
    (fun event => ∀ endpoints, event = .tick endpoints →
      ∀ packet ∈ endpoints.packet, packet.Complete)
    (fun event usb probe complete proxies => proxies.event wired event complete)
    events (by
      rintro _ member endpoints rfl
      exact complete endpoints member) _ _ initial
  exact ⟨_, _, rfl, rfl, proxies.sent.symm, proxies.reply.symm,
    proxies.state.symm⟩

/-- A target that shows on TDO what was shifted in last. -/
def echoTarget : JtagTarget Bool where
  initial := false
  rises := fun pair _ => pair.tdi
  falls := id
  resets := fun _ _ _ => false
  tdo := id
  emu := fun _ => false

/-- TDI is 1, 0, 1 and 0 in the four pairs of `0x1B`. -/
theorem jtag_adapter_is_transparent_echo :
    ∃ usb, usb = Run.run
        (jtagEvent fun writes => if echoTarget.seen writes then 0x20 else 0)
        [.init, .deviceConnect true, .deviceConfigurationChanged,
          .tick ⟨true, some ⟨2, fun i => if i = 0 then 0 else 0x1B⟩⟩,
          .tick ⟨true, none⟩] UsbdevJtag.powerOn ∧
      usb.sent = [[0x05]] := by
  have wired : echoTarget.Wired
      (fun writes => if echoTarget.seen writes then 0x20 else 0) := by
    constructor
    all_goals
      intro writes
      cases echoTarget.seen writes <;> simp [echoTarget]
  have complete : HostPacket.Complete
      ⟨2, fun i => if i = 0 then 0 else 0x1B⟩ :=
    ⟨⟨by decide, .inr (.inr ⟨by decide, by decide⟩)⟩, by decide⟩
  obtain ⟨usb, probe, ran, performed, sent, -⟩ :=
    @jtag_adapter_is_transparent Bool echoTarget _ wired
      [.init, .deviceConnect true, .deviceConfigurationChanged,
        .tick ⟨true, some ⟨2, fun i => if i = 0 then 0 else 0x1B⟩⟩,
        .tick ⟨true, none⟩]
      (by
        intro endpoints member packet arrived
        simp only [List.mem_cons, JtagEvent.tick.injEq, reduceCtorEq,
          List.not_mem_nil, or_false, false_or] at member
        rcases member with rfl | rfl
        · obtain rfl := Option.some.inj arrived
          exact complete
        · cases arrived)
  refine ⟨usb, ran, ?_⟩
  rw [sent, performed]
  decide

end BusNinja
