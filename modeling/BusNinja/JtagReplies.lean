import BusNinja.JtagRequests
import BusNinja.Library.Ledger

/-!
# Which JTAG replies are sent

Every command leaves one reply in the buffer, to be sent at a later tick.
The next packet is received whether or not this happened, and the reply that
still waits is forgotten then.
-/

namespace BusNinja

/-- A packet with a command of the protocol, which fits the buffer. -/
structure HostPacket.WellFormed (packet : HostPacket) : Prop where
  nonempty : 1 ≤ packet.length.toNat
  known : packet.command.toNat ≤ 6
  fits : packet.Fits

def UsbdevJtag.pending (usb : UsbdevJtag) : List (List Byte) :=
  if usb.dataToHostSize = 0 then [] else [usb.reply]

def UsbdevJtag.answered (usb : UsbdevJtag) : List (List Byte) :=
  usb.sent ++ usb.pending

def UsbdevJtag.takes (endpoints : Endpoints) (usb : UsbdevJtag) :
    Option HostPacket :=
  if usb.connected then endpoints.packet else none

theorem UsbdevJtag.takes_eq_some_iff (endpoints : Endpoints) (usb : UsbdevJtag)
    (packet : HostPacket) :
    usb.takes endpoints = some packet ↔
      usb.connected = true ∧ endpoints.packet = some packet := by
  unfold UsbdevJtag.takes
  split
  · next connected => simp [connected]
  · next connected => simp [connected]

/-- A tick takes a packet while a reply waits that IN does not take. -/
def Overruns (endpoints : Endpoints) (usb : UsbdevJtag) : Prop :=
  (usb.takes endpoints).isSome ∧ usb.dataToHostSize ≠ 0 ∧
    endpoints.inReady = false

section

variable (pins : List Byte → Byte)

def replies (endpoints : Endpoints) (usb : UsbdevJtag) : List (List Byte) :=
  match usb.takes endpoints with
  | some packet => [(jtagCommand pins (commanded endpoints packet usb)).reply]
  | none => []

def repliesLedger : Ledger Endpoints UsbdevJtag (List Byte) where
  balance := UsbdevJtag.answered
  asks := replies pins
  forgets := Overruns

theorem replySize_ne_zero (engine : TapEngine) (outLength : BitVec 16)
    (some : 1 ≤ outLength.toNat) (few : outLength.toNat ≤ 508) :
    (((outLength + BitVec.ofNat 16 (engine.tapsPerByte - 1)) /
      BitVec.ofNat 16 engine.tapsPerByte).setWidth 8).setWidth 16 ≠ 0 := by
  intro zero
  have same := congrArg BitVec.toNat zero
  rw [show (0 : BitVec 16).toNat = 0 from rfl] at same
  rcases engine.tapsPerByte_cases with taps | taps
  all_goals
    simp only [taps, BitVec.toNat_setWidth, BitVec.toNat_udiv,
      BitVec.toNat_add, BitVec.toNat_ofNat, Nat.reduceSub, Nat.reducePow,
      Nat.reduceMod] at same
    omega

theorem jtagCommand_sent (usb : UsbdevJtag) :
    (jtagCommand pins usb).sent = usb.sent := by
  unfold jtagCommand
  dsimp only
  split
  · split <;> rfl
  all_goals rfl

theorem jtagCommand_size_other (usb : UsbdevJtag)
    (known : (usb.memory.bytes 2 &&& 0x0F).toNat ≤ 6)
    (other : ¬ (usb.memory.bytes 2 &&& 0x0F = 0 ∨
      usb.memory.bytes 2 &&& 0x0F = 4)) :
    (jtagCommand pins usb).dataToHostSize = 1 := by
  have notTap : (usb.memory.bytes 2 &&& 0x0F).toNat ≠ 0 ∧
      (usb.memory.bytes 2 &&& 0x0F).toNat ≠ 4 :=
    ⟨fun code => other (.inl (BitVec.eq_of_toNat_eq code)),
      fun code => other (.inr (BitVec.eq_of_toNat_eq code))⟩
  have code : (usb.memory.bytes 2 &&& 0x0F).toNat = 1 ∨
      (usb.memory.bytes 2 &&& 0x0F).toNat = 2 ∨
      (usb.memory.bytes 2 &&& 0x0F).toNat = 3 ∨
      (usb.memory.bytes 2 &&& 0x0F).toNat = 5 ∨
      (usb.memory.bytes 2 &&& 0x0F).toNat = 6 := by
    omega
  unfold jtagCommand dataFromHost
  rcases code with code | code | code | code | code
  all_goals
    rw [code]
    rfl

theorem commanded_size_ne_zero (endpoints : Endpoints) (packet : HostPacket)
    (usb : UsbdevJtag) (wellFormed : packet.WellFormed) :
    (jtagCommand pins (commanded endpoints packet usb)).dataToHostSize ≠ 0 := by
  obtain ⟨nonempty, known, short, fits⟩ := wellFormed
  obtain ⟨command, -, -⟩ := commanded_memory endpoints packet usb nonempty
  by_cases tap : packet.IsTap
  · obtain ⟨engine, called⟩ := jtagCommand_tap pins
      (commanded endpoints packet usb) (by rw [command]; exact tap)
    obtain ⟨carried, nibble⟩ : 2 ≤ packet.length.toNat ∧ packet.nibble ≤ 4 := by
      rcases fits with empty | other | carries
      · omega
      · exact absurd tap other
      · exact carries
    have pairs := pairs_toNat packet nonempty short
    have size : (jtagCommand pins
        (commanded endpoints packet usb)).dataToHostSize =
          (((packet.pairs + BitVec.ofNat 16 (engine.tapsPerByte - 1)) /
            BitVec.ofNat 16 engine.tapsPerByte).setWidth 8).setWidth 16 := by
      rw [called, HostPacket.pairs, ← command]
      rfl
    rw [size]
    apply replySize_ne_zero
    · rw [pairs]
      split <;> omega
    · rw [pairs]
      split <;> omega
  · have one := jtagCommand_size_other pins (commanded endpoints packet usb)
      (by rw [command]; exact known) (by rw [command]; exact tap)
    rw [one]
    decide

theorem sendReply_answered (inReady : Bool) (usb : UsbdevJtag) :
    (sendReply inReady usb).answered = usb.answered := by
  unfold sendReply
  split
  · next sends =>
      rw [UsbdevJtag.answered, UsbdevJtag.answered, UsbdevJtag.pending,
        UsbdevJtag.pending, if_neg sends.1, if_pos rfl, List.append_nil]
  · rfl

/-- After the IN half nothing is pending, unless IN did not take it. -/
theorem sendReply_pending (inReady : Bool) (usb : UsbdevJtag) :
    (sendReply inReady usb).dataToHostSize = 0 ∨
      (usb.dataToHostSize ≠ 0 ∧ inReady = false ∧ sendReply inReady usb = usb) := by
  unfold sendReply
  by_cases pending : usb.dataToHostSize = 0
  · left
    rw [if_neg (by simp [pending])]
    exact pending
  · cases inReady with
    | true =>
        left
        rw [if_pos ⟨pending, rfl⟩]
    | false =>
        right
        exact ⟨pending, rfl, if_neg (by simp)⟩

theorem tick_answered (endpoints : Endpoints) (usb : UsbdevJtag)
    (nothing : usb.takes endpoints = none) :
    (usbdevJtagTick pins endpoints usb).answered = usb.answered := by
  unfold UsbdevJtag.takes at nothing
  unfold usbdevJtagTick
  by_cases connected : usb.connected = true
  · rw [if_pos connected] at nothing
    rw [if_pos connected]
    simp only [nothing]
    apply sendReply_answered
  · rw [if_neg connected]

/-- A tick that takes a packet keeps what was sent, and its reply is all that
is pending then. -/
theorem tick_reply (endpoints : Endpoints) (usb : UsbdevJtag)
    (packet : HostPacket) (takes : usb.takes endpoints = some packet)
    (wellFormed : packet.WellFormed) :
    (usbdevJtagTick pins endpoints usb).answered =
      (sendReply endpoints.inReady usb).sent ++ replies pins endpoints usb := by
  obtain ⟨connected, arrived⟩ := (usb.takes_eq_some_iff _ _).mp takes
  have size := commanded_size_ne_zero pins endpoints packet usb wellFormed
  have sent := jtagCommand_sent pins (commanded endpoints packet usb)
  rw [tick_command pins endpoints usb packet connected arrived
    wellFormed.nonempty, UsbdevJtag.answered, UsbdevJtag.pending, if_neg size,
    sent, replies, takes]
  rfl

/-- A tick with well-formed packets only answers what it is asked, unless it
overruns. -/
theorem tick_sound (endpoints : Endpoints) (usb : UsbdevJtag)
    (wellFormed : ∀ packet ∈ endpoints.packet, packet.WellFormed) :
    (repliesLedger pins).Sound (usbdevJtagTick pins) endpoints usb := by
  cases takes : usb.takes endpoints with
  | none =>
      have asksNothing : replies pins endpoints usb = [] := by
        rw [replies, takes]
      constructor
      · intro _
        change (usbdevJtagTick pins endpoints usb).answered =
          usb.answered ++ replies pins endpoints usb
        rw [asksNothing, List.append_nil]
        exact tick_answered pins endpoints usb takes
      · rintro ⟨some, -⟩
        rw [takes] at some
        cases some
  | some packet =>
      obtain ⟨-, arrived⟩ := (usb.takes_eq_some_iff _ _).mp takes
      have reply := tick_reply pins endpoints usb packet takes
        (wellFormed packet arrived)
      have before := sendReply_answered endpoints.inReady usb
      rcases sendReply_pending endpoints.inReady usb with
        free | ⟨pending, busy, waits⟩
      · have all : (sendReply endpoints.inReady usb).sent = usb.answered := by
          rw [← before, UsbdevJtag.answered, UsbdevJtag.pending, if_pos free,
            List.append_nil]
        constructor
        · intro _
          change (usbdevJtagTick pins endpoints usb).answered =
            usb.answered ++ replies pins endpoints usb
          rw [reply, all]
        · rintro ⟨-, pending, busy⟩
          unfold sendReply at free
          rw [if_neg (by simp [busy])] at free
          exact absurd free pending
      · constructor
        · intro kept
          apply absurd _ kept
          refine ⟨?_, pending, busy⟩
          rw [takes]
          rfl
        · intro _
          change (usbdevJtagTick pins endpoints usb).answered.length <
            (usb.answered ++ replies pins endpoints usb).length
          rw [reply, waits, UsbdevJtag.answered, UsbdevJtag.pending,
            if_neg pending]
          simp

theorem ticks_sound (ticks : List Endpoints) (usb : UsbdevJtag)
    (wellFormed : ∀ endpoints ∈ ticks, ∀ packet ∈ endpoints.packet,
      packet.WellFormed) :
    Run.Meets (usbdevJtagTick pins)
      ((repliesLedger pins).Sound (usbdevJtagTick pins)) ticks usb := by
  induction ticks generalizing usb with
  | nil => trivial
  | cons endpoints ticks induction =>
      constructor
      · apply tick_sound
        exact wellFormed endpoints List.mem_cons_self
      · apply induction
        intro later member
        exact wellFormed later (List.mem_cons_of_mem endpoints member)

def repliesDuring (ticks : List Endpoints) (usb : UsbdevJtag) :
    List (List Byte) :=
  (repliesLedger pins).total (usbdevJtagTick pins) ticks usb

/-- Whatever the endpoints offer at each tick, the replies sent and the
pending one are the replies to the packets taken, if and only if no packet is
taken while a reply waits that IN does not take. -/
theorem jtag_replies_sent_iff (ticks : List Endpoints) (usb : UsbdevJtag)
    (wellFormed : ∀ endpoints ∈ ticks, ∀ packet ∈ endpoints.packet,
      packet.WellFormed) :
    (Run.run (usbdevJtagTick pins) ticks usb).answered =
        usb.answered ++ repliesDuring pins ticks usb ↔
      Run.Meets (usbdevJtagTick pins)
        (fun endpoints usb => ¬ Overruns endpoints usb) ticks usb :=
  Ledger.balance_run_iff ticks usb (ticks_sound pins ticks usb wellFormed)

def readInputPacket : HostPacket := { length := 1, body := fun _ => 3 }

theorem readInputPacket_wellFormed : readInputPacket.WellFormed :=
  ⟨by decide, by decide, by decide, .inr (.inl (by rintro (tap | tap) <;> cases tap))⟩

/-- The host fetches the reply before the next tick. -/
theorem jtag_replies_sent_fetched :
    (Run.run (usbdevJtagTick fun _ => 0x20)
      [⟨true, some readInputPacket⟩, ⟨true, some readInputPacket⟩]
      UsbdevJtag.attached).answered = [[1], [1]] := by
  have fetched := (jtag_replies_sent_iff (fun _ => 0x20)
    [⟨true, some readInputPacket⟩, ⟨true, some readInputPacket⟩]
    UsbdevJtag.attached (by
      intro endpoints member packet arrived
      have same : endpoints = ⟨true, some readInputPacket⟩ := by
        simpa using member
      rw [same] at arrived
      cases arrived
      exact readInputPacket_wellFormed)).mpr
    ⟨fun overruns => absurd overruns.2.2 (by decide),
      fun overruns => absurd overruns.2.2 (by decide), trivial⟩
  rw [fetched]
  decide +kernel

/-- A reply that the host did not fetch before the next packet is lost. -/
theorem unfetched_reply_lost :
    ¬ ∀ (pins : List Byte → Byte) (ticks : List Endpoints),
      (∀ endpoints ∈ ticks, ∀ packet ∈ endpoints.packet, packet.WellFormed) →
      (Run.run (usbdevJtagTick pins) ticks UsbdevJtag.attached).answered =
        repliesDuring pins ticks UsbdevJtag.attached := by
  intro always
  have lost := always (fun _ => 0)
    [⟨false, some readInputPacket⟩, ⟨false, some readInputPacket⟩] (by
      intro endpoints member packet arrived
      have same : endpoints = ⟨false, some readInputPacket⟩ := by
        simpa using member
      rw [same] at arrived
      cases arrived
      exact readInputPacket_wellFormed)
  exact absurd (congrArg List.length lost) (by decide +kernel)

end

end BusNinja
