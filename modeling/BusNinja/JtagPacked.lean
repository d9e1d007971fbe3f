import BusNinja.JtagReference
import BusNinja.Source.UsbdevJtag

/-!
# Packed transfers, fast, delayed and in place

The two functions that sample TDO clock and answer a packed request alike,
bit by bit.  The USB side gives every tap output function one buffer for its
request and its reply; this is as good as two separate buffers.
-/

namespace BusNinja

/-- The writes for a pair: TDI and TMS are set and the other bits kept, then
TCK is raised and lowered. -/
def pairWrites (out pair : Byte) : List Byte :=
  let level := (out &&& 0xFC) ||| pair
  [level, level ||| 0x10, level &&& 0xEF]

def packedPort (pairs : Nat → Byte) (out : Byte) : Nat → Byte
  | 0 => out
  | k + 1 => ((packedPort pairs out k &&& 0xFC) ||| pairs k) &&& 0xEF

def packedWrites (pairs : Nat → Byte) (out : Byte) (taps : Nat) : List Byte :=
  (List.range taps).flatMap fun k =>
    pairWrites (packedPort pairs out k) (pairs k)

theorem raise_lower (level : Byte) :
    (level ||| 0x10#8) &&& 0xEF#8 = level &&& 0xEF#8 := by
  revert level
  decide +kernel

namespace TapEngine

variable (engine : TapEngine)

theorem clockPair_port (pair : Byte) (jtag : Jtag) :
    (engine.clockPair pair jtag).out = ((jtag.out &&& 0xFC) ||| pair) &&& 0xEF ∧
      (engine.clockPair pair jtag).writes =
        jtag.writes ++ pairWrites jtag.out pair := by
  simp [clockPair, pairWrites, Jtag.write, engine.pause_out,
    engine.pause_writes, raise_lower]

theorem clockPairs_port (pairs : Nat → Byte) (jtag : Jtag) (taps : Nat) :
    (engine.clockPairs pairs jtag taps).out = packedPort pairs jtag.out taps ∧
      (engine.clockPairs pairs jtag taps).writes =
        jtag.writes ++ packedWrites pairs jtag.out taps := by
  induction taps with
  | zero => simp [clockPairs, packedPort, packedWrites]
  | succ taps induction =>
      obtain ⟨out, writes⟩ := induction
      obtain ⟨nextOut, nextWrites⟩ :=
        engine.clockPair_port (pairs taps) (engine.clockPairs pairs jtag taps)
      rw [clockPairs, nextOut, nextWrites, out, writes]
      refine ⟨rfl, ?_⟩
      simp [packedWrites, List.range_succ]

end TapEngine

theorem sampleTdo_bit (inData pins : Byte) {i : Nat} (inside : i < 8) :
    (sampleTdo inData pins).getLsbD i =
      if i = 7 then pins.getLsbD 5 else inData.getLsbD (i + 1) := by
  have mask : ∀ i < 8, (0x80#8).getLsbD i = decide (i = 7) := by decide
  unfold sampleTdo
  by_cases last : i = 7
  · subst last
    simp
  · rw [if_neg last, Nat.add_comm]
    simp [mask i inside, last]

/-- Two tap output functions sample TDO only. -/
structure TapEngine.SamplesTdo (engine : TapEngine) : Prop where
  sample : engine.sample = sampleTdo
  bits : engine.bits = 1
  tapsPerByte : engine.tapsPerByte = 8

theorem maxSpeed_samplesTdo : maxSpeed.SamplesTdo := ⟨rfl, rfl, rfl⟩

theorem withDelay_samplesTdo : withDelay.SamplesTdo := ⟨rfl, rfl, rfl⟩

namespace TapEngine.SamplesTdo

variable {engine : TapEngine} (samples : engine.SamplesTdo)
  (pins : List Byte → Byte) (pairs : Nat → Byte) (jtag : Jtag)

/-- TDO as it was sampled after pair `k`. -/
def level (engine : TapEngine) (pins : List Byte → Byte) (pairs : Nat → Byte)
    (jtag : Jtag) (k : Nat) : Bool :=
  (pins (engine.clockPairs pairs jtag (k + 1)).writes).getLsbD 5

include samples

/-- The level after the last pair is in bit 7, the one before in bit 6, down
to the first pair of the byte. -/
theorem gathered_bit (k : Nat) {i : Nat} (inside : i < 8) :
    (engine.gathered pins pairs jtag (k + 1)).getLsbD i =
      (decide (7 - i ≤ k % 8) && level engine pins pairs jtag (k - (7 - i))) := by
  induction k generalizing i with
  | zero =>
      rw [gathered, samples.sample, sampleTdo_bit _ _ inside]
      by_cases last : i = 7
      · simp [last, level]
      · have early : ¬ 7 - i ≤ 0 % 8 := by omega
        simp [last, early]
  | succ k induction =>
      rw [gathered, samples.sample, samples.tapsPerByte, sampleTdo_bit _ _ inside]
      by_cases last : i = 7
      · simp [last, level]
      · rw [if_neg last]
        split
        · next fresh =>
            have early : ¬ 7 - i ≤ (k + 1) % 8 := by omega
            simp [early]
        · next shifted =>
            have earlier : k - (7 - (i + 1)) = k + 1 - (7 - i) := by omega
            have same : 7 - (i + 1) ≤ k % 8 ↔ 7 - i ≤ (k + 1) % 8 := by omega
            rw [induction (by omega), earlier, decide_eq_decide.mpr same]

theorem replyByte_bit {taps k : Nat} (clocked : k < taps) :
    (engine.replyByte pins pairs jtag taps (k / 8)).getLsbD (k % 8) =
      level engine pins pairs jtag k := by
  unfold replyByte
  rw [samples.tapsPerByte, samples.bits]
  split
  · next full =>
      have last : (k / 8 + 1) * 8 = k / 8 * 8 + 7 + 1 := by omega
      have early : 7 - k % 8 ≤ (k / 8 * 8 + 7) % 8 := by omega
      have index : k / 8 * 8 + 7 - (7 - k % 8) = k := by omega
      rw [last, samples.gathered_bit pins pairs jtag _ (by omega), index,
        decide_eq_true early, Bool.true_and]
  · next rest =>
      obtain ⟨before, rfl⟩ : ∃ before, taps = before + 1 :=
        Nat.exists_eq_succ_of_ne_zero (by omega)
      have early : 7 - (8 - 1 * ((before + 1) % 8) + k % 8) ≤ before % 8 := by
        omega
      have index :
          before - (7 - (8 - 1 * ((before + 1) % 8) + k % 8)) = k := by
        omega
      rw [BitVec.getLsbD_ushiftRight,
        samples.gathered_bit pins pairs jtag _ (by omega), index,
        decide_eq_true early, Bool.true_and]

/-- The bits above the last pair are 0. -/
theorem replyByte_unused {taps k : Nat} (unused : taps ≤ k)
    (inside : k < 8 * ((taps + 7) / 8)) :
    (engine.replyByte pins pairs jtag taps (k / 8)).getLsbD (k % 8) = false := by
  have rest : ¬ (k / 8 + 1) * 8 ≤ taps := by omega
  unfold replyByte
  rw [samples.tapsPerByte, samples.bits, if_neg rest, BitVec.getLsbD_ushiftRight]
  apply BitVec.getLsbD_of_ge
  omega

theorem bytesFor_eq (taps : Nat) : engine.bytesFor taps = (taps + 7) / 8 := by
  unfold bytesFor
  rw [samples.tapsPerByte]
  split <;> omega

theorem replySize_toNat {outLength : BitVec 16}
    (short : outLength.toNat ≤ 1020) :
    (engine.replySize outLength).toNat = (outLength.toNat + 7) / 8 := by
  unfold replySize
  rw [samples.tapsPerByte, BitVec.toNat_setWidth, BitVec.toNat_udiv,
    BitVec.toNat_add]
  change (outLength.toNat + 7) % 65536 / 8 % 256 = _
  omega

end TapEngine.SamplesTdo

/-- A transfer in the packed format.  The slice of the reply that belongs to
pair `k` is a bit, sampled when everything up to that pair was written. -/
structure TransfersPacked (pins : List Byte → Byte) (outBuffer inBuffer taps : Nat)
    (jtag : Jtag) (memory : Memory) (result : Byte × Jtag × Memory) : Prop where
  size : result.1.toNat = (taps + 7) / 8
  out : result.2.1.out =
    packedPort (packedPair memory.bytes outBuffer) jtag.out taps
  writes : result.2.1.writes = jtag.writes ++
    packedWrites (packedPair memory.bytes outBuffer) jtag.out taps
  sampled : ∀ k, k < taps →
    (result.2.2.bytes (inBuffer + k / 8)).getLsbD (k % 8) =
      (pins (jtag.writes ++
        packedWrites (packedPair memory.bytes outBuffer) jtag.out
          (k + 1))).getLsbD 5
  unused : ∀ k, taps ≤ k → k < 8 * ((taps + 7) / 8) →
    (result.2.2.bytes (inBuffer + k / 8)).getLsbD (k % 8) = false
  untouched : ∀ address,
    ¬ (inBuffer ≤ address ∧ address < inBuffer + (taps + 7) / 8) →
    result.2.2.bytes address = memory.bytes address

section

variable (pins : List Byte → Byte) (outBuffer inBuffer : Nat)

theorem TransfersPacked.bytes_eq {taps : Nat} {jtag : Jtag} {memory : Memory}
    {first second : Byte × Jtag × Memory}
    (one : TransfersPacked pins outBuffer inBuffer taps jtag memory first)
    (other : TransfersPacked pins outBuffer inBuffer taps jtag memory second) :
    first.2.2.bytes = second.2.2.bytes := by
  funext address
  by_cases inside : inBuffer ≤ address ∧ address < inBuffer + (taps + 7) / 8
  · apply BitVec.eq_of_getLsbD_eq
    intro i bit
    have here : inBuffer + (8 * (address - inBuffer) + i) / 8 = address := by
      omega
    have there : (8 * (address - inBuffer) + i) % 8 = i := by omega
    by_cases clocked : 8 * (address - inBuffer) + i < taps
    · have bits := (one.sampled _ clocked).trans (other.sampled _ clocked).symm
      rwa [here, there] at bits
    · have unused : taps ≤ 8 * (address - inBuffer) + i := by omega
      have filled : 8 * (address - inBuffer) + i < 8 * ((taps + 7) / 8) := by
        omega
      have bits := (one.unused _ unused filled).trans
        (other.unused _ unused filled).symm
      rwa [here, there] at bits
  · rw [one.untouched address inside, other.untouched address inside]

/-- What a tap output function writes to the port, and which bytes it replies
with. -/
theorem TapEngine.packed_transfer (engine : TapEngine) (outLength : BitVec 16)
    (jtag : Jtag) (memory : Memory) (nonempty : 1 ≤ outLength.toNat)
    (keeps : engine.KeepsUnread outBuffer inBuffer outLength.toNat) :
    ∃ after filled,
      jtagTapOutput pins engine outBuffer inBuffer outLength jtag memory =
        (engine.replySize outLength, after, filled) ∧
      after.out =
        packedPort (packedPair memory.bytes outBuffer) jtag.out
          outLength.toNat ∧
      after.writes = jtag.writes ++
        packedWrites (packedPair memory.bytes outBuffer) jtag.out
          outLength.toNat ∧
      (∀ j, j < engine.bytesFor outLength.toNat →
        filled.bytes (inBuffer + j) =
          engine.replyByte pins (packedPair memory.bytes outBuffer) jtag
            outLength.toNat j) ∧
      ∀ address,
        ¬ (inBuffer ≤ address ∧
          address < inBuffer + engine.bytesFor outLength.toNat) →
        filled.bytes address = memory.bytes address := by
  have taps : clocked outLength = outLength.toNat := Nat.max_eq_right nonempty
  obtain ⟨filled, output, bytes⟩ := jtagTapOutput_reference pins engine
    outBuffer inBuffer outLength jtag memory (by rw [taps]; exact keeps)
  rw [taps] at output bytes
  obtain ⟨out, writes⟩ := engine.clockPairs_port
    (packedPair memory.bytes outBuffer) jtag outLength.toNat
  refine ⟨_, filled, output, out, writes, ?_, ?_⟩
  · intro j inside
    rw [bytes, if_pos (by omega), Nat.add_sub_cancel_left]
  · intro address outside
    rw [bytes, if_neg outside]

theorem TapEngine.SamplesTdo.transfersPacked {engine : TapEngine}
    (samples : engine.SamplesTdo) (outLength : BitVec 16) (jtag : Jtag)
    (memory : Memory) (nonempty : 1 ≤ outLength.toNat)
    (short : outLength.toNat ≤ 1020)
    (keeps : engine.KeepsUnread outBuffer inBuffer outLength.toNat) :
    TransfersPacked pins outBuffer inBuffer outLength.toNat jtag memory
      (jtagTapOutput pins engine outBuffer inBuffer outLength jtag memory) := by
  obtain ⟨after, filled, output, out, writes, replied, untouched⟩ :=
    engine.packed_transfer pins outBuffer inBuffer outLength jtag memory
      nonempty keeps
  rw [samples.bytesFor_eq] at replied untouched
  rw [output]
  refine ⟨samples.replySize_toNat short, out, writes, ?_, ?_, untouched⟩
  · intro k before
    have port := engine.clockPairs_port (packedPair memory.bytes outBuffer) jtag
      (k + 1)
    rw [← port.2, replied (k / 8) (by omega)]
    exact samples.replyByte_bit pins _ jtag before
  · intro k unused inside
    rw [replied (k / 8) (by omega)]
    exact samples.replyByte_unused pins _ jtag unused inside

/-- With a delay or without, a request is clocked and answered alike, and as
the packed format has it. -/
theorem tdo_engines_transfer_packed (outLength : BitVec 16) (jtag : Jtag)
    (memory : Memory) (nonempty : 1 ≤ outLength.toNat)
    (short : outLength.toNat ≤ 1020)
    (keeps : maxSpeed.KeepsUnread outBuffer inBuffer outLength.toNat) :
    ∃ fast slow,
      fast = jtagTapOutputMaxSpeed pins outBuffer inBuffer outLength jtag
        memory ∧
      slow = jtagTapOutputWithDelay pins outBuffer inBuffer outLength jtag
        memory ∧
      fast.1 = slow.1 ∧ fast.2.1.writes = slow.2.1.writes ∧
      fast.2.1.out = slow.2.1.out ∧ fast.2.2.bytes = slow.2.2.bytes ∧
      TransfersPacked pins outBuffer inBuffer outLength.toNat jtag memory
        fast := by
  have fast := maxSpeed_samplesTdo.transfersPacked pins outBuffer inBuffer
    outLength jtag memory nonempty short keeps
  have slow := withDelay_samplesTdo.transfersPacked pins outBuffer inBuffer
    outLength jtag memory nonempty short keeps
  have bytes := TransfersPacked.bytes_eq pins outBuffer inBuffer fast slow
  exact ⟨_, _, rfl, rfl, rfl, fast.writes.trans slow.writes.symm,
    fast.out.trans slow.out.symm, bytes, fast⟩

/-- The full buffer of the USB side, in place. -/
theorem tdo_engines_transfer_packed_508 :
    ∃ fast slow,
      fast = jtagTapOutputMaxSpeed (fun _ => 0x20) 3 0 508 Jtag.powerOn
        ⟨fun _ => 0, [], []⟩ ∧
      slow = jtagTapOutputWithDelay (fun _ => 0x20) 3 0 508 Jtag.powerOn
        ⟨fun _ => 0, [], []⟩ ∧
      fast.1 = slow.1 ∧ fast.2.1.writes = slow.2.1.writes ∧
      fast.2.1.out = slow.2.1.out ∧ fast.2.2.bytes = slow.2.2.bytes ∧
      TransfersPacked (fun _ => 0x20) 3 0 508 Jtag.powerOn
        ⟨fun _ => 0, [], []⟩ fast :=
  tdo_engines_transfer_packed (fun _ => 0x20) 3 0 508 Jtag.powerOn
    ⟨fun _ => 0, [], []⟩ (by decide) (by decide)
    (maxSpeed.keepsUnread_of_le _ (by decide))

theorem TapEngine.replySize_le (engine : TapEngine) (outLength : BitVec 16) :
    (engine.replySize outLength).toNat ≤ engine.bytesFor (clocked outLength) := by
  unfold replySize bytesFor clocked
  rcases engine.tapsPerByte_cases with four | eight
  · rw [four, BitVec.toNat_setWidth, BitVec.toNat_udiv, BitVec.toNat_add]
    change (outLength.toNat + 3) % 65536 / 4 % 256 ≤ _
    split <;> omega
  · rw [eight, BitVec.toNat_setWidth, BitVec.toNat_udiv, BitVec.toNat_add]
    change (outLength.toNat + 7) % 65536 / 8 % 256 ≤ _
    split <;> omega

theorem tapLoop_steps (engine : TapEngine) (outLength rounds : Nat)
    (s : Tapping) (aligned : s.outLengthIndex % 4 = 0) :
    ∃ taps, tapLoop pins engine outBuffer inBuffer outLength rounds s =
      (tapStep pins engine outBuffer inBuffer)^[taps] s := by
  induction rounds generalizing s with
  | zero => exact ⟨0, rfl⟩
  | succ rounds induction =>
      rw [tapLoop, tapByte_steps pins engine outBuffer inBuffer outLength s
        aligned]
      by_cases last : s.outLengthIndex + 4 ≥ outLength
      · rw [decide_eq_true last]
        exact ⟨_, rfl⟩
      · have four : min 4 (max 1 (outLength - s.outLengthIndex)) = 4 := by
          omega
        have index := tapStep_iterate_index pins engine outBuffer inBuffer 4 s
        obtain ⟨taps, steps⟩ := induction
          ((tapStep pins engine outBuffer inBuffer)^[4] s)
          (by rw [index]; omega)
        rw [decide_eq_false last, four]
        refine ⟨taps + 4, ?_⟩
        rw [Function.iterate_add_apply]
        exact steps

/-- No byte is stored over one that is still to be read, neither in the loop
nor, with every byte read, after it. -/
theorem in_place_stores (engine : TapEngine) (outLength : BitVec 16)
    (jtag : Jtag) (memory : Memory) :
    (∀ rounds, ∃ s stored,
      s = tapLoop pins engine (dataFromHost + 1) dataToHost outLength.toNat
        rounds (.start jtag memory) ∧
      s.memory.stores = memory.stores ++ stored ∧
      ∀ address ∈ stored, address < dataFromHost + 1 + s.outBufferIndex) ∧
    (tapLoop pins engine (dataFromHost + 1) dataToHost outLength.toNat
        (outLength.toNat + 1) (.start jtag memory)).outBufferIndex =
      (clocked outLength + 3) / 4 := by
  have tapped : ∀ taps, Tapped engine (dataFromHost + 1) dataToHost taps
      (jtag, memory)
      ((tapStep pins engine (dataFromHost + 1) dataToHost)^[taps]
        (.start jtag memory)) := fun taps =>
    (tapped_start engine (dataFromHost + 1) dataToHost jtag memory).iterate taps
  constructor
  · intro rounds
    obtain ⟨taps, steps⟩ := tapLoop_steps pins (dataFromHost + 1) dataToHost
      engine outLength.toNat rounds (.start jtag memory) rfl
    refine ⟨_, List.range' dataToHost (taps / engine.tapsPerByte), rfl, ?_, ?_⟩
    · rw [steps]
      exact (tapped taps).stores
    · intro address stored
      obtain ⟨_, below⟩ := List.mem_range'_1.mp stored
      have behind : taps / engine.tapsPerByte ≤ (taps + 3) / 4 := by
        rcases engine.tapsPerByte_cases with four | eight
        · rw [four]
          omega
        · rw [eight]
          omega
      rw [steps, (tapped taps).outBufferIndex]
      simp only [dataFromHost, dataToHost] at below ⊢
      omega
  · rw [tapLoop_iterate]
    · exact (tapped (clocked outLength)).outBufferIndex
    · rfl
    · change outLength.toNat ≤ 0 + 4 * (outLength.toNat + 1)
      omega

/-- Whatever is asked for, a transfer in the one buffer of the USB side is
the transfer with the reply elsewhere. -/
theorem transfer_in_place (engine : TapEngine) (outLength : BitVec 16)
    (jtag : Jtag) (memory : Memory)
    (apart : ∀ i j, 4 * i < clocked outLength →
      j < engine.bytesFor (clocked outLength) →
      inBuffer + j ≠ dataFromHost + 1 + i) :
    ∃ inPlace separate,
      inPlace = jtagTapOutput pins engine (dataFromHost + 1) dataToHost
        outLength jtag memory ∧
      separate = jtagTapOutput pins engine (dataFromHost + 1) inBuffer
        outLength jtag memory ∧
      inPlace.1 = separate.1 ∧ inPlace.2.1 = separate.2.1 ∧
      (∀ j, j < inPlace.1.toNat →
        inPlace.2.2.bytes (dataToHost + j) =
          separate.2.2.bytes (inBuffer + j)) ∧
      (∀ rounds, ∃ s stored,
        s = tapLoop pins engine (dataFromHost + 1) dataToHost
          outLength.toNat rounds (.start jtag memory) ∧
        s.memory.stores = memory.stores ++ stored ∧
        ∀ address ∈ stored, address < dataFromHost + 1 + s.outBufferIndex) ∧
      (tapLoop pins engine (dataFromHost + 1) dataToHost outLength.toNat
          (outLength.toNat + 1) (.start jtag memory)).outBufferIndex =
        (clocked outLength + 3) / 4 := by
  obtain ⟨filled, inPlace, bytes⟩ := jtagTapOutput_reference pins engine
    (dataFromHost + 1) dataToHost outLength jtag memory
    (engine.keepsUnread_of_le _ (by decide))
  obtain ⟨filledApart, separate, bytesApart⟩ := jtagTapOutput_reference pins
    engine (dataFromHost + 1) inBuffer outLength jtag memory
    (engine.keepsUnread_of_disjoint apart)
  refine ⟨_, _, rfl, rfl, ?_, ?_, ?_,
    in_place_stores pins engine outLength jtag memory⟩
  · rw [inPlace, separate]
  · rw [inPlace, separate]
  · intro j inside
    rw [inPlace] at inside
    have small := Nat.lt_of_lt_of_le inside (engine.replySize_le outLength)
    rw [inPlace, separate, bytes, bytesApart, if_pos (by omega),
      if_pos (by omega), Nat.add_sub_cancel_left, Nat.add_sub_cancel_left]

/-- The largest request, with its reply right behind the buffer. -/
theorem transfer_in_place_508 :
    ∃ inPlace separate,
      inPlace = jtagTapOutput (fun _ => 0x20) emu (dataFromHost + 1) dataToHost
        508 Jtag.powerOn ⟨fun _ => 0, [], []⟩ ∧
      separate = jtagTapOutput (fun _ => 0x20) emu (dataFromHost + 1)
        usbBufferSize 508 Jtag.powerOn ⟨fun _ => 0, [], []⟩ ∧
      inPlace.1 = separate.1 ∧ inPlace.2.1 = separate.2.1 ∧
      (∀ j, j < inPlace.1.toNat →
        inPlace.2.2.bytes (dataToHost + j) =
          separate.2.2.bytes (usbBufferSize + j)) := by
  have clockedAll : clocked 508 = 508 := rfl
  obtain ⟨inPlace, separate, one, other, size, port, bytes, _⟩ :=
    transfer_in_place (fun _ => 0x20) usbBufferSize emu 508 Jtag.powerOn
      ⟨fun _ => 0, [], []⟩
      (by
        intro i j before _
        rw [clockedAll] at before
        simp only [usbBufferSize, dataFromHost]
        omega)
  exact ⟨inPlace, separate, one, other, size, port, bytes⟩

end

end BusNinja
