import BusNinja.JtagPacked

/-!
# Packed transfers with EMU

The function that samples TDO and EMU answers every pair with two bits, TDO
below EMU, so that its reply is packed as its request is.
-/

namespace BusNinja

namespace TapEngine

theorem emu_sample_bit (inData pins : Byte) {i : Nat} (inside : i < 8) :
    (emu.sample inData pins).getLsbD i =
      if 6 ≤ i then pins.getLsbD (i - 1) else inData.getLsbD (i + 2) := by
  have mask : ∀ i < 8, (0x80 : Byte).getLsbD i = decide (i = 7) := by decide
  change (sampleEmu (sampleTdo inData pins) pins).getLsbD i = _
  unfold sampleEmu
  by_cases seven : i = 7
  · subst seven
    simp
  · rw [BitVec.getLsbD_or, BitVec.getLsbD_and, mask i inside, decide_eq_false seven,
      Bool.and_false, Bool.or_false, BitVec.getLsbD_ushiftRight,
      sampleTdo_bit _ _ (by omega)]
    by_cases six : i = 6
    · subst six
      simp
    · have below : ¬ 6 ≤ i := by omega
      have inner : ¬ 1 + i = 7 := by omega
      rw [if_neg below, if_neg inner, Nat.add_comm 1 i]

variable (pins : List Byte → Byte) (pairs : Nat → Byte) (jtag : Jtag)

/-- TDO and EMU, pins 5 and 6, as they were sampled after pair `k`. -/
def levels (k : Nat) : Byte := pins (emu.clockPairs pairs jtag (k + 1)).writes

/-- The levels after the last pair are in bits 6 and 7. -/
theorem emu_gathered_last (k : Nat) {i : Nat} (inside : i < 8)
    (last : 6 ≤ i) :
    (emu.gathered pins pairs jtag (k + 1)).getLsbD i =
      (decide (3 - i / 2 ≤ k % 4) &&
        (levels pins pairs jtag (k - (3 - i / 2))).getLsbD (5 + i % 2)) := by
  have now : 3 - i / 2 = 0 := by omega
  have pin : i - 1 = 5 + i % 2 := by omega
  rw [gathered, emu_sample_bit _ _ inside, if_pos last, pin, now]
  rfl

/-- Those of the pairs before are in the bits below, down to the first pair
of the byte. -/
theorem emu_gathered_bit (k : Nat) {i : Nat} (inside : i < 8) :
    (emu.gathered pins pairs jtag (k + 1)).getLsbD i =
      (decide (3 - i / 2 ≤ k % 4) &&
        (levels pins pairs jtag (k - (3 - i / 2))).getLsbD (5 + i % 2)) := by
  induction k generalizing i with
  | zero =>
      by_cases last : 6 ≤ i
      · exact emu_gathered_last pins pairs jtag 0 inside last
      · have early : ¬ 3 - i / 2 ≤ 0 % 4 := by omega
        rw [gathered, emu_sample_bit _ _ inside]
        simp [last, early]
  | succ k induction =>
      by_cases last : 6 ≤ i
      · exact emu_gathered_last pins pairs jtag (k + 1) inside last
      · rw [gathered, emu_sample_bit _ _ inside, if_neg last]
        change (if (k + 1) % 4 = 0 then 0
          else emu.gathered pins pairs jtag (k + 1)).getLsbD (i + 2) = _
        split
        · next fresh =>
            have early : ¬ 3 - i / 2 ≤ (k + 1) % 4 := by omega
            simp [early]
        · next shifted =>
            have pin : (i + 2) % 2 = i % 2 := by omega
            have earlier : k - (3 - (i + 2) / 2) = k + 1 - (3 - i / 2) := by
              omega
            have same : 3 - (i + 2) / 2 ≤ k % 4 ↔ 3 - i / 2 ≤ (k + 1) % 4 := by
              omega
            rw [induction (by omega), earlier, pin, decide_eq_decide.mpr same]

theorem emu_replyByte_bit {taps k : Nat} (clocked : k < taps) {pin : Nat}
    (tdoOrEmu : pin < 2) :
    (emu.replyByte pins pairs jtag taps (k / 4)).getLsbD (2 * (k % 4) + pin) =
      (levels pins pairs jtag k).getLsbD (5 + pin) := by
  unfold replyByte
  change (if (k / 4 + 1) * 4 ≤ taps then
      emu.gathered pins pairs jtag ((k / 4 + 1) * 4)
    else emu.gathered pins pairs jtag taps >>> (8 - 2 * (taps % 4))).getLsbD _ = _
  split
  · next full =>
      have last : (k / 4 + 1) * 4 = k / 4 * 4 + 3 + 1 := by omega
      have half : (2 * (k % 4) + pin) / 2 = k % 4 := by omega
      have rest : (2 * (k % 4) + pin) % 2 = pin := by omega
      have early : 3 - k % 4 ≤ (k / 4 * 4 + 3) % 4 := by omega
      have index : k / 4 * 4 + 3 - (3 - k % 4) = k := by omega
      rw [last, emu_gathered_bit pins pairs jtag _ (by omega), half, rest, index,
        decide_eq_true early, Bool.true_and]
  · next rest =>
      obtain ⟨before, rfl⟩ : ∃ before, taps = before + 1 :=
        Nat.exists_eq_succ_of_ne_zero (by omega)
      have parity :
          (8 - 2 * ((before + 1) % 4) + (2 * (k % 4) + pin)) % 2 = pin := by
        omega
      have early : 3 - (8 - 2 * ((before + 1) % 4) + (2 * (k % 4) + pin)) / 2 ≤
          before % 4 := by
        omega
      have index :
          before - (3 - (8 - 2 * ((before + 1) % 4) + (2 * (k % 4) + pin)) / 2) =
            k := by
        omega
      rw [BitVec.getLsbD_ushiftRight,
        emu_gathered_bit pins pairs jtag _ (by omega), parity, index,
        decide_eq_true early, Bool.true_and]

/-- The bits above the last pair are 0. -/
theorem emu_replyByte_unused {taps bit : Nat} (unused : 2 * taps ≤ bit)
    (inside : bit < 8 * ((taps + 3) / 4)) :
    (emu.replyByte pins pairs jtag taps (bit / 8)).getLsbD (bit % 8) = false := by
  unfold replyByte
  change (if (bit / 8 + 1) * 4 ≤ taps then
      emu.gathered pins pairs jtag ((bit / 8 + 1) * 4)
    else emu.gathered pins pairs jtag taps >>> (8 - 2 * (taps % 4))).getLsbD _ = _
  have rest : ¬ (bit / 8 + 1) * 4 ≤ taps := by omega
  rw [if_neg rest, BitVec.getLsbD_ushiftRight]
  apply BitVec.getLsbD_of_ge
  omega

theorem emu_bytesFor (taps : Nat) : emu.bytesFor taps = (taps + 3) / 4 := by
  unfold bytesFor
  change taps / 4 + (if taps % 4 = 0 then 0 else 1) = _
  split <;> omega

theorem emu_replySize {outLength : BitVec 16}
    (short : outLength.toNat ≤ 1020) :
    (emu.replySize outLength).toNat = (outLength.toNat + 3) / 4 := by
  unfold replySize
  rw [BitVec.toNat_setWidth, BitVec.toNat_udiv, BitVec.toNat_add]
  change (outLength.toNat + 3) % 65536 / 4 % 256 = _
  omega

end TapEngine

def otherPins : Byte := 0xEC

theorem level_otherPins (out byte : Byte) :
    ((out &&& 0xFC) ||| (byte &&& 0x03)) &&& otherPins = out &&& otherPins := by
  simp [otherPins, BitVec.and_or_distrib_right, BitVec.and_assoc]

theorem packedPort_otherPins (bytes : Nat → Byte) (outBuffer : Nat) (out : Byte)
    (taps : Nat) :
    packedPort (packedPair bytes outBuffer) out taps &&& otherPins =
      out &&& otherPins := by
  have low : (0xEF : Byte) &&& otherPins = otherPins := by decide
  induction taps with
  | zero => rfl
  | succ taps induction =>
      rw [packedPort, BitVec.and_assoc, low, packedPair, level_otherPins]
      exact induction

theorem packedWrites_otherPins (bytes : Nat → Byte) (outBuffer : Nat)
    (out : Byte) (taps : Nat) :
    ∀ value ∈ packedWrites (packedPair bytes outBuffer) out taps,
      value &&& otherPins = out &&& otherPins := by
  have low : (0xEF : Byte) &&& otherPins = otherPins := by decide
  have high : (0x10 : Byte) &&& otherPins = 0#8 := by decide
  intro value written
  obtain ⟨k, -, among⟩ := List.mem_flatMap.mp written
  have level := level_otherPins
    (packedPort (packedPair bytes outBuffer) out k)
    (bytes (outBuffer + k / 4) >>> (2 * (k % 4)))
  rw [packedPort_otherPins] at level
  simp only [pairWrites, List.mem_cons, List.not_mem_nil, or_false] at among
  rcases among with rfl | rfl | rfl
  · exact level
  · rw [BitVec.and_or_distrib_right, high, BitVec.or_zero]
    exact level
  · rw [BitVec.and_assoc, low]
    exact level

theorem packedPort_clockLow (pairs : Nat → Byte) (out : Byte) {taps : Nat}
    (some : 1 ≤ taps) : packedPort pairs out taps &&& 0x10 = 0 := by
  obtain ⟨before, rfl⟩ := Nat.exists_eq_add_of_le some
  have low : (0xEF : Byte) &&& 0x10 = 0#8 := by decide
  rw [Nat.add_comm, packedPort, BitVec.and_assoc, low]
  exact BitVec.and_zero

structure TransfersEmu (pins : List Byte → Byte) (outBuffer inBuffer taps : Nat)
    (jtag : Jtag) (memory : Memory) (result : Byte × Jtag × Memory) : Prop where
  size : result.1.toNat = (taps + 3) / 4
  writes : result.2.1.writes = jtag.writes ++
    packedWrites (packedPair memory.bytes outBuffer) jtag.out taps
  held : ∀ value ∈ packedWrites (packedPair memory.bytes outBuffer) jtag.out taps,
    value &&& otherPins = jtag.out &&& otherPins
  others : result.2.1.out &&& otherPins = jtag.out &&& otherPins
  clockLow : result.2.1.out &&& 0x10 = 0
  tdo : ∀ k, k < taps →
    (result.2.2.bytes (inBuffer + k / 4)).getLsbD (2 * (k % 4)) =
      (pins (jtag.writes ++
        packedWrites (packedPair memory.bytes outBuffer) jtag.out
          (k + 1))).getLsbD 5
  emu : ∀ k, k < taps →
    (result.2.2.bytes (inBuffer + k / 4)).getLsbD (2 * (k % 4) + 1) =
      (pins (jtag.writes ++
        packedWrites (packedPair memory.bytes outBuffer) jtag.out
          (k + 1))).getLsbD 6
  unused : ∀ bit, 2 * taps ≤ bit → bit < 8 * ((taps + 3) / 4) →
    (result.2.2.bytes (inBuffer + bit / 8)).getLsbD (bit % 8) = false
  untouched : ∀ address,
    ¬ (inBuffer ≤ address ∧ address < inBuffer + (taps + 3) / 4) →
    result.2.2.bytes address = memory.bytes address

/-- The function that samples TDO and EMU implements its format. -/
theorem emu_engine_transfers_packed (pins : List Byte → Byte)
    (outBuffer inBuffer : Nat) (outLength : BitVec 16) (jtag : Jtag)
    (memory : Memory) (nonempty : 1 ≤ outLength.toNat)
    (short : outLength.toNat ≤ 1020)
    (keeps : emu.KeepsUnread outBuffer inBuffer outLength.toNat) :
    TransfersEmu pins outBuffer inBuffer outLength.toNat jtag memory
      (jtagTapOutputEmu pins outBuffer inBuffer outLength jtag memory) := by
  obtain ⟨after, filled, output, out, writes, replied, untouched⟩ :=
    emu.packed_transfer pins outBuffer inBuffer outLength jtag memory nonempty
      keeps
  rw [TapEngine.emu_bytesFor] at replied untouched
  have sampled : ∀ k, k < outLength.toNat → ∀ pin, pin < 2 →
      (filled.bytes (inBuffer + k / 4)).getLsbD (2 * (k % 4) + pin) =
        (pins (jtag.writes ++
          packedWrites (packedPair memory.bytes outBuffer) jtag.out
            (k + 1))).getLsbD (5 + pin) := by
    intro k before pin tdoOrEmu
    have port := emu.clockPairs_port (packedPair memory.bytes outBuffer) jtag
      (k + 1)
    rw [← port.2, replied (k / 4) (by omega)]
    exact TapEngine.emu_replyByte_bit pins _ jtag before tdoOrEmu
  rw [jtagTapOutputEmu, output]
  refine ⟨TapEngine.emu_replySize short, writes, ?_, ?_, ?_, ?_, ?_, ?_,
    untouched⟩
  · exact packedWrites_otherPins memory.bytes outBuffer jtag.out _
  · change after.out &&& _ = _
    rw [out, packedPort_otherPins]
  · change after.out &&& _ = _
    rw [out, packedPort_clockLow _ _ nonempty]
  · exact fun k before => sampled k before 0 (by decide)
  · exact fun k before => sampled k before 1 (by decide)
  · intro bit unused inside
    rw [replied (bit / 8) (by omega)]
    exact TapEngine.emu_replyByte_unused pins _ jtag unused inside

/-- The full buffer of the USB side, in place. -/
theorem emu_engine_transfers_packed_508 :
    TransfersEmu (fun _ => 0x60) 3 0 508 Jtag.powerOn ⟨fun _ => 0, [], []⟩
      (jtagTapOutputEmu (fun _ => 0x60) 3 0 508 Jtag.powerOn
        ⟨fun _ => 0, [], []⟩) :=
  emu_engine_transfers_packed (fun _ => 0x60) 3 0 508 Jtag.powerOn
    ⟨fun _ => 0, [], []⟩ (by decide) (by decide)
    (emu.keepsUnread_of_le _ (by decide))

end BusNinja
