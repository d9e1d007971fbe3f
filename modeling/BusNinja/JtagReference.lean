import BusNinja.JtagTaps

/-!
# The packed format of a tap request

The request is read as pairs of bits and the reply is gathered from what the
input pins show after every pair.  A tap output function clocks these pairs
and builds this reply wherever its two buffers are, as long as no byte is
stored where one is still to be read.
-/

namespace BusNinja

/-- Pair `k` of a request: TDI in bit 0, TMS in bit 1, four pairs a byte. -/
def packedPair (bytes : Nat → Byte) (outBuffer k : Nat) : Byte :=
  (bytes (outBuffer + k / 4) >>> (2 * (k % 4))) &&& 0x03

namespace TapEngine

variable (engine : TapEngine)

/-- TDI and TMS are set, then TCK is raised and lowered. -/
def clockPair (pair : Byte) (jtag : Jtag) : Jtag :=
  let jtag := jtag.write ((jtag.out &&& 0xFC) ||| pair)
  let jtag := engine.pause (jtag.write (jtag.out ||| 0x10))
  engine.pause (jtag.write (jtag.out &&& 0xEF))

def clockPairs (pairs : Nat → Byte) (jtag : Jtag) : Nat → Jtag
  | 0 => jtag
  | k + 1 => engine.clockPair (pairs k) (clockPairs pairs jtag k)

variable (pins : List Byte → Byte) (pairs : Nat → Byte) (jtag : Jtag)

/-- What has been shifted into the byte of the reply that pair `k - 1` is
part of. -/
def gathered : Nat → Byte
  | 0 => 0
  | k + 1 =>
      engine.sample
        (if k % engine.tapsPerByte = 0 then 0 else gathered k)
        (pins (engine.clockPairs pairs jtag (k + 1)).writes)

/-- Byte `j` of the reply to so many pairs. -/
def replyByte (taps j : Nat) : Byte :=
  if (j + 1) * engine.tapsPerByte ≤ taps then
    engine.gathered pins pairs jtag ((j + 1) * engine.tapsPerByte)
  else
    engine.gathered pins pairs jtag taps >>>
      (8 - engine.bits * (taps % engine.tapsPerByte))

/-- No byte of the reply is stored over a byte of the request before its
pairs are clocked. -/
def KeepsUnread (outBuffer inBuffer taps : Nat) : Prop :=
  ∀ i j, 4 * i < taps → (j + 1) * engine.tapsPerByte ≤ 4 * i →
    inBuffer + j ≠ outBuffer + i

theorem tapsPerByte_pos : 0 < engine.tapsPerByte := by
  rcases engine.tapsPerByte_cases with four | eight <;> omega

theorem div_lt_bytesFor {taps i j : Nat} (unread : 4 * i < taps)
    (stored : (j + 1) * engine.tapsPerByte ≤ 4 * i) :
    j < engine.bytesFor taps := by
  have full : j + 1 ≤ taps / engine.tapsPerByte := by
    apply (Nat.le_div_iff_mul_le engine.tapsPerByte_pos).mpr
    exact Nat.le_trans stored (Nat.le_of_lt unread)
  unfold bytesFor
  omega

theorem keepsUnread_of_disjoint {outBuffer inBuffer taps : Nat}
    (disjoint : ∀ i j, 4 * i < taps → j < engine.bytesFor taps →
      inBuffer + j ≠ outBuffer + i) :
    engine.KeepsUnread outBuffer inBuffer taps := by
  intro i j unread stored
  apply disjoint i j unread
  exact engine.div_lt_bytesFor unread stored

/-- A reply that starts no later than the request stays behind it: a byte
takes at least as many pairs to fill as to read. -/
theorem keepsUnread_of_le {outBuffer inBuffer : Nat} (taps : Nat)
    (behind : inBuffer ≤ outBuffer) :
    engine.KeepsUnread outBuffer inBuffer taps := by
  intro i j _ stored
  have four : (j + 1) * 4 ≤ (j + 1) * engine.tapsPerByte := by
    apply Nat.mul_le_mul_left
    rcases engine.tapsPerByte_cases with four | eight <;> omega
  omega

end TapEngine

section

variable (pins : List Byte → Byte) (engine : TapEngine)
  (outBuffer inBuffer : Nat)

/-- After so many pairs, what the locals hold and what the memory shows. -/
structure Follows (taps : Nat) (before : Jtag × Memory) (s : Tapping) :
    Prop where
  tapped : Tapped engine outBuffer inBuffer taps before s
  jtag : s.jtag =
    engine.clockPairs (packedPair before.2.bytes outBuffer) before.1 taps
  outData : taps % 4 ≠ 0 → s.outData =
    before.2.bytes (outBuffer + taps / 4) >>> (2 * (taps % 4 - 1))
  inData : s.inData =
    if taps % engine.tapsPerByte = 0 then 0
    else engine.gathered pins (packedPair before.2.bytes outBuffer) before.1 taps
  bytes : ∀ address, s.memory.bytes address =
    if inBuffer ≤ address ∧ address < inBuffer + taps / engine.tapsPerByte then
      engine.gathered pins (packedPair before.2.bytes outBuffer) before.1
        ((address - inBuffer + 1) * engine.tapsPerByte)
    else before.2.bytes address

variable {pins engine outBuffer inBuffer} {taps : Nat} {before : Jtag × Memory}
  {s : Tapping}

theorem Follows.unread
    (follows : Follows pins engine outBuffer inBuffer taps before s)
    (keeps : engine.KeepsUnread outBuffer inBuffer (taps + 1))
    (aligned : taps % 4 = 0) :
    s.memory.bytes (outBuffer + taps / 4) =
      before.2.bytes (outBuffer + taps / 4) := by
  rw [follows.bytes, if_neg]
  rintro ⟨above, below⟩
  have clash := keeps (taps / 4) (outBuffer + taps / 4 - inBuffer)
    (by omega) ?_
  · omega
  · have whole : 4 * (taps / 4) = taps := by omega
    rw [whole]
    apply (Nat.le_div_iff_mul_le engine.tapsPerByte_pos).mp
    omega

theorem Follows.load
    (follows : Follows pins engine outBuffer inBuffer taps before s)
    (keeps : engine.KeepsUnread outBuffer inBuffer (taps + 1)) :
    ∃ loaded, (if s.outLengthIndex % 4 = 0 then loadOut outBuffer s
        else shiftOut s) = loaded ∧
      loaded.outData =
        before.2.bytes (outBuffer + taps / 4) >>> (2 * (taps % 4)) ∧
      loaded.memory.bytes = s.memory.bytes ∧ loaded.jtag = s.jtag ∧
      loaded.inData = s.inData ∧ loaded.inBufferIndex = s.inBufferIndex ∧
      loaded.outLengthIndex = s.outLengthIndex := by
  refine ⟨_, rfl, ?_⟩
  rw [follows.tapped.outLengthIndex]
  split
  · next aligned =>
      refine ⟨?_, rfl, rfl, rfl, rfl, follows.tapped.outLengthIndex⟩
      have index : s.outBufferIndex = taps / 4 := by
        rw [follows.tapped.outBufferIndex]
        omega
      change s.memory.bytes (outBuffer + s.outBufferIndex) = _
      rw [index, follows.unread keeps aligned, aligned]
      simp
  · next later =>
      refine ⟨?_, rfl, rfl, rfl, rfl, follows.tapped.outLengthIndex⟩
      have shift : 2 * (taps % 4) = 2 * (taps % 4 - 1) + 2 := by omega
      change s.outData >>> 2 = _
      rw [follows.outData later, shift, BitVec.shiftRight_add]

theorem Follows.tap
    (follows : Follows pins engine outBuffer inBuffer taps before s)
    {loaded : Tapping}
    (outData : loaded.outData =
      before.2.bytes (outBuffer + taps / 4) >>> (2 * (taps % 4)))
    (jtag : loaded.jtag = s.jtag) (inData : loaded.inData = s.inData) :
    (tapOne pins engine loaded).jtag =
        engine.clockPairs (packedPair before.2.bytes outBuffer) before.1
          (taps + 1) ∧
      (tapOne pins engine loaded).inData =
        engine.gathered pins (packedPair before.2.bytes outBuffer) before.1
          (taps + 1) := by
  have clocked : (tapOne pins engine loaded).jtag =
      engine.clockPairs (packedPair before.2.bytes outBuffer) before.1
        (taps + 1) := by
    rw [TapEngine.clockPairs, ← follows.jtag, ← jtag, packedPair, ← outData]
    rfl
  refine ⟨clocked, ?_⟩
  rw [TapEngine.gathered, ← follows.inData, ← clocked, ← inData]
  rfl

theorem storeIn_kept (engine : TapEngine) (inBuffer : Nat) (s : Tapping) :
    (storeIn engine inBuffer s).jtag = s.jtag ∧
      (storeIn engine inBuffer s).outData = s.outData := by
  unfold storeIn
  split <;> exact ⟨rfl, rfl⟩

theorem storeIn_gathered {gathered : Nat → Byte} {original : Nat → Byte}
    (index : s.outLengthIndex = taps + 1)
    (inBufferIndex : s.inBufferIndex = taps / engine.tapsPerByte)
    (inData : s.inData = gathered (taps + 1))
    (bytes : ∀ address, s.memory.bytes address =
      if inBuffer ≤ address ∧
          address < inBuffer + taps / engine.tapsPerByte then
        gathered ((address - inBuffer + 1) * engine.tapsPerByte)
      else original address) :
    (storeIn engine inBuffer s).inData =
        (if (taps + 1) % engine.tapsPerByte = 0 then 0
        else gathered (taps + 1)) ∧
      ∀ address, (storeIn engine inBuffer s).memory.bytes address =
        if inBuffer ≤ address ∧
            address < inBuffer + (taps + 1) / engine.tapsPerByte then
          gathered ((address - inBuffer + 1) * engine.tapsPerByte)
        else original address := by
  unfold storeIn
  rw [index]
  by_cases full : (taps + 1) % engine.tapsPerByte = 0
  · have divides := Nat.dvd_of_mod_eq_zero full
    have next : (taps + 1) / engine.tapsPerByte =
        taps / engine.tapsPerByte + 1 := by
      rw [Nat.succ_div, if_pos divides]
    have whole : (taps / engine.tapsPerByte + 1) * engine.tapsPerByte =
        taps + 1 := by
      rw [← next]
      exact Nat.div_mul_cancel divides
    rw [if_pos full, if_pos full]
    refine ⟨rfl, ?_⟩
    intro address
    rw [next]
    by_cases here : address = inBuffer + taps / engine.tapsPerByte
    · have offset : address - inBuffer = taps / engine.tapsPerByte := by omega
      rw [if_pos (by omega), offset, whole]
      simp [Memory.store, inBufferIndex, here, inData]
    · have elsewhere := bytes address
      simp only [Memory.store, inBufferIndex, if_neg here]
      rw [elsewhere]
      apply if_congr _ rfl rfl
      omega
  · have same : (taps + 1) / engine.tapsPerByte =
        taps / engine.tapsPerByte := by
      rw [Nat.succ_div, if_neg (mt Nat.mod_eq_zero_of_dvd full), Nat.add_zero]
    rw [if_neg full, if_neg full, same]
    exact ⟨inData, bytes⟩

theorem Follows.step
    (follows : Follows pins engine outBuffer inBuffer taps before s)
    (keeps : engine.KeepsUnread outBuffer inBuffer (taps + 1)) :
    Follows pins engine outBuffer inBuffer (taps + 1) before
      (tapStep pins engine outBuffer inBuffer s) := by
  have stepped : Tapped engine outBuffer inBuffer (taps + 1) before
      (tapStep pins engine outBuffer inBuffer s) := follows.tapped.step
  obtain ⟨loaded, load, outData, bytes, jtag, inData, inBufferIndex,
    outLengthIndex⟩ := follows.load keeps
  obtain ⟨clocked, gathered⟩ := follows.tap outData jtag inData
  have index : (tapOne pins engine loaded).outLengthIndex = taps + 1 := by
    change loaded.outLengthIndex + 1 = taps + 1
    rw [outLengthIndex, follows.tapped.outLengthIndex]
  have unmoved : (tapOne pins engine loaded).inBufferIndex =
      taps / engine.tapsPerByte := by
    change loaded.inBufferIndex = _
    rw [inBufferIndex, follows.tapped.inBufferIndex]
  have memory : (tapOne pins engine loaded).memory.bytes = s.memory.bytes :=
    bytes
  obtain ⟨sameJtag, sameOut⟩ :=
    storeIn_kept engine inBuffer (tapOne pins engine loaded)
  obtain ⟨stored, filled⟩ := storeIn_gathered index unmoved gathered
    (by rw [memory]; exact follows.bytes)
  rw [tapStep, load] at stepped ⊢
  refine ⟨stepped, sameJtag.trans clocked, ?_, stored, filled⟩
  intro within
  have byte : (taps + 1) / 4 = taps / 4 := by omega
  have shift : (taps + 1) % 4 - 1 = taps % 4 := by omega
  rw [sameOut, byte, shift]
  exact outData

theorem Follows.iterate
    (follows : Follows pins engine outBuffer inBuffer 0 before s) (taps : Nat)
    (keeps : engine.KeepsUnread outBuffer inBuffer taps) :
    Follows pins engine outBuffer inBuffer taps before
      ((tapStep pins engine outBuffer inBuffer)^[taps] s) := by
  induction taps with
  | zero => exact follows
  | succ taps induction =>
      rw [Function.iterate_succ_apply']
      apply Follows.step _ keeps
      apply induction
      intro i j unread stored
      exact keeps i j (by omega) stored

/-- What is left of the last byte is aligned after the last pair. -/
theorem Follows.storeRest_bytes
    (follows : Follows pins engine outBuffer inBuffer taps before s)
    (address : Nat) :
    (storeRest engine inBuffer s).memory.bytes address =
      if inBuffer ≤ address ∧ address < inBuffer + engine.bytesFor taps then
        engine.replyByte pins (packedPair before.2.bytes outBuffer) before.1
          taps (address - inBuffer)
      else before.2.bytes address := by
  have filled : ∀ j, j < taps / engine.tapsPerByte ↔
      (j + 1) * engine.tapsPerByte ≤ taps := by
    intro j
    exact Nat.le_div_iff_mul_le engine.tapsPerByte_pos
  have offset := filled (address - inBuffer)
  have bytes := follows.bytes address
  have index := follows.tapped.inBufferIndex
  unfold storeRest TapEngine.bytesFor TapEngine.replyByte
  rw [follows.tapped.outLengthIndex]
  generalize taps / engine.tapsPerByte = whole at filled offset bytes index ⊢
  by_cases full : taps % engine.tapsPerByte = 0
  · rw [if_neg (not_not_intro full), if_pos full, Nat.add_zero, bytes]
    by_cases inside : inBuffer ≤ address ∧ address < inBuffer + whole
    · rw [if_pos inside, if_pos inside, if_pos (offset.mp (by omega))]
    · rw [if_neg inside, if_neg inside]
  · rw [if_pos full, if_neg full]
    by_cases here : address = inBuffer + whole
    · have last : ¬ (address - inBuffer + 1) * engine.tapsPerByte ≤ taps := by
        rw [← offset]
        omega
      rw [if_pos (by omega), if_neg last]
      simp [Memory.store, index, here, follows.inData,
        full]
    · simp only [Memory.store, index, if_neg here]
      rw [bytes]
      by_cases inside : inBuffer ≤ address ∧ address < inBuffer + whole
      · rw [if_pos inside, if_pos (by omega), if_pos (offset.mp (by omega))]
      · rw [if_neg inside, if_neg (by omega)]

variable (pins engine outBuffer inBuffer)

/-- A tap output function clocks the pairs of its request and builds the
reply gathered from them. -/
theorem jtagTapOutput_reference (outLength : BitVec 16) (jtag : Jtag)
    (memory : Memory)
    (keeps : engine.KeepsUnread outBuffer inBuffer (clocked outLength)) :
    ∃ filled,
      jtagTapOutput pins engine outBuffer inBuffer outLength jtag memory =
        (engine.replySize outLength,
          engine.clockPairs (packedPair memory.bytes outBuffer) jtag
            (clocked outLength), filled) ∧
      ∀ address, filled.bytes address =
        if inBuffer ≤ address ∧
            address < inBuffer + engine.bytesFor (clocked outLength) then
          engine.replyByte pins (packedPair memory.bytes outBuffer) jtag
            (clocked outLength) (address - inBuffer)
        else memory.bytes address := by
  obtain ⟨s, steps, output⟩ :=
    jtagTapOutput_steps pins engine outBuffer inBuffer outLength jtag memory
  have initial : Follows pins engine outBuffer inBuffer 0 (jtag, memory)
      (Tapping.start jtag memory) := by
    refine ⟨tapped_start engine outBuffer inBuffer jtag memory, rfl, ?_, ?_, ?_⟩
    · exact fun within => absurd (Nat.zero_mod 4) within
    · simp [Tapping.start]
    · intro address
      rw [if_neg (by simp)]
      rfl
  have follows : Follows pins engine outBuffer inBuffer (clocked outLength)
      (jtag, memory) s := steps ▸ initial.iterate _ keeps
  obtain ⟨_, sameJtag⟩ := storeRest_rest engine inBuffer s
  rw [sameJtag, follows.jtag] at output
  exact ⟨_, output, follows.storeRest_bytes⟩

end

end BusNinja
