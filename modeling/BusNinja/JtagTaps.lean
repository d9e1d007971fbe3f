import Mathlib.Algebra.Order.Group.Nat
import Mathlib.Logic.Function.Iterate
import BusNinja.Source.Jtag

/-!
# What a tap output function clocks, reads and stores

The tap loop is unrolled four times, but every pair goes through the same
step, which loads a byte before the first of four pairs and stores one when
it is full.  The loop performs this step once for every pair, and at least
once.
-/

namespace BusNinja

/-- The falls of TCK in what is written to the port. -/
def tckPulses : Byte → List Byte → Nat
  | _, [] => 0
  | out, value :: writes =>
      (if out &&& 0x10 ≠ 0 ∧ value &&& 0x10 = 0 then 1 else 0) +
        tckPulses value writes

theorem tckPulses_append (out : Byte) (first second : List Byte) :
    tckPulses out (first ++ second) =
      tckPulses out first + tckPulses (first.getLastD out) second := by
  induction first generalizing out with
  | nil => simp [tckPulses]
  | cons value writes induction =>
      rw [List.cons_append, tckPulses, tckPulses, induction, Nat.add_assoc,
        List.getLastD_cons]

/-- The port was written to with so many pulses of TCK. -/
def Pulsed (pulses : Nat) (before after : Jtag) : Prop :=
  ∃ new, after.writes = before.writes ++ new ∧
    after.out = new.getLastD before.out ∧ tckPulses before.out new = pulses

theorem Pulsed.none (jtag : Jtag) : Pulsed 0 jtag jtag :=
  ⟨[], by simp, rfl, rfl⟩

theorem Pulsed.trans {first second : Nat} {before between after : Jtag}
    (earlier : Pulsed first before between)
    (later : Pulsed second between after) :
    Pulsed (first + second) before after := by
  obtain ⟨writes, written, out, pulses⟩ := earlier
  obtain ⟨more, writtenMore, outMore, pulsesMore⟩ := later
  refine ⟨writes ++ more, ?_, ?_, ?_⟩
  · rw [writtenMore, written, List.append_assoc]
  · rw [outMore, out]
    cases more with
    | nil => simp
    | cons value more => simp [List.getLastD_eq_getLast?]
  · rw [tckPulses_append, pulses, ← out, pulsesMore]

theorem TapEngine.tapsPerByte_cases (engine : TapEngine) :
    engine.tapsPerByte = 4 ∨ engine.tapsPerByte = 8 := by
  have divides : engine.tapsPerByte ∣ 8 := by
    rw [← engine.bits_mul_tapsPerByte]
    apply Nat.dvd_mul_left
  have small := Nat.le_of_dvd (by decide) divides
  have positive := Nat.pos_of_dvd_of_pos divides (by decide)
  obtain ⟨bytes, four⟩ := engine.four_dvd
  omega

section

variable (pins : List Byte → Byte) (engine : TapEngine)
  (outBuffer inBuffer : Nat)

theorem tapOne_pulsed (s : Tapping) :
    Pulsed 1 s.jtag (tapOne pins engine s).jtag := by
  let quiet := (s.jtag.out &&& 0xFC) ||| (s.outData &&& 0x03)
  refine ⟨[quiet, quiet ||| 0x10, (quiet ||| 0x10) &&& 0xEF], ?_, ?_, ?_⟩
  · simp [tapOne, Jtag.write, engine.pause_out, engine.pause_writes, quiet]
  · simp [tapOne, Jtag.write, engine.pause_out, quiet]
  · have same : quiet &&& 0x10#8 = s.jtag.out &&& 0x10#8 := by
      simp [quiet, BitVec.and_or_distrib_right, BitVec.and_assoc]
    have high : ∀ value : Byte, (value ||| 0x10#8) &&& 0x10#8 ≠ 0#8 := by
      decide +kernel
    have low : ∀ value : Byte, value &&& 0xEF#8 &&& 0x10#8 = 0#8 := by
      decide +kernel
    simp [tckPulses, same, high, low]

/-- What the tap loop does for every pair. -/
def tapStep (s : Tapping) : Tapping :=
  storeIn engine inBuffer
    (tapOne pins engine
      (if s.outLengthIndex % 4 = 0 then loadOut outBuffer s else shiftOut s))

@[simp] theorem storeIn_index (s : Tapping) :
    (storeIn engine inBuffer s).outLengthIndex = s.outLengthIndex := by
  unfold storeIn
  split <;> rfl

@[simp] theorem tapStep_index (s : Tapping) :
    (tapStep pins engine outBuffer inBuffer s).outLengthIndex =
      s.outLengthIndex + 1 := by
  unfold tapStep
  rw [storeIn_index]
  split <;> rfl

theorem tapStep_iterate_index (taps : Nat) (s : Tapping) :
    ((tapStep pins engine outBuffer inBuffer)^[taps] s).outLengthIndex =
      s.outLengthIndex + taps := by
  induction taps with
  | zero => rfl
  | succ taps induction =>
      rw [Function.iterate_succ_apply', tapStep_index, induction]
      rfl

theorem storeIn_partial (s : Tapping) (within : s.outLengthIndex % 4 ≠ 0) :
    storeIn engine inBuffer s = s := by
  have notFull : ¬ s.outLengthIndex % engine.tapsPerByte = 0 := by
    intro full
    apply within
    exact Nat.mod_eq_zero_of_dvd
      (Nat.dvd_trans engine.four_dvd (Nat.dvd_of_mod_eq_zero full))
  unfold storeIn
  rw [if_neg notFull]

theorem tapStep_first (s : Tapping) (aligned : s.outLengthIndex % 4 = 0) :
    tapStep pins engine outBuffer inBuffer s =
      tapOne pins engine (loadOut outBuffer s) := by
  unfold tapStep
  rw [if_pos aligned]
  apply storeIn_partial
  change (s.outLengthIndex + 1) % 4 ≠ 0
  omega

theorem tapStep_later (s : Tapping) (later : s.outLengthIndex % 4 ≠ 0) :
    tapStep pins engine outBuffer inBuffer s =
      storeIn engine inBuffer (tapOne pins engine (shiftOut s)) := by
  unfold tapStep
  rw [if_neg later]

theorem tapStep_middle (s : Tapping) (later : s.outLengthIndex % 4 ≠ 0)
    (within : (s.outLengthIndex + 1) % 4 ≠ 0) :
    tapStep pins engine outBuffer inBuffer s =
      tapOne pins engine (shiftOut s) := by
  rw [tapStep_later pins engine outBuffer inBuffer s later]
  apply storeIn_partial
  exact within

theorem tapByte_steps (outLength : Nat) (s : Tapping)
    (aligned : s.outLengthIndex % 4 = 0) :
    tapByte pins engine outBuffer inBuffer outLength s =
      (decide (s.outLengthIndex + 4 ≥ outLength),
        (tapStep pins engine outBuffer inBuffer)^[
          min 4 (max 1 (outLength - s.outLengthIndex))] s) := by
  generalize first : tapStep pins engine outBuffer inBuffer s = one
  generalize second : tapStep pins engine outBuffer inBuffer one = two
  generalize third : tapStep pins engine outBuffer inBuffer two = three
  have oneIndex : one.outLengthIndex = s.outLengthIndex + 1 := by
    rw [← first, tapStep_index]
  have twoIndex : two.outLengthIndex = s.outLengthIndex + 2 := by
    rw [← second, tapStep_index, oneIndex]
  have threeIndex : three.outLengthIndex = s.outLengthIndex + 3 := by
    rw [← third, tapStep_index, twoIndex]
  have loaded : tapOne pins engine (loadOut outBuffer s) = one := by
    rw [← first, tapStep_first pins engine outBuffer inBuffer s aligned]
  have shifted : tapOne pins engine (shiftOut one) = two := by
    rw [← second]
    symm
    apply tapStep_middle <;> omega
  have shiftedTwice : tapOne pins engine (shiftOut two) = three := by
    rw [← third]
    symm
    apply tapStep_middle <;> omega
  have stored : storeIn engine inBuffer (tapOne pins engine (shiftOut three)) =
      tapStep pins engine outBuffer inBuffer three := by
    symm
    apply tapStep_later
    omega
  simp only [tapByte, loaded, shifted, shiftedTwice, stored, oneIndex, twoIndex,
    threeIndex, tapStep_index]
  have stop : ∀ index : Nat, index ≤ s.outLengthIndex + 4 →
      index ≥ outLength → decide (s.outLengthIndex + 4 ≥ outLength) = true := by
    intro index bound reached
    exact decide_eq_true (Nat.le_trans reached bound)
  split_ifs with afterFirst afterSecond afterThird
  · have taps : min 4 (max 1 (outLength - s.outLengthIndex)) = 1 := by omega
    rw [taps, stop _ (by omega) afterFirst, ← first]
    rfl
  · have taps : min 4 (max 1 (outLength - s.outLengthIndex)) = 2 := by omega
    rw [taps, stop _ (by omega) afterSecond, ← second, ← first]
    rfl
  · have taps : min 4 (max 1 (outLength - s.outLengthIndex)) = 3 := by omega
    rw [taps, stop _ (by omega) afterThird, ← third, ← second, ← first]
    rfl
  · have taps : min 4 (max 1 (outLength - s.outLengthIndex)) = 4 := by omega
    rw [taps, ← third, ← second, ← first]
    rfl

theorem tapLoop_last (outLength rounds : Nat) (s : Tapping)
    (aligned : s.outLengthIndex % 4 = 0)
    (last : outLength ≤ s.outLengthIndex + 4) :
    tapLoop pins engine outBuffer inBuffer outLength (rounds + 1) s =
      (tapStep pins engine outBuffer inBuffer)^[
        max 1 (outLength - s.outLengthIndex)] s := by
  have taps : min 4 (max 1 (outLength - s.outLengthIndex)) =
      max 1 (outLength - s.outLengthIndex) := by omega
  rw [tapLoop, tapByte_steps pins engine outBuffer inBuffer outLength s aligned,
    taps, decide_eq_true last]
  rfl

/-- The loop ends by its test, after one step for every pair. -/
theorem tapLoop_iterate (outLength rounds : Nat) (s : Tapping)
    (aligned : s.outLengthIndex % 4 = 0)
    (enough : outLength ≤ s.outLengthIndex + 4 * (rounds + 1)) :
    tapLoop pins engine outBuffer inBuffer outLength (rounds + 1) s =
      (tapStep pins engine outBuffer inBuffer)^[
        max 1 (outLength - s.outLengthIndex)] s := by
  induction rounds generalizing s with
  | zero =>
      apply tapLoop_last
      · exact aligned
      · exact enough
  | succ rounds induction =>
      by_cases last : outLength ≤ s.outLengthIndex + 4
      · apply tapLoop_last
        · exact aligned
        · exact last
      · have four : min 4 (max 1 (outLength - s.outLengthIndex)) = 4 := by
          omega
        have index := tapStep_iterate_index pins engine outBuffer inBuffer 4 s
        have later := induction
          ((tapStep pins engine outBuffer inBuffer)^[4] s)
          (by rw [index]; omega) (by rw [index]; omega)
        have taps : max 1 (outLength - s.outLengthIndex) =
            max 1 (outLength - (s.outLengthIndex + 4)) + 4 := by omega
        rw [tapLoop,
          tapByte_steps pins engine outBuffer inBuffer outLength s aligned, four,
          decide_eq_false last, taps, Function.iterate_add_apply]
        rw [index] at later
        exact later

/-- After so many pairs from the start. -/
structure Tapped (taps : Nat) (before : Jtag × Memory) (s : Tapping) :
    Prop where
  outLengthIndex : s.outLengthIndex = taps
  outBufferIndex : s.outBufferIndex = (taps + 3) / 4
  inBufferIndex : s.inBufferIndex = taps / engine.tapsPerByte
  tapReads : s.memory.tapReads = before.2.tapReads ++
    List.range' outBuffer ((taps + 3) / 4)
  stores : s.memory.stores = before.2.stores ++
    List.range' inBuffer (taps / engine.tapsPerByte)
  pulsed : Pulsed taps before.1 s.jtag

variable {pins engine outBuffer inBuffer} {taps : Nat} {before : Jtag × Memory}
  {s : Tapping}

theorem Tapped.load (tapped : Tapped engine outBuffer inBuffer taps before s) :
    ∃ loaded, (if s.outLengthIndex % 4 = 0 then loadOut outBuffer s
        else shiftOut s) = loaded ∧
      loaded.outBufferIndex = (taps + 1 + 3) / 4 ∧
      loaded.memory.tapReads = before.2.tapReads ++
        List.range' outBuffer ((taps + 1 + 3) / 4) ∧
      loaded.memory.stores = s.memory.stores ∧ loaded.jtag = s.jtag ∧
      loaded.inBufferIndex = s.inBufferIndex ∧
      loaded.outLengthIndex = s.outLengthIndex := by
  refine ⟨_, rfl, ?_⟩
  rw [tapped.outLengthIndex]
  split
  · next aligned =>
      have index : (taps + 1 + 3) / 4 = (taps + 3) / 4 + 1 := by omega
      refine ⟨?_, ?_, rfl, rfl, rfl, tapped.outLengthIndex⟩
      · rw [index, ← tapped.outBufferIndex]
        rfl
      · rw [index, List.range'_1_concat, ← List.append_assoc,
          ← tapped.tapReads, ← tapped.outBufferIndex]
        rfl
  · next later =>
      have index : (taps + 1 + 3) / 4 = (taps + 3) / 4 := by omega
      rw [index]
      exact ⟨tapped.outBufferIndex, tapped.tapReads, rfl, rfl, rfl,
        tapped.outLengthIndex⟩

theorem Tapped.step (tapped : Tapped engine outBuffer inBuffer taps before s) :
    Tapped engine outBuffer inBuffer (taps + 1) before
      (tapStep pins engine outBuffer inBuffer s) := by
  obtain ⟨loaded, load, outBufferIndex, tapReads, stores, jtag, inBufferIndex,
    outLengthIndex⟩ := tapped.load
  rw [tapStep, load]
  have pulsed := tapped.pulsed.trans
    (jtag ▸ tapOne_pulsed pins engine loaded)
  have index : (tapOne pins engine loaded).outLengthIndex = taps + 1 := by
    change loaded.outLengthIndex + 1 = taps + 1
    rw [outLengthIndex, tapped.outLengthIndex]
  have nothing : (tapOne pins engine loaded).memory = loaded.memory := rfl
  have unmoved : (tapOne pins engine loaded).inBufferIndex =
      taps / engine.tapsPerByte := by
    change loaded.inBufferIndex = _
    rw [inBufferIndex, tapped.inBufferIndex]
  unfold storeIn
  split
  · next full =>
      rw [index] at full
      have next : (taps + 1) / engine.tapsPerByte =
          taps / engine.tapsPerByte + 1 := by
        rw [Nat.succ_div, if_pos (Nat.dvd_of_mod_eq_zero full)]
      refine ⟨index, outBufferIndex, ?_, tapReads, ?_, pulsed⟩
      · rw [next, ← unmoved]
      · rw [next, List.range'_1_concat, ← List.append_assoc,
          ← tapped.stores, ← stores, ← nothing, ← unmoved]
        rfl
  · next partly =>
      rw [index] at partly
      have same : (taps + 1) / engine.tapsPerByte =
          taps / engine.tapsPerByte := by
        rw [Nat.succ_div, if_neg (mt Nat.mod_eq_zero_of_dvd partly),
          Nat.add_zero]
      refine ⟨index, outBufferIndex, ?_, tapReads, ?_, pulsed⟩
      · rw [same, ← unmoved]
      · rw [same, ← tapped.stores, ← stores, ← nothing]

theorem Tapped.iterate (tapped : Tapped engine outBuffer inBuffer 0 before s)
    (taps : Nat) :
    Tapped engine outBuffer inBuffer taps before
      ((tapStep pins engine outBuffer inBuffer)^[taps] s) := by
  induction taps with
  | zero => exact tapped
  | succ taps induction =>
      rw [Function.iterate_succ_apply']
      exact induction.step

/-- How many pairs are clocked: one even if none is asked for. -/
def clocked (outLength : BitVec 16) : Nat := max 1 outLength.toNat

/-- How many bytes so many pairs fill or begin. -/
def TapEngine.bytesFor (engine : TapEngine) (taps : Nat) : Nat :=
  taps / engine.tapsPerByte + if taps % engine.tapsPerByte = 0 then 0 else 1

theorem storeRest_stores
    (tapped : Tapped engine outBuffer inBuffer taps before s) :
    (storeRest engine inBuffer s).memory.stores = before.2.stores ++
      List.range' inBuffer (engine.bytesFor taps) := by
  unfold storeRest TapEngine.bytesFor
  rw [tapped.outLengthIndex]
  by_cases full : taps % engine.tapsPerByte = 0
  · rw [if_neg (not_not_intro full), if_pos full]
    exact tapped.stores
  · rw [if_pos full, if_neg full, List.range'_1_concat,
      ← List.append_assoc, ← tapped.stores, ← tapped.inBufferIndex]
    rfl

theorem storeRest_rest (engine : TapEngine) (inBuffer : Nat) (s : Tapping) :
    (storeRest engine inBuffer s).memory.tapReads = s.memory.tapReads ∧
      (storeRest engine inBuffer s).jtag = s.jtag := by
  unfold storeRest
  dsimp only
  split <;> exact ⟨rfl, rfl⟩

variable (pins engine outBuffer inBuffer)

def Tapping.start (jtag : Jtag) (memory : Memory) : Tapping :=
  { jtag := jtag
    memory := memory
    outData := 0
    inData := 0
    outBufferIndex := 0
    inBufferIndex := 0
    outLengthIndex := 0 }

theorem tapped_start (jtag : Jtag) (memory : Memory) :
    Tapped engine outBuffer inBuffer 0 (jtag, memory)
      (Tapping.start jtag memory) := by
  refine ⟨rfl, rfl, ?_, ?_, ?_, Pulsed.none jtag⟩
  · exact (Nat.zero_div _).symm
  · simp [Tapping.start]
  · simp [Tapping.start]

/-- The result of a tap output function. -/
def TapEngine.replySize (engine : TapEngine) (outLength : BitVec 16) : Byte :=
  ((outLength + BitVec.ofNat 16 (engine.tapsPerByte - 1)) /
    BitVec.ofNat 16 engine.tapsPerByte).setWidth 8

theorem jtagTapOutput_steps (outLength : BitVec 16) (jtag : Jtag)
    (memory : Memory) :
    ∃ s, s = (tapStep pins engine outBuffer inBuffer)^[clocked outLength]
        (Tapping.start jtag memory) ∧
      jtagTapOutput pins engine outBuffer inBuffer outLength jtag memory =
        (engine.replySize outLength, (storeRest engine inBuffer s).jtag,
          (storeRest engine inBuffer s).memory) := by
  refine ⟨_, rfl, ?_⟩
  have looped : tapLoop pins engine outBuffer inBuffer outLength.toNat
        (outLength.toNat + 1) (Tapping.start jtag memory) =
      (tapStep pins engine outBuffer inBuffer)^[clocked outLength]
        (Tapping.start jtag memory) := by
    apply tapLoop_iterate
    · rfl
    · change outLength.toNat ≤ 0 + 4 * (outLength.toNat + 1)
      omega
  rw [← looped]
  rfl

variable {pins engine outBuffer inBuffer}

/-- A tap output function clocks its pairs, reads a byte for every four of
them, and stores the bytes of the reply they fill or begin. -/
theorem jtagTapOutput_spec (outLength : BitVec 16) (jtag : Jtag)
    (memory : Memory) :
    ∃ size after filled,
      jtagTapOutput pins engine outBuffer inBuffer outLength jtag memory =
        (size, after, filled) ∧
      Pulsed (clocked outLength) jtag after ∧
      filled.tapReads = memory.tapReads ++
        List.range' outBuffer ((clocked outLength + 3) / 4) ∧
      filled.stores = memory.stores ++
        List.range' inBuffer (engine.bytesFor (clocked outLength)) := by
  obtain ⟨s, steps, output⟩ :=
    jtagTapOutput_steps pins engine outBuffer inBuffer outLength jtag memory
  have tapped : Tapped engine outBuffer inBuffer (clocked outLength)
      (jtag, memory) s :=
    steps ▸ (tapped_start engine outBuffer inBuffer jtag memory).iterate _
  obtain ⟨sameReads, sameJtag⟩ := storeRest_rest engine inBuffer s
  refine ⟨_, _, _, output, ?_, ?_, ?_⟩
  · rw [sameJtag]
    exact tapped.pulsed
  · rw [sameReads]
    exact tapped.tapReads
  · exact storeRest_stores tapped

end

end BusNinja
