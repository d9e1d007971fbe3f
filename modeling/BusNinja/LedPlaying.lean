import BusNinja.Library.Cycle
import BusNinja.LedLevels

/-!
# Sequences play as encoded

`led_seq_next` loads a step and moves the index on before the step is played.
Between two ticks the driver is some time into some step; the tick at its end
shows nothing, and the step after the last one is the first.
-/

namespace BusNinja

structure LedStep where
  duration : Byte
  start : Byte
  finish : Byte
  deriving DecidableEq, Repr

namespace LedStep

def bytes (step : LedStep) : List Byte := [step.duration, step.start, step.finish]

def ramp (step : LedStep) : List Byte :=
  (List.range step.duration.toNat).map fun t =>
    BitVec.ofNat 8
      (Blend.blend step.start.toNat step.finish.toNat step.duration.toNat t)

/-- What the ticks of a step show; the last one shows nothing. -/
def shows (step : LedStep) : List (Option Byte) := step.ramp.map some ++ [none]

theorem bytes_length (steps : List LedStep) :
    (steps.flatMap bytes).length = 3 * steps.length := by
  induction steps with
  | nil => rfl
  | cons step steps induction =>
      rw [List.flatMap_cons, List.length_append, induction, List.length_cons,
        bytes, List.length_cons, List.length_cons, List.length_singleton]
      omega

theorem bytes_drop (steps : List LedStep) (i : Nat) :
    (steps.flatMap bytes).drop (i * 3) = (steps.drop i).flatMap bytes := by
  induction i generalizing steps with
  | zero => simp
  | succ i induction =>
      cases steps with
      | nil => simp
      | cons step steps =>
          rw [Nat.succ_mul, List.flatMap_cons, List.drop_succ_cons,
            ← induction steps]
          rfl

end LedStep

/-- A sequence in flash. -/
structure LedBlock where
  steps : List LedStep
  nonempty : 1 ≤ steps.length
  short : steps.length ≤ 255

namespace LedBlock

def bytes (block : LedBlock) : List Byte :=
  BitVec.ofNat 8 block.steps.length :: block.steps.flatMap LedStep.bytes

def round (block : LedBlock) : List (Option Byte) :=
  block.steps.flatMap LedStep.shows

def ramps (block : LedBlock) : List Byte := block.steps.flatMap LedStep.ramp

theorem bytes_length (block : LedBlock) :
    block.bytes.length = 1 + 3 * block.steps.length := by
  rw [bytes, List.length_cons, LedStep.bytes_length, Nat.add_comm]

theorem bytes_count (block : LedBlock) :
    (block.bytes.getD 0 0).toNat = block.steps.length := by
  have short := block.short
  change (BitVec.ofNat 8 _).toNat = _
  rw [BitVec.toNat_ofNat]
  exact Nat.mod_eq_of_lt (by omega)

theorem bytes_count_ne_zero (block : LedBlock) : block.bytes.getD 0 0 ≠ 0 := by
  intro zero
  have count := block.bytes_count
  have nonempty := block.nonempty
  rw [zero] at count
  exact absurd count (Nat.ne_of_lt nonempty)

theorem bytes_step (block : LedBlock) {i : Nat} {step : LedStep}
    (found : block.steps[i]? = some step) :
    block.bytes.getD (1 + i * 3) 0 = step.duration ∧
      block.bytes.getD (2 + i * 3) 0 = step.start ∧
      block.bytes.getD (3 + i * 3) 0 = step.finish := by
  obtain ⟨inside, rfl⟩ := List.getElem?_eq_some_iff.mp found
  have place : ∀ k, block.bytes.getD (k + 1 + i * 3) 0 =
      ((block.steps.drop i).flatMap LedStep.bytes).getD k 0 := by
    intro k
    rw [← LedStep.bytes_drop, List.getD_eq_getElem?_getD,
      List.getD_eq_getElem?_getD, List.getElem?_drop, bytes, Nat.add_right_comm,
      List.getElem?_cons_succ, Nat.add_comm]
  rw [List.drop_eq_getElem_cons inside] at place
  exact ⟨place 0, place 1, place 2⟩

end LedBlock

/-- `led_set_seq`, once the sequence is looked up. -/
def ledSetBlock (bytes : List Byte) (led : Led) : Led :=
  ledSeqNext { led with curSeq := bytes, seqIndex := 0 }

theorem ledSetSeq_block (seq : Byte) (led : Led) :
    ledSetSeq seq led = ledSetBlock (ledSequences.getD seq.toNat []) led := rfl

def stepsOf : List Byte → List LedStep
  | duration :: start :: finish :: rest =>
      ⟨duration, start, finish⟩ :: stepsOf rest
  | _ => []

theorem ledSequences_blocks :
    ∀ bytes ∈ ledSequences, ∃ block : LedBlock, block.bytes = bytes := by
  have encoded : ∀ bytes ∈ ledSequences, 1 ≤ (stepsOf bytes.tail).length ∧
      (stepsOf bytes.tail).length ≤ 255 ∧
      BitVec.ofNat 8 (stepsOf bytes.tail).length ::
        (stepsOf bytes.tail).flatMap LedStep.bytes = bytes := by
    decide
  intro bytes member
  obtain ⟨nonempty, short, same⟩ := encoded bytes member
  exact ⟨⟨stepsOf bytes.tail, nonempty, short⟩, same⟩

/-- The driver is `t` ticks into step `i` of the block, and the step after it
is next. -/
structure LedBlock.Playing (block : LedBlock) (i : Nat) (t : Byte) (led : Led) :
    Prop where
  curSeq : led.curSeq = block.bytes
  next : led.seqIndex.toNat = (i + 1) % block.steps.length
  ramps : ∃ step, block.steps[i]? = some step ∧
    led.Ramps step.start step.finish step.duration t

variable {block : LedBlock} {i : Nat} {t : Byte}

theorem ledSeqNext_playing {led : Led} (curSeq : led.curSeq = block.bytes)
    (index : led.seqIndex.toNat = i) (inside : i < block.steps.length) :
    block.Playing i 0 (ledSeqNext led) := by
  have found := List.getElem?_eq_getElem inside
  obtain ⟨duration, start, finish⟩ := block.bytes_step found
  have count := block.bytes_count
  rw [← curSeq] at duration start finish count
  have wraps : (i + 1) % block.steps.length < 256 := by
    have short := block.short
    exact Nat.lt_of_lt_of_le (Nat.mod_lt _ block.nonempty) (by omega)
  refine ⟨curSeq, ?_, _, found, ?_⟩
  · change (BitVec.ofNat 8 ((led.seqIndex.toNat + 1) %
      (led.curSeq.getD 0 0).toNat)).toNat = _
    rw [index, count, BitVec.toNat_ofNat]
    exact Nat.mod_eq_of_lt wraps
  · refine ⟨?_, ?_, ?_, rfl⟩
    · rw [← start, ← index]
      rfl
    · rw [← finish, ← index]
      rfl
    · rw [← duration, ← index]
      rfl

abbrev ledShown : Nat → LedDriver → List (Option Byte) :=
  Cycle.shown ledSeqTick ledTickShows

abbrev LedPlays : List (Option Byte) → LedDriver → LedDriver → Prop :=
  Cycle.Plays ledSeqTick ledTickShows

theorem tick_ramp {driver : LedDriver} {step : LedStep}
    (playing : block.Playing i t driver.led)
    (found : block.steps[i]? = some step) (before : t.toNat < step.duration.toNat) :
    LedPlays
        [some (BitVec.ofNat 8 (Blend.blend step.start.toNat step.finish.toNat
          step.duration.toNat t.toNat))]
        driver (ledSeqTick driver) ∧
      block.Playing i (t + 1) (ledSeqTick driver).led := by
  obtain ⟨curSeq, next, same, loaded, ramps⟩ := playing
  rw [found] at loaded
  cases loaded
  have shows := ledTickShows_ramp ramps before
  constructor
  · exact Cycle.Plays.one shows
  · rw [ledSeqTick_shows, shows]
    refine ⟨curSeq, next, step, found, ramps.interpA, ramps.interpB, ramps.dur, ?_⟩
    change driver.led.t + 1 = t + 1
    rw [ramps.t]

/-- The tick at the end of a step loads the next one. -/
theorem tick_end {driver : LedDriver} {step : LedStep}
    (playing : block.Playing i step.duration driver.led)
    (found : block.steps[i]? = some step) :
    LedPlays [none] driver (ledSeqTick driver) ∧
      block.Playing ((i + 1) % block.steps.length) 0 (ledSeqTick driver).led := by
  obtain ⟨curSeq, next, same, loaded, ramps⟩ := playing
  rw [found] at loaded
  cases loaded
  have shows := ledTickShows_end ramps
  constructor
  · exact Cycle.Plays.one shows
  · rw [ledSeqTick_shows, shows]
    exact ledSeqNext_playing curSeq next (Nat.mod_lt _ block.nonempty)

/-- The first ticks of a step, as far as its duration. -/
theorem plays_ramp {driver : LedDriver} {step : LedStep}
    (playing : block.Playing i 0 driver.led)
    (found : block.steps[i]? = some step) (ticks : Nat)
    (inside : ticks ≤ step.duration.toNat) :
    ∃ after, LedPlays ((step.ramp.take ticks).map some) driver after ∧
      block.Playing i (BitVec.ofNat 8 ticks) after.led := by
  induction ticks with
  | zero => exact ⟨driver, Cycle.Plays.none driver, playing⟩
  | succ ticks induction =>
      obtain ⟨between, played, reached⟩ := induction (by omega)
      have small := step.duration.isLt
      have time : (BitVec.ofNat 8 ticks).toNat = ticks := by
        rw [BitVec.toNat_ofNat]
        exact Nat.mod_eq_of_lt (by omega)
      obtain ⟨shown, after⟩ := tick_ramp reached found (by omega)
      refine ⟨ledSeqTick between, ?_, ?_⟩
      · have level : step.ramp[ticks]? = some (BitVec.ofNat 8
            (Blend.blend step.start.toNat step.finish.toNat
              step.duration.toNat ticks)) := by
          rw [LedStep.ramp, List.getElem?_map, List.getElem?_range (by omega)]
          rfl
        rw [time] at shown
        rw [List.take_add_one, level, List.map_append]
        exact played.trans shown
      · rw [BitVec.ofNat_add _ 1]
        exact after

theorem plays_step {driver : LedDriver} {step : LedStep}
    (playing : block.Playing i 0 driver.led)
    (found : block.steps[i]? = some step) :
    ∃ after, LedPlays step.shows driver after ∧
      block.Playing ((i + 1) % block.steps.length) 0 after.led := by
  obtain ⟨between, played, reached⟩ :=
    plays_ramp playing found step.duration.toNat (Nat.le_refl _)
  have whole : step.ramp.take step.duration.toNat = step.ramp := by
    apply List.take_of_length_le
    rw [LedStep.ramp, List.length_map, List.length_range]
  rw [BitVec.ofNat_toNat, BitVec.setWidth_eq] at reached
  rw [whole] at played
  obtain ⟨shown, after⟩ := tick_end reached found
  exact ⟨_, played.trans shown, after⟩

theorem plays_steps {driver : LedDriver} (rest : List LedStep) (i : Nat)
    (left : block.steps.drop i = rest) (some : rest ≠ [])
    (playing : block.Playing i 0 driver.led) :
    ∃ after, LedPlays (rest.flatMap LedStep.shows) driver after ∧
      block.Playing 0 0 after.led := by
  induction rest generalizing driver i with
  | nil => contradiction
  | cons step rest induction =>
      have found : block.steps[i]? = Option.some step := by
        rw [← List.head?_drop, left]
        rfl
      have later : block.steps.drop (i + 1) = rest := by
        rw [← List.tail_drop, left]
        rfl
      obtain ⟨between, played, reached⟩ := plays_step playing found
      rw [List.flatMap_cons]
      by_cases last : rest = []
      · have full : i + 1 = block.steps.length := by
          have inside := (List.getElem?_eq_some_iff.mp found).1
          have finished := List.drop_eq_nil_iff.mp (later.trans last)
          omega
        rw [full, Nat.mod_self] at reached
        rw [last]
        exact ⟨between, played.trans (Cycle.Plays.none between), reached⟩
      · have inside : i + 1 < block.steps.length := by
          by_contra finished
          exact last (later.symm.trans
            (List.drop_eq_nil_of_le (Nat.le_of_not_lt finished)))
        rw [Nat.mod_eq_of_lt inside] at reached
        obtain ⟨after, more, home⟩ := induction (i + 1) later last reached
        exact ⟨after, played.trans more, home⟩

theorem plays_round {driver : LedDriver} (playing : block.Playing 0 0 driver.led) :
    ∃ after, LedPlays block.round driver after ∧ block.Playing 0 0 after.led := by
  have some : block.steps ≠ [] := List.length_pos_iff.mp block.nonempty
  exact plays_steps block.steps 0 rfl some playing

/-- Everything read since `before` lies inside the block. -/
structure LedBlock.ReadInside (block : LedBlock) (before : List Nat)
    (led : Led) : Prop where
  curSeq : led.curSeq = block.bytes
  index : led.seqIndex.toNat < block.steps.length
  reads : ∃ new, led.reads = before ++ new ∧
    ∀ i ∈ new, i < 1 + 3 * block.steps.length

theorem ledSeqNext_inside {before : List Nat} {led : Led}
    (inside : block.ReadInside before led) :
    block.ReadInside before (ledSeqNext led) := by
  obtain ⟨curSeq, index, new, reads, within⟩ := inside
  have playing := ledSeqNext_playing curSeq rfl index
  refine ⟨curSeq, ?_, new ++ [0, 1 + led.seqIndex.toNat * 3,
    2 + led.seqIndex.toNat * 3, 3 + led.seqIndex.toNat * 3], ?_, ?_⟩
  · rw [playing.next]
    exact Nat.mod_lt _ block.nonempty
  · rw [← List.append_assoc, ← reads]
    simp [ledSeqNext, Led.read]
  · intro i member
    rcases List.mem_append.mp member with earlier | now
    · exact within i earlier
    · simp only [List.mem_cons, List.not_mem_nil, or_false] at now
      omega

theorem ledSeqTick_inside {before : List Nat} {driver : LedDriver}
    (inside : block.ReadInside before driver.led) :
    block.ReadInside before (ledSeqTick driver).led := by
  rw [ledSeqTick_shows]
  cases ledTickShows driver with
  | none => exact ledSeqNext_inside inside
  | some v => exact ⟨inside.curSeq, inside.index, inside.reads⟩

theorem ticks_inside {before : List Nat} {driver : LedDriver}
    (inside : block.ReadInside before driver.led) (ticks : Nat) :
    block.ReadInside before (ledSeqTick^[ticks] driver).led := by
  induction ticks with
  | zero => exact inside
  | succ ticks induction =>
      rw [Function.iterate_succ_apply']
      exact ledSeqTick_inside induction

theorem shows_divides {driver : LedDriver}
    (shows : (ledTickShows driver).isSome = true) : driver.led.seqDur ≠ 0 := by
  intro zero
  have finished : driver.led.t.setWidth 16 ≥ driver.led.seqDur := by
    rw [zero, ge_iff_le, BitVec.le_def]
    exact Nat.zero_le _
  rw [ledTickShows, if_pos finished] at shows
  contradiction

def LedDriver.setBlock (bytes : List Byte) (driver : LedDriver) : LedDriver :=
  { driver with led := ledSetBlock bytes driver.led }

theorem setBlock_playing (block : LedBlock) (driver : LedDriver) :
    block.Playing 0 0 (driver.setBlock block.bytes).led :=
  ledSeqNext_playing rfl rfl block.nonempty

theorem setBlock_inside (block : LedBlock) (driver : LedDriver) :
    block.ReadInside driver.led.reads (driver.setBlock block.bytes).led :=
  ledSeqNext_inside ⟨rfl, block.nonempty, [], by simp, by simp⟩

theorem levels_round (block : LedBlock) :
    block.round.filterMap id = block.ramps := by
  rw [LedBlock.round, LedBlock.ramps]
  induction block.steps with
  | nil => rfl
  | cons step steps induction =>
      rw [List.flatMap_cons, List.flatMap_cons, List.filterMap_append, induction]
      simp [LedStep.shows]

theorem levels_rounds (block : LedBlock) (rounds : Nat) :
    (List.replicate rounds block.round).flatten.filterMap id =
      (List.replicate rounds block.ramps).flatten := by
  rw [List.filterMap_flatten, List.map_replicate, levels_round]

/-- So many ticks of a sequence after its selection; `seqLen` is what
`seq_index` is taken modulo of, and `given` says that what a tick shows is what
it gives `hw_led_set`. -/
structure PlaysAsEncoded (block : LedBlock) (driver : LedDriver) (ticks : Nat) :
    Prop where
  inside : ∀ i ∈ (ledSeqTick^[ticks] (driver.setBlock block.bytes)).led.reads.drop
      driver.led.reads.length,
    i < 1 + 3 * block.steps.length
  seqLen :
    (ledSeqTick^[ticks] (driver.setBlock block.bytes)).led.curSeq.getD 0 0 ≠ 0
  divides :
    (ledTickShows (ledSeqTick^[ticks] (driver.setBlock block.bytes))).isSome =
        true →
      (ledSeqTick^[ticks] (driver.setBlock block.bytes)).led.seqDur ≠ 0
  given : ∀ before, before = ledSeqTick^[ticks] (driver.setBlock block.bytes) →
    ledSeqTick before =
      match ledTickShows before with
      | none =>
          { before with led := ledSeqNext before.led, steps := before.steps + 1 }
      | some v =>
          hwLedSet v
            { before with
              led := { before.led with t := before.led.t + 1 }
              steps := before.steps + 1 }
  shows : ledShown ticks (driver.setBlock block.bytes) =
    (List.replicate ticks block.round).flatten.take ticks
  levels : (ledShown ticks (driver.setBlock block.bytes)).filterMap id <+:
    (List.replicate ticks block.ramps).flatten

/-- A sequence plays as encoded, whatever was played before. -/
theorem led_plays_as_encoded (block : LedBlock) (driver : LedDriver)
    (ticks : Nat) : PlaysAsEncoded block driver ticks := by
  have nonempty : block.round ≠ [] := by
    obtain ⟨step, steps, cons⟩ := List.exists_cons_of_length_pos block.nonempty
    simp [LedBlock.round, cons, LedStep.shows]
  have shows : ledShown ticks (driver.setBlock block.bytes) =
      (List.replicate ticks block.round).flatten.take ticks :=
    Cycle.shown_rounds (fun _ => plays_round) nonempty ticks
      (setBlock_playing block driver)
  have played := ticks_inside (setBlock_inside block driver) ticks
  refine ⟨?_, ?_, shows_divides, fun before _ => ledSeqTick_shows before, shows,
    ?_⟩
  · obtain ⟨new, reads, within⟩ := played.reads
    rw [reads, List.drop_left]
    exact within
  · rw [played.curSeq]
    exact block.bytes_count_ne_zero
  · rw [shows, ← levels_rounds]
    exact (List.take_prefix _ _).filterMap _

/-- Blinking starts with 255 ticks of darkness and one without output. -/
example : ledShown 257 (LedDriver.powerOn.setBlock ledSeqBlink) =
    List.replicate 255 (some 0) ++ [none, some 0xFF] := by
  decide +kernel

end BusNinja
