import Mathlib.Logic.Function.Iterate
import BusNinja.Library.Run
import BusNinja.Library.WrapCounter
import BusNinja.Source.LedTimer

/-!
# When the LED takes a step

Calls of `led_tick` are followed beside a count of ticks that does not wrap.
A call should take a step once `STEP_TIME` ticks have passed since the last
one.  The deadline and the count it is compared with both wrap, and a call
does what it should exactly if they have wrapped equally often.
-/

namespace BusNinja

/-- A call of `led_tick`: the ticks since the call before it, and the
sequences selected meanwhile. -/
structure LedCall where
  elapsed : Nat
  selected : List Byte

/-- The driver and the counter of ticks, with the ticks that were really
counted and when the last step was taken. -/
structure LedClock where
  driver : LedDriver
  ticks : BitVec 32
  now : Nat
  lastStep : Option Nat

namespace LedClock

/-- Nothing is known yet of the steps taken. -/
def started (driver : LedDriver) (ticks : BitVec 32) : LedClock where
  driver := driver
  ticks := ticks
  now := ticks.toNat
  lastStep := none

def select (selected : List Byte) (driver : LedDriver) : LedDriver :=
  { driver with
    led := selected.foldl (fun led seq => ledSetSeq seq led) driver.led }

end LedClock

section

variable (fCpu : BitVec 32)

def ledCall (call : LedCall) (clock : LedClock) : LedClock :=
  let ticks := timer0Ovf^[call.elapsed] clock.ticks
  let now := clock.now + call.elapsed
  let driver :=
    ledTick fCpu ticks ticks (LedClock.select call.selected clock.driver)
  { driver := driver
    ticks := ticks
    now := now
    lastStep :=
      if driver.steps ≠ clock.driver.steps then some now else clock.lastStep }

def TakesStep (call : LedCall) (clock : LedClock) : Prop :=
  (ledCall fCpu call clock).driver.steps ≠ clock.driver.steps

/-- After the first step, a call takes a step exactly if more than
`STEP_TIME` ticks have passed since the last one. -/
def StepsOnTime (call : LedCall) (clock : LedClock) : Prop :=
  ∀ last ∈ clock.lastStep,
    (TakesStep fCpu call clock ↔
      last + (stepTime fCpu).toNat < clock.now + call.elapsed)

/-- The count and the deadline have wrapped equally often. -/
def InDeadlinePeriod (call : LedCall) (clock : LedClock) : Prop :=
  ∀ last ∈ clock.lastStep,
    WrapCounter.SamePeriod (2 ^ 32) (last + (stepTime fCpu).toNat)
      (clock.now + call.elapsed)

instance (call : LedCall) (clock : LedClock) :
    Decidable (InDeadlinePeriod fCpu call clock) :=
  inferInstanceAs (Decidable (∀ last ∈ clock.lastStep,
    WrapCounter.SamePeriod _ (last + _) (clock.now + call.elapsed)))

/-- The counter holds the count, the timer the deadline, and the deadline was
not passed without a step. -/
structure TimerSet (clock : LedClock) : Prop where
  counted : clock.ticks = BitVec.ofNat 32 clock.now
  deadline : ∀ last ∈ clock.lastStep,
    clock.driver.stepTimer = BitVec.ofNat 32 (last + (stepTime fCpu).toNat)
  reached : ∀ last ∈ clock.lastStep, last ≤ clock.now
  pending : ∀ last ∈ clock.lastStep,
    clock.now ≤ last + (stepTime fCpu).toNat

theorem timerSet_started (driver : LedDriver) (ticks : BitVec 32) :
    TimerSet fCpu (LedClock.started driver ticks) where
  counted := by simp [LedClock.started]
  deadline := by simp [LedClock.started]
  reached := by simp [LedClock.started]
  pending := by simp [LedClock.started]

theorem timer0Ovf_iterate (elapsed : Nat) (ticks : BitVec 32) :
    timer0Ovf^[elapsed] ticks = ticks + BitVec.ofNat 32 elapsed := by
  induction elapsed with
  | zero => exact (BitVec.add_zero ticks).symm
  | succ elapsed induction =>
      rw [Function.iterate_succ_apply', induction, timer0Ovf, BitVec.add_assoc,
        BitVec.ofNat_add _ 1]
      rfl

/-- A call past the timer takes a step and sets the timer, another one does
nothing. -/
theorem ledTick_cases (ticks tickGet : BitVec 32) (driver : LedDriver) :
    (driver.stepTimer < ticks ∧
      (ledTick fCpu ticks tickGet driver).steps = driver.steps + 1 ∧
      (ledTick fCpu ticks tickGet driver).stepTimer =
        tickGet + stepTime fCpu) ∨
    (¬ driver.stepTimer < ticks ∧
      ledTick fCpu ticks tickGet driver = driver) := by
  by_cases late : driver.stepTimer < ticks
  · left
    have taken : ledTick fCpu ticks tickGet driver =
        { ledSeqTick driver with stepTimer := tickGet + stepTime fCpu } :=
      if_pos late
    rw [taken]
    exact ⟨late, ledSeqTick_steps driver, rfl⟩
  · right
    exact ⟨late, if_neg late⟩

theorem ledCall_cases (call : LedCall) (clock : LedClock)
    (counted : clock.ticks = BitVec.ofNat 32 clock.now) :
    (clock.driver.stepTimer < BitVec.ofNat 32 (clock.now + call.elapsed) ∧
      TakesStep fCpu call clock ∧
      (ledCall fCpu call clock).lastStep = some (clock.now + call.elapsed) ∧
      (ledCall fCpu call clock).driver.stepTimer =
        BitVec.ofNat 32
          (clock.now + call.elapsed + (stepTime fCpu).toNat)) ∨
    (¬ clock.driver.stepTimer < BitVec.ofNat 32 (clock.now + call.elapsed) ∧
      ¬ TakesStep fCpu call clock ∧
      (ledCall fCpu call clock).lastStep = clock.lastStep ∧
      (ledCall fCpu call clock).driver.stepTimer = clock.driver.stepTimer) := by
  have ticks : timer0Ovf^[call.elapsed] clock.ticks =
      BitVec.ofNat 32 (clock.now + call.elapsed) := by
    rw [counted, timer0Ovf_iterate, BitVec.ofNat_add]
  obtain ⟨late, steps, timer⟩ | ⟨early, same⟩ :=
    ledTick_cases fCpu (timer0Ovf^[call.elapsed] clock.ticks)
      (timer0Ovf^[call.elapsed] clock.ticks)
      (LedClock.select call.selected clock.driver)
  · left
    have taken : TakesStep fCpu call clock := by
      rw [TakesStep, ledCall, steps]
      exact Nat.succ_ne_self clock.driver.steps
    rw [ticks] at late
    refine ⟨late, taken, if_pos taken, ?_⟩
    rw [ledCall, timer, ticks, BitVec.ofNat_add _ (stepTime fCpu).toNat,
      BitVec.ofNat_toNat, BitVec.setWidth_eq]
  · right
    have rest : ¬ TakesStep fCpu call clock := by
      rw [TakesStep, ledCall, same]
      exact not_not.mpr rfl
    rw [ticks] at early
    refine ⟨early, rest, if_neg rest, ?_⟩
    rw [ledCall, same]
    rfl

/-- The call compares remainders, and takes a step if that of the count is
the larger one. -/
theorem takesStep_iff (call : LedCall) (clock : LedClock)
    (set : TimerSet fCpu clock) (last : Nat) (member : last ∈ clock.lastStep) :
    TakesStep fCpu call clock ↔
      (last + (stepTime fCpu).toNat) % 2 ^ 32 <
        (clock.now + call.elapsed) % 2 ^ 32 := by
  rw [← WrapCounter.ofNat_lt_iff, ← set.deadline last member]
  obtain ⟨late, taken, -⟩ | ⟨early, rest, -⟩ :=
    ledCall_cases fCpu call clock set.counted
  · exact iff_of_true taken late
  · exact iff_of_false rest early

theorem stepsOnTime_iff (call : LedCall) (clock : LedClock)
    (frequent : call.elapsed < 2 ^ 31) (set : TimerSet fCpu clock) :
    StepsOnTime fCpu call clock ↔ InDeadlinePeriod fCpu call clock := by
  apply forall₂_congr
  intro last member
  have reached := set.reached last member
  have pending := set.pending last member
  have short := (stepTime fCpu).isLt
  rw [takesStep_iff fCpu call clock set last member]
  exact WrapCounter.mod_lt_mod_correct_iff (by omega) (by omega)

theorem TimerSet.step {call : LedCall} {clock : LedClock}
    (set : TimerSet fCpu clock) (onTime : StepsOnTime fCpu call clock) :
    TimerSet fCpu (ledCall fCpu call clock) := by
  have counted : (ledCall fCpu call clock).ticks =
      BitVec.ofNat 32 (ledCall fCpu call clock).now := by
    simp only [ledCall]
    rw [set.counted, timer0Ovf_iterate, BitVec.ofNat_add]
  have now : (ledCall fCpu call clock).now = clock.now + call.elapsed := rfl
  obtain ⟨-, -, stepped, timer⟩ | ⟨-, rest, kept, timer⟩ :=
    ledCall_cases fCpu call clock set.counted
  · refine ⟨counted, ?_, ?_, ?_⟩
    all_goals
      intro last member
      rw [stepped, Option.mem_some_iff] at member
      subst member
    · exact timer
    · exact Nat.le_refl _
    · exact Nat.le_add_right _ _
  · refine ⟨counted, ?_, ?_, ?_⟩
    all_goals
      intro last member
      rw [kept] at member
    · rw [timer]
      exact set.deadline last member
    · rw [now]
      exact Nat.le_add_right_of_le (set.reached last member)
    · rw [now]
      exact Nat.le_of_not_lt (fun late => rest ((onTime last member).mpr late))

/-- The steps of a run are taken on time if and only if no call after the
first step comes when only one of the count and the deadline has wrapped. -/
theorem led_steps_on_time_iff (calls : List LedCall)
    (frequent : ∀ call ∈ calls, call.elapsed < 2 ^ 31) (driver : LedDriver)
    (ticks : BitVec 32) :
    Run.Meets (ledCall fCpu) (StepsOnTime fCpu) calls
        (LedClock.started driver ticks) ↔
      Run.Meets (ledCall fCpu) (InDeadlinePeriod fCpu) calls
        (LedClock.started driver ticks) := by
  apply Run.meets_iff_of_allowed _ _ frequent
    (timerSet_started fCpu driver ticks)
  · intro call clock frequent set
    exact stepsOnTime_iff fCpu call clock frequent set
  · intro call clock frequent set together
    apply set.step
    exact (stepsOnTime_iff fCpu call clock frequent set).mpr together

theorem led_steps_on_time_twice :
    Run.Meets (ledCall 16000000) (StepsOnTime 16000000)
      [{ elapsed := 1, selected := [] }, { elapsed := 245, selected := [] }]
      (LedClock.started LedDriver.powerOn 0) :=
  (led_steps_on_time_iff 16000000 _ (by decide) LedDriver.powerOn 0).mpr (by
    decide +kernel)

/-- The second step is taken just before the counter wraps.  Its deadline has
wrapped, and the next call takes a step one tick later. -/
theorem wrapped_deadline_steps_early :
    ¬ ∀ (fCpu : BitVec 32) (calls : List LedCall) (driver : LedDriver)
      (ticks : BitVec 32), (∀ call ∈ calls, call.elapsed < 2 ^ 31) →
      Run.Meets (ledCall fCpu) (StepsOnTime fCpu) calls
        (LedClock.started driver ticks) := by
  intro always
  have meets := always 16000000
    [{ elapsed := 2147483647, selected := [] },
     { elapsed := 2147483647, selected := [] },
     { elapsed := 1, selected := [] }]
    LedDriver.powerOn 0 (by decide)
  simp only [Run.Meets, StepsOnTime, TakesStep, ledCall, timer0Ovf_iterate]
    at meets
  revert meets
  decide +kernel

end

end BusNinja
