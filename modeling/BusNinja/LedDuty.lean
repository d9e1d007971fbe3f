import BusNinja.Library.CodeModulation
import BusNinja.Library.Cycle
import BusNinja.Library.Run
import BusNinja.Source.HwLed

/-!
# The duty of the LED

The interrupt shows the bits of the brightness in turn, each for as long as
it weighs.  Whenever the brightness is set and whatever it was before, the
LED settles on it within 129 interrupts, and from then on is lit for a time
that is linear in it.
-/

namespace BusNinja

open CodeModulation

def HwLed.time (led : HwLed) : Nat := led.ticks.toNat

def HwLed.Settled (led : HwLed) : Prop :=
  led.lit = shows 7 led.brightness.toNat led.time

theorem hwLedInterrupt_phase (led : HwLed) :
    (hwLedInterrupt led).time % 256 = (led.time + 1) % 256 := by
  have time : (hwLedInterrupt led).time = (led.ticks + 1).toNat := by
    unfold HwLed.time hwLedInterrupt hwLedTick
    dsimp only
    split <;> rfl
  rw [time, BitVec.toNat_add]
  change (led.time + 1) % 2 ^ 32 % 256 = _
  omega

theorem hwLedInterrupt_brightness (led : HwLed) :
    (hwLedInterrupt led).brightness = led.brightness := by
  unfold hwLedInterrupt hwLedTick
  dsimp only
  split <;> rfl

theorem lowByte_toNat (ticks : BitVec 32) :
    (ticks &&& 0xFF).toNat = ticks.toNat % 256 := by
  rw [BitVec.toNat_and]
  exact Nat.and_two_pow_sub_one_eq_mod ticks.toNat 8

theorem hwLedCases_weights :
    hwLedCases = (List.range 8).map fun bit => BitVec.ofNat 32 (2 ^ bit) := by
  decide

theorem lowByte_weight {ticks : BitVec 32} {bit : Nat} (inside : bit < 8) :
    ticks &&& 0xFF = BitVec.ofNat 32 (2 ^ bit) ↔
      ticks.toNat % 256 = 2 ^ bit := by
  have small : 2 ^ bit < 2 ^ 32 := Nat.pow_lt_pow_right (by decide) (by omega)
  rw [← BitVec.toNat_inj, lowByte_toNat, BitVec.toNat_ofNat,
    Nat.mod_eq_of_lt small]

theorem mem_hwLedCases (ticks : BitVec 32) :
    ticks &&& 0xFF ∈ hwLedCases ↔ ∃ bit < 8, ticks.toNat % 256 = 2 ^ bit := by
  simp only [hwLedCases_weights, List.mem_map, List.mem_range]
  constructor
  · rintro ⟨bit, inside, same⟩
    exact ⟨bit, inside, (lowByte_weight inside).mp same.symm⟩
  · rintro ⟨bit, inside, weight⟩
    exact ⟨bit, inside, ((lowByte_weight inside).mpr weight).symm⟩

theorem masked_testBit : ∀ bit < 8, ∀ b : Byte,
    decide (b.setWidth 32 &&& BitVec.ofNat 32 (2 ^ bit) ≠ 0) =
      b.toNat.testBit bit := by
  decide +kernel

/-- At the time of a weight the pin settles, and else it stays as it is. -/
theorem hwLedInterrupt_settled {led : HwLed}
    (due : led.Settled ∨ ∃ bit < 8, (led.time + 1) % 256 = 2 ^ bit) :
    (hwLedInterrupt led).Settled := by
  have phase := hwLedInterrupt_phase led
  have counted : (timer0Ovf led.ticks).toNat % 256 = (led.time + 1) % 256 := by
    rw [timer0Ovf, BitVec.toNat_add]
    change (led.time + 1) % 2 ^ 32 % 256 = _
    omega
  have cases := mem_hwLedCases (timer0Ovf led.ticks)
  rw [counted] at cases
  unfold HwLed.Settled
  rw [hwLedInterrupt_brightness]
  by_cases weight : ∃ bit < 8, (led.time + 1) % 256 = 2 ^ bit
  · obtain ⟨bit, inside, same⟩ := weight
    have low := (lowByte_weight inside).mpr (counted.trans same)
    have slot := @slot_weight 7 bit _ (phase.trans same)
    rw [shows, slot, ← masked_testBit bit inside, hwLedInterrupt, hwLedTick]
    dsimp only
    rw [if_pos (cases.mpr ⟨bit, inside, same⟩), low]
  · have settled := due.resolve_right weight
    have notWeight : ∀ bit, (led.time + 1) % 2 ^ (7 + 1) ≠ 2 ^ bit := by
      intro bit same
      by_cases inside : bit < 8
      · exact weight ⟨bit, inside, same⟩
      · have large : 2 ^ 8 ≤ 2 ^ bit :=
          Nat.pow_le_pow_right (by decide) (by omega)
        have less := Nat.mod_lt (led.time + 1) (show 0 < 2 ^ (7 + 1) by decide)
        omega
    rw [shows, slot_congr phase, slot_succ notWeight, hwLedInterrupt, hwLedTick]
    dsimp only
    rw [if_neg (mt cases.mp weight)]
    exact settled

theorem interrupts_brightness (n : Nat) (led : HwLed) :
    (hwLedInterrupt^[n] led).brightness = led.brightness := by
  induction n generalizing led with
  | zero => rfl
  | succ n induction =>
      rw [Function.iterate_succ_apply, induction, hwLedInterrupt_brightness]

theorem interrupts_phase (n : Nat) (led : HwLed) :
    (hwLedInterrupt^[n] led).time % 256 = (led.time + n) % 256 := by
  induction n generalizing led with
  | zero => rfl
  | succ n induction =>
      have once := hwLedInterrupt_phase led
      rw [Function.iterate_succ_apply, induction]
      omega

theorem HwLed.Settled.interrupts {led : HwLed} (settled : led.Settled)
    (n : Nat) : (hwLedInterrupt^[n] led).Settled := by
  induction n generalizing led with
  | zero => exact settled
  | succ n induction =>
      exact induction (hwLedInterrupt_settled (.inl settled))

/-- The time of a weight comes within 129 interrupts. -/
theorem settled_after (led : HwLed) {n : Nat} (enough : 129 ≤ n) :
    (hwLedInterrupt^[n] led).Settled := by
  obtain ⟨early, bit, inside, before, weight⟩ :
      ∃ early bit, bit < 8 ∧ early < 129 ∧
        (led.time + early + 1) % 256 = 2 ^ bit := by
    by_cases first : led.time % 256 < 128
    · exact ⟨127 - led.time % 256, 7, by decide, by omega, by omega⟩
    · exact ⟨256 - led.time % 256, 0, by decide, by omega, by omega⟩
  obtain ⟨late, rfl⟩ := Nat.exists_eq_add_of_le
    (show early + 1 ≤ n by omega)
  have phase := interrupts_phase early led
  have due : ∃ bit < 8,
      ((hwLedInterrupt^[early] led).time + 1) % 256 = 2 ^ bit :=
    ⟨bit, inside, by omega⟩
  rw [Nat.add_comm, Function.iterate_add_apply,
    Function.iterate_succ_apply' hwLedInterrupt early]
  exact (hwLedInterrupt_settled (.inr due)).interrupts late

theorem lit_count {led : HwLed} (settled : led.Settled) (n : Nat) :
    (Cycle.shown hwLedInterrupt HwLed.lit n led).count true =
      Nat.count
        (fun more => shows 7 led.brightness.toNat (led.time + more) = true) n := by
  induction n generalizing led with
  | zero => rfl
  | succ n induction =>
      have next := hwLedInterrupt_settled (.inl settled)
      have phase := hwLedInterrupt_phase led
      have later : ∀ more,
          shows 7 led.brightness.toNat ((hwLedInterrupt led).time + more) =
            shows 7 led.brightness.toNat (led.time + (more + 1)) := by
        intro more
        unfold shows
        rw [@slot_congr 7 _ (led.time + (more + 1)) (by omega)]
      rw [Cycle.shown, List.count_cons, induction next, Nat.count_succ',
        hwLedInterrupt_brightness]
      simp only [later]
      rw [settled]
      simp

/-- Whatever happened before, the LED is lit for a time linear in the last
brightness set, once that has settled: full brightness is always lit, and
none never. -/
theorem led_duty (events : List HwLedEvent) (b : Byte) {settling : Nat}
    (settled : 129 ≤ settling) (rounds : Nat) :
    ∃ led,
      led = Run.run hwLedEvent
        (events ++ .set b :: List.replicate settling .interrupt) .powerOn ∧
      (Cycle.shown hwLedInterrupt HwLed.lit (256 * rounds) led).count true =
        (b.toNat + b.toNat / 128) * rounds := by
  refine ⟨_, rfl, ?_⟩
  have step : hwLedEvent .interrupt = hwLedInterrupt := rfl
  rw [Run.run_append, Run.run_cons, Run.run_replicate, step]
  have brightness := interrupts_brightness settling
    (hwLedEvent (.set b) (Run.run hwLedEvent events .powerOn))
  have count := lit_count (settled_after
    (hwLedEvent (.set b) (Run.run hwLedEvent events .powerOn)) settled)
  rw [count, brightness]
  exact @count_periods 7 b.toNat b.isLt _ rounds

/-- Half brightness after full brightness, over two periods. -/
theorem led_duty_half :
    ∃ led,
      led = Run.run hwLedEvent
        ([.interrupt, .set 0xFF, .interrupt] ++
          .set 0x80 :: List.replicate 129 .interrupt) .powerOn ∧
      (Cycle.shown hwLedInterrupt HwLed.lit (256 * 2) led).count true =
        ((0x80 : Byte).toNat + (0x80 : Byte).toNat / 128) * 2 :=
  led_duty _ _ (Nat.le_refl 129) 2

end BusNinja
