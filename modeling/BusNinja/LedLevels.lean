import BusNinja.Library.Blend
import BusNinja.Source.LedTimer

/-!
# The brightness of one tick

`led_seq_tick` interpolates in 16 bits.  For the values a sequence can hold
the sum is at most 255 times the duration, so nothing overflows and the level
is the truncated mean.
-/

namespace BusNinja

/-- `(seq_interp_A*(seq_dur-t)+seq_interp_B*t)/seq_dur` -/
def ledLevel (interpA interpB dur t : BitVec 16) : BitVec 16 :=
  (interpA * (dur - t) + interpB * t) / dur

/-- The argument of `hw_led_set`, in a tick that calls it. -/
def ledTickShows (driver : LedDriver) : Option Byte :=
  let led := driver.led
  let t : BitVec 16 := led.t.setWidth 16
  if t ≥ led.seqDur then none
  else
    some ((ledLevel led.seqInterpA led.seqInterpB led.seqDur t).setWidth 8)

/-- A tick goes to the next step, or shows a level and waits. -/
theorem ledSeqTick_shows (driver : LedDriver) :
    ledSeqTick driver =
      match ledTickShows driver with
      | none =>
          { driver with led := ledSeqNext driver.led, steps := driver.steps + 1 }
      | some v =>
          hwLedSet v
            { driver with
              led := { driver.led with t := driver.led.t + 1 }
              steps := driver.steps + 1 } := by
  unfold ledSeqTick ledTickShows
  dsimp only
  split <;> rfl

theorem byte_word (c : Byte) : (c.setWidth 16).toNat = c.toNat := by
  have small := c.isLt
  rw [BitVec.toNat_setWidth]
  omega

theorem before_word {d t : Byte} :
    t.setWidth 16 ≥ d.setWidth 16 ↔ d.toNat ≤ t.toNat := by
  rw [ge_iff_le, BitVec.le_def, byte_word, byte_word]

def levelAt (a b d t : Byte) : BitVec 16 :=
  ledLevel (a.setWidth 16) (b.setWidth 16) (d.setWidth 16) (t.setWidth 16)

/-- In 16 bits the level is what it is over the integers. -/
theorem levelAt_toNat (a b : Byte) {d t : Byte} (before : t.toNat < d.toNat) :
    (levelAt a b d t).toNat = Blend.blend a.toNat b.toNat d.toNat t.toNat := by
  have low := a.isLt
  have high := b.isLt
  have long := d.isLt
  have sum := @Blend.weighted_le a.toNat b.toNat d.toNat t.toNat 255 (by omega)
    (by omega) (Nat.le_of_lt before)
  have left : a.toNat * (d.toNat - t.toNat) ≤ 255 * d.toNat :=
    Nat.le_trans (Nat.le_add_right _ _) sum
  have right : b.toNat * t.toNat ≤ 255 * d.toNat :=
    Nat.le_trans (Nat.le_add_left _ _) sum
  have rest : (d.setWidth 16 - t.setWidth 16).toNat = d.toNat - t.toNat := by
    rw [BitVec.toNat_sub, byte_word, byte_word]
    omega
  have first : (a.setWidth 16 * (d.setWidth 16 - t.setWidth 16)).toNat =
      a.toNat * (d.toNat - t.toNat) := by
    rw [BitVec.toNat_mul, rest, byte_word]
    exact Nat.mod_eq_of_lt (by omega)
  have second : (b.setWidth 16 * t.setWidth 16).toNat = b.toNat * t.toNat := by
    rw [BitVec.toNat_mul, byte_word, byte_word]
    exact Nat.mod_eq_of_lt (by omega)
  have total : (a.setWidth 16 * (d.setWidth 16 - t.setWidth 16) +
      b.setWidth 16 * t.setWidth 16).toNat =
        a.toNat * (d.toNat - t.toNat) + b.toNat * t.toNat := by
    rw [BitVec.toNat_add, first, second]
    exact Nat.mod_eq_of_lt (by omega)
  rw [levelAt, ledLevel, BitVec.toNat_udiv, total, byte_word, Blend.blend]

/-- A step of the sequence is under way, `t` ticks in. -/
structure Led.Ramps (a b d t : Byte) (led : Led) : Prop where
  interpA : led.seqInterpA = a.setWidth 16
  interpB : led.seqInterpB = b.setWidth 16
  dur : led.seqDur = d.setWidth 16
  t : led.t = t

theorem ledTickShows_ramp {a b d t : Byte} {driver : LedDriver}
    (ramps : driver.led.Ramps a b d t) (before : t.toNat < d.toNat) :
    ledTickShows driver =
      some (BitVec.ofNat 8 (Blend.blend a.toNat b.toNat d.toNat t.toNat)) := by
  have early : ¬ t.setWidth 16 ≥ d.setWidth 16 := by
    rw [before_word]
    exact Nat.not_le_of_lt before
  simp only [ledTickShows, ramps.interpA, ramps.interpB, ramps.dur, ramps.t,
    if_neg early]
  rw [← levelAt_toNat a b before]
  congr 1

theorem ledTickShows_end {a b d : Byte} {driver : LedDriver}
    (ramps : driver.led.Ramps a b d d) : ledTickShows driver = none := by
  simp only [ledTickShows, ramps.dur, ramps.t]
  exact if_pos (before_word.mpr (Nat.le_refl _))

/-- The level of a tick is exact, lies between start and end and moves from
the one towards the other, and `hw_led_set` is given all of it. -/
structure Interpolates (a b d t : Byte) : Prop where
  exact : (levelAt a b d t).toNat =
    (a.toNat * (d.toNat - t.toNat) + b.toNat * t.toNat) / d.toNat
  low : min a.toNat b.toNat ≤ (levelAt a b d t).toNat
  high : (levelAt a b d t).toNat ≤ max a.toNat b.toNat
  first : t = 0 → (levelAt a b d t).toNat = a.toNat
  rising : a ≤ b → ∀ later, t ≤ later → later < d →
    (levelAt a b d t).toNat ≤ (levelAt a b d later).toNat
  falling : b ≤ a → ∀ later, t ≤ later → later < d →
    (levelAt a b d later).toNat ≤ (levelAt a b d t).toNat
  shown : ∀ driver : LedDriver, driver.led.Ramps a b d t →
    (ledSeqTick driver).brightness.toNat = (levelAt a b d t).toNat

/-- Interpolation neither overflows nor leaves its range. -/
theorem led_levels_interpolate (a b d t : Byte) (before : t < d) :
    Interpolates a b d t := by
  rw [BitVec.lt_def] at before
  have positive : 0 < d.toNat := by omega
  have inside : t.toNat ≤ d.toNat := Nat.le_of_lt before
  have level := levelAt_toNat a b before
  refine ⟨level, ?_, ?_, ?_, ?_, ?_, ?_⟩
  · rw [level]
    exact Blend.le_blend positive inside
  · rw [level]
    exact Blend.blend_le inside
  · rintro rfl
    rw [level]
    exact Blend.blend_zero positive
  · intro order later after ends
    rw [BitVec.le_def] at order after
    rw [BitVec.lt_def] at ends
    rw [level, levelAt_toNat a b ends]
    exact Blend.blend_rising order after (Nat.le_of_lt ends)
  · intro order later after ends
    rw [BitVec.le_def] at order after
    rw [BitVec.lt_def] at ends
    rw [level, levelAt_toNat a b ends]
    exact Blend.blend_falling order after (Nat.le_of_lt ends)
  · intro driver ramps
    have bound := @Blend.blend_le a.toNat b.toNat d.toNat t.toNat inside
    have low := a.isLt
    have high := b.isLt
    have shows := ledTickShows_ramp ramps before
    rw [ledSeqTick_shows, shows, level]
    change (BitVec.ofNat 8 _).toNat = _
    rw [BitVec.toNat_ofNat]
    exact Nat.mod_eq_of_lt (by omega)

/-- One tick before the end of the longest fade, from full brightness to
half. -/
theorem led_levels_interpolate_254 :
    Interpolates 0xFF 0x80 0xFF 0xFE :=
  led_levels_interpolate 0xFF 0x80 0xFF 0xFE (by decide)

end BusNinja
