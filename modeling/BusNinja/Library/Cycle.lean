import Mathlib.Algebra.Order.Ring.Nat
import Mathlib.Logic.Function.Iterate

/-!
# Machines that play a round over and over

A machine steps by itself and shows something before every step.  It plays a
segment if it shows exactly the segment's elements on its way from one state
to another; played segments are joined end to end.  A machine that plays one
round from every home state to another one repeats it for ever.
-/

namespace Cycle

variable {σ α : Type*} (step : σ → σ) (shows : σ → α)

/-- What is shown before each of the first steps. -/
def shown : Nat → σ → List α
  | 0, _ => []
  | steps + 1, state => shows state :: shown steps (step state)

@[simp] theorem shown_length (steps : Nat) (state : σ) :
    (shown step shows steps state).length = steps := by
  induction steps generalizing state with
  | zero => rfl
  | succ steps induction => rw [shown, List.length_cons, induction]

theorem shown_add (first second : Nat) (state : σ) :
    shown step shows (first + second) state =
      shown step shows first state ++
        shown step shows second (step^[first] state) := by
  induction first generalizing state with
  | zero => rw [Nat.zero_add]; rfl
  | succ first induction =>
      rw [Nat.succ_add, shown, shown, induction, List.cons_append,
        Function.iterate_succ_apply]

theorem shown_take {few steps : Nat} (less : few ≤ steps) (state : σ) :
    shown step shows few state = (shown step shows steps state).take few := by
  obtain ⟨more, rfl⟩ := Nat.exists_eq_add_of_le less
  rw [shown_add, List.take_left' (shown_length step shows few state)]

/-- The machine shows exactly `segment` on the way to `after`. -/
structure Plays (segment : List α) (before after : σ) : Prop where
  shown : shown step shows segment.length before = segment
  reached : step^[segment.length] before = after

variable {step shows}

namespace Plays

theorem none (state : σ) : Plays step shows [] state state := ⟨rfl, rfl⟩

theorem one {state : σ} {element : α} (seen : shows state = element) :
    Plays step shows [element] state (step state) := by
  subst seen
  exact ⟨rfl, rfl⟩

theorem trans {first second : List α} {before between after : σ}
    (earlier : Plays step shows first before between)
    (later : Plays step shows second between after) :
    Plays step shows (first ++ second) before after where
  shown := by
    rw [List.length_append, shown_add, earlier.shown, earlier.reached,
      later.shown]
  reached := by
    rw [List.length_append, Nat.add_comm, Function.iterate_add_apply,
      earlier.reached, later.reached]

end Plays

/-- Played from every home state to another one, a round is played as often
as there is time for. -/
theorem plays_rounds {Home : σ → Prop} {round : List α}
    (plays : ∀ state, Home state →
      ∃ after, Plays step shows round state after ∧ Home after)
    (rounds : Nat) {state : σ} (home : Home state) :
    ∃ after, Plays step shows (List.replicate rounds round).flatten state
      after := by
  induction rounds generalizing state with
  | zero => exact ⟨state, Plays.none state⟩
  | succ rounds induction =>
      obtain ⟨next, played, homeAgain⟩ := plays state home
      obtain ⟨after, more⟩ := induction homeAgain
      exact ⟨after, played.trans more⟩

theorem shown_rounds {Home : σ → Prop} {round : List α}
    (plays : ∀ state, Home state →
      ∃ after, Plays step shows round state after ∧ Home after)
    (nonempty : round ≠ []) (steps : Nat) {state : σ} (home : Home state) :
    shown step shows steps state =
      (List.replicate steps round).flatten.take steps := by
  obtain ⟨after, played⟩ := plays_rounds plays steps home
  have some : 1 ≤ round.length := List.length_pos_iff.mpr nonempty
  have enough : steps ≤ (List.replicate steps round).flatten.length := by
    rw [List.length_flatten, List.map_replicate, List.sum_replicate_nat]
    exact Nat.le_mul_of_pos_right steps some
  rw [shown_take step shows enough, played.shown]

end Cycle
