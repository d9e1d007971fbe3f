import Mathlib.Data.List.Chain

/-!
# A device attached to a port

The device is told of every value written to the port and of the value it
replaces, and is a state machine over these changes.  How a port may change
is a relation between neighbouring values.
-/

namespace Attached

variable {π σ : Type*}

/-- The device after the values are written to a port that held `before`. -/
def feed (react : π → π → σ → σ) : π → List π → σ → σ
  | _, [], state => state
  | before, value :: values, state =>
      feed react value values (react before value state)

variable (react : π → π → σ → σ)

@[simp] theorem feed_nil (before : π) (state : σ) :
    feed react before [] state = state := rfl

@[simp] theorem feed_cons (before value : π) (values : List π) (state : σ) :
    feed react before (value :: values) state =
      feed react value values (react before value state) := rfl

theorem feed_append (before : π) (first second : List π) (state : σ) :
    feed react before (first ++ second) state =
      feed react (first.getLastD before) second
        (feed react before first state) := by
  induction first generalizing before state with
  | nil => rfl
  | cons value values induction =>
      rw [List.cons_append, feed_cons, feed_cons, induction, List.getLastD_cons]

/-- The port changed as permitted from the value it held. -/
def Changed (permitted : π → π → Prop) (before : π) (values : List π) : Prop :=
  (before :: values).IsChain permitted

theorem getLastD_append (before : π) (first second : List π) :
    (first ++ second).getLastD before =
      second.getLastD (first.getLastD before) := by
  induction first generalizing before with
  | nil => rfl
  | cons value values induction =>
      rw [List.cons_append, List.getLastD_cons, List.getLastD_cons, induction]

variable {permitted : π → π → Prop}

theorem Changed.nil (before : π) : Changed permitted before [] :=
  .singleton before

theorem Changed.cons {before value : π} {values : List π}
    (now : permitted before value) (later : Changed permitted value values) :
    Changed permitted before (value :: values) := .cons_cons now later

theorem Changed.append {before : π} {first second : List π}
    (earlier : Changed permitted before first)
    (later : Changed permitted (first.getLastD before) second) :
    Changed permitted before (first ++ second) := by
  induction first generalizing before with
  | nil => exact later
  | cons value values induction =>
      obtain ⟨now, rest⟩ := List.isChain_cons_cons.mp earlier
      rw [List.getLastD_cons] at later
      exact .cons now (induction rest later)

end Attached
