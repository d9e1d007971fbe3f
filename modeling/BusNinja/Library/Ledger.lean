import BusNinja.Library.Run

/-!
# Ledgers of a machine

A ledger says what a state holds in order, delivered or still owed, and what
every input asks for on top of it.  A step settles if the balance grows by
exactly what was asked for.  A step that forgets leaves the balance short,
and nothing later makes up for it: a run is balanced if and only if no step
of it forgets.
-/

structure Ledger (ι σ β : Type*) where
  balance : σ → List β
  asks : ι → σ → List β
  forgets : ι → σ → Prop

namespace Ledger

variable {ι σ β : Type*} (ledger : Ledger ι σ β) (step : ι → σ → σ)

/-- The step settles what it is asked for, or it forgets and falls short. -/
structure Sound (input : ι) (state : σ) : Prop where
  settled : ¬ ledger.forgets input state →
    ledger.balance (step input state) =
      ledger.balance state ++ ledger.asks input state
  short : ledger.forgets input state →
    (ledger.balance (step input state)).length <
      (ledger.balance state ++ ledger.asks input state).length

def total : List ι → σ → List β
  | [], _ => []
  | input :: inputs, state =>
      ledger.asks input state ++ total inputs (step input state)

variable {ledger step}

theorem Sound.length_le {input : ι} {state : σ}
    (sound : ledger.Sound step input state) :
    (ledger.balance (step input state)).length ≤
      (ledger.balance state ++ ledger.asks input state).length := by
  by_cases forgets : ledger.forgets input state
  · exact Nat.le_of_lt (sound.short forgets)
  · exact Nat.le_of_eq (congrArg List.length (sound.settled forgets))

/-- A run never holds more than it was asked for. -/
theorem length_balance_le (inputs : List ι) (state : σ)
    (sound : Run.Meets step (ledger.Sound step) inputs state) :
    (ledger.balance (Run.run step inputs state)).length ≤
      (ledger.balance state ++ ledger.total step inputs state).length := by
  induction inputs generalizing state with
  | nil => simp [total]
  | cons input inputs induction =>
      have later := induction (step input state) sound.2
      have now := sound.1.length_le
      simp only [List.length_append, total, Run.run_cons] at *
      omega

theorem balance_run_iff (inputs : List ι) (state : σ)
    (sound : Run.Meets step (ledger.Sound step) inputs state) :
    ledger.balance (Run.run step inputs state) =
        ledger.balance state ++ ledger.total step inputs state ↔
      Run.Meets step (fun input state => ¬ ledger.forgets input state)
        inputs state := by
  induction inputs generalizing state with
  | nil => simp [total, Run.Meets]
  | cons input inputs induction =>
      by_cases forgets : ledger.forgets input state
      · constructor
        · intro balanced
          have later := length_balance_le inputs (step input state) sound.2
          have short := sound.1.short forgets
          have lengths := congrArg List.length balanced
          simp only [List.length_append, total, Run.run_cons] at *
          omega
        · intro meets
          exact absurd forgets meets.1
      · have later := induction (step input state) sound.2
        rw [sound.1.settled forgets, List.append_assoc] at later
        rw [Run.run_cons, total, later]
        exact (and_iff_right forgets).symm

end Ledger
