import Mathlib.Data.List.Basic
import Mathlib.Logic.Function.Iterate

/-!
# Runs of a deterministic machine

A machine is a step function from an input and a state to the next state.
Runs are folds of the step function.  A step condition relates an input to
the state it is applied in; `Meets` asks for it at every step of one run.
-/

namespace Run

variable {ι σ : Type*} (step : ι → σ → σ)

def run : List ι → σ → σ
  | [], state => state
  | input :: inputs, state => run inputs (step input state)

@[simp] theorem run_nil (state : σ) : run step [] state = state := rfl

@[simp] theorem run_cons (input : ι) (inputs : List ι) (state : σ) :
    run step (input :: inputs) state = run step inputs (step input state) := rfl

theorem run_append (first second : List ι) (state : σ) :
    run step (first ++ second) state =
      run step second (run step first state) := by
  induction first generalizing state with
  | nil => rfl
  | cons input inputs induction => exact induction (step input state)

theorem run_replicate (count : Nat) (input : ι) (state : σ) :
    run step (List.replicate count input) state = (step input)^[count] state := by
  induction count generalizing state with
  | zero => rfl
  | succ count induction => exact induction (step input state)

/-- Every step of the run is taken under `condition`. -/
def Meets (condition : ι → σ → Prop) : List ι → σ → Prop
  | [], _ => True
  | input :: inputs, state =>
      condition input state ∧ Meets condition inputs (step input state)

instance decidableMeets (condition : ι → σ → Prop)
    [∀ input state, Decidable (condition input state)] :
    ∀ inputs state, Decidable (Meets step condition inputs state)
  | [], _ => inferInstanceAs (Decidable True)
  | input :: inputs, state =>
      have := decidableMeets condition inputs (step input state)
      inferInstanceAs (Decidable (_ ∧ _))

variable {step}

theorem meets_append {condition : ι → σ → Prop} (first second : List ι)
    (state : σ) :
    Meets step condition (first ++ second) state ↔
      Meets step condition first state ∧
        Meets step condition second (run step first state) := by
  induction first generalizing state with
  | nil => simp [Meets]
  | cons input inputs induction =>
      simp only [List.cons_append, Meets, run_cons, induction, and_assoc]

/-- Meeting a condition at every step is meeting it wherever the run is cut. -/
theorem meets_iff_of_split {condition : ι → σ → Prop} (inputs : List ι)
    (state : σ) :
    Meets step condition inputs state ↔
      ∀ earlier input later, inputs = earlier ++ input :: later →
        condition input (run step earlier state) := by
  constructor
  · rintro meets earlier input later rfl
    exact ((meets_append earlier _ state).mp meets).2.1
  · intro everywhere
    induction inputs generalizing state with
    | nil => trivial
    | cons input inputs induction =>
        refine ⟨everywhere [] input inputs rfl, induction _ ?_⟩
        intro earlier next later cut
        exact everywhere (input :: earlier) next later (by rw [cut]; rfl)

/-- An invariant that a step keeps exactly under the condition, and that is
never regained, holds at the end of exactly the runs that meet it. -/
theorem run_invariant_iff {condition : ι → σ → Prop} {Inv : σ → Prop}
    (kept : ∀ input state,
      Inv (step input state) ↔ Inv state ∧ condition input state)
    (inputs : List ι) (state : σ) :
    Inv (run step inputs state) ↔
      Inv state ∧ Meets step condition inputs state := by
  induction inputs generalizing state with
  | nil => simp [Meets]
  | cons input inputs induction =>
      rw [run_cons, induction, kept, and_assoc]
      rfl

/-- What every allowed step keeps holds at the end of every allowed run. -/
theorem run_invariant_of_allowed {Inv : σ → Prop} {Allowed : ι → Prop}
    (preserved : ∀ input state, Allowed input → Inv state →
      Inv (step input state))
    {inputs : List ι} (allowed : ∀ input ∈ inputs, Allowed input) {state : σ}
    (initial : Inv state) : Inv (run step inputs state) := by
  induction inputs generalizing state with
  | nil => exact initial
  | cons input inputs induction =>
      obtain ⟨first, rest⟩ := List.forall_mem_cons.mp allowed
      exact induction rest (preserved input state first initial)

theorem run_invariant {Inv : σ → Prop}
    (preserved : ∀ input state, Inv state → Inv (step input state))
    (inputs : List ι) {state : σ} (initial : Inv state) :
    Inv (run step inputs state) := by
  have allowed : ∀ input ∈ inputs, (fun _ : ι => True) input :=
    fun _ _ => trivial
  exact run_invariant_of_allowed (fun input state _ => preserved input state)
    allowed initial

/-- Two step conditions that agree under an invariant, and whose common
steps keep it, are met by the same runs over allowed inputs. -/
theorem meets_iff_of_allowed {left right : ι → σ → Prop} {Inv : σ → Prop}
    {Allowed : ι → Prop}
    (agree : ∀ input state, Allowed input → Inv state →
      (left input state ↔ right input state))
    (preserved : ∀ input state, Allowed input → Inv state → right input state →
      Inv (step input state))
    {inputs : List ι} (allowed : ∀ input ∈ inputs, Allowed input) {state : σ}
    (initial : Inv state) :
    Meets step left inputs state ↔ Meets step right inputs state := by
  induction inputs generalizing state with
  | nil => exact Iff.rfl
  | cons input inputs induction =>
      obtain ⟨first, rest⟩ := List.forall_mem_cons.mp allowed
      have head := agree input state first initial
      constructor
      · rintro ⟨now, later⟩
        have met := head.mp now
        exact ⟨met,
          (induction rest (preserved input state first initial met)).mp later⟩
      · rintro ⟨now, later⟩
        exact ⟨head.mpr now,
          (induction rest (preserved input state first initial now)).mpr later⟩

theorem meets_iff_of_invariant {left right : ι → σ → Prop} {Inv : σ → Prop}
    (agree : ∀ input state, Inv state → (left input state ↔ right input state))
    (preserved : ∀ input state, Inv state → right input state →
      Inv (step input state))
    {inputs : List ι} {state : σ} (initial : Inv state) :
    Meets step left inputs state ↔ Meets step right inputs state := by
  have allowed : ∀ input ∈ inputs, (fun _ : ι => True) input :=
    fun _ _ => trivial
  exact meets_iff_of_allowed (fun input state _ => agree input state)
    (fun input state _ => preserved input state) allowed initial

/-- Two machines whose allowed steps keep a relation between their states end
every allowed run related. -/
theorem run_related {τ : Type*} {other : ι → τ → τ} {Related : σ → τ → Prop}
    {Allowed : ι → Prop}
    (kept : ∀ input state image, Allowed input → Related state image →
      Related (step input state) (other input image))
    {inputs : List ι} (allowed : ∀ input ∈ inputs, Allowed input)
    {state : σ} {image : τ} (initial : Related state image) :
    Related (run step inputs state) (run other inputs image) := by
  induction inputs generalizing state image with
  | nil => exact initial
  | cons input inputs induction =>
      obtain ⟨first, rest⟩ := List.forall_mem_cons.mp allowed
      exact induction rest (kept input state image first initial)

/-- The machine beside an observer that sees only the inputs. -/
def observed {η : Type*} (step : ι → σ → σ) (observe : ι → η → η) (input : ι)
    (state : σ × η) : σ × η :=
  (step input state.1, observe input state.2)

theorem run_observed {η : Type*} (observe : ι → η → η) (inputs : List ι)
    (state : σ × η) :
    run (observed step observe) inputs state =
      (run step inputs state.1, run observe inputs state.2) := by
  induction inputs generalizing state with
  | nil => rfl
  | cons input inputs induction => exact induction _

def record (input : ι) (inputs : List ι) : List ι := inputs ++ [input]

theorem run_record (inputs earlier : List ι) :
    run record inputs earlier = earlier ++ inputs := by
  induction inputs generalizing earlier with
  | nil => rw [run_nil, List.append_nil]
  | cons input inputs induction =>
      rw [run_cons, induction, record, List.append_assoc, List.singleton_append]

/-- A condition on the state and on the inputs so far. -/
theorem meets_recorded_iff {condition : ι → σ × List ι → Prop}
    (inputs : List ι) (state : σ) :
    Meets (observed step record) condition inputs (state, []) ↔
      ∀ earlier input later, inputs = earlier ++ input :: later →
        condition input (run step earlier state, earlier) := by
  rw [meets_iff_of_split]
  simp only [run_observed, run_record, List.nil_append]

end Run
