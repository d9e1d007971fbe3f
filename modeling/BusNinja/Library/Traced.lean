import Mathlib.Control.Monad.Writer

/-!
# Computations that record what they do

A traced computation may run out of rounds, and it records events on the way.
`Tracks` compares it with a plain computation: it returns whatever the plain
one returns, and all events it records are allowed.
-/

namespace Tracing

universe u

variable {τ α β : Type u}

abbrev Traced (τ α : Type u) : Type u := WriterT (List τ) Option α

/-- No result: the rounds have run out. -/
def unfinished : Traced τ α := WriterT.mk none

def record (event : τ) : Traced τ PUnit := tell [event]

def Tracks (Allowed : τ → Prop) (plain : Option α) (traced : Traced τ α) : Prop :=
  ∀ a, plain = some a →
    ∃ trace, traced.run = some (a, trace) ∧ ∀ event ∈ trace, Allowed event

variable {Allowed : τ → Prop}

theorem tracks_pure (a : α) : Tracks Allowed (some a) (pure a : Traced τ α) := by
  rintro _ ⟨⟩
  exact ⟨[], rfl, List.forall_mem_nil _⟩

theorem tracks_none (traced : Traced τ α) : Tracks Allowed none traced := by
  intro a returns
  cases returns

theorem Tracks.bind {plain : Option α} {traced : Traced τ α}
    {nextPlain : α → Option β} {nextTraced : α → Traced τ β}
    (first : Tracks Allowed plain traced)
    (next : ∀ a, plain = some a → Tracks Allowed (nextPlain a) (nextTraced a)) :
    Tracks Allowed (plain >>= nextPlain) (traced >>= nextTraced) := by
  intro b returns
  obtain ⟨a, returned, continued⟩ := Option.bind_eq_some_iff.mp returns
  obtain ⟨before, ran, allowedBefore⟩ := first a returned
  obtain ⟨after, ranOn, allowedAfter⟩ := next a returned b continued
  refine ⟨before ++ after, ?_, ?_⟩
  · rw [WriterT.run] at ran ranOn
    change (traced.bind fun result => (nextTraced result.1).map
      fun later => (later.1, result.2 ++ later.2)) = _
    rw [ran, Option.bind_some, ranOn, Option.map_some]
  · exact List.forall_mem_append.mpr ⟨allowedBefore, allowedAfter⟩

/-- A computation that returns `a` may be run first. -/
theorem Tracks.after {a : α} {traced : Traced τ α} {plain : Option β}
    {nextTraced : α → Traced τ β} (first : Tracks Allowed (some a) traced)
    (next : Tracks Allowed plain (nextTraced a)) :
    Tracks Allowed plain (traced >>= nextTraced) := by
  have same : (some a >>= fun _ => plain) = plain := rfl
  rw [← same]
  refine first.bind ?_
  rintro _ ⟨⟩
  exact next

theorem tracks_record {event : τ} (allowed : Allowed event) :
    Tracks Allowed (some PUnit.unit) (record event) := by
  rintro _ ⟨⟩
  exact ⟨[event], rfl, List.forall_mem_singleton.mpr allowed⟩

theorem Tracks.ite {p q : Prop} [Decidable p] [Decidable q] (same : p ↔ q)
    {plain plainElse : Option α} {traced tracedElse : Traced τ α}
    (yes : p → Tracks Allowed plain traced)
    (no : ¬ p → Tracks Allowed plainElse tracedElse) :
    Tracks Allowed (if p then plain else plainElse)
      (if q then traced else tracedElse) := by
  by_cases holds : p
  · rw [if_pos holds, if_pos (same.mp holds)]
    exact yes holds
  · rw [if_neg holds, if_neg (mt same.mpr holds)]
    exact no holds

end Tracing
