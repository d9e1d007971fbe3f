import BusNinja.BusI2cRuns

/-!
# The error state of the I2C driver

After a refused byte the driver stays in its error state until it is started,
stopped or opened again.  The state is meant to keep the bus quiet, but every
further transfer clears the bus once more.
-/

namespace BusNinja

section

variable (slave : Slave)

theorem transfer_in_error (call : BusI2cCall) (bus : BusI2c)
    (transfer : call = .read ∨ ∃ c, call = .write c)
    (error : bus.state = .error) :
    (busI2cCall slave call bus).state = .error ∧
      ∃ cleared,
        Performed (clearing cleared) bus (busI2cCall slave call bus) := by
  obtain ⟨new, moves, performed⟩ := busI2cCall_step slave bus call
  rw [error] at moves
  obtain ⟨state, cleared, rfl⟩ :
      (busI2cCall slave call bus).state = .error ∧
        ∃ cleared, new = clearing cleared := by
    rcases transfer with rfl | ⟨c, rfl⟩
    · exact moves.of_read_error
    · exact moves.of_write_error
  exact ⟨state, cleared, performed⟩

theorem transfers_in_error (calls : List BusI2cCall) (bus : BusI2c)
    (transfers : ∀ call ∈ calls, call = .read ∨ ∃ c, call = .write c)
    (error : bus.state = .error) :
    (Run.run (busI2cCall slave) calls bus).state = .error ∧
      ∃ clears : List Bool, clears.length = calls.length ∧
        Performed (clears.flatMap clearing) bus
          (Run.run (busI2cCall slave) calls bus) := by
  induction calls generalizing bus with
  | nil => exact ⟨error, [], rfl, Performed.none bus⟩
  | cons call calls induction =>
      obtain ⟨state, cleared, first⟩ := transfer_in_error slave call bus
        (transfers call List.mem_cons_self) error
      obtain ⟨final, clears, length, later⟩ := induction _
        (fun call member => transfers call (List.mem_cons_of_mem _ member))
        state
      refine ⟨final, cleared :: clears, ?_, first.trans later⟩
      rw [List.length_cons, List.length_cons, length]

/-- The transfers of a transaction that has failed, and its stop. -/
theorem transfers_from_error (calls : List BusI2cCall) (bus : BusI2c)
    (transfers : ∀ call ∈ calls, call = .read ∨ ∃ c, call = .write c)
    (error : bus.state = .error) :
    ∃ clears : List Bool,
      (Run.run (busI2cCall slave) (calls ++ [.stop]) bus).state = .init ∧
      Performed (clears.flatMap clearing) bus
        (Run.run (busI2cCall slave) (calls ++ [.stop]) bus) := by
  obtain ⟨state, clears, _, performed⟩ :=
    transfers_in_error slave calls bus transfers error
  rw [Run.run_append]
  obtain ⟨new, moves, stopped⟩ := busI2cCall_step slave
    (Run.run (busI2cCall slave) calls bus) .stop
  rw [state] at moves
  obtain ⟨final, rfl⟩ := moves.of_stop_error
  have whole := performed.trans stopped
  rw [List.append_nil] at whole
  exact ⟨clears, final, whole⟩

/-- Nothing was put on the wire, and the driver is in its error state. -/
structure SilentError (before after : BusI2c) : Prop where
  state : after.state = .error
  ops : after.hw.ops = before.hw.ops
  samples : after.hw.samples = before.hw.samples

/-- The error state lasts, but it is silent only while nothing is asked
for. -/
theorem error_state_silent_iff (calls : List BusI2cCall) (bus : BusI2c)
    (transfers : ∀ call ∈ calls, call = .read ∨ ∃ c, call = .write c)
    (error : bus.state = .error) :
    SilentError bus (Run.run (busI2cCall slave) calls bus) ↔ calls = [] := by
  constructor
  · intro silent
    obtain ⟨_, clears, length, performed⟩ :=
      transfers_in_error slave calls bus transfers error
    have quiet : clears.flatMap clearing = [] := by
      have ops := performed.issued.ops
      rw [silent.ops] at ops
      exact List.self_eq_append_right.mp ops
    have none : clears = [] := by
      cases clears with
      | nil => rfl
      | cons cleared clears => simp [clearing] at quiet
    rw [none] at length
    exact List.eq_nil_of_length_eq_zero length.symm
  · rintro rfl
    exact ⟨error, rfl, rfl⟩

end

/-- A write to an address nobody has: the next byte still clears the bus. -/
def refusedWrite : BusI2c :=
  Run.run (busI2cCall (Slave.pulling [])) [.start, .write 0xA6, .write 0]
    (justOpened (Slave.pulling []) powerOn)

theorem refusedWrite_error : refusedWrite.state = .error := by
  decide +kernel

theorem error_state_silent_iff_refusedWrite :
    SilentError refusedWrite
        (Run.run (busI2cCall (Slave.pulling [])) [.write 1] refusedWrite) ↔
      [BusI2cCall.write 1] = [] :=
  error_state_silent_iff (Slave.pulling []) [.write 1] refusedWrite
    (fun _ member => .inr ⟨1, List.mem_singleton.mp member⟩)
    refusedWrite_error

theorem error_state_clears_bus :
    ¬ ∀ (slave : Slave) (bus : BusI2c) (earlier calls : List BusI2cCall),
      (Run.run (busI2cCall slave) earlier (justOpened slave bus)).state =
          .error →
      (∀ call ∈ calls, call = .read ∨ ∃ c, call = .write c) →
      SilentError (Run.run (busI2cCall slave) earlier (justOpened slave bus))
        (Run.run (busI2cCall slave) calls
          (Run.run (busI2cCall slave) earlier (justOpened slave bus))) := by
  intro always
  have silent := always (Slave.pulling []) powerOn
    [.start, .write 0xA6, .write 0] [.write 1] refusedWrite_error
    (fun _ member => .inr ⟨1, List.mem_singleton.mp member⟩)
  have ops := silent.ops
  revert ops
  decide +kernel

end BusNinja
