import Mathlib.Data.List.Chain
import BusNinja.BusI2cRuns

/-!
# The acknowledge bit of the last byte read

All but the last byte read must be acknowledged, and the last one must not:
a slave that was asked for more keeps driving SDA.  The driver gives the
final answer when the next call tells it that no more is wanted, which only
a stop does.
-/

namespace BusNinja

/-- A byte read that was acknowledged: the slave will send another. -/
def HwI2cOp.asksMore : HwI2cOp → Bool
  | .rx _ ack => ack
  | _ => false

def HwI2cOp.isRx : HwI2cOp → Bool
  | .rx _ _ => true
  | _ => false

/-- An acknowledged byte is immediately followed by another one read. -/
def AckDiscipline (ops : List HwI2cOp) : Prop :=
  ops.IsChain fun op next => op.asksMore = true → next.isRx = true

instance (ops : List HwI2cOp) : Decidable (AckDiscipline ops) :=
  inferInstanceAs (Decidable (ops.IsChain _))

/-- The last operation has asked the slave for more. -/
def EndsAcked (ops : List HwI2cOp) : Prop :=
  ∃ op ∈ ops.getLast?, op.asksMore = true

theorem ackDiscipline_append (first second : List HwI2cOp) :
    AckDiscipline (first ++ second) ↔
      AckDiscipline first ∧ AckDiscipline second ∧
        (EndsAcked first → ∀ next ∈ second.head?, next.isRx = true) := by
  unfold AckDiscipline EndsAcked
  rw [List.isChain_append]
  constructor
  · rintro ⟨left, right, joined⟩
    refine ⟨left, right, ?_⟩
    rintro ⟨op, last, asks⟩ next head
    exact joined op last next head asks
  · rintro ⟨left, right, joined⟩
    refine ⟨left, right, ?_⟩
    intro op last next head asks
    exact joined ⟨op, last, asks⟩ next head

theorem endsAcked_append {first second : List HwI2cOp}
    (nonempty : second ≠ []) :
    EndsAcked (first ++ second) ↔ EndsAcked second := by
  unfold EndsAcked
  rw [List.getLast?_append_of_ne_nil first nonempty]

theorem ackDiscipline_of_quiet {ops : List HwI2cOp}
    (quiet : ∀ op ∈ ops, op.asksMore = false) :
    AckDiscipline ops ∧ ¬ EndsAcked ops := by
  constructor
  · induction ops with
    | nil => exact List.isChain_nil
    | cons op ops induction =>
        apply List.isChain_cons.mpr
        constructor
        · intro next _ asks
          rw [quiet op List.mem_cons_self] at asks
          cases asks
        · apply induction
          intro later member
          exact quiet later (List.mem_cons_of_mem op member)
  · rintro ⟨op, last, asks⟩
    rw [quiet op (List.mem_of_getLast? last)] at asks
    cases asks

/-- The calls that give up reading without telling the slave. -/
def BusI2cCall.abandons : BusI2cCall → Bool
  | .openBus => true
  | .start => true
  | .write _ => true
  | .command chars _ => chars = [0x73]
  | .stop => false
  | .read => false

theorem Probed.quiet {addresses : List Byte} {ops : List HwI2cOp}
    (probed : Probed addresses ops) : ∀ op ∈ ops, op.asksMore = false := by
  induction probed with
  | nil => simp
  | cons acked cleared probed induction =>
      simpa [clearing, HwI2cOp.asksMore] using induction

theorem Probed.head {address : Byte} {addresses : List Byte}
    {ops : List HwI2cOp} (probed : Probed (address :: addresses) ops) :
    ∃ acked, ops.head? = some (.start address (rdwrOf address) acked) := by
  cases probed with
  | cons acked cleared probed => exact ⟨acked, rfl⟩

namespace Moves

variable {call : BusI2cCall} {s s' : BusI2cState} {p p' : Byte}
  {new : List HwI2cOp}

theorem asks (moves : Moves call s p s' p' new) :
    (∀ op ∈ new, op.asksMore = false) ∨
      ∃ data, new = [.rx data true] ∧ s' = .readDataPending := by
  cases moves with
  | readReceived data => exact .inr ⟨data, rfl, rfl⟩
  | scanned count probed => exact .inl probed.quiet
  | opened | started | stopStart | stopWrite | stopRead | stopIdle
  | writeAddress | writeStarted | writeNotStarted | writeSent | writeNotSent
  | writeAstray | readStarted | readNotStarted | readAstray | noCommand =>
      exact .inl (by simp [clearing, HwI2cOp.asksMore])

/-- A call that does nothing on the wire keeps the reading state only if it
does not abandon it. -/
theorem silent_reading (moves : Moves call s p s' p' new) (silent : new = []) :
    s' = .readDataPending ↔ s = .readDataPending ∧ call.abandons = false := by
  cases moves with
  | started => simp [BusI2cCall.abandons]
  | stopIdle idle => rcases idle with rfl | rfl | rfl <;> simp
  | writeAddress c => simp
  | noCommand count other =>
      simpa [BusI2cCall.abandons] using fun _ => other
  | scanned count probed =>
      subst silent
      obtain ⟨acked, head⟩ := probed.head
      cases head
  | opened | stopStart | stopWrite | stopRead | writeStarted
  | writeNotStarted | writeSent | writeNotSent | writeAstray | readStarted
  | readNotStarted | readReceived | readAstray => cases silent

/-- A call goes on reading at once exactly if a byte is to be read and the
call does not abandon it. -/
theorem head_reading (moves : Moves call s p s' p' new) (sends : new ≠ []) :
    (∀ next ∈ new.head?, next.isRx = true) ↔
      s = .readDataPending ∧ call.abandons = false := by
  cases moves with
  | stopRead data => simp [HwI2cOp.isRx, BusI2cCall.abandons]
  | readReceived data => simp [HwI2cOp.isRx, BusI2cCall.abandons]
  | scanned count probed =>
      obtain ⟨acked, head⟩ := probed.head
      simp [head, HwI2cOp.isRx, BusI2cCall.abandons]
  | started | stopIdle | writeAddress | noCommand => exact absurd rfl sends
  | readAstray acked astray =>
      rcases astray with rfl | rfl | rfl | rfl <;>
        simp [clearing, HwI2cOp.isRx]
  | opened | stopStart | stopWrite | writeStarted | writeNotStarted
  | writeSent | writeNotSent | writeAstray | readStarted | readNotStarted =>
      simp [clearing, HwI2cOp.isRx, BusI2cCall.abandons]

/-- An acknowledged last byte finds the driver still reading after the call
exactly if it did before and the call does not abandon it. -/
theorem discipline_iff (moves : Moves call s p s' p' new)
    (ops : List HwI2cOp) :
    (AckDiscipline (ops ++ new) ∧
        (EndsAcked (ops ++ new) → s' = .readDataPending)) ↔
      (AckDiscipline ops ∧ (EndsAcked ops → s = .readDataPending)) ∧
        (EndsAcked ops → s = .readDataPending → call.abandons = false) := by
  by_cases silent : new = []
  · rw [silent, List.append_nil, moves.silent_reading silent]
    tauto
  · have own : AckDiscipline new ∧ (EndsAcked new → s' = .readDataPending) := by
      rcases moves.asks with quiet | ⟨data, rfl, reading⟩
      · obtain ⟨discipline, notAcked⟩ := ackDiscipline_of_quiet quiet
        exact ⟨discipline, fun acked => absurd acked notAcked⟩
      · exact ⟨List.isChain_singleton _, fun _ => reading⟩
    rw [ackDiscipline_append, endsAcked_append silent,
      moves.head_reading silent]
    tauto

end Moves

/-- The trace is disciplined, and a slave that was asked for more finds the
driver about to read it. -/
structure Receives (bus : BusI2c) : Prop where
  discipline : AckDiscipline bus.hw.ops
  reading : EndsAcked bus.hw.ops → bus.state = .readDataPending

/-- A slave that was asked for more is not abandoned. -/
def KeepsReading (call : BusI2cCall) (bus : BusI2c) : Prop :=
  EndsAcked bus.hw.ops → bus.state = .readDataPending →
    call.abandons = false

section

variable (slave : Slave)

theorem receives_step (call : BusI2cCall) (bus : BusI2c) :
    Receives (busI2cCall slave call bus) ↔
      Receives bus ∧ KeepsReading call bus := by
  obtain ⟨new, moves, performed⟩ := busI2cCall_step slave bus call
  have step := moves.discipline_iff bus.hw.ops
  rw [← performed.issued.ops] at step
  constructor
  · rintro ⟨discipline, reading⟩
    obtain ⟨⟨before, pending⟩, keeps⟩ := step.mp ⟨discipline, reading⟩
    exact ⟨⟨before, pending⟩, keeps⟩
  · rintro ⟨⟨before, pending⟩, keeps⟩
    obtain ⟨discipline, reading⟩ := step.mpr ⟨⟨before, pending⟩, keeps⟩
    exact ⟨discipline, reading⟩

/-- Every acknowledged byte of a run is followed by another one read, with
the driver about to read it if it is the last operation, if and only if no
call of the run abandons a slave that was asked for more. -/
theorem ack_discipline_iff (bus : BusI2c) (calls : List BusI2cCall) :
    Receives (Run.run (busI2cCall slave) calls (justOpened slave bus)) ↔
      Run.Meets (busI2cCall slave) KeepsReading calls
        (justOpened slave bus) := by
  obtain ⟨_, _, none⟩ := justOpened_facts slave bus
  have initial : Receives (justOpened slave bus) := by
    constructor
    · rw [none]
      exact List.isChain_nil
    · rw [none]
      rintro ⟨op, last, _⟩
      cases last
  rw [Run.run_invariant_iff (receives_step slave)]
  simp only [initial, true_and]

end

def BusI2cCall.transfers : BusI2cCall → Bool
  | .openBus => false
  | .command _ _ => false
  | _ => true

/-- A repeated start after two reads: the byte received was acknowledged, and
the next operation is a START. -/
theorem repeated_start_abandons_slave :
    ¬ ∀ (slave : Slave) (bus : BusI2c) (calls : List BusI2cCall),
      (∀ call ∈ calls, call.transfers = true) →
      AckDiscipline (Run.run (busI2cCall slave) calls
        (justOpened slave bus)).hw.ops := by
  intro always
  have run := always (Slave.pulling [19]) powerOn
    [.start, .write 0xA7, .read, .read, .start, .write 0xA6, .stop] (by decide)
  revert run
  decide +kernel

end BusNinja
