import BusNinja.BusI2cError

/-!
# The delayed driver performs the direct transaction

The driver postpones every operation by one call.  Over a whole transaction,
from start to stop, what reaches the wire is nevertheless the transaction as
it was asked for: the address, then the data bytes up to the first one the
slave refuses, or all the bytes to be read with only the last one not
acknowledged.
-/

namespace BusNinja

/-- The slave's answers to at most `n` data bytes, sent until it refuses one. -/
inductive UntilNack : Nat → List Bool → Prop where
  | done : UntilNack 0 []
  | refused (n : Nat) : UntilNack (n + 1) [false]
  | acked {n : Nat} {answers : List Bool} :
      UntilNack n answers → UntilNack (n + 1) (true :: answers)

/-- How a transaction ends on the wire: with its own STOP, or with the bus
clears of its error recovery. -/
def Closing (ops : List HwI2cOp) : Prop :=
  ops = [.stop] ∨ ∃ clears : List Bool, clears ≠ [] ∧ ops = clears.flatMap clearing

/-- Bytes received in one go: all but the last are acknowledged. -/
def receiveAll : List Byte → List HwI2cOp
  | [] => []
  | [data] => [.rx data false]
  | data :: more => .rx data true :: receiveAll more

/-- The driver is back in its first state and the last operation was a STOP. -/
structure Closed (bus : BusI2c) : Prop where
  state : bus.state = .init
  holdBus : bus.hw.holdBus = false
  stopped : bus.hw.ops.getLast? = some .stop

theorem closing_last {ops : List HwI2cOp} (closing : Closing ops) :
    ops.getLast? = some .stop := by
  rcases closing with rfl | ⟨clears, nonempty, rfl⟩
  · rfl
  · obtain ⟨earlier, last, rfl⟩ :=
      List.eq_nil_or_concat clears |>.resolve_left nonempty
    simp [clearing]

theorem Closed.of_closing {new closing : List HwI2cOp} {before after : BusI2c}
    (state : after.state = .init)
    (performed : Performed (new ++ closing) before after)
    (closes : Closing closing) : Closed after := by
  have stopped : (new ++ closing).getLast? = some .stop := by
    simp [List.getLast?_append, closing_last closes]
  refine ⟨state, congrArg Grip.holdBus (performed.issued.free_of_stop stopped), ?_⟩
  rw [performed.issued.ops, List.getLast?_append, stopped]
  rfl

section

variable (slave : Slave)

/-- With a data byte pending, that byte and the rest go out until one of
them is refused; if none is, the transaction ends with its own STOP. -/
theorem writes_from_writeDataPending (data : List Byte) (bus : BusI2c)
    (pending : bus.state = .writeDataPending) :
    ∃ answers closing, UntilNack (data.length + 1) answers ∧
      Closing closing ∧ (false ∉ answers → closing = [.stop]) ∧
      (Run.run (busI2cCall slave) (data.map .write ++ [.stop]) bus).state =
        .init ∧
      Performed
        (List.zipWith .tx (bus.pendingData :: data) answers ++ closing) bus
        (Run.run (busI2cCall slave) (data.map .write ++ [.stop]) bus) := by
  induction data generalizing bus with
  | nil =>
      obtain ⟨new, moves, performed⟩ := busI2cCall_step slave bus .stop
      rw [pending] at moves
      obtain ⟨state, acked, rfl⟩ := moves.of_stop_writeDataPending
      have untilNack : UntilNack 1 [acked] := by
        cases acked with
        | false => exact .refused 0
        | true => exact .acked .done
      exact ⟨[acked], [.stop], untilNack, .inl rfl, fun _ => rfl, state, performed⟩
  | cons c data induction =>
      obtain ⟨new, moves, performed⟩ := busI2cCall_step slave bus (.write c)
      rw [pending] at moves
      rcases moves.of_write_writeDataPending with
        ⟨state, stored, rfl⟩ | ⟨cleared, state, rfl⟩
      · obtain ⟨answers, closing, untilNack, closes, stops, final, later⟩ :=
          induction _ state
        rw [stored] at later
        have stopsToo : false ∉ true :: answers → closing = [.stop] := by
          intro accepted
          exact stops fun refused => accepted (List.mem_cons_of_mem _ refused)
        exact ⟨true :: answers, closing, .acked untilNack, closes, stopsToo, final,
          performed.trans later⟩
      · obtain ⟨clears, final, later⟩ :=
          transfers_from_error slave (data.map .write) _ (by simp) state
        exact ⟨[false], (cleared :: clears).flatMap clearing, .refused _,
          .inr ⟨_, by simp, rfl⟩, fun accepted => absurd (by simp) accepted, final,
          performed.trans later⟩

theorem writes_ending (data : List Byte) (bus : BusI2c)
    (pending : bus.state = .startPending) :
    ∃ acked answers closing,
      (if acked = true then UntilNack data.length answers else answers = []) ∧
      Closing closing ∧
      (acked = true → false ∉ answers → closing = [.stop]) ∧
      (Run.run (busI2cCall slave) (data.map .write ++ [.stop]) bus).state =
        .init ∧
      Performed
        (.start bus.pendingData (rdwrOf bus.pendingData) acked ::
          List.zipWith .tx data answers ++ closing) bus
        (Run.run (busI2cCall slave) (data.map .write ++ [.stop]) bus) := by
  cases data with
  | nil =>
      obtain ⟨new, moves, performed⟩ := busI2cCall_step slave bus .stop
      rw [pending] at moves
      obtain ⟨state, acked, rfl⟩ := moves.of_stop_startPending
      refine ⟨acked, [], [.stop], ?_, .inl rfl, fun _ _ => rfl, state, performed⟩
      split
      · exact .done
      · rfl
  | cons c data =>
      obtain ⟨new, moves, performed⟩ := busI2cCall_step slave bus (.write c)
      rw [pending] at moves
      rcases moves.of_write_startPending with
        ⟨state, stored, rfl⟩ | ⟨cleared, state, rfl⟩
      · obtain ⟨answers, closing, untilNack, closes, stops, final, later⟩ :=
          writes_from_writeDataPending slave data _ state
        rw [stored] at later
        exact ⟨true, answers, closing, untilNack, closes, fun _ => stops, final,
          performed.trans later⟩
      · obtain ⟨clears, final, later⟩ :=
          transfers_from_error slave (data.map .write) _ (by simp) state
        exact ⟨false, [], (cleared :: clears).flatMap clearing, rfl,
          .inr ⟨_, by simp, rfl⟩, nofun, final, performed.trans later⟩

theorem writes_from_startPending (data : List Byte) (bus : BusI2c)
    (pending : bus.state = .startPending) :
    ∃ acked answers closing,
      (if acked = true then UntilNack data.length answers else answers = []) ∧
      Closing closing ∧
      (Run.run (busI2cCall slave) (data.map .write ++ [.stop]) bus).state =
        .init ∧
      Performed
        (.start bus.pendingData (rdwrOf bus.pendingData) acked ::
          List.zipWith .tx data answers ++ closing) bus
        (Run.run (busI2cCall slave) (data.map .write ++ [.stop]) bus) := by
  obtain ⟨acked, answers, closing, untilNack, closes, -, state, performed⟩ :=
    writes_ending slave data bus pending
  exact ⟨acked, answers, closing, untilNack, closes, state, performed⟩

/-- With a byte still to be read, `n` more reads and the stop receive
`n + 1` bytes. -/
theorem reads_from_readDataPending (n : Nat) (bus : BusI2c)
    (pending : bus.state = .readDataPending) :
    ∃ bytes : List Byte, bytes.length = n + 1 ∧
      (Run.run (busI2cCall slave) (List.replicate n .read ++ [.stop]) bus).state =
        .init ∧
      Performed (receiveAll bytes ++ [.stop]) bus
        (Run.run (busI2cCall slave) (List.replicate n .read ++ [.stop]) bus) := by
  induction n generalizing bus with
  | zero =>
      obtain ⟨new, moves, performed⟩ := busI2cCall_step slave bus .stop
      rw [pending] at moves
      obtain ⟨state, data, rfl⟩ := moves.of_stop_readDataPending
      exact ⟨[data], rfl, state, performed⟩
  | succ n induction =>
      obtain ⟨new, moves, performed⟩ := busI2cCall_step slave bus .read
      rw [pending] at moves
      obtain ⟨state, data, rfl⟩ := moves.of_read_readDataPending
      obtain ⟨bytes, length, final, later⟩ := induction _ state
      cases bytes with
      | nil => simp at length
      | cons next bytes =>
          exact ⟨data :: next :: bytes, by simpa using length, final,
            performed.trans later⟩

/-- With the address pending, `n + 1` reads and the stop receive `n + 1`
bytes or, if the address is refused, none. -/
theorem reads_ending (n : Nat) (bus : BusI2c)
    (pending : bus.state = .startPending) :
    ∃ acked bytes closing,
      (if acked = true then bytes.length = n + 1 else bytes = []) ∧
      Closing closing ∧ (acked = true → closing = [.stop]) ∧
      (Run.run (busI2cCall slave)
        (List.replicate (n + 1) .read ++ [.stop]) bus).state = .init ∧
      Performed
        (.start bus.pendingData (rdwrOf bus.pendingData) acked ::
          receiveAll bytes ++ closing) bus
        (Run.run (busI2cCall slave)
          (List.replicate (n + 1) .read ++ [.stop]) bus) := by
  obtain ⟨new, moves, performed⟩ := busI2cCall_step slave bus .read
  rw [pending] at moves
  rcases moves.of_read_startPending with ⟨state, rfl⟩ | ⟨cleared, state, rfl⟩
  · obtain ⟨bytes, length, final, later⟩ :=
      reads_from_readDataPending slave n _ state
    exact ⟨true, bytes, [.stop], length, .inl rfl, fun _ => rfl, final,
      performed.trans later⟩
  · obtain ⟨clears, final, later⟩ :=
      transfers_from_error slave (List.replicate n .read) _ (by simp) state
    exact ⟨false, [], (cleared :: clears).flatMap clearing, rfl,
      .inr ⟨_, by simp, rfl⟩, nofun, final, performed.trans later⟩

theorem reads_from_startPending (n : Nat) (bus : BusI2c)
    (pending : bus.state = .startPending) :
    ∃ acked bytes closing,
      (if acked = true then bytes.length = n + 1 else bytes = []) ∧
      Closing closing ∧
      (Run.run (busI2cCall slave)
        (List.replicate (n + 1) .read ++ [.stop]) bus).state = .init ∧
      Performed
        (.start bus.pendingData (rdwrOf bus.pendingData) acked ::
          receiveAll bytes ++ closing) bus
        (Run.run (busI2cCall slave)
          (List.replicate (n + 1) .read ++ [.stop]) bus) := by
  obtain ⟨acked, bytes, closing, length, closes, -, state, performed⟩ :=
    reads_ending slave n bus pending
  exact ⟨acked, bytes, closing, length, closes, state, performed⟩

theorem address_pending (bus : BusI2c) (a : Byte) :
    (Run.run (busI2cCall slave) [.start, .write a] bus).state = .startPending ∧
      (Run.run (busI2cCall slave) [.start, .write a] bus).pendingData = a ∧
      Performed [] bus
        (Run.run (busI2cCall slave) [.start, .write a] bus) := by
  obtain ⟨new, moves, performed⟩ := busI2cCall_step slave bus .start
  obtain ⟨state, _, rfl⟩ := moves.of_start
  obtain ⟨new, moves, later⟩ := busI2cCall_step slave
    (busI2cCall slave .start bus) (.write a)
  rw [state] at moves
  obtain ⟨final, stored, rfl⟩ := moves.of_write_addrPending
  exact ⟨final, stored, performed.trans later⟩

theorem received_receiveAll (bytes : List Byte) :
    received (receiveAll bytes) = bytes := by
  fun_induction receiveAll with
  | case1 => rfl
  | case2 data => rfl
  | case3 data more nonempty induction =>
      simpa [received] using induction

theorem received_closing {closing : List HwI2cOp} (closes : Closing closing) :
    received closing = [] := by
  rcases closes with rfl | ⟨clears, _, rfl⟩
  · rfl
  · simp [received, List.filterMap_flatMap, clearing]

/-- From whatever state, a write transaction puts the address and the data
bytes up to the first refused one on the wire, and a read transaction the
address and exactly the bytes asked for; both leave the driver closed. -/
theorem busI2c_performs_transaction (bus : BusI2c) (a : Byte) :
    (∀ data : List Byte, ∃ after acked answers closing,
      after = Run.run (busI2cCall slave)
        (.start :: .write a :: data.map .write ++ [.stop]) bus ∧
      (if acked = true then UntilNack data.length answers else answers = []) ∧
      Closing closing ∧
      after.hw.ops = bus.hw.ops ++
        (.start a (rdwrOf a) acked :: List.zipWith .tx data answers ++
          closing) ∧
      Closed after) ∧
    (∀ n : Nat, ∃ after acked bytes closing,
      after = Run.run (busI2cCall slave)
        (.start :: .write a :: List.replicate (n + 1) .read ++ [.stop]) bus ∧
      (if acked = true then bytes.length = n + 1 else bytes = []) ∧
      Closing closing ∧
      after.hw.ops = bus.hw.ops ++
        (.start a (rdwrOf a) acked :: receiveAll bytes ++ closing) ∧
      after.out.handed = bus.out.handed ++ bytes ∧
      Closed after) := by
  obtain ⟨pending, stored, opening⟩ := address_pending slave bus a
  constructor
  · intro data
    obtain ⟨acked, answers, closing, untilNack, closes, state, performed⟩ :=
      writes_from_startPending slave data _ pending
    rw [stored] at performed
    have whole := opening.trans performed
    exact ⟨_, acked, answers, closing, rfl, untilNack, closes,
      whole.issued.ops, .of_closing state performed closes⟩
  · intro n
    obtain ⟨acked, bytes, closing, length, closes, state, performed⟩ :=
      reads_from_startPending slave n _ pending
    rw [stored] at performed
    have whole := opening.trans performed
    have handed : received (.start a (rdwrOf a) acked :: receiveAll bytes ++
        closing) = bytes := by
      change received ([.start a (rdwrOf a) acked] ++ receiveAll bytes ++
        closing) = bytes
      simp only [received_append, received_receiveAll,
        received_closing closes, List.append_nil]
      rfl
    refine ⟨_, acked, bytes, closing, rfl, length, closes,
      whole.issued.ops, ?_, .of_closing state performed closes⟩
    exact whole.handed.trans (by rw [List.nil_append, handed])

end

end BusNinja
