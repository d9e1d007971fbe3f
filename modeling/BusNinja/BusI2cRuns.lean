import BusNinja.BusI2cSteps

/-!
# Runs of the I2C driver

Runs start right after an open.  A stop frees the bus except in one state,
and data bytes stay inside a transaction unless the address scanner runs
while a data byte is pending; both laws are proved for exactly the runs that
avoid these steps.
-/

namespace BusNinja

def powerOn : BusI2c where
  state := .init
  pendingData := 0
  hw := .powerOn
  out :=
    { outmode := .hex0x8
      logEnabled := true
      console := ⟨false, []⟩
      handed := [] }

/-- The driver after an open, with the record of operations started afresh. -/
def justOpened (slave : Slave) (bus : BusI2c) : BusI2c :=
  let bus := busI2cOpen slave bus
  { bus with hw := { bus.hw with ops := [] } }

section

variable (slave : Slave) (bus : BusI2c)

theorem justOpened_facts :
    (justOpened slave bus).state = .init ∧
      (justOpened slave bus).hw.grip = Grip.free ∧
      (justOpened slave bus).hw.ops = [] := by
  obtain ⟨acked, cleared⟩ :=
    hwI2cBusClear_issued slave (hwI2cInit slave bus.hw)
  exact ⟨rfl, cleared.free_of_stop rfl, rfl⟩

end

theorem Probed.last {addresses : List Byte} {ops : List HwI2cOp}
    (probed : Probed addresses ops) (some : addresses ≠ []) :
    ops.getLast? = .some .stop := by
  induction probed with
  | nil => exact absurd rfl some
  | @cons address addresses ops acked cleared probed induction =>
      cases probed with
      | nil => rfl
      | cons nextAcked nextCleared probed =>
          have later := induction (by simp)
          rw [List.getLast?_append, later]
          rfl

theorem scanAddresses_ne_nil (i : Nat) : scanAddresses i ≠ [] := by
  cases i with
  | zero => simp [scanAddresses]
  | succ i => simp [scanAddresses_succ]

/-- A call that ends in the first or in the error state ends with a STOP,
unless it did nothing there or was a stop without an address. -/
theorem Moves.last_of_idle {call : BusI2cCall} {s s' : BusI2cState}
    {p p' : Byte} {new : List HwI2cOp} (moves : Moves call s p s' p' new)
    (idle : s' = .init ∨ s' = .error) :
    new.getLast? = some .stop ∨
      (new = [] ∧ (s = .init ∨ s = .error)) ∨
      (new = [] ∧ call = .stop ∧ s = .addrPending) := by
  cases moves with
  | opened acked => exact .inl rfl
  | started => simp at idle
  | stopStart acked => exact .inl rfl
  | stopWrite acked => exact .inl rfl
  | stopRead data => exact .inl rfl
  | stopIdle states =>
      rcases states with init | addrPending | error
      · exact .inr (.inl ⟨rfl, .inl init⟩)
      · exact .inr (.inr ⟨rfl, rfl, addrPending⟩)
      · exact .inr (.inl ⟨rfl, .inr error⟩)
  | writeAddress c => simp at idle
  | writeStarted c => simp at idle
  | writeNotStarted c acked => exact .inl rfl
  | writeSent c => simp at idle
  | writeNotSent c acked => exact .inl rfl
  | writeAstray c acked states => exact .inl rfl
  | readStarted => simp at idle
  | readNotStarted acked => exact .inl rfl
  | readReceived data => simp at idle
  | readAstray acked states => exact .inl rfl
  | scanned count probed => exact .inl (probed.last (scanAddresses_ne_nil _))
  | noCommand count other => exact .inr (.inl ⟨rfl, idle⟩)

/-- After a stop the bus is not held, both lines are released and the driver
is in its first state. -/
def StopFrees (slave : Slave) (call : BusI2cCall) (bus : BusI2c) : Prop :=
  call = .stop →
    (busI2cCall slave call bus).hw.holdBus = false ∧
      (busI2cCall slave call bus).hw.sdaDdr = false ∧
      (busI2cCall slave call bus).hw.sclDdr = false ∧
      (busI2cCall slave call bus).state = .init

instance (slave : Slave) (call : BusI2cCall) (bus : BusI2c) :
    Decidable (StopFrees slave call bus) :=
  inferInstanceAs (Decidable (_ → _))

/-- A stop that finds the driver waiting for an address finds SCL released. -/
def StopFindsAddress (call : BusI2cCall) (bus : BusI2c) : Prop :=
  call = .stop → bus.state = .addrPending → bus.hw.sclDdr = false

/-- Between calls the lines are sound, and a driver with nothing under way
has left the bus free. -/
structure Settled (bus : BusI2c) : Prop where
  sound : bus.hw.grip.Sound
  idle : bus.state = .init ∨ bus.state = .error → bus.hw.grip = Grip.free

section

variable (slave : Slave)

theorem settled_justOpened (bus : BusI2c) :
    Settled (justOpened slave bus) := by
  obtain ⟨_, free, _⟩ := justOpened_facts slave bus
  exact ⟨by rw [free]; exact ⟨rfl, by simp [Grip.free]⟩, fun _ => free⟩

theorem stopFrees_iff_free {call : BusI2cCall} {bus : BusI2c}
    (stop : call = .stop) :
    StopFrees slave call bus ↔
      (busI2cCall slave call bus).hw.grip = Grip.free := by
  subst stop
  have init : (busI2cCall slave .stop bus).state = .init := rfl
  simp [StopFrees, HwI2c.grip, Grip.free, init]

/-- In a settled state a stop frees the bus exactly if it does not meet a
pending address with SCL low. -/
theorem stopFrees_iff (call : BusI2cCall) (bus : BusI2c)
    (settled : Settled bus) :
    StopFrees slave call bus ↔ StopFindsAddress call bus := by
  by_cases stop : call = .stop
  · rw [stopFrees_iff_free slave stop]
    subst stop
    obtain ⟨new, moves, performed⟩ := busI2cCall_step slave bus .stop
    have init : (busI2cCall slave .stop bus).state = .init := rfl
    rw [init] at moves
    rcases moves.last_of_idle (.inl rfl) with
      stopped | ⟨rfl, idle⟩ | ⟨rfl, _, address⟩
    · have free := performed.issued.free_of_stop stopped
      constructor
      · intro _ _ address
        rw [address] at moves
        rw [moves.of_stop_addrPending.2] at stopped
        cases stopped
      · intro _
        exact free
    · have unchanged : (busI2cCall slave .stop bus).hw.grip = bus.hw.grip :=
        performed.issued.grip
      constructor
      · intro _ _ address
        rw [address] at idle
        rcases idle with idle | idle <;> cases idle
      · intro _
        rw [unchanged, settled.idle idle]
    · have unchanged : (busI2cCall slave .stop bus).hw.grip = bus.hw.grip :=
        performed.issued.grip
      rw [unchanged]
      constructor
      · intro free _ _
        exact congrArg Grip.sclDdr free
      · intro released
        exact Grip.free_of_sclDdr settled.sound (released rfl address)
  · exact ⟨fun _ now => absurd now stop, fun _ now => absurd now stop⟩

theorem settled_step (call : BusI2cCall) (bus : BusI2c)
    (settled : Settled bus) (finds : StopFindsAddress call bus) :
    Settled (busI2cCall slave call bus) := by
  obtain ⟨new, moves, performed⟩ := busI2cCall_step slave bus call
  constructor
  · exact performed.issued.sound settled.sound
  · intro idle
    rcases moves.last_of_idle idle with stopped | ⟨rfl, before⟩ | ⟨_, stop, _⟩
    · exact performed.issued.free_of_stop stopped
    · rw [performed.issued.grip]
      exact settled.idle before
    · apply (stopFrees_iff_free slave stop).mp
      exact (stopFrees_iff slave call bus settled).mpr finds

/-- Every stop of a run frees the bus if and only if none of them meets a
driver that waits for an address while the master still pulls SCL low. -/
theorem every_stop_frees_iff (bus : BusI2c) (calls : List BusI2cCall) :
    Run.Meets (busI2cCall slave) (StopFrees slave) calls
        (justOpened slave bus) ↔
      Run.Meets (busI2cCall slave) StopFindsAddress calls
        (justOpened slave bus) :=
  Run.meets_iff_of_invariant (stopFrees_iff slave) (settled_step slave)
    (settled_justOpened slave bus)

end

/-- A repeated start that is given no address before the stop: the stop
leaves the bus held. -/
theorem stop_after_repeated_start_holds :
    ¬ ∀ (slave : Slave) (bus : BusI2c) (calls : List BusI2cCall),
      Run.Meets (busI2cCall slave) (StopFrees slave) calls
        (justOpened slave bus) := by
  intro always
  have run := always (Slave.pulling [19]) powerOn
    [.start, .write 0xA6, .write 0, .start, .stop]
  revert run
  decide +kernel

def HwI2cOp.IsData : HwI2cOp → Bool
  | .tx _ _ => true
  | .rx _ _ => true
  | _ => false

/-- Data bytes are clocked only while the bus is held: after a START that no
STOP has followed. -/
def DataInside (ops : List HwI2cOp) (grip : Grip) : Prop :=
  ∀ earlier op later, ops = earlier ++ op :: later → op.IsData = true →
    (Run.run Grip.after earlier grip).holdBus = true

theorem dataInside_iff (ops : List HwI2cOp) (grip : Grip) :
    DataInside ops grip ↔
      Run.Meets Grip.after
        (fun op grip => op.IsData = true → grip.holdBus = true) ops grip := by
  rw [Run.meets_iff_of_split]
  rfl

theorem dataInside_append (first second : List HwI2cOp) (grip : Grip) :
    DataInside (first ++ second) grip ↔
      DataInside first grip ∧
        DataInside second (Run.run Grip.after first grip) := by
  simp only [dataInside_iff, Run.meets_append]

def BusI2c.DataPending (bus : BusI2c) : Prop :=
  bus.state = .writeDataPending ∨ bus.state = .readDataPending

instance (bus : BusI2c) : Decidable bus.DataPending :=
  inferInstanceAs (Decidable (_ ∨ _))

/-- Whenever a data byte is pending after the call, the bus is held. -/
def PendingHeld (slave : Slave) (call : BusI2cCall) (bus : BusI2c) : Prop :=
  (busI2cCall slave call bus).DataPending →
    (busI2cCall slave call bus).hw.holdBus = true

instance (slave : Slave) (call : BusI2cCall) (bus : BusI2c) :
    Decidable (PendingHeld slave call bus) :=
  inferInstanceAs (Decidable (_ → _))

/-- The scanner is not run while a data byte is pending. -/
def ScansIdle (call : BusI2cCall) (bus : BusI2c) : Prop :=
  ∀ count, call = .command [0x73] count → ¬ bus.DataPending

theorem Probed.data_inside {addresses : List Byte} {ops : List HwI2cOp}
    (probed : Probed addresses ops) (grip : Grip) : DataInside ops grip := by
  induction probed generalizing grip with
  | nil => simp [dataInside_iff, Run.Meets]
  | cons acked cleared probed induction =>
      have later := induction Grip.free
      rw [dataInside_iff] at later ⊢
      simpa [Run.Meets, HwI2cOp.IsData, clearing, Grip.after] using later

/-- If a pending byte finds the bus held, the data bytes of the call go out
inside the transaction. -/
theorem Moves.data_inside {call : BusI2cCall} {s s' : BusI2cState}
    {p p' : Byte} {new : List HwI2cOp} (moves : Moves call s p s' p' new)
    {grip : Grip}
    (held : s = .writeDataPending ∨ s = .readDataPending →
      grip.holdBus = true) :
    DataInside new grip := by
  cases moves with
  | scanned count probed => exact probed.data_inside grip
  | stopWrite | stopRead | writeSent | writeNotSent | readReceived =>
      simpa [dataInside_iff, Run.Meets, HwI2cOp.IsData, clearing] using held
  | opened | started | stopStart | stopIdle | writeAddress | writeStarted
  | writeNotStarted | writeAstray | readStarted | readNotStarted | readAstray
  | noCommand =>
      simp [dataInside_iff, Run.Meets, HwI2cOp.IsData, clearing]

/-- A data byte that is pending after a call finds the bus held, unless it
was pending before a scan. -/
theorem Moves.pending_held {call : BusI2cCall} {s s' : BusI2cState}
    {p p' : Byte} {new : List HwI2cOp} (moves : Moves call s p s' p' new)
    {grip : Grip}
    (held : s = .writeDataPending ∨ s = .readDataPending →
      grip.holdBus = true)
    (pending : s' = .writeDataPending ∨ s' = .readDataPending) :
    (Run.run Grip.after new grip).holdBus = true ∨
      ∃ count, call = .command [0x73] count := by
  cases moves with
  | scanned count probed => exact .inr ⟨count, rfl⟩
  | writeStarted | readStarted => exact .inl rfl
  | writeSent | readReceived | noCommand => exact .inl (held pending)
  | opened | started | stopStart | stopWrite | stopRead | stopIdle
  | writeAddress | writeNotStarted | writeNotSent | writeAstray
  | readNotStarted | readAstray =>
      simp at pending

section

variable (slave : Slave)

theorem scan_frees (count : BitVec 32) (bus : BusI2c) :
    (busI2cCall slave (.command [0x73] count) bus).state = bus.state ∧
      (busI2cCall slave (.command [0x73] count) bus).hw.grip = Grip.free := by
  obtain ⟨ops, hw, out, result, probed, issued, _⟩ :=
    scanLoop_step slave bus 0xFF
  have scanned : busI2cCall slave (.command [0x73] count) bus =
      { bus with hw := hw, out := out } := by
    simp [busI2cCall, busI2cCommand, result]
  rw [scanned]
  exact ⟨rfl, issued.free_of_stop (probed.last (scanAddresses_ne_nil _))⟩

theorem pendingHeld_iff (call : BusI2cCall) (bus : BusI2c)
    (held : bus.DataPending → bus.hw.holdBus = true) :
    PendingHeld slave call bus ↔ ScansIdle call bus := by
  constructor
  · intro after count scan pending
    subst scan
    obtain ⟨state, free⟩ := scan_frees slave count bus
    have stillPending :
        (busI2cCall slave (.command [0x73] count) bus).DataPending := by
      unfold BusI2c.DataPending
      rw [state]
      exact pending
    have holds := after stillPending
    have released := congrArg Grip.holdBus free
    simp only [HwI2c.grip, Grip.free, holds] at released
    exact absurd released (by decide)
  · intro idle pending
    obtain ⟨new, moves, performed⟩ := busI2cCall_step slave bus call
    have gripHeld : bus.state = .writeDataPending ∨
        bus.state = .readDataPending → bus.hw.grip.holdBus = true := held
    rcases moves.pending_held gripHeld pending with holds | ⟨count, scan⟩
    · rw [← performed.issued.grip] at holds
      exact holds
    · subst scan
      have state := (scan_frees slave count bus).1
      unfold BusI2c.DataPending at pending
      rw [state] at pending
      exact absurd pending (idle count rfl)

theorem data_inside_of_pendingHeld (calls : List BusI2cCall) (bus : BusI2c)
    (held : bus.DataPending → bus.hw.holdBus = true)
    (holds : Run.Meets (busI2cCall slave) (PendingHeld slave) calls bus) :
    ∃ new, Issued new bus.hw (Run.run (busI2cCall slave) calls bus).hw ∧
      DataInside new bus.hw.grip := by
  induction calls generalizing bus with
  | nil => exact ⟨[], Issued.none _, by simp [dataInside_iff, Run.Meets]⟩
  | cons call calls induction =>
      obtain ⟨new, moves, performed⟩ := busI2cCall_step slave bus call
      obtain ⟨later, issued, inside⟩ := induction _ holds.1 holds.2
      refine ⟨new ++ later, performed.issued.trans issued, ?_⟩
      rw [performed.issued.grip] at inside
      exact (dataInside_append new later bus.hw.grip).mpr
        ⟨moves.data_inside held, inside⟩

/-- Data bytes travel only inside a transaction, and every pending data byte
finds the bus held, if and only if the scanner is never run while a data
byte is pending. -/
theorem data_inside_iff (bus : BusI2c) (calls : List BusI2cCall) :
    DataInside (Run.run (busI2cCall slave) calls (justOpened slave bus)).hw.ops
          Grip.free ∧
        Run.Meets (busI2cCall slave) (PendingHeld slave) calls
          (justOpened slave bus) ↔
      Run.Meets (busI2cCall slave) ScansIdle calls (justOpened slave bus) := by
  obtain ⟨init, free, none⟩ := justOpened_facts slave bus
  have held : (justOpened slave bus).DataPending →
      (justOpened slave bus).hw.holdBus = true := by
    simp [BusI2c.DataPending, init]
  have same : Run.Meets (busI2cCall slave) (PendingHeld slave) calls
        (justOpened slave bus) ↔
      Run.Meets (busI2cCall slave) ScansIdle calls (justOpened slave bus) :=
    Run.meets_iff_of_invariant (pendingHeld_iff slave)
      (fun call bus held idle => (pendingHeld_iff slave call bus held).mpr idle)
      held
  rw [← same]
  refine ⟨And.right, fun holds => ⟨?_, holds⟩⟩
  obtain ⟨new, issued, inside⟩ :=
    data_inside_of_pendingHeld slave calls _ held holds
  rw [free] at inside
  rw [issued.ops, none]
  exact inside

theorem run_issued (calls : List BusI2cCall) (bus : BusI2c) :
    ∃ new, Issued new bus.hw (Run.run (busI2cCall slave) calls bus).hw := by
  induction calls generalizing bus with
  | nil => exact ⟨[], Issued.none _⟩
  | cons call calls induction =>
      obtain ⟨new, _, performed⟩ := busI2cCall_step slave bus call
      obtain ⟨later, issued⟩ := induction (busI2cCall slave call bus)
      exact ⟨new ++ later, performed.issued.trans issued⟩

/-- A stop sends a pending data byte whether the bus is held or not. -/
theorem stop_outside (bus : BusI2c) (pending : bus.DataPending)
    (released : bus.hw.grip = Grip.free) :
    ∃ new, Issued new bus.hw (busI2cCall slave .stop bus).hw ∧
      ¬ DataInside new bus.hw.grip := by
  obtain ⟨new, moves, performed⟩ := busI2cCall_step slave bus .stop
  refine ⟨new, performed.issued, ?_⟩
  rw [released]
  rcases pending with state | state
  · rw [state] at moves
    obtain ⟨_, acked, rfl⟩ := moves.of_stop_writeDataPending
    simp [dataInside_iff, Run.Meets, HwI2cOp.IsData, Grip.free]
  · rw [state] at moves
    obtain ⟨_, data, rfl⟩ := moves.of_stop_readDataPending
    simp [dataInside_iff, Run.Meets, HwI2cOp.IsData, Grip.free]

/-- A scan strands a pending data byte: a stop then puts it on an idle bus. -/
theorem scan_then_stop_outside (bus : BusI2c) (calls : List BusI2cCall)
    (count : BitVec 32)
    (pending : (Run.run (busI2cCall slave) calls
      (justOpened slave bus)).DataPending) :
    ¬ DataInside
      (Run.run (busI2cCall slave) (calls ++ [.command [0x73] count, .stop])
        (justOpened slave bus)).hw.ops Grip.free := by
  obtain ⟨_, opened, none⟩ := justOpened_facts slave bus
  rw [Run.run_append]
  obtain ⟨earlier, before⟩ := run_issued slave calls (justOpened slave bus)
  generalize Run.run (busI2cCall slave) calls (justOpened slave bus) = stranded
    at pending before ⊢
  obtain ⟨state, free⟩ := scan_frees slave count stranded
  obtain ⟨scans, _, scanned⟩ :=
    busI2cCall_step slave stranded (.command [0x73] count)
  have issued := before.trans scanned.issued
  obtain ⟨new, after, outside⟩ := stop_outside slave
    (busI2cCall slave (.command [0x73] count) stranded)
    (by unfold BusI2c.DataPending; rw [state]; exact pending) free
  rw [Run.run_cons, Run.run_cons, Run.run_nil, after.ops, issued.ops, none,
    List.nil_append]
  intro inside
  have last := ((dataInside_append _ new Grip.free).mp inside).2
  rw [← opened, ← issued.grip] at last
  exact outside last

end

theorem scan_strands_pending_byte :
    ¬ ∀ (slave : Slave) (bus : BusI2c) (calls : List BusI2cCall),
      DataInside
        (Run.run (busI2cCall slave) calls (justOpened slave bus)).hw.ops
        Grip.free :=
  fun always =>
    scan_then_stop_outside (Slave.pulling [19]) powerOn
      [.start, .write 0xA6, .write 0] 1 (by decide +kernel) (always _ _ _)

end BusNinja
