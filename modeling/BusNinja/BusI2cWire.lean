import BusNinja.BusI2cRuns
import BusNinja.HwI2cRefinement

/-!
# The record of the driver is what the lines show

The master records the operations it issues.  In every run of the driver in
which data bytes stay inside transactions, an observer of SDA and SCL decodes
exactly the recorded operations, if the slave keeps to its own slots in them.
-/

namespace BusNinja

open I2cWire

namespace HwI2cOp

/-- What an observer sees of an operation. -/
def events : HwI2cOp → List Event
  | .init => []
  | .start address rdwr acked => [.start, .byte (addressByte address rdwr) acked]
  | .stop => [.stop]
  | .tx data acked => [.byte data acked]
  | .rx data ack => [.byte data ack]

/-- Whose the slots are that an operation takes. -/
def slots : HwI2cOp → List Slot
  | .init => []
  | .start _ _ _ =>
      .condition :: (List.replicate 8 .masterBit ++ [.slaveAck])
  | .stop => []
  | .tx _ _ => List.replicate 8 .masterBit ++ [.slaveAck]
  | .rx _ _ => List.replicate 8 .slaveBit ++ [.masterAck]

end HwI2cOp

def wireEvents (ops : List HwI2cOp) : List Event := ops.flatMap HwI2cOp.events

def wireSlots (ops : List HwI2cOp) : List Slot := ops.flatMap HwI2cOp.slots

@[simp] theorem wireEvents_append (first second : List HwI2cOp) :
    wireEvents (first ++ second) = wireEvents first ++ wireEvents second :=
  List.flatMap_append

@[simp] theorem wireSlots_append (first second : List HwI2cOp) :
    wireSlots (first ++ second) = wireSlots first ++ wireSlots second :=
  List.flatMap_append

/-- The operations keep to transactions, with the bus held before and after
them or not. -/
inductive InTransactions : Bool → List HwI2cOp → Bool → Prop where
  | none (held : Bool) : InTransactions held [] held
  | start {held after : Bool} {ops : List HwI2cOp} (address : Byte)
      (rdwr : HwI2cRdwr) (acked : Bool) :
      InTransactions true ops after →
      InTransactions held (.start address rdwr acked :: ops) after
  | tx {after : Bool} {ops : List HwI2cOp} (data : Byte) (acked : Bool) :
      InTransactions true ops after →
      InTransactions true (.tx data acked :: ops) after
  | rx {after : Bool} {ops : List HwI2cOp} (data : Byte) (ack : Bool) :
      InTransactions true ops after →
      InTransactions true (.rx data ack :: ops) after
  | stop {after : Bool} {ops : List HwI2cOp} :
      InTransactions false ops after →
      InTransactions true (.stop :: ops) after

theorem InTransactions.trans {held between after : Bool}
    {first second : List HwI2cOp}
    (earlier : InTransactions held first between)
    (later : InTransactions between second after) :
    InTransactions held (first ++ second) after := by
  induction earlier with
  | none => exact later
  | start address rdwr acked _ induction =>
      exact .start address rdwr acked (induction later)
  | tx data acked _ induction => exact .tx data acked (induction later)
  | rx data ack _ induction => exact .rx data ack (induction later)
  | stop _ induction => exact .stop (induction later)

theorem InTransactions.cut {first second : List HwI2cOp} {held after : Bool}
    (whole : InTransactions held (first ++ second) after) :
    ∃ between, InTransactions held first between ∧
      InTransactions between second after := by
  induction first generalizing held with
  | nil => exact ⟨held, .none held, whole⟩
  | cons op first induction =>
      cases whole with
      | start address rdwr acked rest =>
          obtain ⟨between, earlier, later⟩ := induction rest
          exact ⟨between, .start address rdwr acked earlier, later⟩
      | tx data acked rest =>
          obtain ⟨between, earlier, later⟩ := induction rest
          exact ⟨between, .tx data acked earlier, later⟩
      | rx data ack rest =>
          obtain ⟨between, earlier, later⟩ := induction rest
          exact ⟨between, .rx data ack earlier, later⟩
      | stop rest =>
          obtain ⟨between, earlier, later⟩ := induction rest
          exact ⟨between, .stop earlier, later⟩

/-- With the bus free, the next slot is the one of a START. -/
theorem InTransactions.begins {ops : List HwI2cOp} {after : Bool}
    (framed : InTransactions false ops after) :
    (ops = [] ∧ after = false) ∨ ∃ rest, wireSlots ops = .condition :: rest := by
  cases framed with
  | none => exact .inl ⟨rfl, rfl⟩
  | start => exact .inr ⟨_, rfl⟩

/-- `after` is reached from `before` by calls of the master that record
`new`. -/
inductive Calls (slave : Slave) : List HwI2cOp → HwI2c → HwI2c → Prop where
  | none (hw : HwI2c) : Calls slave [] hw hw
  | start (address : Byte) (rdwr : HwI2cRdwr) (hw : HwI2c) :
      Calls slave [.start address rdwr (hwI2cMasterStart slave address rdwr hw).1]
        hw (hwI2cMasterStart slave address rdwr hw).2
  | tx (data : Byte) (hw : HwI2c) :
      Calls slave [.tx data (hwI2cMasterTx slave [data] hw).1] hw
        (hwI2cMasterTx slave [data] hw).2
  | rx (ack : Bool) (hw : HwI2c) :
      Calls slave [.rx ((hwI2cMasterRx slave 1 ack hw).2.1.headD 0) ack] hw
        (hwI2cMasterRx slave 1 ack hw).2.2
  | stop (hw : HwI2c) : Calls slave [.stop] hw (hwI2cMasterStop slave hw)
  | trans {first second : List HwI2cOp} {before between after : HwI2c} :
      Calls slave first before between → Calls slave second between after →
      Calls slave (first ++ second) before after

theorem Calls.issued {slave : Slave} {new : List HwI2cOp} {before after : HwI2c}
    (calls : Calls slave new before after) : Issued new before after := by
  induction calls with
  | none hw => exact .none hw
  | start address rdwr hw => exact hwI2cMasterStart_issued slave hw address rdwr
  | tx data hw => exact hwI2cMasterTx_issued slave hw data
  | rx ack hw =>
      obtain ⟨data, received, result, issued⟩ := hwI2cMasterRx_issued slave hw ack
      rw [result]
      exact issued
  | stop hw => exact hwI2cMasterStop_issued slave hw
  | trans _ _ earlier later => exact earlier.trans later

@[simp] theorem wireSlots_single (op : HwI2cOp) : wireSlots [op] = op.slots :=
  List.append_nil _

@[simp] theorem wireEvents_single (op : HwI2cOp) : wireEvents [op] = op.events :=
  List.append_nil _

theorem sendCourse_single (pulls : Nat → Bool) (data : Byte) (p : Nat) :
    sendCourse pulls [data] p = (Course.send pulls p data, pulls (p + 8)) := by
  cases answer : pulls (p + 8) <;>
    simp [sendCourse, answer, Course.andThen, Course.none]

theorem receiveCourse_single (pulls : Nat → Bool) (ack : Bool) (p : Nat) :
    receiveCourse pulls ack 1 p =
      (Course.receive pulls p ack, [byteOfBits (Course.shown pulls 8 p)]) := by
  simp [receiveCourse, Course.andThen, Course.none]

theorem HwI2c.AtRest.decoded {hw : HwI2c} {p : Nat} {events : List Event}
    {held : Bool} (rest : hw.AtRest p events held) :
    decode (hw.samples.map Sample.level) = events := by
  cases held with
  | false => exact HwI2c.HighAt.events rest
  | true => exact HwI2c.LowAt.events rest

section

variable {slave : Slave} (never : ∀ fall, slave.stretches fall = 0)

include never

/-- What the lines show of the calls, from rest to rest; `slots` is what
follows them. -/
theorem Calls.shown {new : List HwI2cOp} {before after : HwI2c}
    (calls : Calls slave new before after) {held still : Bool} {p : Nat}
    {events : List Event} {slots : List Slot}
    (framed : InTransactions held new still)
    (rest : before.AtRest p events held)
    (obeys : Obeys slave.pullsSda p (wireSlots new ++ slots))
    (next : still = false → ∀ slot ∈ slots.head?, slot.slaves = false) :
    after.AtRest (p + (wireSlots new).length) (events ++ wireEvents new)
      still := by
  induction calls generalizing held still p events slots with
  | none hw =>
      cases framed
      simpa [wireSlots, wireEvents] using rest
  | start address rdwr hw =>
      cases framed with
      | start _ _ _ framed =>
      cases framed
      rw [wireSlots_single] at obeys
      obtain ⟨after, result, low⟩ :=
        hwI2cMasterStart_course never held address rdwr rest obeys
      have answer : HwI2cResult.status (hwI2cMasterStart slave address rdwr hw).1 =
          .status (slave.pullsSda (p + 1 + 8)) := congrArg Prod.fst result
      have reached : (hwI2cMasterStart slave address rdwr hw).2 = after :=
        congrArg Prod.snd result
      rw [reached, HwI2cResult.status.inj answer, wireSlots_single,
        wireEvents_single]
      exact low
  | tx data hw =>
      cases framed with
      | tx _ _ framed =>
      cases framed
      rw [wireSlots_single] at obeys
      have course := sendCourse_single slave.pullsSda data p
      obtain ⟨after, result, low⟩ := txLoop_course never [data]
        (HwI2c.LowAt.cpuDisableInt rest) (by rw [course]; exact obeys)
      have answer : (hwI2cMasterTx slave [data] hw).1 = slave.pullsSda (p + 8) := by
        rw [hwI2cMasterTx, result, course]
        exact Bool.not_not _
      have reached : (hwI2cMasterTx slave [data] hw).2 = after.cpuEnableInt := by
        rw [hwI2cMasterTx, result]
      rw [course] at low
      rw [reached, answer, wireSlots_single, wireEvents_single]
      exact low.cpuEnableInt
  | rx ack hw =>
      cases framed with
      | rx _ _ framed =>
      cases framed
      rw [wireSlots_single] at obeys
      have course := receiveCourse_single slave.pullsSda ack p
      obtain ⟨after, result, low⟩ := rxLoop_course never ack 1
        (HwI2c.LowAt.cpuDisableInt rest) (by rw [course]; exact obeys)
      have buf : (hwI2cMasterRx slave 1 ack hw).2.1 =
          [byteOfBits (Course.shown slave.pullsSda 8 p)] := by
        rw [hwI2cMasterRx, result, course]
      have reached : (hwI2cMasterRx slave 1 ack hw).2.2 = after.cpuEnableInt := by
        rw [hwI2cMasterRx, result]
      rw [course] at low
      rw [reached, buf, wireSlots_single, wireEvents_single]
      exact low.cpuEnableInt
  | stop hw =>
      cases framed with
      | stop framed =>
      cases framed
      have quiet : slave.pullsSda p = false := by
        cases slots with
        | nil => exact obeys.quiet_nil 0
        | cons slot slots => exact obeys.quiet_head (next rfl slot rfl)
      rw [wireSlots_single, wireEvents_single]
      exact hwI2cMasterStop_course never rest quiet
  | @trans first second before between after _ _ earlier later =>
      obtain ⟨middle, framedFirst, framedSecond⟩ := framed.cut
      rw [wireSlots_append, List.append_assoc] at obeys
      have calm : middle = false →
          ∀ slot ∈ (wireSlots second ++ slots).head?, slot.slaves = false := by
        rintro rfl slot head
        rcases framedSecond.begins with ⟨rfl, free⟩ | ⟨others, starts⟩
        · exact next free slot head
        · rw [starts] at head
          obtain rfl := Option.some.inj head
          rfl
      have shown := later framedSecond (earlier framedFirst rest obeys calm)
        obeys.later next
      simpa [Nat.add_assoc] using shown

end

section

variable (slave : Slave)

def CallsReach (before after : HwI2c) : Prop := ∃ new, Calls slave new before after

variable {slave}

theorem CallsReach.trans {before between after : HwI2c}
    (earlier : CallsReach slave before between)
    (later : CallsReach slave between after) : CallsReach slave before after := by
  obtain ⟨first, callsFirst⟩ := earlier
  obtain ⟨second, callsSecond⟩ := later
  exact ⟨first ++ second, callsFirst.trans callsSecond⟩

variable (slave)

theorem reaches_stop (hw : HwI2c) :
    CallsReach slave hw (hwI2cMasterStop slave hw) := ⟨_, .stop hw⟩

theorem reaches_start (address : Byte) (rdwr : HwI2cRdwr) (hw : HwI2c) :
    CallsReach slave hw (hwI2cMasterStart slave address rdwr hw).2 :=
  ⟨_, .start address rdwr hw⟩

theorem reaches_tx (data : Byte) (hw : HwI2c) :
    CallsReach slave hw (hwI2cMasterTx slave [data] hw).2 := ⟨_, .tx data hw⟩

theorem reaches_rx (ack : Bool) (hw : HwI2c) :
    CallsReach slave hw (hwI2cMasterRx slave 1 ack hw).2.2 := ⟨_, .rx ack hw⟩

theorem reaches_clear (hw : HwI2c) :
    CallsReach slave hw (hwI2cBusClear slave hw) :=
  (reaches_start slave 0 .rd hw).trans (reaches_stop slave _)

variable (bus : BusI2c)

theorem busI2cStop_reaches : CallsReach slave bus.hw (busI2cStop slave bus).hw := by
  unfold busI2cStop
  cases bus.state with
  | startPending =>
      refine (reaches_start slave bus.pendingData (rdwrOf bus.pendingData)
        bus.hw).trans ?_
      dsimp only
      split <;> exact reaches_stop slave _
  | writeDataPending =>
      refine (reaches_tx slave bus.pendingData bus.hw).trans ?_
      dsimp only
      split <;> exact reaches_stop slave _
  | readDataPending =>
      refine (reaches_rx slave false bus.hw).trans ?_
      dsimp only
      split <;> exact reaches_stop slave _
  | init | addrPending | error => exact ⟨[], .none _⟩

theorem busI2cWrite_reaches (c : Byte) :
    CallsReach slave bus.hw (busI2cWrite slave c bus).hw := by
  unfold busI2cWrite
  cases bus.state with
  | addrPending => exact ⟨[], .none _⟩
  | startPending =>
      refine (reaches_start slave bus.pendingData (rdwrOf bus.pendingData)
        bus.hw).trans ?_
      dsimp only
      split
      · exact reaches_clear slave _
      · exact ⟨[], .none _⟩
  | writeDataPending =>
      refine (reaches_tx slave bus.pendingData bus.hw).trans ?_
      dsimp only
      split
      · exact ⟨[], .none _⟩
      · exact reaches_clear slave _
  | init | readDataPending | error => exact reaches_clear slave _

theorem busI2cRead_reaches : CallsReach slave bus.hw (busI2cRead slave bus).hw := by
  unfold busI2cRead
  cases bus.state with
  | startPending =>
      refine (reaches_start slave bus.pendingData (rdwrOf bus.pendingData)
        bus.hw).trans ?_
      dsimp only
      split
      · exact reaches_clear slave _
      · exact ⟨[], .none _⟩
  | readDataPending =>
      refine (reaches_rx slave true bus.hw).trans ?_
      dsimp only
      split
      · exact ⟨[], .none _⟩
      · exact reaches_clear slave _
  | init | addrPending | writeDataPending | error => exact reaches_clear slave _

theorem scanLoop_reaches (i : Nat) :
    CallsReach slave bus.hw (scanLoop slave i bus).hw := by
  have probe : ∀ address (bus : BusI2c),
      CallsReach slave bus.hw (scanAddress slave address bus).hw := by
    intro address bus
    refine (reaches_start slave address (rdwrOf address) bus.hw).trans ?_
    have found : ∀ bus : BusI2c, (putsFound address bus).hw = bus.hw := by
      intro bus
      simp only [putsFound]
      split <;> rfl
    simp only [scanAddress, BusI2c.busClear]
    split
    · rw [found]
      exact reaches_clear slave _
    · exact reaches_clear slave _
  induction i generalizing bus with
  | zero => exact probe 0 bus
  | succ i induction =>
      exact (probe _ bus).trans (induction _)

/-- Any call but an open makes calls of the master, which record the
operations of its move. -/
theorem busI2cCall_calls {call : BusI2cCall} (noOpen : call ≠ .openBus) :
    ∃ new, BusI2cStep call bus (busI2cCall slave call bus) new ∧
      Calls slave new bus.hw (busI2cCall slave call bus).hw := by
  have reaches : CallsReach slave bus.hw (busI2cCall slave call bus).hw := by
    cases call with
    | openBus => contradiction
    | start => exact ⟨[], .none _⟩
    | stop => exact busI2cStop_reaches slave bus
    | write c => exact busI2cWrite_reaches slave bus c
    | read => exact busI2cRead_reaches slave bus
    | command start count =>
        simp only [busI2cCall, busI2cCommand]
        split
        · exact scanLoop_reaches slave bus 0xFF
        · exact ⟨[], .none _⟩
  obtain ⟨new, step⟩ := busI2cCall_step slave bus call
  obtain ⟨recorded, calls⟩ := reaches
  have same : recorded = new := List.append_cancel_left
    (calls.issued.ops.symm.trans step.performed.issued.ops)
  subst same
  exact ⟨recorded, step, calls⟩

end

/-- A data byte waits to be sent or read. -/
def BusI2cState.pendsData : BusI2cState → Bool
  | .writeDataPending => true
  | .readDataPending => true
  | _ => false

/-- No open, and the scanner runs only while no data byte is pending. -/
def ScansBetween (call : BusI2cCall) (bus : BusI2c) : Prop :=
  call ≠ .openBus ∧
    ∀ count, call = .command [0x73] count → bus.state.pendsData = false

theorem Probed.inTransactions {addresses : List Byte} {ops : List HwI2cOp}
    (probed : Probed addresses ops) (held : Bool) :
    ∃ still, InTransactions held ops still := by
  induction probed generalizing held with
  | nil => exact ⟨held, .none held⟩
  | cons acked cleared probed induction =>
      obtain ⟨still, framed⟩ := induction false
      exact ⟨still, .start _ _ _ (.start _ _ _ (.stop framed))⟩

/-- While a data byte is pending the bus is held, and every move keeps to
transactions. -/
theorem Moves.inTransactions {call : BusI2cCall} {s s' : BusI2cState}
    {p p' : Byte} {new : List HwI2cOp} (moves : Moves call s p s' p' new)
    (noOpen : call ≠ .openBus)
    (between : ∀ count, call = .command [0x73] count → s.pendsData = false)
    {held : Bool} (holds : s.pendsData = true → held = true) :
    ∃ still, InTransactions held new still ∧
      (s'.pendsData = true → still = true) := by
  have clears : ∀ (held acked : Bool),
      InTransactions held (clearing acked) false :=
    fun _ _ => .start _ _ _ (.stop (.none false))
  cases moves with
  | opened => contradiction
  | started => exact ⟨held, .none held, nofun⟩
  | stopStart acked => exact ⟨false, .start _ _ _ (.stop (.none false)), nofun⟩
  | stopWrite acked =>
      obtain rfl := holds rfl
      exact ⟨false, .tx _ _ (.stop (.none false)), nofun⟩
  | stopRead data =>
      obtain rfl := holds rfl
      exact ⟨false, .rx _ _ (.stop (.none false)), nofun⟩
  | stopIdle => exact ⟨held, .none held, nofun⟩
  | writeAddress c => exact ⟨held, .none held, nofun⟩
  | writeStarted c => exact ⟨true, .start _ _ _ (.none true), fun _ => rfl⟩
  | writeNotStarted c acked =>
      exact ⟨false, .start _ _ _ (clears true acked), nofun⟩
  | writeSent c =>
      obtain rfl := holds rfl
      exact ⟨true, .tx _ _ (.none true), fun _ => rfl⟩
  | writeNotSent c acked =>
      obtain rfl := holds rfl
      exact ⟨false, .tx _ _ (clears true acked), nofun⟩
  | writeAstray c acked => exact ⟨false, clears held acked, nofun⟩
  | readStarted => exact ⟨true, .start _ _ _ (.none true), fun _ => rfl⟩
  | readNotStarted acked => exact ⟨false, .start _ _ _ (clears true acked), nofun⟩
  | readReceived data =>
      obtain rfl := holds rfl
      exact ⟨true, .rx _ _ (.none true), fun _ => rfl⟩
  | readAstray acked => exact ⟨false, clears held acked, nofun⟩
  | scanned count probed =>
      obtain ⟨still, framed⟩ := probed.inTransactions held
      refine ⟨still, framed, fun pends => ?_⟩
      rw [between count rfl] at pends
      cases pends
  | noCommand count other => exact ⟨held, .none held, holds⟩

section

variable (slave : Slave)

theorem run_calls (calls : List BusI2cCall) (bus : BusI2c)
    (meets : Run.Meets (busI2cCall slave) ScansBetween calls bus)
    {held : Bool} (holds : bus.state.pendsData = true → held = true) :
    ∃ new still,
      Calls slave new bus.hw (Run.run (busI2cCall slave) calls bus).hw ∧
        InTransactions held new still := by
  induction calls generalizing bus held with
  | nil => exact ⟨[], held, .none _, .none held⟩
  | cons call calls induction =>
      obtain ⟨⟨noOpen, between⟩, later⟩ := meets
      obtain ⟨first, step, callsFirst⟩ := busI2cCall_calls slave bus noOpen
      obtain ⟨middle, framedFirst, holdsNext⟩ :=
        step.moves.inTransactions noOpen between holds
      obtain ⟨second, still, callsSecond, framedSecond⟩ :=
        induction _ later holdsNext
      exact ⟨first ++ second, still, callsFirst.trans callsSecond,
        framedFirst.trans framedSecond⟩

/-- The driver after an open, with the records started afresh when the open
has released the pins. -/
def openedAfresh (bus : BusI2c) : BusI2c :=
  { busI2cOpen slave bus with
    hw := hwI2cBusClear slave { idleLines slave bus.hw with ops := [] } }

theorem openedAfresh_calls (bus : BusI2c) :
    ∃ acked, Calls slave (clearing acked) { idleLines slave bus.hw with ops := [] }
      (openedAfresh slave bus).hw :=
  ⟨_, (Calls.start 0 .rd _).trans (.stop _)⟩

end

/-- In a run in which the scanner stays between transactions, an observer of
the lines decodes the operations the driver records, if the slave pulls SDA
only in its own slots of them and never stretches. -/
theorem record_shown_on_wire {slave : Slave}
    (never : ∀ fall, slave.stretches fall = 0) (bus : BusI2c)
    {calls : List BusI2cCall} {after : BusI2c}
    (ran : after = Run.run (busI2cCall slave) calls (openedAfresh slave bus))
    (meets : Run.Meets (busI2cCall slave) ScansBetween calls
      (openedAfresh slave bus))
    (obeys : Obeys slave.pullsSda bus.hw.falls (wireSlots after.hw.ops)) :
    decode (after.hw.samples.map Sample.level) = wireEvents after.hw.ops := by
  obtain ⟨acked, cleared⟩ := openedAfresh_calls slave bus
  obtain ⟨new, still, calls, framed⟩ :=
    @run_calls slave calls _ meets false nofun
  have whole := cleared.trans calls
  rw [← ran] at whole
  have ops : after.hw.ops = clearing acked ++ new := whole.issued.ops
  have clears : InTransactions false (clearing acked) false :=
    .start _ _ _ (.stop (.none false))
  have idle : HwI2c.AtRest { idleLines slave bus.hw with ops := [] }
      bus.hw.falls [] false :=
    ⟨rfl, rfl, rfl, rfl, never _, rfl, rfl, rfl, rfl⟩
  rw [ops, ← List.append_nil (wireSlots _)] at obeys
  have rest := whole.shown never (clears.trans framed) idle obeys (by simp)
  rw [ops]
  exact rest.decoded

/-- A write of one byte to a slave that acknowledges it. -/
theorem record_shown_on_wire_write :
    decode ((Run.run (busI2cCall (.pulling [19, 28]))
        [.start, .write 0xA0, .write 0x10, .stop]
        (openedAfresh (.pulling [19, 28]) powerOn)).hw.samples.map Sample.level) =
      wireEvents (Run.run (busI2cCall (.pulling [19, 28]))
        [.start, .write 0xA0, .write 0x10, .stop]
        (openedAfresh (.pulling [19, 28]) powerOn)).hw.ops := by
  have ops : (Run.run (busI2cCall (.pulling [19, 28]))
      [.start, .write 0xA0, .write 0x10, .stop]
      (openedAfresh (.pulling [19, 28]) powerOn)).hw.ops =
      [.start 0 .rd false, .stop, .start 0xA0 .wr true, .tx 0x10 true, .stop] := by
    decide +kernel
  refine record_shown_on_wire (fun _ => rfl) powerOn rfl
    ⟨⟨nofun, nofun⟩, ⟨nofun, nofun⟩, ⟨nofun, nofun⟩, ⟨nofun, nofun⟩,
      trivial⟩ ?_
  rw [ops]
  intro i pulled
  simp only [Slave.pulling, powerOn, HwI2c.powerOn, Nat.zero_add,
    List.contains_cons, List.contains_nil, Bool.or_false, Bool.or_eq_true,
    beq_iff_eq] at pulled
  rcases pulled with rfl | rfl <;> decide

end BusNinja
