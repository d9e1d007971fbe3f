import BusNinja.HwI2cEffects
import BusNinja.Source.BusI2c

/-!
# What one call of the I2C driver can do

`Moves` lists every way a call can change the driver's state and pending
byte, with the operations it issues.  `BusI2cStep` says that a call of the
driver is one of these moves and hands exactly the received bytes to
`bus_out`; everything about runs of the driver is derived from it.
-/

namespace BusNinja

/-- The operations of `hw_i2c_bus_clear`. -/
def clearing (acked : Bool) : List HwI2cOp := [.start 0 .rd acked, .stop]

/-- The operations of the address scanner on a list of addresses. -/
inductive Probed : List Byte → List HwI2cOp → Prop where
  | nil : Probed [] []
  | cons {address : Byte} {addresses : List Byte} {ops : List HwI2cOp}
      (acked cleared : Bool) :
      Probed addresses ops →
      Probed (address :: addresses)
        (.start address (rdwrOf address) acked :: clearing cleared ++ ops)

def scanAddresses (i : Nat) : List Byte :=
  (List.range (i + 1)).reverse.map (BitVec.ofNat 8)

/-- One call takes a state and a pending byte to a state and a pending byte
and issues operations. -/
inductive Moves : BusI2cCall → BusI2cState → Byte → BusI2cState → Byte →
    List HwI2cOp → Prop where
  | opened {state : BusI2cState} {p : Byte} (acked : Bool) :
      Moves .openBus state p .init p (.init :: clearing acked)
  | started {state : BusI2cState} {p : Byte} :
      Moves .start state p .addrPending p []
  | stopStart {p : Byte} (acked : Bool) :
      Moves .stop .startPending p .init p [.start p (rdwrOf p) acked, .stop]
  | stopWrite {p : Byte} (acked : Bool) :
      Moves .stop .writeDataPending p .init p [.tx p acked, .stop]
  | stopRead {p : Byte} (data : Byte) :
      Moves .stop .readDataPending p .init p [.rx data false, .stop]
  | stopIdle {state : BusI2cState} {p : Byte} :
      state = .init ∨ state = .addrPending ∨ state = .error →
      Moves .stop state p .init p []
  | writeAddress {p : Byte} (c : Byte) :
      Moves (.write c) .addrPending p .startPending c []
  | writeStarted {p : Byte} (c : Byte) :
      Moves (.write c) .startPending p .writeDataPending c
        [.start p (rdwrOf p) true]
  | writeNotStarted {p : Byte} (c : Byte) (acked : Bool) :
      Moves (.write c) .startPending p .error p
        (.start p (rdwrOf p) false :: clearing acked)
  | writeSent {p : Byte} (c : Byte) :
      Moves (.write c) .writeDataPending p .writeDataPending c [.tx p true]
  | writeNotSent {p : Byte} (c : Byte) (acked : Bool) :
      Moves (.write c) .writeDataPending p .error p
        (.tx p false :: clearing acked)
  | writeAstray {state : BusI2cState} {p : Byte} (c : Byte) (acked : Bool) :
      state = .init ∨ state = .readDataPending ∨ state = .error →
      Moves (.write c) state p .error p (clearing acked)
  | readStarted {p : Byte} :
      Moves .read .startPending p .readDataPending p
        [.start p (rdwrOf p) true]
  | readNotStarted {p : Byte} (acked : Bool) :
      Moves .read .startPending p .error p
        (.start p (rdwrOf p) false :: clearing acked)
  | readReceived {p : Byte} (data : Byte) :
      Moves .read .readDataPending p .readDataPending p [.rx data true]
  | readAstray {state : BusI2cState} {p : Byte} (acked : Bool) :
      state = .init ∨ state = .addrPending ∨ state = .writeDataPending ∨
        state = .error →
      Moves .read state p .error p (clearing acked)
  | scanned {state : BusI2cState} {p : Byte} (count : BitVec 32)
      {ops : List HwI2cOp} :
      Probed (scanAddresses 0xFF) ops →
      Moves (.command [0x73] count) state p state p ops
  | noCommand {state : BusI2cState} {p : Byte} {start : List Byte}
      (count : BitVec 32) :
      start ≠ [0x73] → Moves (.command start count) state p state p []

namespace Moves

variable {s' : BusI2cState} {c p p' : Byte} {new : List HwI2cOp}

theorem of_start {s : BusI2cState} (moves : Moves .start s p s' p' new) :
    s' = .addrPending ∧ p' = p ∧ new = [] := by
  cases moves
  simp

theorem of_write_addrPending (moves : Moves (.write c) .addrPending p s' p' new) :
    s' = .startPending ∧ p' = c ∧ new = [] := by
  cases moves with
  | writeAddress => simp
  | writeAstray c acked astray => simp at astray

theorem of_write_startPending
    (moves : Moves (.write c) .startPending p s' p' new) :
    (s' = .writeDataPending ∧ p' = c ∧ new = [.start p (rdwrOf p) true]) ∨
      ∃ cleared, s' = .error ∧
        new = .start p (rdwrOf p) false :: clearing cleared := by
  cases moves with
  | writeStarted => simp
  | writeNotStarted c acked => exact .inr ⟨acked, rfl, rfl⟩
  | writeAstray c acked astray => simp at astray

theorem of_write_writeDataPending
    (moves : Moves (.write c) .writeDataPending p s' p' new) :
    (s' = .writeDataPending ∧ p' = c ∧ new = [.tx p true]) ∨
      ∃ cleared, s' = .error ∧ new = .tx p false :: clearing cleared := by
  cases moves with
  | writeSent => simp
  | writeNotSent c acked => exact .inr ⟨acked, rfl, rfl⟩
  | writeAstray c acked astray => simp at astray

theorem of_write_error (moves : Moves (.write c) .error p s' p' new) :
    s' = .error ∧ ∃ cleared, new = clearing cleared := by
  cases moves with
  | writeAstray c acked astray => exact ⟨rfl, acked, rfl⟩

theorem of_read_startPending (moves : Moves .read .startPending p s' p' new) :
    (s' = .readDataPending ∧ new = [.start p (rdwrOf p) true]) ∨
      ∃ cleared, s' = .error ∧
        new = .start p (rdwrOf p) false :: clearing cleared := by
  cases moves with
  | readStarted => simp
  | readNotStarted acked => exact .inr ⟨acked, rfl, rfl⟩
  | readAstray acked astray => simp at astray

theorem of_read_readDataPending
    (moves : Moves .read .readDataPending p s' p' new) :
    s' = .readDataPending ∧ ∃ data, new = [.rx data true] := by
  cases moves with
  | readReceived data => exact ⟨rfl, data, rfl⟩
  | readAstray acked astray => simp at astray

theorem of_read_error (moves : Moves .read .error p s' p' new) :
    s' = .error ∧ ∃ cleared, new = clearing cleared := by
  cases moves with
  | readAstray acked astray => exact ⟨rfl, acked, rfl⟩

theorem of_stop_startPending (moves : Moves .stop .startPending p s' p' new) :
    s' = .init ∧ ∃ acked, new = [.start p (rdwrOf p) acked, .stop] := by
  cases moves with
  | stopStart acked => exact ⟨rfl, acked, rfl⟩
  | stopIdle idle => simp at idle

theorem of_stop_writeDataPending
    (moves : Moves .stop .writeDataPending p s' p' new) :
    s' = .init ∧ ∃ acked, new = [.tx p acked, .stop] := by
  cases moves with
  | stopWrite acked => exact ⟨rfl, acked, rfl⟩
  | stopIdle idle => simp at idle

theorem of_stop_readDataPending
    (moves : Moves .stop .readDataPending p s' p' new) :
    s' = .init ∧ ∃ data, new = [.rx data false, .stop] := by
  cases moves with
  | stopRead data => exact ⟨rfl, data, rfl⟩
  | stopIdle idle => simp at idle

theorem of_stop_addrPending (moves : Moves .stop .addrPending p s' p' new) :
    s' = .init ∧ new = [] := by
  cases moves with
  | stopIdle idle => exact ⟨rfl, rfl⟩

theorem of_stop_error (moves : Moves .stop .error p s' p' new) :
    s' = .init ∧ new = [] := by
  cases moves with
  | stopIdle idle => exact ⟨rfl, rfl⟩

end Moves

def received (ops : List HwI2cOp) : List Byte :=
  ops.filterMap fun
    | .rx data _ => some data
    | _ => none

theorem received_append (first second : List HwI2cOp) :
    received (first ++ second) = received first ++ received second :=
  List.filterMap_append

/-- The driver has issued exactly `new` and handed the bytes received on. -/
structure Performed (new : List HwI2cOp) (before after : BusI2c) : Prop where
  issued : Issued new before.hw after.hw
  handed : after.out.handed = before.out.handed ++ received new

namespace Performed

theorem none (bus : BusI2c) : Performed [] bus bus :=
  ⟨Issued.none _, by simp [received]⟩

theorem trans {first second : List HwI2cOp} {before between after : BusI2c}
    (earlier : Performed first before between)
    (later : Performed second between after) :
    Performed (first ++ second) before after where
  issued := earlier.issued.trans later.issued
  handed := by
    rw [later.handed, earlier.handed, received_append, List.append_assoc]

end Performed

structure BusI2cStep (call : BusI2cCall) (before after : BusI2c)
    (new : List HwI2cOp) : Prop where
  moves : Moves call before.state before.pendingData after.state
    after.pendingData new
  performed : Performed new before after

section

variable (slave : Slave) (bus : BusI2c)

@[simp] theorem puts_handed (str : String) :
    (bus.puts str).out.handed = bus.out.handed := busLog_handed _ _

@[simp] theorem putc_handed (c : Byte) :
    (bus.putc c).out.handed = bus.out.handed := busLog_handed _ _

@[simp] theorem put0x8_handed (c : Byte) :
    (bus.put0x8 c).out.handed = bus.out.handed := busLog_handed _ _

@[simp] theorem newline_handed : bus.newline.out.handed = bus.out.handed :=
  busLog_handed _ _

@[simp] theorem putsWrite_handed :
    bus.putsWrite.out.handed = bus.out.handed := by
  simp [BusI2c.putsWrite]

theorem masterStart_spec (address : Byte) (rdwr : HwI2cRdwr) :
    ∃ acked hw, bus.masterStart slave address rdwr =
        (acked, { bus with hw := hw }) ∧
      Issued [.start address rdwr acked] bus.hw hw :=
  ⟨_, _, rfl, hwI2cMasterStart_issued slave bus.hw address rdwr⟩

theorem busClear_spec :
    ∃ acked hw, bus.busClear slave = { bus with hw := hw } ∧
      Issued (clearing acked) bus.hw hw := by
  obtain ⟨acked, cleared⟩ := hwI2cBusClear_issued slave bus.hw
  exact ⟨acked, _, rfl, cleared⟩

theorem masterTx_spec :
    ∃ acked hw, bus.masterTx slave = (acked, { bus with hw := hw }) ∧
      Issued [.tx bus.pendingData acked] bus.hw hw :=
  ⟨_, _, rfl, hwI2cMasterTx_issued slave bus.hw bus.pendingData⟩

theorem masterRx_spec (ack : Bool) :
    ∃ data hw, bus.masterRx slave ack = (true, data, { bus with hw := hw }) ∧
      Issued [.rx data ack] bus.hw hw := by
  obtain ⟨data, hw, result, issued⟩ := hwI2cMasterRx_issued slave bus.hw ack
  refine ⟨data, hw, ?_, issued⟩
  simp [BusI2c.masterRx, result]

theorem busI2cOpen_step :
    ∃ new, BusI2cStep .openBus bus (busI2cOpen slave bus) new := by
  obtain ⟨acked, cleared⟩ :=
    hwI2cBusClear_issued slave (hwI2cInit slave bus.hw)
  refine ⟨_, .opened acked, (hwI2cInit_issued slave bus.hw).trans cleared, ?_⟩
  change (bus.puts "I2C OPEN").newline.out.handed = _
  simp [received, clearing]

theorem busI2cStart_step : BusI2cStep .start bus (busI2cStart bus) [] :=
  ⟨.started, Issued.none _, by simp [busI2cStart, received]⟩

/-- In these states nothing is owed and a stop sends nothing. -/
theorem busI2cStop_idle
    (idle : bus.state = .init ∨ bus.state = .addrPending ∨
      bus.state = .error) :
    BusI2cStep .stop bus (busI2cStop slave bus) [] := by
  have unchanged : busI2cStop slave bus = { bus with state := .init } := by
    rcases idle with state | state | state <;> simp [busI2cStop, state]
  rw [unchanged]
  exact ⟨.stopIdle idle, Issued.none _, by simp [received]⟩

theorem busI2cStop_step :
    ∃ new, BusI2cStep .stop bus (busI2cStop slave bus) new := by
  cases state : bus.state with
  | startPending =>
      obtain ⟨acked, sentHw, sent, sentIssued⟩ :=
        masterStart_spec slave bus bus.pendingData (rdwrOf bus.pendingData)
      have issued := sentIssued.trans (hwI2cMasterStop_issued slave sentHw)
      simp only [busI2cStop, state, sent]
      cases acked with
      | false =>
          exact ⟨_, state ▸ .stopStart false, issued,
            by simp [received, BusI2c.masterStop]⟩
      | true =>
          exact ⟨_, state ▸ .stopStart true, issued,
            by simp [received, BusI2c.masterStop]⟩
  | writeDataPending =>
      obtain ⟨acked, sentHw, sent, sentIssued⟩ :=
        masterTx_spec slave bus.putsWrite
      have issued := sentIssued.trans (hwI2cMasterStop_issued slave sentHw)
      simp only [busI2cStop, state, sent]
      cases acked with
      | false =>
          exact ⟨_, state ▸ .stopWrite false, issued,
            by simp [received, BusI2c.masterStop]⟩
      | true =>
          exact ⟨_, state ▸ .stopWrite true, issued,
            by simp [received, BusI2c.masterStop]⟩
  | readDataPending =>
      obtain ⟨data, readHw, read, readIssued⟩ :=
        masterRx_spec slave (bus.puts "I2C READ: ") false
      have issued := readIssued.trans (hwI2cMasterStop_issued slave readHw)
      simp only [busI2cStop, state, read]
      exact ⟨_, state ▸ .stopRead data, issued,
        by simp [received, BusI2c.masterStop, BusI2c.hand]⟩
  | init => exact ⟨[], busI2cStop_idle slave bus (by simp [state])⟩
  | addrPending => exact ⟨[], busI2cStop_idle slave bus (by simp [state])⟩
  | error => exact ⟨[], busI2cStop_idle slave bus (by simp [state])⟩

theorem busI2cWrite_astray (c : Byte)
    (astray : bus.state = .init ∨ bus.state = .readDataPending ∨
      bus.state = .error) :
    ∃ new, BusI2cStep (.write c) bus (busI2cWrite slave c bus) new := by
  have cleared : busI2cWrite slave c bus =
      { bus.busClear slave with state := .error } := by
    rcases astray with state | state | state <;> simp [busI2cWrite, state]
  obtain ⟨acked, hw, result, issued⟩ := busClear_spec slave bus
  rw [cleared, result]
  exact ⟨_, .writeAstray c acked astray, issued,
    by simp [received, clearing]⟩

theorem busI2cWrite_step (c : Byte) :
    ∃ new, BusI2cStep (.write c) bus (busI2cWrite slave c bus) new := by
  cases state : bus.state with
  | addrPending =>
      simp only [busI2cWrite, state]
      exact ⟨_, state ▸ .writeAddress c, Issued.none _, by simp [received]⟩
  | startPending =>
      let announced := (bus.puts "I2C START CONDITION").newline.putsWrite
      obtain ⟨acked, sentHw, sent, sentIssued⟩ := masterStart_spec slave
        announced announced.pendingData (rdwrOf announced.pendingData)
      simp only [busI2cWrite, state]
      rw [sent]
      cases acked with
      | false =>
          obtain ⟨cleared, clearedHw, clear, clearIssued⟩ :=
            busClear_spec slave { announced with hw := sentHw }
          simp only [Bool.not_false, if_true, clear]
          exact ⟨_, state ▸ .writeNotStarted c cleared,
            sentIssued.trans clearIssued,
            by simp [received, clearing, announced]⟩
      | true =>
          exact ⟨_, state ▸ .writeStarted c, sentIssued,
            by simp [received, announced]⟩
  | writeDataPending =>
      obtain ⟨acked, sentHw, sent, sentIssued⟩ :=
        masterTx_spec slave bus.putsWrite
      simp only [busI2cWrite, state, sent]
      cases acked with
      | false =>
          obtain ⟨cleared, clearedHw, clear, clearIssued⟩ :=
            busClear_spec slave { bus.putsWrite with hw := sentHw }
          simp only [Bool.false_eq_true, if_false, clear]
          exact ⟨_, state ▸ .writeNotSent c cleared,
            sentIssued.trans clearIssued,
            by simp [received, clearing]⟩
      | true =>
          exact ⟨_, state ▸ .writeSent c, sentIssued,
            by simp [received]⟩
  | init => exact busI2cWrite_astray slave bus c (by simp [state])
  | readDataPending => exact busI2cWrite_astray slave bus c (by simp [state])
  | error => exact busI2cWrite_astray slave bus c (by simp [state])

theorem busI2cRead_astray
    (astray : bus.state = .init ∨ bus.state = .addrPending ∨
      bus.state = .writeDataPending ∨ bus.state = .error) :
    ∃ new, BusI2cStep .read bus (busI2cRead slave bus) new := by
  have cleared : busI2cRead slave bus =
      { bus.busClear slave with state := .error } := by
    rcases astray with state | state | state | state <;>
      simp [busI2cRead, state]
  obtain ⟨acked, hw, result, issued⟩ := busClear_spec slave bus
  rw [cleared, result]
  exact ⟨_, .readAstray acked astray, issued, by simp [received, clearing]⟩

theorem busI2cRead_step :
    ∃ new, BusI2cStep .read bus (busI2cRead slave bus) new := by
  cases state : bus.state with
  | startPending =>
      obtain ⟨acked, sentHw, sent, sentIssued⟩ :=
        masterStart_spec slave bus bus.pendingData (rdwrOf bus.pendingData)
      simp only [busI2cRead, state]
      rw [sent]
      cases acked with
      | false =>
          obtain ⟨cleared, clearedHw, clear, clearIssued⟩ :=
            busClear_spec slave { bus with hw := sentHw }
          simp only [Bool.not_false, if_true, clear]
          exact ⟨_, state ▸ .readNotStarted cleared,
            sentIssued.trans clearIssued, by simp [received, clearing]⟩
      | true =>
          exact ⟨_, state ▸ .readStarted, sentIssued, by simp [received]⟩
  | readDataPending =>
      obtain ⟨data, readHw, read, readIssued⟩ :=
        masterRx_spec slave (bus.puts "I2C READ: ") true
      simp only [busI2cRead, state, read]
      exact ⟨_, state ▸ .readReceived data, readIssued,
        by simp [received, BusI2c.hand]⟩
  | init => exact busI2cRead_astray slave bus (by simp [state])
  | addrPending => exact busI2cRead_astray slave bus (by simp [state])
  | writeDataPending => exact busI2cRead_astray slave bus (by simp [state])
  | error => exact busI2cRead_astray slave bus (by simp [state])

theorem putsFound_frame (address : Byte) (hw : HwI2c) :
    putsFound address { bus with hw := hw } =
        { bus with hw := hw, out := (putsFound address bus).out } ∧
      (putsFound address bus).out.handed = bus.out.handed := by
  by_cases reading : address &&& 0x1 ≠ 0
  · simp only [putsFound, if_pos reading]
    exact ⟨rfl, by simp⟩
  · simp only [putsFound, if_neg reading]
    exact ⟨rfl, by simp⟩

/-- A probe and the clear after it; the device is put out if it answered. -/
theorem scanAddress_exact (address : Byte) :
    ∃ acked cleared hw,
      scanAddress slave address bus =
        { bus with
          hw := hw
          out := if acked then (putsFound address bus).out else bus.out } ∧
      Issued (.start address (rdwrOf address) acked :: clearing cleared)
        bus.hw hw := by
  obtain ⟨acked, sentHw, sent, sentIssued⟩ :=
    masterStart_spec slave bus address (rdwrOf address)
  obtain ⟨cleared, clearedIssued⟩ := hwI2cBusClear_issued slave sentHw
  refine ⟨acked, cleared, _, ?_, sentIssued.trans clearedIssued⟩
  simp only [scanAddress, sent]
  cases acked with
  | false => rfl
  | true =>
      rw [if_pos rfl, if_pos rfl, (putsFound_frame bus address sentHw).1]
      rfl

theorem scanAddress_step (address : Byte) :
    ∃ acked cleared hw out, scanAddress slave address bus =
        { bus with hw := hw, out := out } ∧
      Issued (.start address (rdwrOf address) acked :: clearing cleared)
        bus.hw hw ∧
      out.handed = bus.out.handed := by
  obtain ⟨acked, cleared, hw, result, issued⟩ :=
    scanAddress_exact slave bus address
  refine ⟨acked, cleared, hw, _, result, issued, ?_⟩
  cases acked with
  | false => rfl
  | true => exact (putsFound_frame bus address bus.hw).2

theorem scanAddresses_succ (i : Nat) :
    scanAddresses (i + 1) = BitVec.ofNat 8 (i + 1) :: scanAddresses i := by
  simp [scanAddresses, List.range_succ]

theorem Probed.received {addresses : List Byte} {ops : List HwI2cOp}
    (probed : Probed addresses ops) : received ops = [] := by
  induction probed with
  | nil => rfl
  | cons acked cleared probed induction => exact induction

theorem scanLoop_step (i : Nat) :
    ∃ ops hw out, scanLoop slave i bus = { bus with hw := hw, out := out } ∧
      Probed (scanAddresses i) ops ∧ Issued ops bus.hw hw ∧
      out.handed = bus.out.handed := by
  induction i generalizing bus with
  | zero =>
      obtain ⟨acked, cleared, hw, out, result, issued, handed⟩ :=
        scanAddress_step slave bus 0
      exact ⟨_, hw, out, result, .cons acked cleared .nil,
        by simpa using issued, handed⟩
  | succ i induction =>
      obtain ⟨acked, cleared, hw, out, result, issued, handed⟩ :=
        scanAddress_step slave bus (BitVec.ofNat 8 (i + 1))
      obtain ⟨ops, lastHw, lastOut, later, probed, laterIssued,
        laterHanded⟩ := induction { bus with hw := hw, out := out }
      refine ⟨_, lastHw, lastOut, ?_, ?_, issued.trans laterIssued,
        laterHanded.trans handed⟩
      · simp only [scanLoop, result, later]
      · rw [scanAddresses_succ]
        exact .cons acked cleared probed

theorem busI2cCommand_step (start : List Byte) (count : BitVec 32) :
    ∃ new, BusI2cStep (.command start count) bus
      (busI2cCommand slave start count bus).2 new := by
  by_cases scan : start = [0x73]
  · obtain ⟨ops, hw, out, result, probed, issued, handed⟩ :=
      scanLoop_step slave bus 0xFF
    subst scan
    simp only [busI2cCommand, if_true, result]
    exact ⟨ops, .scanned count probed, issued, by simp [handed, probed.received]⟩
  · simp only [busI2cCommand, if_neg scan]
    exact ⟨[], .noCommand count scan, Issued.none _, by simp [received]⟩

/-- Every call of the driver is one of its moves. -/
theorem busI2cCall_step (call : BusI2cCall) :
    ∃ new, BusI2cStep call bus (busI2cCall slave call bus) new := by
  cases call with
  | openBus => exact busI2cOpen_step slave bus
  | start => exact ⟨[], busI2cStart_step bus⟩
  | stop => exact busI2cStop_step slave bus
  | write c => exact busI2cWrite_step slave bus c
  | read => exact busI2cRead_step slave bus
  | command start count => exact busI2cCommand_step slave bus start count

end

end BusNinja
