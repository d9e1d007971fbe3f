import BusNinja.BusDump
import BusNinja.BusI2cTransaction
import BusNinja.BusI2cWire

/-!
# From the command line to the wire

A line of bracketed requests on the I2C bus: what the user typed is what an
observer of SDA and SCL decodes, request by request, and what a device
answers is what is handed on.
-/

namespace BusNinja

open I2cWire

def ScriptStep.i2cCalls : ScriptStep → List BusI2cCall
  | .start => [.start]
  | .startDuplex => [.start]
  | .stop => [.stop]
  | .send data count => List.replicate count.toNat (.write data)
  | .receive count => List.replicate count.toNat .read

theorem onI2c_iterate (act : BusI2c → BusI2c) (count : Nat)
    (board : Board Devices) :
    (onI2c act)^[count] board = board.setI2c (act^[count] board.i2c) := by
  induction count generalizing board with
  | zero => rfl
  | succ count induction =>
      rw [Function.iterate_succ_apply, Function.iterate_succ_apply, induction]
      rfl

section

variable {wiring : Wiring} {shell : Shell Devices}

theorem scriptStep_i2c (on : shell.currentBus = some (busI2c wiring))
    (simplex : shell.duplex = false) {step : ScriptStep}
    (noBrace : step ≠ .startDuplex) :
    scriptStep step shell =
      { shell with
        board := shell.board.setI2c
          (Run.run (busI2cCall wiring.i2cSlave) step.i2cCalls shell.board.i2c) } := by
  cases step with
  | start =>
      simp [scriptStep, Shell.call, on, busI2c, ScriptStep.i2cCalls, onI2c,
        busI2cCall]
  | startDuplex => contradiction
  | stop =>
      simp [scriptStep, Shell.call, on, busI2c, ScriptStep.i2cCalls, onI2c,
        busI2cCall, simplex]
  | send data count =>
      have handler : shell.numberHandler =
          some fun c => onI2c (busI2cWrite wiring.i2cSlave c) := by
        rw [numberHandler_eq on, simplex]
        rfl
      simp only [scriptStep, handler, ScriptStep.i2cCalls, onI2c_iterate,
        Run.run_replicate]
      rfl
  | receive count =>
      have handler : shell.currentBus.bind BusInterface.read =
          some (onI2c (busI2cRead wiring.i2cSlave)) := by
        rw [on]
        rfl
      simp only [scriptStep, handler, ScriptStep.i2cCalls, onI2c_iterate,
        Run.run_replicate]
      rfl

theorem script_i2c (on : shell.currentBus = some (busI2c wiring))
    (simplex : shell.duplex = false) {script : List ScriptStep}
    (noBrace : .startDuplex ∉ script) :
    Run.run scriptStep script shell =
      { shell with
        board := shell.board.setI2c
          (Run.run (busI2cCall wiring.i2cSlave)
            (script.flatMap ScriptStep.i2cCalls) shell.board.i2c) } := by
  induction script generalizing shell with
  | nil => rfl
  | cons step script induction =>
      obtain ⟨first, rest⟩ := not_or.mp (mt List.mem_cons.mpr noBrace)
      have later := @induction
        { shell with
          board := shell.board.setI2c
            (Run.run (busI2cCall wiring.i2cSlave) step.i2cCalls shell.board.i2c) }
        on simplex rest
      rw [Run.run_cons, scriptStep_i2c on simplex (Ne.symm first), later,
        List.flatMap_cons, Run.run_append]
      rfl

end

/-- A bracketed transfer; a read asks for at least one byte. -/
inductive I2cRequest where
  | write (address : Byte) (data : List Byte)
  | read (address : Byte) (count : BitVec 32) (some : count ≠ 0)

/-- `[a d1 d2 ...]` and `[a r:n]`. -/
def I2cRequest.script : I2cRequest → List ScriptStep
  | .write address data =>
      .start :: .send address 1 :: data.map (ScriptStep.send · 1) ++ [.stop]
  | .read address count _ => [.start, .send address 1, .receive count, .stop]

/-- What an observer may see of a request, and the bytes received: the bytes
go out until one is refused, and a read ends with the only byte that is not
acknowledged.  Only after a refusal does anything but a STOP follow. -/
inductive Served : I2cRequest → List Event → List Byte → Prop where
  | write {address : Byte} {data : List Byte} {acked : Bool}
      {answers : List Bool} {closing : List HwI2cOp} :
      (if acked = true then UntilNack data.length answers else answers = []) →
      Closing closing →
      (acked = true → false ∉ answers → closing = [.stop]) →
      Served (.write address data)
        (.start :: .byte address acked ::
          List.zipWith .byte data answers ++ wireEvents closing) []
  | read {address : Byte} {count : BitVec 32} {some : count ≠ 0} {acked : Bool}
      {bytes : List Byte} {closing : List HwI2cOp} :
      (if acked = true then bytes.length = count.toNat else bytes = []) →
      Closing closing → (acked = true → closing = [.stop]) →
      Served (.read address count some)
        (.start :: .byte address acked ::
          wireEvents (receiveAll bytes) ++ wireEvents closing) bytes

theorem addressByte_rdwrOf : ∀ address : Byte,
    addressByte address (rdwrOf address) = address := by
  decide +kernel

theorem wireEvents_zipWith (data : List Byte) (answers : List Bool) :
    wireEvents (List.zipWith .tx data answers) =
      List.zipWith .byte data answers := by
  induction data generalizing answers with
  | nil => rfl
  | cons c data induction =>
      cases answers with
      | nil => rfl
      | cons answer answers => exact congrArg (_ :: ·) (induction answers)

theorem wireEvents_start (address : Byte) (acked : Bool) (ops : List HwI2cOp) :
    wireEvents (.start address (rdwrOf address) acked :: ops) =
      .start :: .byte address acked :: wireEvents ops := by
  change Event.start :: .byte (addressByte address (rdwrOf address)) acked ::
    wireEvents ops = _
  rw [addressByte_rdwrOf]

def I2cRequest.calls (request : I2cRequest) : List BusI2cCall :=
  request.script.flatMap ScriptStep.i2cCalls

theorem I2cRequest.calls_write (address : Byte) (data : List Byte) :
    (I2cRequest.write address data).calls =
      [.start, .write address] ++ (data.map .write ++ [.stop]) := by
  have each : (data.map (ScriptStep.send · 1)).flatMap ScriptStep.i2cCalls =
      data.map .write := by
    induction data with
    | nil => rfl
    | cons c data induction => exact congrArg (_ :: ·) induction
  change [BusI2cCall.start, .write address] ++
    (data.map (ScriptStep.send · 1) ++ [ScriptStep.stop]).flatMap
      ScriptStep.i2cCalls = _
  rw [List.flatMap_append, each]
  rfl

theorem I2cRequest.calls_read (address : Byte) {count : BitVec 32} {n : Nat}
    (some : count ≠ 0) (predecessor : count.toNat = n + 1) :
    (I2cRequest.read address count some).calls =
      [.start, .write address] ++ (List.replicate (n + 1) .read ++ [.stop]) := by
  rw [← predecessor]
  rfl

theorem received_start (address : Byte) (rdwr : HwI2cRdwr) (acked : Bool)
    (ops : List HwI2cOp) :
    received (.start address rdwr acked :: ops) = received ops := rfl

theorem received_writes (data : List Byte) (answers : List Bool) :
    received (List.zipWith .tx data answers) = [] := by
  induction data generalizing answers with
  | nil => rfl
  | cons c data induction =>
      cases answers with
      | nil => rfl
      | cons answer answers => exact induction answers

/-- Whatever the state, a request leaves the driver in its first one, and its
operations serve it. -/
theorem I2cRequest.performed (slave : Slave) (request : I2cRequest)
    (bus : BusI2c) :
    ∃ new, Performed new bus (Run.run (busI2cCall slave) request.calls bus) ∧
      new.getLast? = some .stop ∧
      Served request (wireEvents new) (received new) ∧
      (Run.run (busI2cCall slave) request.calls bus).state = .init := by
  cases request with
  | write address data =>
      obtain ⟨pending, stored, opening⟩ := address_pending slave bus address
      obtain ⟨acked, answers, closing, untilNack, closes, stops, state,
        performed⟩ := writes_ending slave data _ pending
      rw [stored] at performed
      have served := @Served.write address _ _ _ _ untilNack closes stops
      rw [I2cRequest.calls_write, Run.run_append]
      refine ⟨_, opening.trans performed, ?_, ?_, state⟩
      · rw [List.nil_append, List.getLast?_append, closing_last closes]
        rfl
      · rw [List.nil_append, List.cons_append, wireEvents_start, received_start,
          wireEvents_append, wireEvents_zipWith, received_append,
          received_writes, received_closing closes]
        exact served
  | read address count some =>
      obtain ⟨n, predecessor⟩ := Nat.exists_eq_succ_of_ne_zero
        (fun zero => some (BitVec.eq_of_toNat_eq zero))
      obtain ⟨pending, stored, opening⟩ := address_pending slave bus address
      obtain ⟨acked, bytes, closing, length, closes, stops, state, performed⟩ :=
        reads_ending slave n _ pending
      rw [stored] at performed
      rw [← Nat.succ_eq_add_one, ← predecessor] at length
      have served := @Served.read address _ some _ _ _ length closes stops
      rw [I2cRequest.calls_read address some predecessor, Run.run_append]
      refine ⟨_, opening.trans performed, ?_, ?_, state⟩
      · rw [List.nil_append, List.getLast?_append, closing_last closes]
        rfl
      · rw [List.nil_append, List.cons_append, wireEvents_start, received_start,
          wireEvents_append, received_append, received_receiveAll,
          received_closing closes, List.append_nil]
        exact served

inductive ServedAll : List I2cRequest → List Event → List Byte → Prop where
  | nil : ServedAll [] [] []
  | cons {request : I2cRequest} {requests : List I2cRequest}
      {first rest : List Event} {now later : List Byte} :
      Served request first now → ServedAll requests rest later →
      ServedAll (request :: requests) (first ++ rest) (now ++ later)

theorem requests_performed (slave : Slave) (requests : List I2cRequest)
    (bus : BusI2c) :
    ∃ new,
      Performed new bus
        (Run.run (busI2cCall slave) (requests.flatMap I2cRequest.calls) bus) ∧
      (new = [] ∨ new.getLast? = some .stop) ∧
      ServedAll requests (wireEvents new) (received new) := by
  induction requests generalizing bus with
  | nil => exact ⟨[], .none bus, .inl rfl, .nil⟩
  | cons request requests induction =>
      obtain ⟨first, performed, stopped, served, -⟩ :=
        request.performed slave bus
      obtain ⟨rest, later, ends, servedLater⟩ :=
        induction (Run.run (busI2cCall slave) request.calls bus)
      have whole := performed.trans later
      rw [← Run.run_append, ← List.flatMap_cons] at whole
      refine ⟨first ++ rest, whole, .inr ?_, ?_⟩
      · rw [List.getLast?_append, stopped]
        rcases ends with rfl | last
        · rfl
        · rw [last]
          rfl
      · rw [wireEvents_append, received_append]
        exact .cons served servedLater

theorem InTransactions.free {ops : List HwI2cOp} {held still : Bool}
    (framed : InTransactions held ops still)
    (stopped : ops.getLast? = some .stop) : still = false := by
  have later : ∀ {op : HwI2cOp} {ops : List HwI2cOp},
      (op :: ops).getLast? = some .stop → op ≠ .stop →
      ops.getLast? = some .stop := by
    intro op ops stopped other
    cases ops with
    | nil => exact absurd (Option.some.inj stopped) other
    | cons next ops => exact stopped
  induction framed with
  | none => cases stopped
  | start address rdwr acked _ induction
  | tx data acked _ induction
  | rx data ack _ induction => exact induction (later stopped nofun)
  | stop rest induction =>
      cases rest with
      | none => rfl
      | start => exact induction stopped

theorem requests_between (slave : Slave) (requests : List I2cRequest)
    (bus : BusI2c) :
    Run.Meets (busI2cCall slave) ScansBetween
      (requests.flatMap I2cRequest.calls) bus := by
  have transfers : ∀ call ∈ requests.flatMap I2cRequest.calls,
      call ≠ .openBus ∧ ∀ start count, call ≠ .command start count := by
    intro call member
    obtain ⟨request, -, within⟩ := List.mem_flatMap.mp member
    obtain ⟨step, -, called⟩ := List.mem_flatMap.mp within
    cases step <;> simp [ScriptStep.i2cCalls] at called <;> simp [called]
  rw [Run.meets_iff_of_split]
  rintro earlier call later split
  obtain ⟨noOpen, noCommand⟩ := transfers call (by rw [split]; simp)
  exact ⟨noOpen, fun count command => absurd command (noCommand _ count)⟩

/-- The first call of a request is a start, which gives up what was pending. -/
theorem requests_calls (slave : Slave) (requests : List I2cRequest)
    (bus : BusI2c) :
    ∃ new still,
      Calls slave new bus.hw
        (Run.run (busI2cCall slave) (requests.flatMap I2cRequest.calls) bus).hw ∧
      InTransactions false new still := by
  cases requests with
  | nil => exact ⟨[], false, .none _, .none false⟩
  | cons request requests =>
      obtain ⟨calls, starts⟩ : ∃ calls, request.calls = .start :: calls := by
        cases request <;> exact ⟨_, rfl⟩
      have meets := requests_between slave (request :: requests) bus
      rw [List.flatMap_cons, starts, List.cons_append] at meets ⊢
      exact @run_calls slave _ (busI2cCall slave .start bus) meets.2 false nofun

theorem requests_flatMap (requests : List I2cRequest) :
    (requests.flatMap I2cRequest.script).flatMap ScriptStep.i2cCalls =
      requests.flatMap I2cRequest.calls := by
  rw [List.flatMap_assoc]
  rfl

theorem requests_noBrace (requests : List I2cRequest) :
    .startDuplex ∉ requests.flatMap I2cRequest.script := by
  intro member
  obtain ⟨request, -, within⟩ := List.mem_flatMap.mp member
  cases request <;> simp [I2cRequest.script] at within

/-- What is performed are whole transactions of the calls of the master. -/
theorem requests_framed (slave : Slave) (requests : List I2cRequest)
    (bus : BusI2c) :
    ∃ new,
      Performed new bus
        (Run.run (busI2cCall slave) (requests.flatMap I2cRequest.calls) bus) ∧
      ServedAll requests (wireEvents new) (received new) ∧
      Calls slave new bus.hw
        (Run.run (busI2cCall slave) (requests.flatMap I2cRequest.calls) bus).hw ∧
      InTransactions false new false := by
  obtain ⟨new, performed, ends, served⟩ := requests_performed slave requests bus
  obtain ⟨issued, still, calls, framed⟩ := requests_calls slave requests bus
  have same : issued = new := List.append_cancel_left
    (calls.issued.ops.symm.trans performed.issued.ops)
  subst same
  have free : still = false := by
    rcases ends with rfl | stopped
    · cases framed
      rfl
    · exact framed.free stopped
  subst free
  exact ⟨issued, performed, served, calls, framed⟩

/-- A line of bracketed requests, with the bus at rest and a slave that pulls
SDA only in its own slots and never stretches: an observer of the lines
decodes the requests being served one after the other, the bytes received are
handed on and, with logging off, are all that is put out, and the bus is at
rest again, ready for the next line. -/
theorem i2c_requests_on_wire (table : List (GlobalCommand Devices))
    {wiring : Wiring} (never : ∀ fall, wiring.i2cSlave.stretches fall = 0)
    {line : List Byte} {requests : List I2cRequest}
    (spelled : Spells line (requests.flatMap I2cRequest.script))
    {shell : Shell Devices} (on : shell.currentBus = some (busI2c wiring))
    (simplex : shell.duplex = false) {p : Nat} {events : List Event}
    (rest : shell.board.i2c.hw.AtRest p events false) :
    ∃ after new bytes,
      executeCommandLine table line shell = some after ∧
      after.board.i2c.hw.ops = shell.board.i2c.hw.ops ++ new ∧
      ServedAll requests (wireEvents new) bytes ∧
      after.board.out.handed = shell.board.out.handed ++ bytes ∧
      (shell.board.out.logEnabled = false →
        after.board.out.console =
          consolePutsP (shell.board.out.outmode.dump bytes)
            shell.board.out.console) ∧
      (Obeys wiring.i2cSlave.pullsSda p (wireSlots new) →
        decode (after.board.i2c.hw.samples.map Sample.level) =
          events ++ wireEvents new ∧
        after.board.i2c.hw.AtRest (p + (wireSlots new).length)
          (events ++ wireEvents new) false) := by
  have noBrace := requests_noBrace requests
  have executed := spelled.executed table shell
  have driven := script_i2c on simplex noBrace
  rw [requests_flatMap] at driven
  obtain ⟨new, performed, served, calls, framed⟩ :=
    requests_framed wiring.i2cSlave requests shell.board.i2c
  refine ⟨_, new, received new, executed, ?_, served, ?_, ?_, ?_⟩
  · rw [driven]
    exact performed.issued.ops
  · rw [driven]
    exact performed.handed
  · intro off
    obtain ⟨bytes, out⟩ :=
      script_puts_out_dump wiring (.inr ⟨on, simplex, noBrace⟩) off
    have handed : shell.board.out.handed ++ bytes =
        shell.board.out.handed ++ received new := by
      have := congrArg BusOutput.handed out
      rw [driven] at this
      exact this.symm.trans performed.handed
    rw [List.append_cancel_left handed] at out
    exact congrArg BusOutput.console out
  · intro obeys
    rw [← List.append_nil (wireSlots _)] at obeys
    have atRest := calls.shown never framed rest obeys (by simp)
    rw [driven]
    exact ⟨atRest.decoded, atRest⟩

/-- On I2C with idle lines, watched from there on, and logging off. -/
def idleOnI2c (wiring : Wiring) : Shell Devices where
  board :=
    (busEnableLog false (Shell.powerOn Devices.powerOn).board).setI2c
      { powerOn with
        hw := idleLines wiring.i2cSlave powerOn.hw
        out := { powerOn.out with logEnabled := false } }
  currentBus := some (busI2c wiring)
  duplex := false

/-- Two bytes read from a slave that acknowledges. -/
theorem i2c_requests_on_wire_read :
    ∃ after new bytes,
      executeCommandLine [] (render .hexadecimal
          ([.read 0x91 2 (by decide)].flatMap I2cRequest.script))
        (idleOnI2c ⟨.pulling [9, 10, 11], fun _ => 0, false⟩) = some after ∧
      after.board.i2c.hw.ops = [.init] ++ new ∧
      ServedAll [.read 0x91 2 (by decide)] (wireEvents new) bytes ∧
      after.board.out.handed = [] ++ bytes ∧
      after.board.out.console =
        consolePutsP (Outmode.hex0x8.dump bytes) ⟨false, []⟩ ∧
      decode (after.board.i2c.hw.samples.map Sample.level) =
        [] ++ wireEvents new ∧
      after.board.i2c.hw.AtRest (0 + (wireSlots new).length)
        ([] ++ wireEvents new) false := by
  have never : ∀ fall, (Slave.pulling [9, 10, 11]).stretches fall = 0 :=
    fun _ => rfl
  have rest : HwI2c.AtRest (idleLines (.pulling [9, 10, 11]) powerOn.hw) 0 []
      false := idleLines_rest never powerOn.hw
  obtain ⟨after, new, bytes, executed, ops, served, handed, console, onWire⟩ :=
    @i2c_requests_on_wire [] ⟨.pulling [9, 10, 11], fun _ => 0, false⟩ never
      _ _ (spells_render .hexadecimal _) (idleOnI2c _) rfl rfl 0 [] rest
  have recorded : (executeCommandLine [] (render .hexadecimal
          ([.read 0x91 2 (by decide)].flatMap I2cRequest.script))
        (idleOnI2c ⟨.pulling [9, 10, 11], fun _ => 0, false⟩)).map
          (fun shell => shell.board.i2c.hw.ops) =
      some ([.init] ++
        [.start 0x91 .rd true, .rx 0x3F true, .rx 0xFF false, .stop]) := by
    decide +kernel
  rw [executed] at recorded
  have same : new = [.start 0x91 .rd true, .rx 0x3F true, .rx 0xFF false, .stop] :=
    List.append_cancel_left (ops.symm.trans (Option.some.inj recorded))
  have obeys : Obeys (Slave.pulling [9, 10, 11]).pullsSda 0 (wireSlots new) := by
    rw [same]
    intro i pulled
    simp only [Slave.pulling, Nat.zero_add, List.contains_cons,
      List.contains_nil, Bool.or_false, Bool.or_eq_true, beq_iff_eq] at pulled
    rcases pulled with rfl | rfl | rfl <;> decide
  obtain ⟨decoded, atRest⟩ := onWire obeys
  exact ⟨after, new, bytes, executed, ops, served, handed, console rfl, decoded,
    atRest⟩

end BusNinja
