import BusNinja.BusI2cRequests
import BusNinja.TickAtomicity

/-!
# From the host to the wire

The host types `i2c` and then lines of bracketed requests.  The console hands
each line on as it was typed, the line is executed as the script it spells,
and the driver performs it on SDA and SCL.
-/

namespace BusNinja

open I2cWire

theorem spelled_lines_executed (table : List (GlobalCommand Devices))
    {lines : List (List Byte)} {requests : List (List I2cRequest)}
    (spelled : List.Forall₂ (fun line requests =>
      Spells line (requests.flatMap I2cRequest.script)) lines requests)
    (shell : Shell Devices) :
    executeLines table lines shell =
      some (Run.run scriptStep
        (requests.flatten.flatMap I2cRequest.script) shell) := by
  induction spelled generalizing shell with
  | nil => rfl
  | cons spells spelled induction =>
      rw [executeLines, spells.executed, List.flatten_cons, List.flatMap_append,
        Run.run_append]
      exact induction _

section

variable (firmware : Firmware) (wiring : Wiring)

theorem i2c_selects (shell : Shell Devices) :
    executeCommandLine (globalCommandTable firmware wiring) (text "i2c") shell =
      some (busInit (some (busI2c wiring)) shell) := rfl

theorem i2c_typeable :
    Typeable (globalCommands firmware wiring) (text "i2c") :=
  ⟨by decide, by decide, rfl⟩

end

section

variable {slave : Slave}

/-- At power on nothing drives the lines, and the init leaves them alone. -/
theorem init_rest (never : ∀ fall, slave.stretches fall = 0)
    (quiet : slave.pullsSda 0 = false) :
    (hwI2cInit slave HwI2c.powerOn.cpuEnableInt).AtRest 0 [] false := by
  have seen : (hwI2cInit slave HwI2c.powerOn.cpuEnableInt).seen =
      Observer.idle := by
    simp [HwI2c.seen, hwI2cInit, HwI2c.log, HwI2c.sclHi, HwI2c.sdaHi,
      HwI2c.sample, HwI2c.sdaIn, HwI2c.sclIn, HwI2c.cpuEnableInt,
      HwI2c.powerOn, never, quiet, Observer.see, Observer.idle]
  refine ⟨rfl, rfl, rfl, rfl, never _, rfl, ?_, ?_, ?_⟩
  · rw [seen]
    rfl
  · rw [seen]
    rfl
  · rw [seen]
    rfl

theorem busI2cOpen_calls (slave : Slave) (bus : BusI2c) :
    ∃ acked, Calls slave (clearing acked) (hwI2cInit slave bus.hw)
      (busI2cOpen slave bus).hw :=
  ⟨_, (Calls.start 0 .rd _).trans (.stop _)⟩

end

/-- Typed one by one: an observer of the lines since power on has decoded the
clearing of the bus and then the requests being served one after the other,
and the bytes received are those handed on. -/
theorem requests_typed (firmware : Firmware) {wiring : Wiring}
    (never : ∀ fall, wiring.i2cSlave.stretches fall = 0)
    {lines : List (List Byte)} {requests : List (List I2cRequest)}
    (spelled : List.Forall₂ (fun line requests =>
      Spells line (requests.flatMap I2cRequest.script)) lines requests)
    (typeable : ∀ line ∈ lines, Typeable (globalCommands firmware wiring) line)
    {repl : Repl Devices}
    (typed : typedAt (commandLine (globalCommands firmware wiring))
      (Shell.started firmware) (typedText (text "i2c" :: lines)) = repl) :
    ∃ acked new,
      repl.shell.board.devices.i2c.ops = .init :: clearing acked ++ new ∧
      ServedAll requests.flatten (wireEvents new) (received new) ∧
      repl.shell.board.out.handed = received new ∧
      (Obeys wiring.i2cSlave.pullsSda 0 (wireSlots (clearing acked ++ new)) →
        decode (repl.shell.board.devices.i2c.samples.map Sample.level) =
          wireEvents (clearing acked) ++ wireEvents new) := by
  have started : (Shell.started firmware).Agrees (Shell.started firmware) :=
    ⟨⟨rfl, rfl⟩, rfl, rfl, nofun⟩
  obtain ⟨repl', shown, _, agrees⟩ :=
    typed_lines_agree (globalCommands_agreeing firmware wiring)
      (List.forall_mem_cons.mpr ⟨i2c_typeable firmware wiring, typeable⟩) started
  obtain rfl : repl' = repl := shown.symm.trans typed
  -- what the console has run is what executing the lines does
  let shell := busInit (some (busI2c wiring)) (Shell.started firmware)
  have executed : executeLines (globalCommandTable firmware wiring)
      (text "i2c" :: lines) (Shell.started firmware) =
        some (Run.run scriptStep
          (requests.flatten.flatMap I2cRequest.script) shell) := by
    rw [executeLines, i2c_selects]
    exact spelled_lines_executed _ spelled _
  rw [globalCommandTable, executeLines_session] at executed
  rw [Option.some.inj executed] at agrees
  have driven := @script_i2c wiring shell rfl rfl _
    (requests_noBrace requests.flatten)
  rw [requests_flatMap] at driven
  obtain ⟨new, performed, served, calls, framed⟩ :=
    requests_framed wiring.i2cSlave requests.flatten shell.board.i2c
  obtain ⟨acked, cleared⟩ :=
    busI2cOpen_calls wiring.i2cSlave (Shell.started firmware).board.i2c
  rw [driven] at agrees
  refine ⟨acked, new, ?_, served, ?_, ?_⟩
  · rw [agrees.board.devices]
    exact performed.issued.ops.trans (congrArg (· ++ new) cleared.issued.ops)
  · rw [agrees.board.handed]
    exact performed.handed
  · intro obeys
    have clears : InTransactions false (clearing acked) false :=
      .start _ _ _ (.stop (.none false))
    have quiet : wiring.i2cSlave.pullsSda 0 = false := obeys.quiet_head rfl
    rw [← List.append_nil (wireSlots _)] at obeys
    have rest := (cleared.trans calls).shown never (clears.trans framed)
      (init_rest never quiet) obeys (by simp)
    rw [agrees.board.devices, ← wireEvents_append]
    exact rest.decoded

/-- The host types `i2c` and lines of bracketed requests, in whatever packets
and with whatever ticks between, and the slave pulls SDA only in its own slots
and never stretches.  When all has been taken, an observer of the lines since
power on has decoded the clearing of the bus and then the requests being
served one after the other, and the bytes received are those handed on. -/
theorem typed_requests_on_wire (firmware : Firmware) {wiring : Wiring}
    (never : ∀ fall, wiring.i2cSlave.stretches fall = 0)
    {lines : List (List Byte)} {requests : List (List I2cRequest)}
    (spelled : List.Forall₂ (fun line requests =>
      Spells line (requests.flatMap I2cRequest.script)) lines requests)
    (typeable : ∀ line ∈ lines, Typeable (globalCommands firmware wiring) line)
    {events : List InputEvent} {ticks : Nat}
    (overUsb : ∀ event ∈ events, event.overUsb = true)
    (sent : sentBytes events = typedText (text "i2c" :: lines))
    (enough : (typedText (text "i2c" :: lines)).length ≤ ticks) :
    ∃ ninja acked new bytes,
      ninja = Run.run
        (inputStep (commandLine (globalCommands firmware wiring)) true)
        (.connect true :: events ++ List.replicate ticks (.driverTick none))
        (.powerOn (Shell.started firmware)) ∧
      ninja.shell.board.devices.i2c.ops = .init :: clearing acked ++ new ∧
      ServedAll requests.flatten (wireEvents new) bytes ∧
      ninja.shell.board.out.handed = bytes ∧
      (Obeys wiring.i2cSlave.pullsSda 0 (wireSlots (clearing acked ++ new)) →
        decode (ninja.shell.board.devices.i2c.samples.map Sample.level) =
          wireEvents (clearing acked) ++ wireEvents new) := by
  obtain ⟨ninja, ran, _, typed⟩ :=
    sent_typed (commandLine (globalCommands firmware wiring))
      (Shell.started firmware) overUsb (sent ▸ enough)
  rw [sent] at typed
  obtain ⟨acked, new, ops, served, handed, onWire⟩ :=
    requests_typed firmware never spelled typeable typed
  exact ⟨ninja, acked, new, received new, ran, ops, served, handed, onWire⟩

theorem spells_read : Spells (text "[ 0x91 r:0x2 ] ")
    ([I2cRequest.read 0x91 2 (by decide)].flatMap I2cRequest.script) := by
  have rendered : text "[ 0x91 r:0x2 ] " = render .hexadecimal
      ([I2cRequest.read 0x91 2 (by decide)].flatMap I2cRequest.script) := by
    decide
  rw [rendered]
  exact spells_render _ _

/-- The clearing of the bus and two bytes read from a slave that acknowledges
its address. -/
def clearedAndRead : List HwI2cOp :=
  .init :: clearing false ++
    [.start 0x91 .rd true, .rx 0x3F true, .rx 0xFF false, .stop]

theorem clearedAndRead_obeys {acked : Bool} {new : List HwI2cOp}
    (ops : clearedAndRead = .init :: clearing acked ++ new) :
    Obeys (Slave.pulling [19, 20, 21]).pullsSda 0
      (wireSlots (clearing acked ++ new)) := by
  have same : clearing acked ++ new = clearing false ++
      [.start 0x91 .rd true, .rx 0x3F true, .rx 0xFF false, .stop] :=
    (List.cons.inj ops).2.symm
  rw [same]
  intro i pulled
  simp only [Slave.pulling, Nat.zero_add, List.contains_cons,
    List.contains_nil, Bool.or_false, Bool.or_eq_true, beq_iff_eq] at pulled
  rcases pulled with rfl | rfl | rfl <;> decide

/-- The bytes are asked for in two packets. -/
theorem typed_requests_on_wire_read :
    ∃ ninja acked new bytes,
      ninja = Run.run
        (inputStep (commandLine (globalCommands ⟨[], fun _ _ => 0⟩
          ⟨Slave.pulling [19, 20, 21], fun _ => 0, false⟩)) true)
        (.connect true ::
            [.arrive (text "i2c" ++ 0x0D :: text "[ 0x9"), .driverTick none,
              .arrive (text "1 r:0x2 ] " ++ [0x0D])] ++
          List.replicate 20 (.driverTick none))
        (.powerOn (Shell.started ⟨[], fun _ _ => 0⟩)) ∧
      ninja.shell.board.devices.i2c.ops = .init :: clearing acked ++ new ∧
      ServedAll [.read 0x91 2 (by decide)] (wireEvents new) bytes ∧
      ninja.shell.board.out.handed = bytes ∧
      decode (ninja.shell.board.devices.i2c.samples.map Sample.level) =
        wireEvents (clearing acked) ++ wireEvents new := by
  obtain ⟨ninja, acked, new, bytes, ran, ops, served, handed, onWire⟩ :=
    @typed_requests_on_wire ⟨[], fun _ _ => 0⟩
      ⟨Slave.pulling [19, 20, 21], fun _ => 0, false⟩ (fun _ => rfl)
      _ _ (.cons spells_read .nil)
      (List.forall_mem_singleton.mpr ⟨by decide, by decide, by decide +kernel⟩)
      [.arrive (text "i2c" ++ 0x0D :: text "[ 0x9"), .driverTick none,
        .arrive (text "1 r:0x2 ] " ++ [0x0D])] 20
      (by decide) (by decide) (by decide)
  have recorded : ninja.shell.board.devices.i2c.ops = clearedAndRead := by
    rw [ran]
    decide +kernel
  have obeys := clearedAndRead_obeys (recorded.symm.trans ops)
  exact ⟨ninja, acked, new, bytes, ran, ops, served, handed, onWire obeys⟩

/-- The requests reach the wire wherever interrupts find the program, as soon as
it is outside its ticks and has taken all that the host has sent. -/
theorem interrupted_requests_on_wire (firmware : Firmware) {wiring : Wiring}
    (never : ∀ fall, wiring.i2cSlave.stretches fall = 0)
    {lines : List (List Byte)} {requests : List (List I2cRequest)}
    (spelled : List.Forall₂ (fun line requests =>
      Spells line (requests.flatMap I2cRequest.script)) lines requests)
    (typeable : ∀ line ∈ lines, Typeable (globalCommands firmware wiring) line)
    {events : List MachineEvent}
    (usb : ∀ event ∈ events, ∀ received garbage pinb,
      event = .next received garbage pinb → received = none)
    (sent : sentBytes (events.filterMap MachineEvent.interrupt) =
      typedText (text "i2c" :: lines))
    {machine : Machine Devices}
    (ran : machine = Run.run
      (machineStep (fun cmdline shell =>
        (none, commandLine (globalCommands firmware wiring) cmdline shell)) true)
      events (.powerOn (Shell.started firmware)))
    (outside : machine.frames = []) (taken : machine.ninja.cdc.endpoint = []) :
    ∃ acked new bytes,
      machine.ninja.shell.board.devices.i2c.ops =
        .init :: clearing acked ++ new ∧
      ServedAll requests.flatten (wireEvents new) bytes ∧
      machine.ninja.shell.board.out.handed = bytes ∧
      (Obeys wiring.i2cSlave.pullsSda 0 (wireSlots (clearing acked ++ new)) →
        decode (machine.ninja.shell.board.devices.i2c.samples.map
          Sample.level) = wireEvents (clearing acked) ++ wireEvents new) := by
  subst ran
  have bytes := (@accounted_powerOn _
    (commandLine (globalCommands firmware wiring)) true
    (Shell.started firmware)).run_bytes (fun _ _ => rfl) usb
  have typed := (interrupted_prompt outside).repl
  rw [taken, sent, List.append_nil] at bytes
  rw [bytes] at typed
  obtain ⟨acked, new, ops, served, handed, onWire⟩ :=
    requests_typed firmware never spelled typeable typed
  exact ⟨acked, new, received new, ops, served, handed, onWire⟩

/-- The line arrives while the loop takes `i2c`. -/
theorem interrupted_requests_on_wire_read :
    ∃ machine,
      machine = Run.run
        (machineStep (fun cmdline shell =>
          (none, commandLine (globalCommands ⟨[], fun _ _ => 0⟩
            ⟨Slave.pulling [19, 20, 21], fun _ => 0, false⟩) cmdline shell)) true)
        ([.connect true, .arrive (text "i2c" ++ [0x0D]), .next none 0 0,
            .next none 0 0, .next none 0 0,
            .arrive (text "[ 0x91 r:0x2 ] " ++ [0x0D])] ++
          List.replicate 33 (.next none 0 0))
        (.powerOn (Shell.started ⟨[], fun _ _ => 0⟩)) ∧
      ∃ acked new bytes,
        machine.ninja.shell.board.devices.i2c.ops =
          .init :: clearing acked ++ new ∧
        ServedAll [.read 0x91 2 (by decide)] (wireEvents new) bytes ∧
        machine.ninja.shell.board.out.handed = bytes ∧
        decode (machine.ninja.shell.board.devices.i2c.samples.map
          Sample.level) = wireEvents (clearing acked) ++ wireEvents new := by
  have silent : ∀ event ∈
      [MachineEvent.connect true, .arrive (text "i2c" ++ [0x0D]),
          .next none 0 0, .next none 0 0, .next none 0 0,
          .arrive (text "[ 0x91 r:0x2 ] " ++ [0x0D])] ++
        List.replicate 33 (.next none 0 0), ∀ received garbage pinb,
      event = .next received garbage pinb → received = none := by
    rintro event member received garbage pinb rfl
    have none : received = none ∧ garbage = 0 ∧ pinb = 0 := by
      simpa using member
    exact none.1
  refine ⟨_, rfl, ?_⟩
  obtain ⟨acked, new, bytes, ops, served, handed, onWire⟩ :=
    @interrupted_requests_on_wire ⟨[], fun _ _ => 0⟩
      ⟨Slave.pulling [19, 20, 21], fun _ => 0, false⟩ (fun _ => rfl)
      _ _ (.cons spells_read .nil)
      (List.forall_mem_singleton.mpr ⟨by decide, by decide, by decide +kernel⟩)
      _ silent (by decide) _ rfl (by decide +kernel) (by decide +kernel)
  refine ⟨acked, new, bytes, ops, served, handed, onWire ?_⟩
  refine clearedAndRead_obeys (Eq.trans ?_ ops)
  decide +kernel

end BusNinja
