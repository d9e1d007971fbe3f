import BusNinja.BusSettings
import BusNinja.ConsoleLines

/-!
# Sessions over the console

The bytes of a session arrive in packets, wait in an endpoint, are received
by the USB driver or by the UART, and are gathered into a line that the tick
of the console executes.  None of this shows: what is on the screen and what
has been done is what a prompt that reads the bytes one by one would do.
-/

namespace BusNinja

variable {δ : Type}

/-- A shell behind a prompt, with the line typed so far. -/
structure Repl (δ : Type) where
  line : List Byte
  shell : Shell δ

def Shell.print (put : Console → Console) (shell : Shell δ) : Shell δ :=
  { shell with board.out.console := put shell.board.out.console }

section

variable (execute : List Byte → Shell δ → Shell δ)

/-- The line is executed unless it is empty, and the next one prompted for. -/
def handleLine (line : List Byte) (shell : Shell δ) : Repl δ :=
  let shell := if line = [] then shell else execute line shell
  ⟨[], shell.print prompt⟩

def typeByte (c : Byte) (repl : Repl δ) : Repl δ :=
  if c = 0x0D then handleLine execute repl.line (repl.shell.print consoleNewline)
  else if isErase c then
    if repl.line = [] then repl
    else
      ⟨repl.line.dropLast, repl.shell.print (consolePutsP [0x08, 0x20, 0x08])⟩
  else if repl.line.length < cmdbufSiz - 1 then
    ⟨repl.line ++ [c], repl.shell.print (consolePutc c)⟩
  else ⟨repl.line, repl.shell.print (consolePutc 0x07)⟩

def typedAt (shell : Shell δ) (bytes : List Byte) : Repl δ :=
  Run.run (typeByte execute) bytes ⟨[], shell⟩

theorem typedAt_concat (shell : Shell δ) (bytes : List Byte) (c : Byte) :
    typedAt execute shell (bytes ++ [c]) =
      typeByte execute c (typedAt execute shell bytes) :=
  Run.run_append (typeByte execute) bytes [c] _

/-- The prompt that the console is, once a line that waits is handled. -/
def ConsoleInput.repl (input : ConsoleInput) (shell : Shell δ) : Repl δ :=
  if input.gotLine then handleLine execute input.cmdline shell
  else ⟨input.cmdline, shell⟩

end

/-- The console in line mode, as the bytes taken leave a prompt. -/
structure AtConsole (execute : List Byte → Shell δ → Shell δ)
    (start : Shell δ) (ninja : Ninja δ) : Prop where
  mode : ninja.input.mode = .line
  echo : ninja.input.echo = true
  paired : ninja.cdc.rxReadyCb = ninja.cdc.rxCb
  typed : typedAt execute start ninja.taken = ninja.input.repl execute ninja.shell

section

variable {execute : List Byte → Shell δ → Shell δ} {start : Shell δ}
  {ninja : Ninja δ}

theorem ConsoleInput.repl_ready {input : ConsoleInput}
    (ready : input.gotLine = false) (shell : Shell δ) :
    input.repl execute shell = ⟨input.cmdline, shell⟩ := by
  simp [ConsoleInput.repl, ready]

theorem consoleRxCallback_types (c : Byte) {input : ConsoleInput}
    (shell : Shell δ) (mode : input.mode = .line) (echo : input.echo = true)
    (ready : input.gotLine = false) :
    ∃ after console,
      consoleRxCallback c input shell.board.out.console = (after, console) ∧
      after.mode = .line ∧ after.echo = true ∧
      after.repl execute (shell.print fun _ => console) =
        typeByte execute c (input.repl execute shell) := by
  refine ⟨(consoleRxCallback c input shell.board.out.console).1,
    (consoleRxCallback c input shell.board.out.console).2, rfl, ?_⟩
  have unfinished : ¬ input.gotLine = true := by simp [ready]
  rw [ConsoleInput.repl_ready ready]
  unfold consoleRxCallback typeByte
  split
  · next key => exact absurd (mode.symm.trans key) (by decide)
  rw [if_neg unfinished]
  by_cases ends : c = 0x0D
  · rw [if_pos ends, if_pos ends]
    exact ⟨mode, echo, rfl⟩
  rw [if_neg ends, if_neg ends]
  by_cases erases : isErase c = true
  · rw [if_pos erases, if_pos erases]
    by_cases some : 0 < input.cmdbufLen.val
    · rw [if_pos some, if_neg (input.cmdline_ne_nil.mpr some),
        ← consoleErase_cmdline input some]
      exact ⟨mode, echo, @ConsoleInput.repl_ready _ execute
        { input with cmdbufLen := input.cmdbufLen - 1 } ready _⟩
    · rw [if_neg some, if_pos (not_not.mp (mt input.cmdline_ne_nil.mp some))]
      exact ⟨mode, echo, ConsoleInput.repl_ready ready _⟩
  rw [if_neg erases, if_neg erases]
  by_cases room : input.cmdbufLen.val < cmdbufSiz - 1
  · rw [dif_pos room, if_pos (lt_of_eq_of_lt input.cmdline_length room),
      ← store_cmdline c input room, if_pos echo]
    exact ⟨mode, echo,
      @ConsoleInput.repl_ready _ execute (input.store c room) ready _⟩
  · rw [dif_neg room,
      if_neg (fun held => room (lt_of_eq_of_lt input.cmdline_length.symm held))]
    exact ⟨mode, echo, ConsoleInput.repl_ready ready _⟩

namespace AtConsole

variable (session : AtConsole execute start ninja)

include session

theorem frame {cdc : UsbdevCdc} (paired : cdc.rxReadyCb = cdc.rxCb) :
    AtConsole execute start { ninja with cdc := cdc } :=
  ⟨session.mode, session.echo, paired, session.typed⟩

theorem rx (ready : ninja.input.gotLine = false) (c : Byte) :
    AtConsole execute start (ninja.rx c) := by
  obtain ⟨after, console, received, mode, echo, typed⟩ :=
    @consoleRxCallback_types _ execute c _ ninja.shell session.mode session.echo
      ready
  have after : ninja.rx c =
      { ninja with
        input := after
        shell := ninja.shell.print fun _ => console
        taken := ninja.taken ++ [c] } := by
    simp only [Ninja.rx, received]
    rfl
  rw [after]
  refine ⟨mode, echo, session.paired, ?_⟩
  rw [typedAt_concat, session.typed, typed]

omit session in
theorem cdcLoop (rounds : Nat) {ninja : Ninja δ}
    (session : AtConsole execute start ninja) :
    AtConsole execute start (cdcLoop rounds ninja) := by
  induction rounds generalizing ninja with
  | zero => exact session
  | succ rounds induction =>
      unfold BusNinja.cdcLoop
      split
      · exact session
      · next c endpoint _ =>
          split
          · next ready =>
              obtain ⟨set, accepts⟩ := ready
              have free : ninja.input.gotLine = false := by
                simpa [consoleRxReadyCallback, session.mode] using accepts
              have present : ninja.cdc.rxCb = true := session.paired ▸ set
              have rest : AtConsole execute start
                  { ninja with cdc.endpoint := endpoint } :=
                session.frame session.paired
              rw [if_pos present]
              exact induction (rest.rx free c)
          · exact session

/-- Handling the line that waits is what the prompt has done already. -/
theorem consoleTick :
    AtConsole execute start (consoleTick execute ninja) ∧
      (BusNinja.consoleTick execute ninja).input.gotLine = false := by
  obtain ⟨mode, echo, paired, typed⟩ := session
  unfold BusNinja.consoleTick
  rw [mode]
  dsimp only
  cases got : ninja.input.gotLine with
  | false => exact ⟨⟨mode, echo, paired, typed⟩, got⟩
  | true =>
      rw [if_pos rfl]
      rw [ConsoleInput.repl, if_pos got, handleLine] at typed
      by_cases some : 0 < ninja.input.cmdbufLen.val
      · rw [if_pos some]
        rw [if_neg (ninja.input.cmdline_ne_nil.mpr some)] at typed
        exact ⟨⟨mode, echo, paired, typed⟩, rfl⟩
      · rw [if_neg some]
        rw [if_pos (not_not.mp (mt ninja.input.cmdline_ne_nil.mp some))] at typed
        exact ⟨⟨mode, echo, paired, typed⟩, rfl⟩

theorem keyPoll : AtConsole execute start ninja.keyPoll ∧
    ninja.keyPoll.input.gotLine = ninja.input.gotLine := by
  cases got : ninja.input.gotKey with
  | false =>
      rw [Ninja.keyPoll_none got]
      exact ⟨session, rfl⟩
  | true =>
      rw [Ninja.keyPoll_got got]
      exact ⟨⟨session.mode, session.echo, session.paired, session.typed⟩, rfl⟩

end AtConsole

/-- In session, and between two events, when no line is waiting. -/
structure Prompting (execute : List Byte → Shell δ → Shell δ)
    (start : Shell δ) (ninja : Ninja δ) : Prop where
  session : AtConsole execute start ninja
  ready : ninja.input.gotLine = false

theorem Prompting.driverTick (prompting : Prompting execute start ninja)
    (received : Option Byte) :
    Prompting execute start (driverTick execute received ninja) := by
  obtain ⟨session, ready⟩ := prompting
  have uart : AtConsole execute start (hwUartTick received ninja) := by
    cases received with
    | none => exact session
    | some c => exact session.rx ready c
  have usb : AtConsole execute start
      (usbdevCdcTick (hwUartTick received ninja)) := by
    unfold usbdevCdcTick
    split
    · exact uart
    · exact uart.cdcLoop cdcBufsize
  obtain ⟨ticked, freed⟩ := usb.consoleTick
  exact ⟨ticked, freed⟩

theorem Prompting.step (cdcConsole : Bool) (event : InputEvent)
    {ninja : Ninja δ} (prompting : Prompting execute start ninja) :
    Prompting execute start (inputStep execute cdcConsole event ninja) := by
  cases event with
  | arrive sent =>
      exact ⟨prompting.session.frame prompting.session.paired, prompting.ready⟩
  | connect isConnected =>
      refine ⟨prompting.session.frame ?_, prompting.ready⟩
      unfold usbdevCdcDeviceConnect
      dsimp only
      split
      · rfl
      · exact prompting.session.paired
  | driverTick received => exact prompting.driverTick received
  | keyPoll =>
      obtain ⟨session, same⟩ := prompting.session.keyPoll
      exact ⟨session, same.trans prompting.ready⟩

theorem prompting_powerOn (shell : Shell δ) :
    Prompting execute shell (.powerOn shell) :=
  ⟨⟨rfl, rfl, rfl, rfl⟩, rfl⟩

theorem prompting_run (cdcConsole : Bool) (shell : Shell δ)
    (events : List InputEvent) :
    Prompting execute shell
      (Run.run (inputStep execute cdcConsole) events (.powerOn shell)) :=
  Run.run_invariant (fun event _ => Prompting.step cdcConsole event) events
    (prompting_powerOn shell)

theorem Prompting.repl (prompting : Prompting execute start ninja) :
    typedAt execute start ninja.taken = ⟨ninja.input.cmdline, ninja.shell⟩ := by
  rw [prompting.session.typed, ConsoleInput.repl_ready prompting.ready]

end

/-- However the bytes come, the shell with all that has been printed and the
line typed so far are those of a prompt at which the bytes taken are typed
one by one. -/
theorem session_of_bytes_taken (execute : List Byte → Shell δ → Shell δ)
    (cdcConsole : Bool) (shell : Shell δ) (events : List InputEvent) :
    ∃ ninja repl,
      ninja = Run.run (inputStep execute cdcConsole) events (.powerOn shell) ∧
      repl = Run.run (typeByte execute) ninja.taken ⟨[], shell⟩ ∧
      ninja.input.cmdline = repl.line ∧ ninja.shell = repl.shell := by
  have repl := (@prompting_run _ execute cdcConsole shell events).repl
  refine ⟨_, _, rfl, rfl, ?_, ?_⟩
  · exact (congrArg Repl.line repl).symm
  · exact (congrArg Repl.shell repl).symm

def sentBytes (events : List InputEvent) : List Byte :=
  events.flatMap fun
    | .arrive sent => sent
    | _ => []

/-- The host sends a packet, or the drivers tick and the UART has nothing. -/
def InputEvent.overUsb : InputEvent → Bool
  | .arrive _ => true
  | .driverTick none => true
  | _ => false

/-- The host is connected, and the console receives what it sends. -/
structure Online (ninja : Ninja δ) : Prop where
  connected : ninja.cdc.connected = true
  rxCb : ninja.cdc.rxCb = true
  rxReadyCb : ninja.cdc.rxReadyCb = true

/-- Bytes have only moved from the endpoint to the console. -/
structure Received (before after : Ninja δ) : Prop where
  cdc : after.cdc = { before.cdc with endpoint := after.cdc.endpoint }
  bytes : after.taken ++ after.cdc.endpoint =
    before.taken ++ before.cdc.endpoint

theorem Received.online {before after : Ninja δ}
    (received : Received before after) (online : Online before) :
    Online after := by
  obtain ⟨connected, rxCb, rxReadyCb⟩ := online
  constructor
  · rw [received.cdc]
    exact connected
  · rw [received.cdc]
    exact rxCb
  · rw [received.cdc]
    exact rxReadyCb

section

variable {ninja : Ninja δ}

theorem cdcLoop_bytes (rounds : Nat) (ninja : Ninja δ) :
    (cdcLoop rounds ninja).taken ++ (cdcLoop rounds ninja).cdc.endpoint =
      ninja.taken ++ ninja.cdc.endpoint := by
  induction rounds generalizing ninja with
  | zero => rfl
  | succ rounds induction =>
      unfold cdcLoop
      split
      · rfl
      · next c endpoint waiting =>
          have moved : (ninja.taken ++ [c]) ++ endpoint =
              ninja.taken ++ ninja.cdc.endpoint := by
            rw [waiting, List.append_assoc]
            rfl
          dsimp only
          split
          · split
            · exact (induction _).trans moved
            · exact moved
          · rfl

theorem cdcLoop_moves (rounds : Nat) (ninja : Ninja δ) :
    Received ninja (cdcLoop rounds ninja) := by
  obtain ⟨endpoint, cdc⟩ := cdcLoop_cdc rounds ninja
  refine ⟨?_, cdcLoop_bytes rounds ninja⟩
  rw [cdc]

theorem cdcLoop_more (rounds : Nat) (ninja : Ninja δ) :
    ninja.taken <+: (cdcLoop rounds ninja).taken := by
  induction rounds generalizing ninja with
  | zero => exact List.prefix_rfl
  | succ rounds induction =>
      unfold cdcLoop
      split
      · exact List.prefix_rfl
      · next c endpoint waiting =>
          have taken : ninja.taken <+: ninja.taken ++ [c] :=
            List.prefix_append _ [c]
          dsimp only
          split
          · split
            · exact taken.trans
                (induction (Ninja.rx c { ninja with cdc.endpoint := endpoint }))
            · exact taken
          · exact List.prefix_rfl

theorem cdcLoop_takes {execute : List Byte → Shell δ → Shell δ}
    {start : Shell δ} (prompting : Prompting execute start ninja)
    (online : Online ninja) {c : Byte} {endpoint : List Byte}
    (waiting : ninja.cdc.endpoint = c :: endpoint) (rounds : Nat) :
    ninja.taken ++ [c] <+: (cdcLoop (rounds + 1) ninja).taken := by
  have ready : ninja.cdc.rxReadyCb = true ∧
      consoleRxReadyCallback ninja.input = true := by
    refine ⟨online.rxReadyCb, ?_⟩
    simp [consoleRxReadyCallback, prompting.session.mode, prompting.ready]
  unfold cdcLoop
  rw [waiting]
  dsimp only
  rw [if_pos ready, if_pos online.rxCb]
  exact cdcLoop_more rounds (Ninja.rx c { ninja with cdc.endpoint := endpoint })

theorem consoleTick_frame (execute : List Byte → Shell δ → Shell δ)
    (ninja : Ninja δ) :
    (consoleTick execute ninja).cdc = ninja.cdc ∧
      (consoleTick execute ninja).taken = ninja.taken := by
  unfold consoleTick
  split
  · split
    · split <;> exact ⟨rfl, rfl⟩
    · exact ⟨rfl, rfl⟩
  · exact ⟨rfl, rfl⟩

/-- A tick takes at least one byte, if there is one. -/
theorem driverTick_receives {execute : List Byte → Shell δ → Shell δ}
    {start : Shell δ} (prompting : Prompting execute start ninja)
    (online : Online ninja) :
    Received ninja (driverTick execute none ninja) ∧
      (driverTick execute none ninja).cdc.endpoint.length ≤
        ninja.cdc.endpoint.length - 1 := by
  have usb : usbdevCdcTick ninja = cdcLoop cdcBufsize ninja := by
    simp [usbdevCdcTick, online.connected]
  obtain ⟨cdc, taken⟩ := consoleTick_frame execute (cdcLoop cdcBufsize ninja)
  have received := cdcLoop_moves cdcBufsize ninja
  have more := cdcLoop_more cdcBufsize ninja
  have lengths := congrArg List.length received.bytes
  simp only [List.length_append] at lengths
  have tick : driverTick execute none ninja =
      consoleTick execute (cdcLoop cdcBufsize ninja) := by
    rw [driverTick, hwUartTick, usb]
  rw [tick]
  refine ⟨⟨?_, ?_⟩, ?_⟩
  · rw [cdc, received.cdc]
  · rw [cdc, taken, received.bytes]
  · rw [cdc]
    cases waiting : ninja.cdc.endpoint with
    | nil =>
        rw [waiting] at lengths
        have prefixed := more.length_le
        simp only [List.length_nil] at lengths ⊢
        omega
    | cons c endpoint =>
        have taken := (cdcLoop_takes prompting online waiting 15).length_le
        rw [waiting] at lengths
        simp only [List.length_append, List.length_cons, List.length_nil] at taken
        simp only [List.length_cons] at lengths ⊢
        change (cdcLoop cdcBufsize ninja).cdc.endpoint.length ≤ _
        have bufsize : cdcLoop (15 + 1) ninja = cdcLoop cdcBufsize ninja := rfl
        rw [bufsize] at taken
        omega

end

section

variable {execute : List Byte → Shell δ → Shell δ} {start : Shell δ}

/-- The console is at the prompt, and has taken all the bytes sent but those
that still wait. -/
structure Attentive (execute : List Byte → Shell δ → Shell δ)
    (start : Shell δ) (sent : List Byte) (ninja : Ninja δ) : Prop where
  prompting : Prompting execute start ninja
  online : Online ninja
  bytes : ninja.taken ++ ninja.cdc.endpoint = sent

theorem Attentive.event {sent : List Byte} {ninja : Ninja δ}
    (attentive : Attentive execute start sent ninja) {event : InputEvent}
    (overUsb : event.overUsb = true) :
    Attentive execute start (sent ++ sentBytes [event])
      (inputStep execute true event ninja) := by
  obtain ⟨prompting, online, bytes⟩ := attentive
  have next := prompting.step true event
  cases event with
  | arrive more =>
      refine ⟨next, ⟨online.connected, online.rxCb, online.rxReadyCb⟩, ?_⟩
      simp only [inputStep, sentBytes, List.flatMap_cons, List.flatMap_nil,
        List.append_nil, ← List.append_assoc, bytes]
  | driverTick received =>
      obtain rfl : received = none := by
        cases received with
        | none => rfl
        | some c => cases overUsb
      have received := (driverTick_receives prompting online).1
      refine ⟨next, received.online online, ?_⟩
      rw [inputStep, received.bytes, bytes]
      exact (List.append_nil sent).symm
  | connect isConnected => cases overUsb
  | keyPoll => cases overUsb

theorem Attentive.run {events : List InputEvent} {sent : List Byte}
    {ninja : Ninja δ} (attentive : Attentive execute start sent ninja)
    (overUsb : ∀ event ∈ events, event.overUsb = true) :
    Attentive execute start (sent ++ sentBytes events)
      (Run.run (inputStep execute true) events ninja) := by
  induction events generalizing sent ninja with
  | nil => simpa [sentBytes] using attentive
  | cons event events induction =>
      obtain ⟨first, rest⟩ := List.forall_mem_cons.mp overUsb
      have after := induction (attentive.event first) rest
      simpa [sentBytes] using after

theorem Attentive.ticks (ticks : Nat) {sent : List Byte} {ninja : Ninja δ}
    (attentive : Attentive execute start sent ninja) :
    ∃ after,
      after = Run.run (inputStep execute true)
        (List.replicate ticks (.driverTick none)) ninja ∧
      Attentive execute start sent after ∧
      after.cdc.endpoint.length ≤ ninja.cdc.endpoint.length - ticks := by
  induction ticks generalizing ninja with
  | zero => exact ⟨ninja, rfl, attentive, Nat.le_refl _⟩
  | succ ticks induction =>
      have ticked := @Attentive.event _ execute start _ _ attentive (.driverTick none) rfl
      rw [show sentBytes [.driverTick none] = [] from rfl, List.append_nil] at ticked
      obtain ⟨after, ran, attends, fewer⟩ := induction ticked
      have less :=
        (driverTick_receives attentive.prompting attentive.online).2
      refine ⟨after, ran, attends, ?_⟩
      have same : (inputStep execute true (.driverTick none) ninja) =
          driverTick execute none ninja := rfl
      rw [same] at fewer
      omega

end

theorem sent_typed (execute : List Byte → Shell δ → Shell δ) (shell : Shell δ)
    {events : List InputEvent} {ticks : Nat}
    (overUsb : ∀ event ∈ events, event.overUsb = true)
    (enough : (sentBytes events).length ≤ ticks) :
    ∃ ninja,
      ninja = Run.run (inputStep execute true)
        (.connect true :: events ++ List.replicate ticks (.driverTick none))
        (.powerOn shell) ∧
      ninja.cdc.endpoint = [] ∧
      typedAt execute shell (sentBytes events) =
        ⟨ninja.input.cmdline, ninja.shell⟩ := by
  have connected : Attentive execute shell []
      (inputStep execute true (.connect true) (.powerOn shell)) :=
    ⟨(prompting_powerOn shell).step true (.connect true), ⟨rfl, rfl, rfl⟩, rfl⟩
  have arrived := connected.run overUsb
  rw [List.nil_append] at arrived
  obtain ⟨ninja, ran, attentive, fewer⟩ := arrived.ticks ticks
  have waiting := congrArg List.length arrived.bytes
  rw [List.length_append] at waiting
  have empty : ninja.cdc.endpoint = [] := by
    refine List.eq_nil_of_length_eq_zero ?_
    omega
  have taken := attentive.bytes
  rw [empty, List.append_nil] at taken
  have repl := attentive.prompting.repl
  rw [taken] at repl
  refine ⟨ninja, ?_, empty, repl⟩
  rw [ran, List.cons_append, Run.run_cons, Run.run_append]

/-- However the host splits its bytes into packets and whenever the drivers
tick in between: after a tick for every byte sent they have all been typed,
and nothing else has. -/
theorem session_of_bytes_sent (execute : List Byte → Shell δ → Shell δ)
    (shell : Shell δ) {events : List InputEvent} {ticks : Nat}
    (overUsb : ∀ event ∈ events, event.overUsb = true)
    (enough : (sentBytes events).length ≤ ticks) :
    ∃ ninja repl,
      ninja = Run.run (inputStep execute true)
        (.connect true :: events ++ List.replicate ticks (.driverTick none))
        (.powerOn shell) ∧
      repl = Run.run (typeByte execute) (sentBytes events) ⟨[], shell⟩ ∧
      ninja.cdc.endpoint = [] ∧ ninja.input.cmdline = repl.line ∧
      ninja.shell = repl.shell := by
  obtain ⟨ninja, ran, empty, repl⟩ := sent_typed execute shell overUsb enough
  refine ⟨ninja, _, ran, rfl, empty, ?_, ?_⟩
  · exact (congrArg Repl.line repl).symm
  · exact (congrArg Repl.shell repl).symm

/-- `r` and CR in one packet, and in two with ticks between. -/
theorem session_of_bytes_sent_r :
    ∃ ninja repl,
      ninja = Run.run (inputStep (fun line (shell : Shell Unit) =>
          shell.print (consolePutsP line)) true)
        (.connect true ::
            [.arrive [0x72], .driverTick none, .driverTick none, .arrive [0x0D]] ++
          List.replicate 2 (.driverTick none))
        (.powerOn (Shell.powerOn ())) ∧
      repl = Run.run (typeByte fun line (shell : Shell Unit) =>
          shell.print (consolePutsP line))
        (sentBytes
          [.arrive [0x72], .driverTick none, .driverTick none, .arrive [0x0D]])
        ⟨[], Shell.powerOn ()⟩ ∧
      ninja.cdc.endpoint = [] ∧ ninja.input.cmdline = repl.line ∧
      ninja.shell = repl.shell :=
  session_of_bytes_sent _ _ (by decide) (by decide)

section

variable (execute : List Byte → Shell δ → Shell δ)

theorem typed_chars {chars : List Byte} (held : List Byte) (shell : Shell δ)
    (plain : ∀ c ∈ chars, c ≠ 0x0D ∧ isErase c = false)
    (fits : held.length + chars.length ≤ cmdbufSiz - 1) :
    Run.run (typeByte execute) chars ⟨held, shell⟩ =
      ⟨held ++ chars, shell.print (consolePutsP chars)⟩ := by
  induction chars generalizing held shell with
  | nil => simp [Shell.print, consolePutsP]
  | cons c chars induction =>
      obtain ⟨⟨notEnd, kept⟩, rest⟩ := List.forall_mem_cons.mp plain
      rw [List.length_cons] at fits
      have room : held.length < cmdbufSiz - 1 := by omega
      have typed : typeByte execute c ⟨held, shell⟩ =
          ⟨held ++ [c], shell.print (consolePutc c)⟩ := by
        rw [typeByte, if_neg notEnd, if_neg (by simp [kept]), if_pos room]
      have fitsRest : (held ++ [c]).length + chars.length ≤ cmdbufSiz - 1 := by
        rw [List.length_append, List.length_singleton]
        omega
      rw [Run.run_cons, typed, induction _ _ rest fitsRest, List.append_assoc]
      rfl

theorem typed_line {line : List Byte} (shell : Shell δ)
    (plain : ∀ c ∈ line, c ≠ 0x0D ∧ isErase c = false)
    (fits : line.length ≤ cmdbufSiz - 1) :
    Run.run (typeByte execute) (line ++ [0x0D]) ⟨[], shell⟩ =
      handleLine execute line
        ((shell.print (consolePutsP line)).print consoleNewline) := by
  have chars := typed_chars execute [] shell plain (by simpa using fits)
  rw [Run.run_append, chars]
  rfl

end

def typedText (lines : List (List Byte)) : List Byte :=
  lines.flatMap fun line => line ++ [0x0D]

def Instruction.restarts : Instruction δ → Bool
  | .globalCommand ⟨_, .restarts _⟩ _ => true
  | _ => false

/-- The line fits the buffer, is not edited while it is typed, and does not
start the program again. -/
structure Typeable (commands : List (NamedCommand δ)) (line : List Byte) :
    Prop where
  fits : line.length ≤ cmdbufSiz - 1
  plain : ∀ c ∈ line, c ≠ 0x0D ∧ isErase c = false
  stays : (instructions commands line).any Instruction.restarts = false

/-- `execute_command_line` over the table of these commands. -/
def commandLine (commands : List (NamedCommand δ)) (line : List Byte)
    (shell : Shell δ) : Shell δ :=
  (executeCommandLine (commands.map NamedCommand.entry) line shell).getD shell

section

variable {commands : List (NamedCommand δ)}

theorem commandLine_run (line : List Byte) (shell : Shell δ) :
    commandLine commands line shell =
      Run.run instructionStep (instructions commands line) shell := by
  rw [commandLine, executeCommandLine_instructions]
  rfl

theorem Shell.Agrees.print {left right : Shell δ} (agrees : left.Agrees right)
    (put : Console → Console) : (left.print put).Agrees right :=
  ⟨⟨agrees.board.devices, agrees.board.handed⟩, agrees.currentBus,
    agrees.duplex, agrees.agreeing⟩

/-- Echo, newlines and prompts aside, typing the lines executes them. -/
theorem typed_lines_agree
    (agreeing : ∀ command ∈ commands, command.kind.Agreeing)
    {lines : List (List Byte)}
    (typeable : ∀ line ∈ lines, Typeable commands line)
    {left right : Shell δ} (agrees : left.Agrees right) :
    ∃ repl,
      Run.run (typeByte (commandLine commands)) (typedText lines) ⟨[], left⟩ =
        repl ∧
      repl.line = [] ∧
      repl.shell.Agrees
        (Run.run instructionStep (session commands lines) right) := by
  refine ⟨_, rfl, ?_⟩
  induction lines generalizing left right with
  | nil => exact ⟨rfl, agrees⟩
  | cons line lines induction =>
      obtain ⟨first, rest⟩ := List.forall_mem_cons.mp typeable
      have echoed := (agrees.print (consolePutsP line)).print consoleNewline
      have executed := echoed.line agreeing line
      have text : typedText (line :: lines) =
          (line ++ [0x0D]) ++ typedText lines := rfl
      have parts : session commands (line :: lines) =
          instructions commands line ++ session commands lines := rfl
      rw [text, Run.run_append, typed_line _ left first.plain first.fits, parts,
        Run.run_append]
      refine induction rest ?_
      refine Shell.Agrees.print ?_ prompt
      split
      · next empty =>
          subst empty
          exact echoed
      · rw [commandLine_run]
        exact executed

end

end BusNinja
