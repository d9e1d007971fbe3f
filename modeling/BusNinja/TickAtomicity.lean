import BusNinja.ConsoleCalls
import BusNinja.LateArrivals

/-!
# A tick is atomic

Packets arrive and hosts come and go by interrupts, which may find a tick
anywhere.  Such a run is nevertheless one of whole ticks: what a tick has
taken may as well have arrived just before it, and what it has left just
after it.
-/

namespace BusNinja

variable {δ : Type}

/-- The same bytes have arrived and the same hosts have come and gone, in the
same order each. -/
structure SameArrivals (inputs others : List InputEvent) : Prop where
  bytes : sentBytes inputs = sentBytes others
  hosts : connections inputs = connections others

theorem SameArrivals.append {inputs others more rest : List InputEvent}
    (same : SameArrivals inputs others) (later : SameArrivals more rest) :
    SameArrivals (inputs ++ more) (others ++ rest) := by
  constructor
  · rw [sentBytes_append, sentBytes_append, same.bytes, later.bytes]
  · rw [connections_append, connections_append, same.hosts, later.hosts]

theorem sentBytes_connects (hosts : List Bool) :
    sentBytes (hosts.map .connect) = [] := by
  induction hosts with
  | nil => rfl
  | cons isConnected hosts induction => exact induction

theorem connections_connects (hosts : List Bool) :
    connections (hosts.map .connect) = hosts := by
  induction hosts with
  | nil => rfl
  | cons isConnected hosts induction => exact congrArg (isConnected :: ·) induction

/-- A packet may as well have arrived before the hosts came and went. -/
theorem SameArrivals.insert {inputs interrupts : List InputEvent}
    {hosts : List Bool}
    (same : SameArrivals (inputs ++ hosts.map .connect) interrupts)
    (sent : List Byte) :
    SameArrivals (inputs ++ [.arrive sent] ++ hosts.map .connect)
      (interrupts ++ [.arrive sent]) := by
  obtain ⟨bytes, changes⟩ := same
  rw [sentBytes_append, sentBytes_connects, List.append_nil] at bytes
  rw [connections_append] at changes
  constructor
  · rw [sentBytes_append, sentBytes_append, sentBytes_append,
      sentBytes_connects, List.append_nil, bytes]
  · rw [connections_append, connections_append, connections_append, ← changes]
    exact congrArg (· ++ _) (List.append_nil _) |>.trans (List.append_nil _).symm

/-- Hosts come and go beside whatever waits. -/
theorem reconnect_endpoint (cdcConsole : Bool) (hosts : List Bool)
    (cdc : UsbdevCdc) (endpoint : List Byte) :
    Run.run (usbdevCdcDeviceConnect cdcConsole) hosts
        { cdc with endpoint := endpoint } =
      { Run.run (usbdevCdcDeviceConnect cdcConsole) hosts cdc with
        endpoint := endpoint } := by
  induction hosts generalizing cdc with
  | nil => rfl
  | cons isConnected hosts induction =>
      have first : usbdevCdcDeviceConnect cdcConsole isConnected
          { cdc with endpoint := endpoint } =
            { usbdevCdcDeviceConnect cdcConsole isConnected cdc with
              endpoint := endpoint } := by
        cases cdcConsole <;> rfl
      rw [Run.run_cons, Run.run_cons, first]
      exact induction _

theorem reconnect_keeps (cdcConsole : Bool) (hosts : List Bool)
    (cdc : UsbdevCdc) :
    (Run.run (usbdevCdcDeviceConnect cdcConsole) hosts cdc).endpoint =
      cdc.endpoint := by
  rw [reconnect_endpoint cdcConsole hosts cdc cdc.endpoint]

theorem Wired.reconnect {cdcConsole : Bool} {cdc : UsbdevCdc}
    (wired : Wired cdcConsole cdc) (hosts : List Bool) :
    Wired cdcConsole
      (Run.run (usbdevCdcDeviceConnect cdcConsole) hosts cdc) :=
  @Run.run_invariant _ _ (usbdevCdcDeviceConnect cdcConsole) (Wired cdcConsole)
    (fun isConnected _ wired => wired.connect isConnected) hosts _ wired

def Ninja.reconnect (cdcConsole : Bool) (hosts : List Bool) (ninja : Ninja δ) :
    Ninja δ :=
  { ninja with
    cdc := Run.run (usbdevCdcDeviceConnect cdcConsole) hosts ninja.cdc }

theorem Ninja.reconnect_offering (cdcConsole : Bool) (hosts : List Bool)
    (bytes : List Byte) (ninja : Ninja δ) :
    (ninja.offering bytes).reconnect cdcConsole hosts =
      (ninja.reconnect cdcConsole hosts).offering bytes := by
  rw [Ninja.reconnect, Ninja.offering, reconnect_endpoint]
  rfl

theorem consoleTick_reconnect (execute : List Byte → Shell δ → Shell δ)
    (cdcConsole : Bool) (hosts : List Bool) (ninja : Ninja δ) :
    consoleTick execute (ninja.reconnect cdcConsole hosts) =
      (consoleTick execute ninja).reconnect cdcConsole hosts := by
  rw [Ninja.reconnect, consoleTick_cdc, Ninja.reconnect,
    (consoleTick_frame execute ninja).1]

theorem run_connects (execute : List Byte → Shell δ → Shell δ)
    (cdcConsole : Bool) (hosts : List Bool) (ninja : Ninja δ) :
    Run.run (inputStep execute cdcConsole) (hosts.map .connect) ninja =
      ninja.reconnect cdcConsole hosts := by
  induction hosts generalizing ninja with
  | nil => rfl
  | cons isConnected hosts induction => exact induction _

/-- What is left of a tick behind its loop, and where it ends. -/
inductive Finishes (execute : List Byte → Shell δ → Shell δ) (ninja : Ninja δ) :
    List Frame → Ninja δ → Prop where
  | main : Finishes execute ninja [] ninja
  | hwUartTick : Finishes execute ninja [.driverTick .hwUartTick] ninja
  | consoleTick : Finishes execute ninja [.driverTick .consoleTick]
      (consoleTick execute ninja)
  | execute (cmdline : List Byte) :
      Finishes execute ninja
        [.execute cmdline false, .driverTick .lineDone]
        (Ninja.finishLine { ninja with shell := execute cmdline ninja.shell })
  | lineDone : Finishes execute ninja [.driverTick .lineDone] ninja.finishLine
  | ledTick : Finishes execute ninja [.driverTick .ledTick] ninja

namespace Finishes

variable {execute : List Byte → Shell δ → Shell δ} {ninja after : Ninja δ}
  {frames : List Frame} (finishes : Finishes execute ninja frames after)

include finishes

theorem frame : after.cdc = ninja.cdc := by
  cases finishes with
  | consoleTick => exact (consoleTick_frame execute ninja).1
  | main | hwUartTick | execute | lineDone | ledTick => rfl

/-- It does not matter when the device changes. -/
theorem cdc (cdc : UsbdevCdc) :
    Finishes execute { ninja with cdc := cdc } frames
      { after with cdc := cdc } := by
  cases finishes with
  | main => exact .main
  | hwUartTick => exact .hwUartTick
  | consoleTick =>
      rw [← consoleTick_cdc]
      exact .consoleTick
  | execute cmdline => exact .execute cmdline
  | lineDone => exact .lineDone
  | ledTick => exact .ledTick

end Finishes

theorem tickStep_finishes (execute : List Byte → Shell δ → Shell δ)
    (received : Option Byte) (ninja : Ninja δ) :
    Finishes execute (tickStep received [] ninja .consoleTick).ninja
      (tickStep received [] ninja .consoleTick).frames
      (consoleTick execute ninja) := by
  cases mode : ninja.input.mode with
  | key =>
      simp only [tickStep, consoleTick, mode]
      exact .ledTick
  | line =>
      simp only [tickStep, consoleTick, mode]
      split
      · split
        · exact .execute _
        · exact .lineDone
      · exact .ledTick

section

variable (execute : List Byte → Shell δ → Shell δ) (cdcConsole : Bool)
  (shell : Shell δ)

/-- The whole ticks that account for a machine after these interrupts.  While
the loop is running the hosts that have come and gone since the tick began are
kept apart, as they do not count if the loop goes on. -/
inductive Accounted (interrupts : List InputEvent) : Machine δ → Prop where
  | outside {inputs : List InputEvent} {ninja : Ninja δ} {frames : List Frame} :
      SameArrivals inputs interrupts →
      Finishes execute ninja frames
        (Run.run (inputStep execute cdcConsole) inputs (.powerOn shell)) →
      Accounted interrupts ⟨ninja, frames⟩
  | usbdevTick {inputs : List InputEvent} (received : Option Byte) :
      SameArrivals inputs interrupts →
      Accounted interrupts
        ⟨hwUartTick received
            (Run.run (inputStep execute cdcConsole) inputs (.powerOn shell)),
          [.driverTick .usbdevTick]⟩
  | cdcRounds {inputs : List InputEvent} {hosts : List Bool}
      {bytes : List Byte} {loop : Ninja δ} {count : Nat}
      (received : Option Byte) :
      SameArrivals (inputs ++ hosts.map .connect) interrupts →
      (Run.run (inputStep execute cdcConsole) inputs
        (.powerOn shell)).cdc.connected = true →
      Takes bytes
        (hwUartTick received
          (Run.run (inputStep execute cdcConsole) inputs (.powerOn shell)))
        loop →
      bytes.length + count = cdcBufsize →
      Accounted interrupts
        ⟨loop.reconnect cdcConsole hosts, [.driverTick (.cdcRounds count)]⟩

variable {execute cdcConsole shell} {interrupts : List InputEvent}

/-- A packet arrives just before the tick, as long as the loop may still take
of it. -/
theorem Accounted.arrive {ninja : Ninja δ} {frames : List Frame}
    (accounted : Accounted execute cdcConsole shell interrupts ⟨ninja, frames⟩)
    (sent : List Byte) :
    Accounted execute cdcConsole shell (interrupts ++ [.arrive sent])
      ⟨ninja.offering (ninja.cdc.endpoint ++ sent), frames⟩ := by
  cases accounted with
  | @outside inputs _ _ same finishes =>
      refine .outside (same.append ⟨rfl, rfl⟩) ?_
      have moved := finishes.cdc
        { ninja.cdc with endpoint := ninja.cdc.endpoint ++ sent }
      rw [Run.run_append, Run.run_cons, Run.run_nil, inputStep, finishes.frame]
      exact moved
  | @usbdevTick inputs received same =>
      have arrived := @Accounted.usbdevTick _ execute cdcConsole shell
        (interrupts ++ [.arrive sent]) _ received (same.append ⟨rfl, rfl⟩)
      rw [Run.run_append, Run.run_cons, Run.run_nil, inputStep,
        hwUartTick_cdc] at arrived
      rw [Ninja.offering, hwUartTick_frame]
      exact arrived
  | @cdcRounds inputs hosts bytes loop count received same connected takes rounds =>
      have behind := takes.offering (loop.cdc.endpoint ++ sent)
      rw [← List.append_assoc, ← takes.endpoint, hwUartTick_frame,
        ← hwUartTick_offering] at behind
      have ran : Run.run (inputStep execute cdcConsole)
          (inputs ++ [.arrive sent]) (.powerOn shell) =
            (Run.run (inputStep execute cdcConsole) inputs
              (.powerOn shell)).offering
                ((Run.run (inputStep execute cdcConsole) inputs
                  (.powerOn shell)).cdc.endpoint ++ sent) := by
        rw [Run.run_append]
        rfl
      rw [← ran] at behind
      have arrived := @Accounted.cdcRounds _ execute cdcConsole shell
        _ _ hosts _ _ _ received (same.insert sent) (by rw [ran]; exact connected)
        behind rounds
      rw [Ninja.reconnect_offering] at arrived
      have device : (loop.reconnect cdcConsole hosts).cdc.endpoint =
          loop.cdc.endpoint := reconnect_keeps cdcConsole hosts loop.cdc
      rw [device]
      exact arrived

/-- A host comes or goes before the tick or after it. -/
theorem Accounted.connect {ninja : Ninja δ} {frames : List Frame}
    (accounted : Accounted execute cdcConsole shell interrupts ⟨ninja, frames⟩)
    (isConnected : Bool) :
    Accounted execute cdcConsole shell (interrupts ++ [.connect isConnected])
      ⟨{ ninja with
          cdc := usbdevCdcDeviceConnect cdcConsole isConnected ninja.cdc },
        frames⟩ := by
  cases accounted with
  | @outside inputs _ _ same finishes =>
      refine .outside (same.append ⟨rfl, rfl⟩) ?_
      rw [Run.run_append, Run.run_cons, Run.run_nil, inputStep, finishes.frame]
      exact finishes.cdc _
  | @usbdevTick inputs received same =>
      have changed := @Accounted.usbdevTick _ execute cdcConsole shell
        (interrupts ++ [.connect isConnected]) _ received
        (same.append ⟨rfl, rfl⟩)
      rw [Run.run_append, Run.run_cons, Run.run_nil, inputStep,
        hwUartTick_cdc] at changed
      rw [hwUartTick_frame]
      exact changed
  | @cdcRounds inputs hosts bytes loop count received same connected takes rounds =>
      have later : SameArrivals (inputs ++ (hosts ++ [isConnected]).map .connect)
          (interrupts ++ [.connect isConnected]) := by
        rw [List.map_append, ← List.append_assoc]
        exact same.append ⟨rfl, rfl⟩
      have changed := @Accounted.cdcRounds _ execute cdcConsole shell
        _ _ _ _ _ _ received later connected takes rounds
      rw [Ninja.reconnect, Run.run_append] at changed
      exact changed

/-- When the loop ends, what it has left arrives behind the tick, after the
hosts. -/
theorem Accounted.loopEnds {inputs : List InputEvent} {hosts : List Bool}
    {bytes : List Byte} {loop : Ninja δ} {count : Nat} (received : Option Byte)
    (same : SameArrivals (inputs ++ hosts.map .connect) interrupts)
    (connected : (Run.run (inputStep execute cdcConsole) inputs
      (.powerOn shell)).cdc.connected = true)
    (takes : Takes bytes
      (hwUartTick received
        (Run.run (inputStep execute cdcConsole) inputs (.powerOn shell))) loop)
    (rounds : bytes.length + count = cdcBufsize) :
    Accounted execute cdcConsole shell interrupts
      ⟨loop.reconnect cdcConsole hosts, [.driverTick .consoleTick]⟩ := by
  have waiting := takes.endpoint
  rw [hwUartTick_frame] at waiting
  obtain ⟨earlier, ran, arrived, changed⟩ :=
    arrived_later execute cdcConsole shell inputs waiting
  have ticked : driverTick execute received
      (Run.run (inputStep execute cdcConsole) earlier (.powerOn shell)) =
        consoleTick execute (loop.offering []) := by
    have still : ((Run.run (inputStep execute cdcConsole) inputs
        (.powerOn shell)).offering bytes).cdc.connected = true := connected
    have alone := (takes.offering []).cdcLoop count
    rw [List.append_nil, rounds, cdcLoop_idle count rfl] at alone
    rw [ran, driverTick_connected execute received still, hwUartTick_offering,
      alone]
  have left : (consoleTick execute (loop.reconnect cdcConsole hosts)).cdc.endpoint =
      loop.cdc.endpoint := by
    rw [(consoleTick_frame execute _).1]
    exact reconnect_keeps cdcConsole hosts loop.cdc
  have whole : Run.run (inputStep execute cdcConsole)
      (earlier ++ .driverTick received ::
        (hosts.map .connect ++ [.arrive loop.cdc.endpoint])) (.powerOn shell) =
        consoleTick execute (loop.reconnect cdcConsole hosts) := by
    rw [Run.run_append, Run.run_cons, inputStep, ticked, Run.run_append,
      run_connects, ← consoleTick_reconnect, Ninja.reconnect_offering,
      consoleTick_offering, ← left]
    rfl
  have accounts : SameArrivals
      (earlier ++ .driverTick received ::
        (hosts.map .connect ++ [.arrive loop.cdc.endpoint])) interrupts := by
    obtain ⟨bytes, changes⟩ := same
    rw [sentBytes_append, sentBytes_connects, List.append_nil, arrived] at bytes
    rw [connections_append, connections_connects, changed] at changes
    constructor
    · have behind : sentBytes (.driverTick received ::
          (hosts.map .connect ++ [.arrive loop.cdc.endpoint])) =
            loop.cdc.endpoint := by
        change sentBytes (hosts.map .connect ++ [.arrive loop.cdc.endpoint]) = _
        rw [sentBytes_append, sentBytes_connects]
        exact List.append_nil _
      rw [sentBytes_append, behind, bytes]
    · have behind : connections (.driverTick received ::
          (hosts.map .connect ++ [.arrive loop.cdc.endpoint])) = hosts := by
        change connections (hosts.map .connect ++ [.arrive loop.cdc.endpoint]) = _
        rw [connections_append, connections_connects]
        exact List.append_nil _
      rw [connections_append, behind, changes]
  refine @Accounted.outside _ execute cdcConsole shell interrupts _ _ _
    accounts ?_
  rw [whole]
  exact .consoleTick

/-- The loop goes on, as the host is still there. -/
theorem Accounted.loopGoesOn {inputs : List InputEvent} {hosts : List Bool}
    {bytes : List Byte} {loop : Ninja δ} {count : Nat} (received : Option Byte)
    (same : SameArrivals (inputs ++ hosts.map .connect) interrupts)
    (connected : (Run.run (inputStep execute cdcConsole) inputs
      (.powerOn shell)).cdc.connected = true)
    (takes : Takes bytes
      (hwUartTick received
        (Run.run (inputStep execute cdcConsole) inputs (.powerOn shell))) loop)
    (rounds : bytes.length + (count + 1) = cdcBufsize)
    (receives : (loop.reconnect cdcConsole hosts).receives = true) :
    (loop.reconnect cdcConsole hosts).cdc.rxCb = true ∧
      Accounted execute cdcConsole shell interrupts
        ⟨cdcLoop 1 (loop.reconnect cdcConsole hosts),
          [.driverTick (.cdcRounds count)]⟩ := by
  have wired : Wired cdcConsole loop.cdc := by
    have before := wired_run execute cdcConsole shell inputs
    rw [takes.cdc, hwUartTick_frame]
    exact ⟨before.rxCb, before.rxReadyCb⟩
  have still : loop.cdc.connected = true := by
    rw [takes.cdc, hwUartTick_frame]
    exact connected
  have after : Wired cdcConsole (loop.reconnect cdcConsole hosts).cdc :=
    wired.reconnect hosts
  obtain ⟨c, endpoint, waiting, readyNow, ready⟩ := receives_cases receives
  have rxNow : (loop.reconnect cdcConsole hosts).cdc.rxCb = true :=
    after.paired.symm.trans readyNow
  have used : cdcConsole = true := by
    rw [after.rxReadyCb] at readyNow
    exact (Bool.and_eq_true_iff.mp readyNow).1
  have rxCb : loop.cdc.rxCb = true := by
    rw [wired.rxCb, used, still]
    rfl
  have rxReadyCb : loop.cdc.rxReadyCb = true := wired.paired.trans rxCb
  have offered : loop.cdc.endpoint = c :: endpoint :=
    (reconnect_keeps cdcConsole hosts loop.cdc).symm.trans waiting
  have length : (bytes ++ [c]).length + count = cdcBufsize := by
    rw [List.length_append, List.length_singleton]
    omega
  have accounted := @Accounted.cdcRounds _ execute cdcConsole shell interrupts
    _ hosts _ _ count received same connected
    (takes.snoc rxCb rxReadyCb ready offered) length
  have one : Takes [c] (loop.reconnect cdcConsole hosts)
      (((loop.reconnect cdcConsole hosts).offering endpoint).rx c) :=
    .some rxNow readyNow ready waiting (.none _)
  have round := one.cdcLoop 0
  rw [List.length_singleton, Nat.add_zero, ← Ninja.reconnect_offering] at round
  rw [round]
  exact ⟨rxNow, accounted⟩

variable {runs : List Byte → Shell δ → Option KeyCommand × Shell δ}

theorem Finishes.next {ninja after : Ninja δ} {frames : List Frame}
    (finishes : Finishes execute ninja frames after)
    (plain : ∀ cmdline shell,
      runs cmdline shell = (none, execute cmdline shell))
    (received : Option Byte) (garbage pinb : Byte)
    (other : frames ≠ [.driverTick .hwUartTick]) :
    Finishes execute
      (Machine.next runs received garbage pinb ⟨ninja, frames⟩).ninja
      (Machine.next runs received garbage pinb ⟨ninja, frames⟩).frames
      after := by
  cases finishes with
  | main => exact .hwUartTick
  | hwUartTick => exact absurd rfl other
  | consoleTick => exact tickStep_finishes execute received ninja
  | execute cmdline =>
      simp only [Machine.next, executeStep, plain, Bool.false_eq_true, if_false]
      exact .lineDone
  | lineDone => exact .ledTick
  | ledTick => exact .main

theorem Accounted.next {machine : Machine δ}
    (accounted : Accounted execute cdcConsole shell interrupts machine)
    (plain : ∀ cmdline shell,
      runs cmdline shell = (none, execute cmdline shell))
    (received : Option Byte) (garbage pinb : Byte) :
    Accounted execute cdcConsole shell interrupts
      (machine.next runs received garbage pinb) := by
  cases accounted with
  | @outside inputs ninja frames same finishes =>
      by_cases begins : frames = [.driverTick .hwUartTick]
      · subst begins
        cases finishes with
        | hwUartTick => exact .usbdevTick received same
      · exact .outside same (finishes.next plain received garbage pinb begins)
  | @usbdevTick inputs uart same =>
      simp only [Machine.next, tickStep]
      rw [hwUartTick_frame]
      split
      · next connected =>
          exact @Accounted.cdcRounds _ execute cdcConsole shell interrupts
            inputs [] [] _ cdcBufsize uart (by simpa using same) connected
            (.none _) (Nat.zero_add _)
      · next alone =>
          have ticks : SameArrivals (inputs ++ [.driverTick uart]) interrupts := by
            have tick : SameArrivals [.driverTick uart] [] := ⟨rfl, rfl⟩
            simpa using same.append tick
          refine .outside ticks ?_
          rw [Run.run_append, Run.run_cons, Run.run_nil, inputStep,
            driverTick_alone execute uart (by simpa using alone)]
          exact .consoleTick
  | @cdcRounds inputs hosts bytes loop count uart same connected takes rounds =>
      have ends := Accounted.loopEnds uart same connected takes rounds
      cases count with
      | zero => exact ends
      | succ count =>
          simp only [Machine.next, tickStep]
          split
          · next receives =>
              obtain ⟨rxCb, goesOn⟩ := Accounted.loopGoesOn uart same connected
                takes rounds receives
              rw [if_pos rxCb]
              exact goesOn
          · exact ends

theorem Accounted.main {ninja : Ninja δ}
    (accounted : Accounted execute cdcConsole shell interrupts ⟨ninja, []⟩) :
    ∃ inputs, SameArrivals inputs interrupts ∧
      Run.run (inputStep execute cdcConsole) inputs (.powerOn shell) = ninja := by
  cases accounted with
  | @outside inputs _ _ same finishes =>
      generalize ran : Run.run (inputStep execute cdcConsole) inputs
        (.powerOn shell) = after at finishes
      cases finishes with
      | main => exact ⟨inputs, same, ran⟩

section

variable (plain : ∀ cmdline shell,
  runs cmdline shell = (none, execute cmdline shell))

include plain

theorem returns_consoleTick (ninja : Ninja δ) :
    Reaches runs cdcConsole none ⟨ninja, [.driverTick .consoleTick]⟩
      ⟨consoleTick execute ninja, []⟩ :=
  (reaches_consoleTick none [] ninja plain).trans
    (.head (.refl runs cdcConsole none _))

theorem Finishes.returns {ninja after : Ninja δ} {frames : List Frame}
    (finishes : Finishes execute ninja frames after) :
    ∃ ninja', Reaches runs cdcConsole none ⟨ninja, frames⟩ ⟨ninja', []⟩ := by
  have led : ∀ ninja : Ninja δ, Reaches runs cdcConsole none
      ⟨ninja, [.driverTick .ledTick]⟩ ⟨ninja, []⟩ := fun ninja =>
    .head (.refl runs cdcConsole none _)
  cases finishes with
  | main => exact ⟨_, .refl runs cdcConsole none _⟩
  | hwUartTick => exact ⟨_, reaches_driverTick none [] ninja plain⟩
  | consoleTick => exact ⟨_, returns_consoleTick plain ninja⟩
  | execute cmdline =>
      obtain ⟨next, done⟩ : ∃ next, Reaches runs cdcConsole none
          (Machine.next runs none 0 0
            ⟨ninja, [.execute cmdline false, .driverTick .lineDone]⟩)
          ⟨next, []⟩ := by
        simp only [Machine.next, executeStep, plain, Bool.false_eq_true,
          if_false]
        exact ⟨_, .head (led _)⟩
      exact ⟨next, .head done⟩
  | lineDone => exact ⟨_, .head (led _)⟩
  | ledTick => exact ⟨_, led ninja⟩

/-- Left alone the program comes to the end of the tick. -/
theorem Accounted.returns {machine : Machine δ}
    (accounted : Accounted execute cdcConsole shell interrupts machine) :
    ∃ ninja, Reaches runs cdcConsole none machine ⟨ninja, []⟩ := by
  cases accounted with
  | outside _ finishes => exact finishes.returns plain
  | @usbdevTick inputs received same =>
      generalize hwUartTick received (Run.run (inputStep execute cdcConsole)
        inputs (.powerOn shell)) = ninja
      obtain ⟨next, done⟩ : ∃ next, Reaches runs cdcConsole none
          (Machine.next runs none 0 0 ⟨ninja, [.driverTick .usbdevTick]⟩)
          ⟨next, []⟩ := by
        simp only [Machine.next, tickStep]
        split
        · exact ⟨_, (reaches_cdcRounds none [] cdcBufsize _).trans
            (returns_consoleTick plain _)⟩
        · exact ⟨_, returns_consoleTick plain _⟩
      exact ⟨next, .head done⟩
  | @cdcRounds inputs hosts bytes loop count =>
      exact ⟨_, (reaches_cdcRounds none [] count _).trans
        (returns_consoleTick plain _)⟩

end

end

/-- What happens around the program, if it is not its own step. -/
def MachineEvent.interrupt : MachineEvent → Option InputEvent
  | .arrive sent => some (.arrive sent)
  | .connect isConnected => some (.connect isConnected)
  | .next _ _ _ => none

section

variable {execute : List Byte → Shell δ → Shell δ} {cdcConsole : Bool}
  {shell : Shell δ}
  {runs : List Byte → Shell δ → Option KeyCommand × Shell δ}

theorem Accounted.step {interrupts : List InputEvent} {machine : Machine δ}
    (accounted : Accounted execute cdcConsole shell interrupts machine)
    (plain : ∀ cmdline shell,
      runs cmdline shell = (none, execute cmdline shell))
    (event : MachineEvent) :
    Accounted execute cdcConsole shell (interrupts ++ event.interrupt.toList)
      (machineStep runs cdcConsole event machine) := by
  cases event with
  | arrive sent => exact accounted.arrive sent
  | connect isConnected => exact accounted.connect isConnected
  | next received garbage pinb =>
      have after := accounted.next plain received garbage pinb
      rw [← List.append_nil interrupts] at after
      exact after

theorem interrupts_cons (event : MachineEvent) (events : List MachineEvent) :
    (event :: events).filterMap MachineEvent.interrupt =
      event.interrupt.toList ++ events.filterMap MachineEvent.interrupt := by
  cases event <;> rfl

theorem Accounted.run
    (plain : ∀ cmdline shell,
      runs cmdline shell = (none, execute cmdline shell))
    (events : List MachineEvent) {interrupts : List InputEvent}
    {machine : Machine δ}
    (accounted : Accounted execute cdcConsole shell interrupts machine) :
    Accounted execute cdcConsole shell
      (interrupts ++ events.filterMap MachineEvent.interrupt)
      (Run.run (machineStep runs cdcConsole) events machine) := by
  induction events generalizing interrupts machine with
  | nil => simpa using accounted
  | cons event events induction =>
      rw [Run.run_cons, interrupts_cons, ← List.append_assoc]
      exact induction (accounted.step plain event)

theorem accounted_powerOn :
    Accounted execute cdcConsole shell [] (.powerOn shell) :=
  .outside ⟨rfl, rfl⟩ (@Finishes.main _ execute (.powerOn shell))

end

/-- Wherever the interrupts find the program: left alone it comes to where
whole ticks bring it, between which the same bytes arrive and the same hosts
come and go, each in their order; and outside the ticks it is there. -/
theorem ticks_are_atomic (execute : List Byte → Shell δ → Shell δ)
    (cdcConsole : Bool) (shell : Shell δ) (events : List MachineEvent) :
    ∃ machine inputs ninja,
      machine = Run.run
        (machineStep (fun cmdline shell => (none, execute cmdline shell))
          cdcConsole) events (.powerOn shell) ∧
      sentBytes inputs =
        sentBytes (events.filterMap MachineEvent.interrupt) ∧
      connections inputs =
        connections (events.filterMap MachineEvent.interrupt) ∧
      ninja = Run.run (inputStep execute cdcConsole) inputs (.powerOn shell) ∧
      Reaches (fun cmdline shell => (none, execute cmdline shell)) cdcConsole
        none machine ⟨ninja, []⟩ ∧
      (machine.frames = [] → machine.ninja = ninja) := by
  have plain : ∀ (cmdline : List Byte) (shell : Shell δ),
      (fun cmdline shell => (none, execute cmdline shell) :
        List Byte → Shell δ → Option KeyCommand × Shell δ) cmdline shell =
          (none, execute cmdline shell) := fun _ _ => rfl
  have accounted := (@accounted_powerOn _ execute cdcConsole shell).run plain
    events
  rw [List.nil_append] at accounted
  generalize Run.run (machineStep (fun cmdline shell =>
    (none, execute cmdline shell)) cdcConsole) events
      (.powerOn shell) = machine at accounted
  by_cases outside : machine.frames = []
  · obtain ⟨ninja, frames⟩ := machine
    subst outside
    obtain ⟨inputs, same, ran⟩ := accounted.main
    exact ⟨_, inputs, ninja, rfl, same.bytes, same.hosts, ran.symm,
      .refl _ _ none _, fun _ => rfl⟩
  · obtain ⟨ninja, steps, reached⟩ := accounted.returns plain
    have later := accounted.run plain (List.replicate steps (.next none 0 0))
    have none : (List.replicate steps
        (.next none 0 0)).filterMap MachineEvent.interrupt = [] :=
      List.filterMap_replicate_of_none rfl
    rw [reached, none, List.append_nil] at later
    obtain ⟨inputs, same, ran⟩ := later.main
    exact ⟨_, inputs, ninja, rfl, same.bytes, same.hosts, ran.symm,
      ⟨steps, reached⟩, fun main => absurd main outside⟩

section

variable {execute : List Byte → Shell δ → Shell δ} {cdcConsole : Bool}
  {shell : Shell δ}
  {runs : List Byte → Shell δ → Option KeyCommand × Shell δ}

/-- A step of the program moves bytes from the endpoint only, if the UART has
nothing. -/
theorem Accounted.next_bytes {interrupts : List InputEvent}
    {machine : Machine δ}
    (accounted : Accounted execute cdcConsole shell interrupts machine)
    (plain : ∀ cmdline shell,
      runs cmdline shell = (none, execute cmdline shell))
    (garbage pinb : Byte) :
    (machine.next runs none garbage pinb).ninja.taken ++
        (machine.next runs none garbage pinb).ninja.cdc.endpoint =
      machine.ninja.taken ++ machine.ninja.cdc.endpoint := by
  cases accounted with
  | @outside inputs ninja frames same finishes =>
      generalize Run.run (inputStep execute cdcConsole) inputs
        (.powerOn shell) = after at finishes
      cases finishes with
      | main | hwUartTick | lineDone | ledTick => rfl
      | consoleTick =>
          simp only [Machine.next, tickStep]
          split
          · split
            · split <;> rfl
            · rfl
          · rfl
      | execute cmdline =>
          simp only [Machine.next, executeStep, plain, Bool.false_eq_true,
            if_false]
  | usbdevTick received same =>
      simp only [Machine.next, tickStep]
      split <;> rfl
  | @cdcRounds inputs hosts bytes loop count received same connected takes rounds =>
      cases count with
      | zero => rfl
      | succ count =>
          simp only [Machine.next, tickStep]
          split
          · exact cdcLoop_bytes 1 (loop.reconnect cdcConsole hosts)
          · rfl

theorem Accounted.step_bytes {interrupts : List InputEvent}
    {machine : Machine δ}
    (accounted : Accounted execute cdcConsole shell interrupts machine)
    (plain : ∀ cmdline shell,
      runs cmdline shell = (none, execute cmdline shell))
    {event : MachineEvent}
    (usb : ∀ received garbage pinb, event = .next received garbage pinb →
      received = none) :
    (machineStep runs cdcConsole event machine).ninja.taken ++
        (machineStep runs cdcConsole event machine).ninja.cdc.endpoint =
      machine.ninja.taken ++ machine.ninja.cdc.endpoint ++
        sentBytes event.interrupt.toList := by
  cases event with
  | arrive sent =>
      have alone : sentBytes [.arrive sent] = sent := List.append_nil sent
      rw [List.append_assoc]
      exact congrArg (machine.ninja.taken ++ ·)
        (congrArg (machine.ninja.cdc.endpoint ++ ·) alone.symm)
  | connect isConnected =>
      have device : (usbdevCdcDeviceConnect cdcConsole isConnected
          machine.ninja.cdc).endpoint = machine.ninja.cdc.endpoint := by
        cases cdcConsole <;> rfl
      exact (congrArg (machine.ninja.taken ++ ·) device).trans
        (List.append_nil _).symm
  | next received garbage pinb =>
      obtain rfl := usb received garbage pinb rfl
      exact (accounted.next_bytes plain garbage pinb).trans
        (List.append_nil _).symm

theorem Accounted.run_bytes
    (plain : ∀ cmdline shell,
      runs cmdline shell = (none, execute cmdline shell))
    {events : List MachineEvent}
    (usb : ∀ event ∈ events, ∀ received garbage pinb,
      event = .next received garbage pinb → received = none)
    {interrupts : List InputEvent} {machine : Machine δ}
    (accounted : Accounted execute cdcConsole shell interrupts machine) :
    (Run.run (machineStep runs cdcConsole) events machine).ninja.taken ++
        (Run.run (machineStep runs cdcConsole) events
          machine).ninja.cdc.endpoint =
      machine.ninja.taken ++ machine.ninja.cdc.endpoint ++
        sentBytes (events.filterMap MachineEvent.interrupt) := by
  induction events generalizing interrupts machine with
  | nil => exact (List.append_nil _).symm
  | cons event events induction =>
      obtain ⟨silent, rest⟩ := List.forall_mem_cons.mp usb
      rw [Run.run_cons, induction rest (accounted.step plain event),
        accounted.step_bytes plain silent, interrupts_cons, sentBytes_append,
        List.append_assoc]

end

/-- Outside the ticks the console is at its prompt, whatever has interrupted
them. -/
theorem interrupted_prompt {execute : List Byte → Shell δ → Shell δ}
    {cdcConsole : Bool} {shell : Shell δ} {events : List MachineEvent}
    (outside : (Run.run
      (machineStep (fun cmdline shell => (none, execute cmdline shell))
        cdcConsole) events (.powerOn shell)).frames = []) :
    Prompting execute shell (Run.run
      (machineStep (fun cmdline shell => (none, execute cmdline shell))
        cdcConsole) events (.powerOn shell)).ninja := by
  have accounted := (@accounted_powerOn _ execute cdcConsole shell).run
    (fun _ _ => rfl) events
  generalize Run.run (machineStep (fun cmdline shell =>
    (none, execute cmdline shell)) cdcConsole) events
      (.powerOn shell) = machine at accounted outside
  obtain ⟨ninja, frames⟩ := machine
  subst outside
  obtain ⟨inputs, -, ran⟩ := accounted.main
  have prompting := @prompting_run _ execute cdcConsole shell inputs
  rw [ran] at prompting
  exact prompting

/-- Wherever the interrupts find the program, with the UART silent: what has
been taken and what waits are together the bytes that have arrived, and
outside the ticks the shell and the line are those of a prompt at which the
bytes taken are typed. -/
theorem interrupted_session (execute : List Byte → Shell δ → Shell δ)
    (cdcConsole : Bool) (shell : Shell δ) {events : List MachineEvent}
    (usb : ∀ event ∈ events, ∀ received garbage pinb,
      event = .next received garbage pinb → received = none) :
    ∃ machine repl,
      machine = Run.run
        (machineStep (fun cmdline shell => (none, execute cmdline shell))
          cdcConsole) events (.powerOn shell) ∧
      repl = Run.run (typeByte execute) machine.ninja.taken ⟨[], shell⟩ ∧
      machine.ninja.taken ++ machine.ninja.cdc.endpoint =
        sentBytes (events.filterMap MachineEvent.interrupt) ∧
      (machine.frames = [] →
        machine.ninja.input.cmdline = repl.line ∧
          machine.ninja.shell = repl.shell) := by
  have bytes := (@accounted_powerOn _ execute cdcConsole shell).run_bytes
    (fun _ _ => rfl) usb
  refine ⟨_, _, rfl, rfl, bytes, fun outside => ?_⟩
  have repl := (interrupted_prompt outside).repl
  exact ⟨(congrArg Repl.line repl).symm, (congrArg Repl.shell repl).symm⟩

/-- `r` arrives while the loop is running, and the host goes before CR is
taken. -/
theorem interrupted_session_r :
    ∃ machine repl,
      machine = Run.run
        (machineStep (fun cmdline (shell : Shell Unit) =>
          (none, (fun line (shell : Shell Unit) =>
            shell.print (consolePutsP line)) cmdline shell)) true)
        ([.connect true, .next none 0 0, .next none 0 0, .next none 0 0,
            .arrive [0x72], .next none 0 0, .arrive [0x0D], .connect false] ++
          List.replicate 3 (.next none 0 0))
        (.powerOn (Shell.powerOn ())) ∧
      repl = Run.run (typeByte fun line (shell : Shell Unit) =>
          shell.print (consolePutsP line))
        machine.ninja.taken ⟨[], Shell.powerOn ()⟩ ∧
      machine.ninja.taken ++ machine.ninja.cdc.endpoint = [0x72, 0x0D] ∧
      (machine.frames = [] →
        machine.ninja.input.cmdline = repl.line ∧
          machine.ninja.shell = repl.shell) := by
  refine interrupted_session _ true (Shell.powerOn ()) ?_
  rintro event member received garbage pinb rfl
  have none : received = none ∧ garbage = 0 ∧ pinb = 0 := by
    simpa using member
  exact none.1

end BusNinja
