import Mathlib.Data.List.Induction
import BusNinja.ConsoleSessions

/-!
# Late arrivals

The receive loop takes the bytes that wait one by one, and what it leaves makes
no difference to it.  So what waits after a run may as well not have arrived
yet.
-/

namespace BusNinja

variable {δ : Type}

def Ninja.offering (bytes : List Byte) (ninja : Ninja δ) : Ninja δ :=
  { ninja with cdc.endpoint := bytes }

/-- The receive loop takes these bytes, one in each round. -/
inductive Takes : List Byte → Ninja δ → Ninja δ → Prop where
  | none (ninja : Ninja δ) : Takes [] ninja ninja
  | some {c : Byte} {bytes endpoint : List Byte} {ninja after : Ninja δ} :
      ninja.cdc.rxCb = true → ninja.cdc.rxReadyCb = true →
      consoleRxReadyCallback ninja.input = true →
      ninja.cdc.endpoint = c :: endpoint →
      Takes bytes ((ninja.offering endpoint).rx c) after →
      Takes (c :: bytes) ninja after

namespace Takes

variable {bytes : List Byte} {before after : Ninja δ}
  (takes : Takes bytes before after)

include takes

theorem cdc : after.cdc = { before.cdc with endpoint := after.cdc.endpoint } := by
  induction takes with
  | none ninja => rfl
  | some _ _ _ _ _ induction => exact induction

theorem endpoint : before.cdc.endpoint = bytes ++ after.cdc.endpoint := by
  induction takes with
  | none ninja => rfl
  | some _ _ _ waiting _ induction =>
      rw [waiting, List.cons_append, ← induction]
      rfl

/-- What is behind the bytes makes no difference. -/
theorem offering (rest : List Byte) :
    Takes bytes (before.offering (bytes ++ rest)) (after.offering rest) := by
  induction takes with
  | none ninja => exact .none _
  | some rxCb rxReadyCb ready _ _ induction =>
      exact .some rxCb rxReadyCb ready rfl induction

theorem snoc {c : Byte} {endpoint : List Byte} (rxCb : after.cdc.rxCb = true)
    (rxReadyCb : after.cdc.rxReadyCb = true)
    (ready : consoleRxReadyCallback after.input = true)
    (waiting : after.cdc.endpoint = c :: endpoint) :
    Takes (bytes ++ [c]) before ((after.offering endpoint).rx c) := by
  induction takes with
  | none ninja => exact .some rxCb rxReadyCb ready waiting (.none _)
  | some callback readyCallback able offered _ induction =>
      exact .some callback readyCallback able offered
        (induction rxCb rxReadyCb ready waiting)

theorem cdcLoop (rounds : Nat) :
    cdcLoop (bytes.length + rounds) before = cdcLoop rounds after := by
  induction takes with
  | none ninja => rw [List.length_nil, Nat.zero_add]
  | some rxCb rxReadyCb ready waiting _ induction =>
      rw [List.length_cons, Nat.succ_add, BusNinja.cdcLoop, waiting]
      dsimp only
      rw [if_pos ⟨rxReadyCb, ready⟩, if_pos rxCb]
      exact induction

end Takes

/-- What waits behind the bytes taken may be left out of a loop that has ended
before it. -/
theorem Takes.ended {bytes : List Byte} {before after : Ninja δ}
    (takes : Takes bytes before after) {first later : List Byte}
    (waiting : after.cdc.endpoint = first ++ later) {more : Nat}
    (ends : more = 0 ∨ after.receives = false) :
    BusNinja.cdcLoop (bytes.length + more) (before.offering (bytes ++ first)) =
      after.offering first := by
  rw [(takes.offering first).cdcLoop more]
  rcases ends with rfl | idle
  · rfl
  · refine cdcLoop_idle more ?_
    cases first with
    | nil => rfl
    | cons c first =>
        rw [Ninja.receives, waiting] at idle
        exact idle

theorem receives_cases {ninja : Ninja δ} (receives : ninja.receives = true) :
    ∃ c endpoint, ninja.cdc.endpoint = c :: endpoint ∧
      ninja.cdc.rxReadyCb = true ∧
      consoleRxReadyCallback ninja.input = true := by
  simp only [Ninja.receives, Bool.and_eq_true, Bool.not_eq_true'] at receives
  obtain ⟨⟨some, rxReadyCb⟩, ready⟩ := receives
  cases waiting : ninja.cdc.endpoint with
  | nil => simp [waiting] at some
  | cons c endpoint => exact ⟨c, endpoint, rfl, rxReadyCb, ready⟩

/-- The loop takes some bytes, and then has used its rounds or finds nothing
to receive. -/
theorem cdcLoop_taking (rounds : Nat) {ninja : Ninja δ}
    (paired : ninja.cdc.rxReadyCb = ninja.cdc.rxCb) :
    ∃ bytes more,
      Takes bytes ninja (cdcLoop rounds ninja) ∧
      rounds = bytes.length + more ∧
      (more = 0 ∨ (cdcLoop rounds ninja).receives = false) := by
  induction rounds generalizing ninja with
  | zero => exact ⟨[], 0, .none ninja, rfl, .inl rfl⟩
  | succ rounds induction =>
      cases receives : ninja.receives with
      | false =>
          rw [cdcLoop_idle (rounds + 1) receives]
          exact ⟨[], rounds + 1, .none ninja, (Nat.zero_add _).symm, .inr receives⟩
      | true =>
          obtain ⟨c, endpoint, waiting, rxReadyCb, ready⟩ :=
            receives_cases receives
          have rxCb : ninja.cdc.rxCb = true := paired.symm.trans rxReadyCb
          obtain ⟨bytes, more, takes, used, ends⟩ :=
            @induction ((ninja.offering endpoint).rx c) paired
          have first := Takes.some rxCb rxReadyCb ready waiting takes
          have whole : cdcLoop (rounds + 1) ninja =
              cdcLoop rounds ((ninja.offering endpoint).rx c) := by
            rw [Nat.add_comm]
            exact (Takes.some rxCb rxReadyCb ready waiting (.none _)).cdcLoop rounds
          rw [whole]
          refine ⟨c :: bytes, more, first, ?_, ends⟩
          rw [List.length_cons, used]
          omega

/-- Whether the host is connected, as it changes. -/
def connections (inputs : List InputEvent) : List Bool :=
  inputs.filterMap fun
    | .connect isConnected => some isConnected
    | _ => none

theorem sentBytes_append (first second : List InputEvent) :
    sentBytes (first ++ second) = sentBytes first ++ sentBytes second :=
  List.flatMap_append

theorem connections_append (first second : List InputEvent) :
    connections (first ++ second) = connections first ++ connections second :=
  List.filterMap_append

/-- The callbacks are there when the host is and the console uses it. -/
structure Wired (cdcConsole : Bool) (cdc : UsbdevCdc) : Prop where
  rxCb : cdc.rxCb = (cdcConsole && cdc.connected)
  rxReadyCb : cdc.rxReadyCb = (cdcConsole && cdc.connected)

theorem Wired.paired {cdcConsole : Bool} {cdc : UsbdevCdc}
    (wired : Wired cdcConsole cdc) : cdc.rxReadyCb = cdc.rxCb :=
  wired.rxReadyCb.trans wired.rxCb.symm

theorem Wired.connect {cdcConsole : Bool} {cdc : UsbdevCdc}
    (wired : Wired cdcConsole cdc) (isConnected : Bool) :
    Wired cdcConsole (usbdevCdcDeviceConnect cdcConsole isConnected cdc) := by
  cases cdcConsole with
  | false => exact ⟨wired.rxCb, wired.rxReadyCb⟩
  | true => exact ⟨rfl, rfl⟩

section

variable (execute : List Byte → Shell δ → Shell δ)

theorem hwUartTick_cdc (received : Option Byte) (ninja : Ninja δ)
    (cdc : UsbdevCdc) :
    hwUartTick received { ninja with cdc := cdc } =
      { hwUartTick received ninja with cdc := cdc } := by
  cases received <;> rfl

theorem hwUartTick_frame (received : Option Byte) (ninja : Ninja δ) :
    (hwUartTick received ninja).cdc = ninja.cdc := by
  cases received <;> rfl

theorem consoleTick_cdc (ninja : Ninja δ) (cdc : UsbdevCdc) :
    consoleTick execute { ninja with cdc := cdc } =
      { consoleTick execute ninja with cdc := cdc } := by
  unfold consoleTick
  dsimp only
  split
  · split
    · split <;> rfl
    · rfl
  · rfl

theorem hwUartTick_offering (received : Option Byte) (bytes : List Byte)
    (ninja : Ninja δ) :
    hwUartTick received (ninja.offering bytes) =
      (hwUartTick received ninja).offering bytes := by
  cases received <;> rfl

theorem consoleTick_offering (bytes : List Byte) (ninja : Ninja δ) :
    consoleTick execute (ninja.offering bytes) =
      (consoleTick execute ninja).offering bytes := by
  rw [Ninja.offering, consoleTick_cdc, Ninja.offering,
    (consoleTick_frame execute ninja).1]

/-- A tick with the host connected is its loop between two other parts. -/
theorem driverTick_connected (received : Option Byte) {ninja : Ninja δ}
    (connected : ninja.cdc.connected = true) :
    driverTick execute received ninja =
      consoleTick execute (cdcLoop cdcBufsize (hwUartTick received ninja)) := by
  have still : (hwUartTick received ninja).cdc.connected = true := by
    rw [hwUartTick_frame]
    exact connected
  rw [driverTick, usbdevCdcTick, still]
  rfl

theorem driverTick_alone (received : Option Byte) {ninja : Ninja δ}
    (alone : ninja.cdc.connected = false) :
    driverTick execute received ninja =
      consoleTick execute (hwUartTick received ninja) := by
  have still : (hwUartTick received ninja).cdc.connected = false := by
    rw [hwUartTick_frame]
    exact alone
  rw [driverTick, usbdevCdcTick, still]
  rfl

theorem Wired.step {cdcConsole : Bool} {ninja : Ninja δ}
    (wired : Wired cdcConsole ninja.cdc) (input : InputEvent) :
    Wired cdcConsole (inputStep execute cdcConsole input ninja).cdc := by
  cases input with
  | arrive sent => exact ⟨wired.rxCb, wired.rxReadyCb⟩
  | connect isConnected => exact wired.connect isConnected
  | driverTick received =>
      have uart := hwUartTick_frame received ninja
      obtain ⟨endpoint, usb⟩ :=
        usbdevCdcTick_cdc (hwUartTick received ninja)
      have console := (consoleTick_frame execute
        (usbdevCdcTick (hwUartTick received ninja))).1
      rw [inputStep, driverTick, console, usb, uart]
      exact ⟨wired.rxCb, wired.rxReadyCb⟩
  | keyPoll =>
      rw [inputStep, Ninja.keyPoll]
      exact wired

theorem wired_run (cdcConsole : Bool) (shell : Shell δ)
    (inputs : List InputEvent) :
    Wired cdcConsole
      (Run.run (inputStep execute cdcConsole) inputs (.powerOn shell)).cdc := by
  have initial : Wired cdcConsole (Ninja.powerOn shell).cdc := by
    cases cdcConsole <;> exact ⟨rfl, rfl⟩
  exact @Run.run_invariant _ _ (inputStep execute cdcConsole)
    (fun ninja => Wired cdcConsole ninja.cdc)
    (fun input _ wired => wired.step execute input) inputs _ initial

/-- Whatever is not an arrival is the same without what waits behind the
bytes it takes. -/
theorem inputStep_offering {cdcConsole : Bool} {ninja : Ninja δ}
    (wired : Wired cdcConsole ninja.cdc) {input : InputEvent}
    (other : ∀ sent, input ≠ .arrive sent) {first later : List Byte}
    (waiting : (inputStep execute cdcConsole input ninja).cdc.endpoint =
      first ++ later) :
    ∃ before, ninja.cdc.endpoint = before ++ later ∧
      inputStep execute cdcConsole input (ninja.offering before) =
        (inputStep execute cdcConsole input ninja).offering first := by
  cases input with
  | arrive sent => exact absurd rfl (other sent)
  | connect isConnected =>
      cases cdcConsole <;> exact ⟨first, waiting, rfl⟩
  | keyPoll => exact ⟨first, waiting, rfl⟩
  | driverTick received =>
      have uart := hwUartTick_frame received ninja
      cases connected : ninja.cdc.connected with
      | false =>
          rw [inputStep, driverTick_alone execute received connected,
            (consoleTick_frame execute _).1, uart] at waiting
          refine ⟨first, waiting, ?_⟩
          rw [inputStep, inputStep, driverTick_alone execute received connected,
            @driverTick_alone _ execute received (ninja.offering first) connected,
            hwUartTick_offering, consoleTick_offering]
      | true =>
          obtain ⟨bytes, more, takes, used, ends⟩ :=
            @cdcLoop_taking _ cdcBufsize (hwUartTick received ninja)
              (by rw [uart]; exact wired.paired)
          rw [inputStep, driverTick_connected execute received connected,
            (consoleTick_frame execute _).1] at waiting
          refine ⟨bytes ++ first, ?_, ?_⟩
          · rw [← uart, takes.endpoint, waiting, List.append_assoc]
          · have offered : (ninja.offering (bytes ++ first)).cdc.connected = true :=
              connected
            rw [inputStep, inputStep,
              driverTick_connected execute received connected,
              driverTick_connected execute received offered,
              hwUartTick_offering, ← consoleTick_offering, used,
              takes.ended waiting ends, ← used]

/-- What still waits may as well not have arrived yet. -/
theorem arrived_later (cdcConsole : Bool) (shell : Shell δ)
    (inputs : List InputEvent) {first later : List Byte}
    (waiting : (Run.run (inputStep execute cdcConsole) inputs
      (.powerOn shell)).cdc.endpoint = first ++ later) :
    ∃ earlier,
      Run.run (inputStep execute cdcConsole) earlier (.powerOn shell) =
        (Run.run (inputStep execute cdcConsole) inputs
          (.powerOn shell)).offering first ∧
      sentBytes inputs = sentBytes earlier ++ later ∧
      connections inputs = connections earlier := by
  induction inputs using List.reverseRecOn generalizing first later with
  | nil =>
      obtain ⟨rfl, rfl⟩ := List.append_eq_nil_iff.mp waiting.symm
      exact ⟨[], rfl, rfl, rfl⟩
  | append_singleton inputs input induction =>
      have wired := wired_run execute cdcConsole shell inputs
      rw [Run.run_append] at waiting ⊢
      simp only [sentBytes_append, connections_append]
      by_cases packet : ∃ sent, input = .arrive sent
      · obtain ⟨sent, rfl⟩ := packet
        have alone : sentBytes [.arrive sent] = sent := List.append_nil sent
        rcases List.append_eq_append_iff.mp waiting with
          ⟨taken, rfl, split⟩ | ⟨held, split, rfl⟩
        · -- the packet is cut in two
          obtain ⟨earlier, ran, bytes, same⟩ :=
            induction (List.append_nil _).symm
          have cut : sentBytes [.arrive taken] = taken := List.append_nil taken
          refine ⟨earlier ++ [.arrive taken], ?_, ?_, ?_⟩
          · rw [Run.run_append, ran]
            rfl
          · rw [bytes, sentBytes_append, List.append_nil, alone, cut, split,
              List.append_assoc]
          · rw [same, connections_append]
            rfl
        · obtain ⟨earlier, ran, bytes, same⟩ := induction split
          refine ⟨earlier, ran, ?_, ?_⟩
          · rw [bytes, alone, List.append_assoc]
          · rw [same]
            exact List.append_nil _
      · have other : ∀ sent, input ≠ .arrive sent :=
          fun sent same => packet ⟨sent, same⟩
        have none : sentBytes [input] = [] := by
          cases input with
          | arrive sent => exact absurd rfl (other sent)
          | connect isConnected => rfl
          | driverTick received => rfl
          | keyPoll => rfl
        obtain ⟨before, offered, step⟩ :=
          inputStep_offering execute wired other waiting
        obtain ⟨earlier, ran, bytes, same⟩ := induction offered
        refine ⟨earlier ++ [input], ?_, ?_, ?_⟩
        · rw [Run.run_append, ran]
          exact step
        · rw [bytes, sentBytes_append, none, List.append_nil, List.append_nil]
        · rw [same, connections_append]

end

end BusNinja
