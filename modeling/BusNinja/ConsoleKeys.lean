import BusNinja.Library.Ledger
import BusNinja.Source.Ninja

/-!
# Keys

In key mode the console keeps the last key it was given, and tells the
receive loop that it is ready for more.  Keys survive exactly if no tick
brings one while another is pending, and no tick brings two.
-/

namespace BusNinja

/-- The key that the next poll returns. -/
def ConsoleInput.pendingKey (input : ConsoleInput) : List Byte :=
  if input.gotKey then [input.lastKey] else []

/-- The bytes a tick receives over USB while the console is always ready. -/
def UsbdevCdc.offered (cdc : UsbdevCdc) : List Byte :=
  if cdc.connected ∧ cdc.rxReadyCb then cdc.endpoint.take cdcBufsize else []

theorem pendingKey_length (input : ConsoleInput) :
    input.pendingKey.length ≤ 1 := by
  unfold ConsoleInput.pendingKey
  split <;> simp

theorem getLast?_toList_append (held rest : List Byte) :
    (held.getLast?.toList ++ rest).getLast? = (held ++ rest).getLast? := by
  rw [List.getLast?_append, List.getLast?_append]
  cases held.getLast? <;> rfl

section

variable {δ : Type}

/-- These keys were received in key mode; only the last one is left. -/
structure KeysReceived (keys : List Byte) (before after : Ninja δ) : Prop where
  mode : after.input.mode = .key
  polled : after.polled = before.polled
  taken : after.taken = before.taken ++ keys
  pending : after.input.pendingKey =
    (before.input.pendingKey ++ keys).getLast?.toList
  paired : after.cdc.rxReadyCb = after.cdc.rxCb

/-- The console is in key mode, and both callbacks are set or neither. -/
structure KeyMode (ninja : Ninja δ) : Prop where
  mode : ninja.input.mode = .key
  paired : ninja.cdc.rxReadyCb = ninja.cdc.rxCb

theorem KeysReceived.keyMode {keys : List Byte} {before after : Ninja δ}
    (received : KeysReceived keys before after) : KeyMode after :=
  ⟨received.mode, received.paired⟩

theorem KeysReceived.frame {ninja : Ninja δ} (mode : ninja.input.mode = .key)
    {cdc : UsbdevCdc} (paired : cdc.rxReadyCb = cdc.rxCb) :
    KeysReceived [] ninja { ninja with cdc := cdc } := by
  refine ⟨mode, rfl, ?_, ?_, paired⟩
  · rw [List.append_nil]
  · rw [List.append_nil]
    unfold ConsoleInput.pendingKey
    split <;> rfl

theorem KeysReceived.none {ninja : Ninja δ} (keyMode : KeyMode ninja) :
    KeysReceived [] ninja ninja :=
  .frame keyMode.mode keyMode.paired

theorem KeysReceived.trans {first second : List Byte}
    {before between after : Ninja δ}
    (earlier : KeysReceived first before between)
    (later : KeysReceived second between after) :
    KeysReceived (first ++ second) before after := by
  refine ⟨later.mode, later.polled.trans earlier.polled, ?_, ?_, later.paired⟩
  · rw [later.taken, earlier.taken, List.append_assoc]
  · rw [later.pending, earlier.pending, ← List.append_assoc]
    rw [getLast?_toList_append]

theorem rx_received {ninja : Ninja δ} (keyMode : KeyMode ninja) (c : Byte) :
    KeysReceived [c] ninja (ninja.rx c) := by
  refine ⟨?_, rfl, rfl, ?_, keyMode.paired⟩
  · rw [Ninja.rx_key keyMode.mode]
    exact keyMode.mode
  · rw [Ninja.rx_key keyMode.mode, List.getLast?_concat]
    rfl

/-- In key mode the receive loop stops for nothing but an empty endpoint. -/
theorem cdcLoop_received (rounds : Nat) {ninja : Ninja δ}
    (keyMode : KeyMode ninja) (set : ninja.cdc.rxReadyCb = true) :
    KeysReceived (ninja.cdc.endpoint.take rounds) ninja
      (cdcLoop rounds ninja) := by
  induction rounds generalizing ninja with
  | zero =>
      rw [List.take_zero]
      exact .none keyMode
  | succ rounds induction =>
      unfold cdcLoop
      split
      · next empty =>
          rw [empty, List.take_nil]
          exact .none keyMode
      · next c endpoint waiting =>
          have ready : consoleRxReadyCallback ninja.input = true := by
            simp [consoleRxReadyCallback, keyMode.mode]
          have present : ninja.cdc.rxCb = true := keyMode.paired ▸ set
          rw [if_pos ⟨set, ready⟩, if_pos present, waiting, List.take_succ_cons]
          have popped : KeysReceived [] ninja
              { ninja with cdc.endpoint := endpoint } :=
            .frame keyMode.mode keyMode.paired
          have first := popped.trans (rx_received popped.keyMode c)
          exact first.trans (induction first.keyMode set)

theorem usbdevCdcTick_received {ninja : Ninja δ} (keyMode : KeyMode ninja) :
    KeysReceived ninja.cdc.offered ninja (usbdevCdcTick ninja) := by
  unfold UsbdevCdc.offered usbdevCdcTick
  cases connected : ninja.cdc.connected with
  | false =>
      rw [if_neg (by simp), if_pos (by simp)]
      exact .none keyMode
  | true =>
      rw [if_neg (by simp : ¬ (!true) = true)]
      cases set : ninja.cdc.rxReadyCb with
      | false =>
          have idle : ninja.receives = false := by simp [Ninja.receives, set]
          rw [if_neg (by simp), cdcLoop_idle _ idle]
          exact .none keyMode
      | true =>
          rw [if_pos (by simp)]
          exact cdcLoop_received cdcBufsize keyMode set

variable (execute : List Byte → Shell δ → Shell δ)

theorem driverTick_received {ninja : Ninja δ} (keyMode : KeyMode ninja)
    (received : Option Byte) :
    KeysReceived (received.toList ++ ninja.cdc.offered) ninja
      (driverTick execute received ninja) := by
  have uart : KeysReceived received.toList ninja
      (hwUartTick received ninja) := by
    cases received with
    | none => exact .none keyMode
    | some c => exact rx_received keyMode c
  have cdc : (hwUartTick received ninja).cdc = ninja.cdc := by
    cases received <;> rfl
  have whole := uart.trans (usbdevCdcTick_received uart.keyMode)
  rw [cdc] at whole
  have idle : driverTick execute received ninja =
      usbdevCdcTick (hwUartTick received ninja) := by
    unfold driverTick consoleTick
    rw [whole.mode]
  rw [idle]
  exact whole

def broughtKeys : InputEvent → Ninja δ → List Byte
  | .driverTick received, ninja => received.toList ++ ninja.cdc.offered
  | _, _ => []

/-- A tick brings two keys, or one while another is pending. -/
def KeyOverruns : InputEvent → Ninja δ → Prop
  | .driverTick received, ninja =>
      1 < ninja.input.pendingKey.length +
        (broughtKeys (.driverTick received) ninja).length
  | _, _ => False

instance (event : InputEvent) (ninja : Ninja δ) :
    Decidable (KeyOverruns event ninja) := by
  cases event <;> unfold KeyOverruns <;> infer_instance

/-- The keys polled, with the one still pending. -/
def keyLedger : Ledger InputEvent (Ninja δ) Byte where
  balance := fun ninja => ninja.polled ++ ninja.input.pendingKey
  asks := broughtKeys
  forgets := KeyOverruns

theorem getLast?_toList_short {keys : List Byte} (short : ¬ 1 < keys.length) :
    keys.getLast?.toList = keys := by
  match keys with
  | [] => rfl
  | [key] => rfl
  | first :: second :: keys => simp at short

structure KeyStep (event : InputEvent) (before after : Ninja δ) : Prop where
  keyMode : KeyMode after
  taken : after.taken = before.taken ++ broughtKeys event before
  settled : ¬ KeyOverruns event before →
    after.polled ++ after.input.pendingKey =
      before.polled ++ before.input.pendingKey ++ broughtKeys event before
  short : KeyOverruns event before →
    (after.polled ++ after.input.pendingKey).length <
      (before.polled ++ before.input.pendingKey ++
        broughtKeys event before).length

theorem driverTick_keyStep {ninja : Ninja δ} (keyMode : KeyMode ninja)
    (received : Option Byte) :
    KeyStep (.driverTick received) ninja
      (driverTick execute received ninja) := by
  have ticked := driverTick_received execute keyMode received
  refine ⟨ticked.keyMode, ticked.taken, ?_, ?_⟩
  · intro room
    rw [ticked.polled, ticked.pending, getLast?_toList_short, List.append_assoc]
    · rfl
    · rw [List.length_append]
      exact room
  · intro overruns
    have one := pendingKey_length (driverTick execute received ninja).input
    rw [List.length_append, List.length_append, List.length_append,
      ticked.polled]
    simp only [KeyOverruns] at overruns
    omega

theorem keyPoll_keyStep {ninja : Ninja δ} (keyMode : KeyMode ninja) :
    KeyStep .keyPoll ninja ninja.keyPoll := by
  cases got : ninja.input.gotKey with
  | false =>
      rw [Ninja.keyPoll_none got]
      refine ⟨keyMode, ?_, ?_, fun overruns => overruns.elim⟩
      · simp [broughtKeys]
      · simp [broughtKeys]
  | true =>
      rw [Ninja.keyPoll_got got]
      refine ⟨⟨keyMode.mode, keyMode.paired⟩, ?_, ?_,
        fun overruns => overruns.elim⟩
      · simp [broughtKeys]
      · simp [broughtKeys, ConsoleInput.pendingKey, got]

theorem inputStep_keyStep (cdcConsole : Bool) (event : InputEvent)
    {ninja : Ninja δ} (keyMode : KeyMode ninja) :
    KeyStep event ninja (inputStep execute cdcConsole event ninja) := by
  cases event with
  | arrive sent =>
      refine ⟨⟨keyMode.mode, keyMode.paired⟩, ?_, ?_,
        fun overruns => overruns.elim⟩
      · simp [broughtKeys, inputStep]
      · simp [broughtKeys, inputStep]
  | connect isConnected =>
      refine ⟨⟨keyMode.mode, ?_⟩, ?_, ?_, fun overruns => overruns.elim⟩
      · unfold inputStep usbdevCdcDeviceConnect
        dsimp only
        split
        · rfl
        · exact keyMode.paired
      · simp [broughtKeys, inputStep]
      · simp [broughtKeys, inputStep]
  | driverTick received => exact driverTick_keyStep execute keyMode received
  | keyPoll => exact keyPoll_keyStep keyMode

theorem keyLedger_run (cdcConsole : Bool) (events : List InputEvent)
    {ninja : Ninja δ} (keyMode : KeyMode ninja) :
    Run.Meets (inputStep execute cdcConsole)
        (keyLedger.Sound (inputStep execute cdcConsole)) events ninja ∧
      (Run.run (inputStep execute cdcConsole) events ninja).taken =
        ninja.taken ++
          keyLedger.total (inputStep execute cdcConsole) events ninja := by
  induction events generalizing ninja with
  | nil => exact ⟨trivial, (List.append_nil _).symm⟩
  | cons event events induction =>
      have step := inputStep_keyStep execute cdcConsole event keyMode
      obtain ⟨sound, taken⟩ := induction step.keyMode
      refine ⟨⟨⟨step.settled, step.short⟩, sound⟩, ?_⟩
      rw [Run.run_cons, taken, step.taken, List.append_assoc]
      rfl

/-- The console as it enters key mode, connected over USB. -/
def enterKeyMode (ninja : Ninja δ) : Ninja δ :=
  { ninja with
    input := consoleSetMode .key ninja.input
    cdc := usbdevCdcDeviceConnect true true ninja.cdc
    taken := []
    polled := [] }

/-- The keys polled, with the one still pending, are the bytes taken exactly
if no tick overruns the mailbox. -/
theorem keys_polled_iff (cdcConsole : Bool) (ninja : Ninja δ)
    (events : List InputEvent) :
    (∃ after,
      after = Run.run (inputStep execute cdcConsole) events
        (enterKeyMode ninja) ∧
      after.polled ++ after.input.pendingKey = after.taken) ↔
      Run.Meets (inputStep execute cdcConsole)
        (fun event state => ¬ KeyOverruns event state) events
        (enterKeyMode ninja) := by
  have entered : KeyMode (enterKeyMode ninja) := ⟨rfl, rfl⟩
  obtain ⟨sound, taken⟩ := keyLedger_run execute cdcConsole events entered
  have balance := keyLedger.balance_run_iff events (enterKeyMode ninja) sound
  have nothing : keyLedger.balance (enterKeyMode ninja) = [] := rfl
  rw [nothing, List.nil_append] at balance
  have start : (enterKeyMode ninja).taken = [] := rfl
  rw [start, List.nil_append] at taken
  rw [← taken] at balance
  constructor
  · rintro ⟨after, rfl, polled⟩
    exact balance.mp polled
  · intro meets
    exact ⟨_, rfl, balance.mpr meets⟩

end

/-- Two keys in one packet. -/
theorem keys_of_one_packet_lost :
    ¬ ∀ (execute : List Byte → Shell Unit → Shell Unit) (ninja : Ninja Unit)
        (events : List InputEvent),
      ∃ after,
        after = Run.run (inputStep execute true) events (enterKeyMode ninja) ∧
        after.polled ++ after.input.pendingKey = after.taken := by
  intro always
  obtain ⟨after, rfl, polled⟩ := always (fun _ shell => shell)
    (.powerOn (.powerOn ()))
    [.arrive [0x31, 0x32], .driverTick none, .keyPoll]
  revert polled
  decide

end BusNinja
