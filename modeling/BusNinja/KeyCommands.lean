import BusNinja.BusDump
import BusNinja.ConsoleCalls

/-!
# Commands that wait for keys

`dumpkeys` and the menus poll for keys and tick the drivers while there is
none.  A tick in key mode puts nothing out, so what is on the screen is what
the command says to the keys it has polled, whatever happens meanwhile.
-/

namespace BusNinja

variable {δ : Type}

def Ninja.console (ninja : Ninja δ) : Console := ninja.shell.board.out.console

/-- At the poll, or in a tick from there that has no line to come back to. -/
inductive Polling (point : CommandPoint) (frames : List Frame) :
    List Frame → Prop where
  | poll : Polling point frames (.command point :: frames)
  | tick (tick : TickPoint) (noLine : tick ≠ .lineDone) :
      Polling point frames (.driverTick tick :: .command point :: frames)

/-- The machine waits for a key, with this on the screen and these keys
polled. -/
structure Waits (point : CommandPoint) (frames : List Frame)
    (console : Console) (polled : List Byte) (machine : Machine δ) : Prop where
  frames : Polling point frames machine.frames
  key : machine.ninja.input.mode = .key
  console : machine.ninja.console = console
  polled : machine.ninja.polled = polled

/-- Nothing is put out and no key is polled. -/
def Quiet (before after : Ninja δ) : Prop :=
  after.console = before.console ∧ after.polled = before.polled

theorem rx_quiet {ninja : Ninja δ} (key : ninja.input.mode = .key) (c : Byte) :
    Quiet ninja (ninja.rx c) := by
  refine ⟨?_, rfl⟩
  change (consoleRxCallback c ninja.input ninja.console).2 = _
  simp [consoleRxCallback, key]

theorem cdcLoop_quiet (rounds : Nat) {ninja : Ninja δ}
    (key : ninja.input.mode = .key) : Quiet ninja (cdcLoop rounds ninja) := by
  induction rounds generalizing ninja with
  | zero => exact ⟨rfl, rfl⟩
  | succ rounds induction =>
      unfold cdcLoop
      split
      · exact ⟨rfl, rfl⟩
      · next c endpoint _ =>
          dsimp only
          split
          · split
            · obtain ⟨shown, polled⟩ := @rx_quiet _
                { ninja with cdc.endpoint := endpoint } key c
              obtain ⟨later, more⟩ := @induction
                (Ninja.rx c { ninja with cdc.endpoint := endpoint })
                (rx_keyKept key c).1
              exact ⟨later.trans shown, more.trans polled⟩
            · exact ⟨rfl, rfl⟩
          · exact ⟨rfl, rfl⟩

theorem tickStep_quiet (received : Option Byte) (frames : List Frame)
    {point : TickPoint} (noLine : point ≠ .lineDone) {ninja : Ninja δ}
    (key : ninja.input.mode = .key) :
    Quiet ninja (tickStep received frames ninja point).ninja ∧
      ((tickStep received frames ninja point).frames = frames ∨
        ∃ next, next ≠ .lineDone ∧
          (tickStep received frames ninja point).frames =
            .driverTick next :: frames) := by
  cases point with
  | hwUartTick =>
      refine ⟨?_, .inr ⟨.usbdevTick, by decide, rfl⟩⟩
      cases received with
      | none => exact ⟨rfl, rfl⟩
      | some c => exact rx_quiet key c
  | usbdevTick =>
      simp only [tickStep]
      split
      · exact ⟨⟨rfl, rfl⟩, .inr ⟨.cdcRounds cdcBufsize, by decide, rfl⟩⟩
      · exact ⟨⟨rfl, rfl⟩, .inr ⟨.consoleTick, by decide, rfl⟩⟩
  | cdcRounds count =>
      cases count with
      | zero => exact ⟨⟨rfl, rfl⟩, .inr ⟨.consoleTick, by decide, rfl⟩⟩
      | succ count =>
          simp only [tickStep]
          split
          · refine ⟨cdcLoop_quiet 1 key, .inr ⟨_, ?_, rfl⟩⟩
            split <;> simp
          · exact ⟨⟨rfl, rfl⟩, .inr ⟨.consoleTick, by decide, rfl⟩⟩
  | consoleTick =>
      simp only [tickStep, key]
      exact ⟨⟨rfl, rfl⟩, .inr ⟨.ledTick, by decide, rfl⟩⟩
  | lineDone => contradiction
  | ledTick => exact ⟨⟨rfl, rfl⟩, .inl rfl⟩

section

variable (runs : List Byte → Shell δ → Option KeyCommand × Shell δ)
  (cdcConsole : Bool) {point : CommandPoint} {frames : List Frame}
  {console : Console} {polled : List Byte} {machine : Machine δ}

/-- A step leaves the machine waiting, or hands a key to the command. -/
theorem Waits.step (waits : Waits point frames console polled machine)
    {handle : Byte → Ninja δ → Machine δ}
    (polls : ∀ ninja garbage pinb, commandStep frames ninja garbage pinb point =
      pollStep frames ninja point handle) (event : MachineEvent) :
    Waits point frames console polled
        (machineStep runs cdcConsole event machine) ∨
      ∃ c ninja,
        ninja.input.mode = .key ∧ ninja.console = console ∧
        ninja.polled = polled ++ [c] ∧
        machineStep runs cdcConsole event machine = handle c ninja := by
  obtain ⟨inside, key, shown, keys⟩ := waits
  obtain ⟨ninja, now⟩ := machine
  cases event with
  | arrive sent => exact .inl ⟨inside, key, shown, keys⟩
  | connect isConnected => exact .inl ⟨inside, key, shown, keys⟩
  | next received garbage pinb =>
      cases inside with
      | poll =>
          simp only [machineStep, Machine.next, polls, pollStep]
          cases got : ninja.input.gotKey with
          | false =>
              left
              have none : (consoleKeyPoll ninja.input).1 = .none := by
                simp [consoleKeyPoll, got]
              rw [none]
              exact ⟨.tick .hwUartTick (by decide), key, shown, keys⟩
          | true =>
              right
              have some : (consoleKeyPoll ninja.input).1 =
                  .some ninja.input.lastKey := by
                simp [consoleKeyPoll, got]
              rw [some]
              have kept := (keyPoll_keyKept key).1
              refine ⟨ninja.input.lastKey, ninja.keyPoll, kept, ?_, ?_, rfl⟩
              · rw [Ninja.keyPoll_got got]
                exact shown
              · rw [Ninja.keyPoll_got got]
                exact congrArg (· ++ [ninja.input.lastKey]) keys
      | tick tick noLine =>
          left
          obtain ⟨⟨mode, -⟩, -⟩ :=
            tickStep_key received (.command point :: frames) tick key
          obtain ⟨⟨quiet, none⟩, returns⟩ :=
            tickStep_quiet received (.command point :: frames) noLine key
          refine ⟨?_, mode, quiet.trans shown, none.trans keys⟩
          change Polling point frames
            (tickStep received (.command point :: frames) ninja tick).frames
          rcases returns with returned | ⟨next, stillNone, goesOn⟩
          · rw [returned]
            exact .poll
          · rw [goesOn]
            exact .tick next stillNone

/-- What `dumpkeys` does with a key. -/
def dumpkeysKey (frames : List Frame) (c : Byte) (ninja : Ninja δ) :
    Machine δ :=
  let ninja := ninja.print fun console =>
    consoleNewline (consolePuthex8 c console)
  if c ≠ 0x20 then ⟨ninja, .command .dumpkeysPoll :: frames⟩
  else ⟨ninja.setMode .line, frames⟩

theorem dumpkeys_polls (ninja : Ninja δ) (garbage pinb : Byte) :
    commandStep frames ninja garbage pinb .dumpkeysPoll =
      pollStep frames ninja .dumpkeysPoll (dumpkeysKey frames) :=
  rfl

def dumpedKey (c : Byte) : List Byte := hexDigits c ++ [0x0D, 0x0A]

def spaceToQuit : List Byte := text "Space to quit" ++ [0x0D, 0x0A]

/-- The machine waits in `dumpkeys` until the last key is a space, and then
has returned from it. -/
structure Dumps (frames : List Frame) (console : Console) (before : List Byte)
    (keys : List Byte) (machine : Machine δ) : Prop where
  polled : machine.ninja.polled = before ++ keys
  shown : machine.ninja.console =
    consolePutsP (spaceToQuit ++ keys.flatMap dumpedKey) console
  inside : 0x20 ∉ keys →
    Polling .dumpkeysPoll frames machine.frames ∧
      machine.ninja.input.mode = .key
  outside : 0x20 ∈ keys →
    machine.frames = frames ∧ machine.ninja.input.mode = .line

theorem Dumps.step {before keys : List Byte}
    (dumps : Dumps frames console before keys machine) (noSpace : 0x20 ∉ keys)
    (event : MachineEvent) :
    ∃ more, Dumps frames console before (keys ++ more)
      (machineStep runs cdcConsole event machine) := by
  obtain ⟨inside, key⟩ := dumps.inside noSpace
  have waits : Waits .dumpkeysPoll frames _ _ machine :=
    ⟨inside, key, dumps.shown, dumps.polled⟩
  rcases waits.step runs cdcConsole dumpkeys_polls event with
    ⟨inside, key, shown, polled⟩ | ⟨c, ninja, key, shown, polled, handled⟩
  · refine ⟨[], ?_⟩
    rw [List.append_nil]
    exact ⟨polled, shown, fun _ => ⟨inside, key⟩, fun space => absurd space noSpace⟩
  · refine ⟨[c], ?_⟩
    rw [handled, dumpkeysKey]
    have dumped : consoleNewline (consolePuthex8 c ninja.console) =
        consolePutsP (spaceToQuit ++ (keys ++ [c]).flatMap dumpedKey) console := by
      rw [shown, List.flatMap_append, ← List.append_assoc,
        consolePutsP_append (_ ++ _)]
      rfl
    by_cases space : c = 0x20
    · rw [if_neg (not_not.mpr space)]
      refine ⟨by rw [← List.append_assoc, ← polled]; rfl, dumped, ?_, ?_⟩
      · intro absent
        exact absurd (List.mem_append_right keys (by simp [space])) absent
      · exact fun _ => ⟨rfl, rfl⟩
    · rw [if_pos space]
      refine ⟨by rw [← List.append_assoc, ← polled]; rfl, dumped, ?_, ?_⟩
      · exact fun _ => ⟨.poll, key⟩
      · intro present
        rcases List.mem_append.mp present with earlier | last
        · exact absurd earlier noSpace
        · exact absurd (List.mem_singleton.mp last).symm space

theorem Dumps.run {before keys : List Byte} {events : List MachineEvent}
    (dumps : Dumps frames console before keys machine)
    (meets : Run.Meets (machineStep runs cdcConsole)
      (fun _ machine => 0x20 ∉ machine.ninja.polled.drop before.length)
      events machine) :
    ∃ more, Dumps frames console before (keys ++ more)
      (Run.run (machineStep runs cdcConsole) events machine) := by
  induction events generalizing machine keys with
  | nil => exact ⟨[], by rwa [List.append_nil]⟩
  | cons event events induction =>
      obtain ⟨noSpace, later⟩ := meets
      rw [dumps.polled, List.drop_left] at noSpace
      obtain ⟨more, next⟩ := dumps.step runs cdcConsole noSpace event
      obtain ⟨rest, ended⟩ := induction next later
      exact ⟨more ++ rest, by rwa [← List.append_assoc]⟩

/-- Whatever happens around it until a space has been polled: `dumpkeys` has
put out every key polled and nothing else, waits for more in key mode, and
returns in line mode with the space. -/
theorem dumpkeys_shows_keys (frames : List Frame) (ninja : Ninja δ)
    (garbage pinb : Byte) {events : List MachineEvent}
    (meets : Run.Meets (machineStep runs cdcConsole)
      (fun _ machine => 0x20 ∉ machine.ninja.polled.drop ninja.polled.length)
      events (commandStep frames ninja garbage pinb .dumpkeys)) :
    ∃ machine keys,
      machine = Run.run (machineStep runs cdcConsole) events
        (commandStep frames ninja garbage pinb .dumpkeys) ∧
      machine.ninja.polled = ninja.polled ++ keys ∧
      machine.ninja.console =
        consolePutsP (spaceToQuit ++ keys.flatMap dumpedKey) ninja.console ∧
      (0x20 ∉ keys → Polling .dumpkeysPoll frames machine.frames ∧
        machine.ninja.input.mode = .key) ∧
      (0x20 ∈ keys → machine.frames = frames ∧
        machine.ninja.input.mode = .line) := by
  have entered : Dumps frames ninja.console ninja.polled []
      (commandStep frames ninja garbage pinb .dumpkeys) := by
    refine ⟨(List.append_nil _).symm, ?_, fun _ => ⟨.poll, rfl⟩, nofun⟩
    rw [List.flatMap_nil, List.append_nil, spaceToQuit, consolePutsP_append]
    rfl
  obtain ⟨keys, dumps⟩ := entered.run runs cdcConsole meets
  exact ⟨_, _, rfl, dumps.polled, dumps.shown, dumps.inside, dumps.outside⟩

end

/-- An `A` from the UART. -/
theorem dumpkeys_shows_keys_A :
    ∃ machine keys,
      machine = Run.run (machineStep (fun _ shell => (none, shell)) true)
        (.next none 0 0 :: .next (some 0x41) 0 0 ::
          List.replicate 5 (.next none 0 0))
        (commandStep [] (.powerOn (Shell.powerOn ())) 0 0 .dumpkeys) ∧
      machine.ninja.polled = [] ++ keys ∧
      machine.ninja.console =
        consolePutsP (spaceToQuit ++ keys.flatMap dumpedKey) ⟨false, []⟩ ∧
      (0x20 ∉ keys → Polling .dumpkeysPoll [] machine.frames ∧
        machine.ninja.input.mode = .key) ∧
      (0x20 ∈ keys → machine.frames = [] ∧ machine.ninja.input.mode = .line) :=
  dumpkeys_shows_keys _ true [] (.powerOn (Shell.powerOn ())) 0 0
    (by decide +kernel)

/-- What `menu_pick_key` does with a key, and `mymenu` with a pick. -/
def menuKey (menu : Menu) (frames : List Frame) (c : Byte) (ninja : Ninja δ) :
    Machine δ :=
  if c.toNat < 0x30 ∨ c.toNat ≥ 0x30 + menu.items.length then
    ⟨ninja, .command (.menuPoll menu) :: frames⟩
  else
    let ninja := ninja.print fun console => consoleNewline (consolePutc c console)
    let ninja := ninja.setMode .line
    match menu with
    | .myMenu2 => ⟨ninja, .command (.menuShow .myMenu) :: frames⟩
    | .myMenu => ⟨ninja.picked c, frames⟩

theorem menu_polls (menu : Menu) (frames : List Frame) (ninja : Ninja δ)
    (garbage pinb : Byte) :
    commandStep frames ninja garbage pinb (.menuPoll menu) =
      pollStep frames ninja (.menuPoll menu) (menuKey menu frames) :=
  rfl

/-- The keys that pick an item; both menus have three. -/
def isPick (c : Byte) : Bool := decide (0x30 ≤ c.toNat ∧ c.toNat < 0x33)

def Menu.listing (menu : Menu) : List Byte :=
  menu.items.zipIdx.flatMap fun (str, index) =>
    decimalChars (BitVec.ofNat 32 index) ++ [0x2E, 0x20] ++ text str ++
      [0x0D, 0x0A]

def pickedText (c : Byte) : List Byte :=
  match Menu.myMenu.items[c.toNat - 0x30]? with
  | some item => text "picked " ++ text item
  | none => []

/-- What `menutest` has put out after these picks. -/
def menuShown : List Byte → List Byte
  | [] => Menu.myMenu2.listing
  | [first] => Menu.myMenu2.listing ++ [first, 0x0D, 0x0A] ++ Menu.myMenu.listing
  | first :: second :: _ =>
      Menu.myMenu2.listing ++ [first, 0x0D, 0x0A] ++ Menu.myMenu.listing ++
        [second, 0x0D, 0x0A] ++ pickedText second

theorem menuShown_pick (first : Byte) :
    menuShown [first] =
      menuShown [] ++ [first, 0x0D, 0x0A] ++ Menu.myMenu.listing := rfl

theorem menuShown_done (first second : Byte) :
    menuShown [first, second] =
      menuShown [first] ++ [second, 0x0D, 0x0A] ++ pickedText second := rfl

theorem menuShow_console (menu : Menu) (ninja : Ninja δ) :
    (ninja.menuShow menu).console = consolePutsP menu.listing ninja.console := by
  have items : ∀ (items : List (String × Nat)) (console : Console),
      items.foldl (fun console (str, index) =>
        consoleNewline (consolePutsP (text str) (consolePutc 0x20
          (consolePutc 0x2E (consolePutdec (BitVec.ofNat 32 index) console)))))
        console =
      consolePutsP (items.flatMap fun (str, index) =>
        decimalChars (BitVec.ofNat 32 index) ++ [0x2E, 0x20] ++ text str ++
          [0x0D, 0x0A]) console := by
    intro items
    induction items with
    | nil => exact fun _ => rfl
    | cons item items induction =>
        intro console
        rw [List.foldl_cons, induction, List.flatMap_cons, consolePutsP_append]
        simp only [consolePutdec_chars, consolePutsP_append]
        rfl
  exact items _ _

theorem isPick_cases {c : Byte} (pick : isPick c = true) :
    c = 0x30 ∨ c = 0x31 ∨ c = 0x32 := by
  obtain ⟨low, high⟩ := of_decide_eq_true pick
  have value : c.toNat = 0x30 ∨ c.toNat = 0x31 ∨ c.toNat = 0x32 := by omega
  rcases value with zero | one | two
  · exact .inl (BitVec.eq_of_toNat_eq zero)
  · exact .inr (.inl (BitVec.eq_of_toNat_eq one))
  · exact .inr (.inr (BitVec.eq_of_toNat_eq two))

theorem picked_console {c : Byte} (pick : isPick c = true) (ninja : Ninja δ) :
    (ninja.picked c).console = consolePutsP (pickedText c) ninja.console := by
  rcases isPick_cases pick with rfl | rfl | rfl <;> rfl

theorem picked_frame (c : Byte) (ninja : Ninja δ) :
    (ninja.picked c).polled = ninja.polled ∧
      (ninja.picked c).input = ninja.input := by
  unfold Ninja.picked
  split <;> exact ⟨rfl, rfl⟩

theorem menuShow_waits (menu : Menu) (frames : List Frame) (ninja : Ninja δ)
    (garbage pinb : Byte) :
    Waits (.menuPoll menu) frames (consolePutsP menu.listing ninja.console)
      ninja.polled (commandStep frames ninja garbage pinb (.menuShow menu)) :=
  ⟨.poll, rfl, menuShow_console menu ninja, rfl⟩

theorem menuKey_rejects (menu : Menu) (frames : List Frame) {c : Byte}
    (rejects : isPick c = false) (ninja : Ninja δ) :
    menuKey menu frames c ninja = ⟨ninja, .command (.menuPoll menu) :: frames⟩ := by
  have outside := of_decide_eq_false rejects
  have three : menu.items.length = 3 := by cases menu <;> rfl
  refine if_pos ?_
  rw [three]
  omega

theorem menuKey_picks (menu : Menu) (frames : List Frame) {c : Byte}
    (pick : isPick c = true) (ninja : Ninja δ) :
    menuKey menu frames c ninja =
      match menu with
      | .myMenu2 =>
          ⟨(ninja.print fun console =>
              consoleNewline (consolePutc c console)).setMode .line,
            .command (.menuShow .myMenu) :: frames⟩
      | .myMenu =>
          ⟨((ninja.print fun console =>
              consoleNewline (consolePutc c console)).setMode .line).picked c,
            frames⟩ := by
  have inside := of_decide_eq_true pick
  have three : menu.items.length = 3 := by cases menu <;> rfl
  refine if_neg ?_
  rw [three]
  omega

/-- Where `menutest` is after these picks: at the first menu, before or at
the second, or returned. -/
inductive MenuTest (frames : List Frame) (console : Console)
    (polled : List Byte) : List Byte → Machine δ → Prop where
  | first {machine : Machine δ}
      (waits : Waits (.menuPoll .myMenu2) frames
        (consolePutsP (menuShown []) console) polled machine) :
      MenuTest frames console polled [] machine
  | between {first : Byte} {machine : Machine δ}
      (point : machine.frames = .command (.menuShow .myMenu) :: frames)
      (keys : machine.ninja.polled = polled)
      (shown : consolePutsP Menu.myMenu.listing machine.ninja.console =
        consolePutsP (menuShown [first]) console) :
      MenuTest frames console polled [first] machine
  | second {first : Byte} {machine : Machine δ}
      (waits : Waits (.menuPoll .myMenu) frames
        (consolePutsP (menuShown [first]) console) polled machine) :
      MenuTest frames console polled [first] machine
  | done {first second : Byte} {machine : Machine δ}
      (returned : machine.frames = frames)
      (mode : machine.ninja.input.mode = .line)
      (keys : machine.ninja.polled = polled)
      (shown : machine.ninja.console =
        consolePutsP (menuShown [first, second]) console) :
      MenuTest frames console polled [first, second] machine

section

variable (runs : List Byte → Shell δ → Option KeyCommand × Shell δ)
  (cdcConsole : Bool) {frames : List Frame} {console : Console}
  {machine : Machine δ}

/-- A step polls at most one key, and does with it what the menu says. -/
theorem MenuTest.step {polled picks : List Byte}
    (test : MenuTest frames console polled picks machine)
    (more : picks.length < 2) (event : MachineEvent) :
    ∃ keys, MenuTest frames console (polled ++ keys)
      (picks ++ keys.filter isPick) (machineStep runs cdcConsole event machine) := by
  cases test with
  | first waits =>
      rcases waits.step runs cdcConsole (menu_polls .myMenu2 frames) event with
        still | ⟨c, ninja, key, shown, keys, handled⟩
      · exact ⟨[], by simpa using MenuTest.first still⟩
      · refine ⟨[c], ?_⟩
        rw [handled]
        cases pick : isPick c with
        | false =>
            rw [menuKey_rejects _ _ pick, List.filter_cons_of_neg (by simp [pick])]
            exact .first ⟨.poll, key, shown, keys⟩
        | true =>
            rw [menuKey_picks _ _ pick, List.filter_cons_of_pos (by simp [pick])]
            refine .between rfl keys ?_
            rw [menuShown_pick, consolePutsP_append, consolePutsP_append, ← shown]
            rfl
  | between point keys shown =>
      refine ⟨[], ?_⟩
      rw [List.append_nil, List.filter_nil, List.append_nil]
      obtain ⟨ninja, now⟩ := machine
      dsimp only at point
      subst point
      cases event with
      | arrive sent => exact .between rfl keys shown
      | connect isConnected => exact .between rfl keys shown
      | next received garbage pinb =>
          have waits := menuShow_waits .myMenu frames ninja garbage pinb
          rw [shown, keys] at waits
          exact .second waits
  | second waits =>
      rcases waits.step runs cdcConsole (menu_polls .myMenu frames) event with
        still | ⟨c, ninja, key, shown, keys, handled⟩
      · exact ⟨[], by simpa using MenuTest.second still⟩
      · refine ⟨[c], ?_⟩
        rw [handled]
        cases pick : isPick c with
        | false =>
            rw [menuKey_rejects _ _ pick, List.filter_cons_of_neg (by simp [pick])]
            exact .second ⟨.poll, key, shown, keys⟩
        | true =>
            rw [menuKey_picks _ _ pick, List.filter_cons_of_pos (by simp [pick])]
            obtain ⟨samePolled, sameInput⟩ := picked_frame c
              ((ninja.print fun console =>
                consoleNewline (consolePutc c console)).setMode .line)
            refine .done rfl ?_ (samePolled.trans keys) ?_
            · rw [sameInput]
              rfl
            · rw [picked_console pick, menuShown_done, consolePutsP_append,
                consolePutsP_append, ← shown]
              rfl
  | done => exact absurd more (Nat.lt_irrefl 2)

theorem MenuTest.polled {polled picks : List Byte}
    (test : MenuTest frames console polled picks machine) :
    machine.ninja.polled = polled := by
  cases test with
  | first waits => exact waits.polled
  | between _ keys _ => exact keys
  | second waits => exact waits.polled
  | done _ _ keys _ => exact keys

theorem MenuTest.run {before keys : List Byte} {events : List MachineEvent}
    (test : MenuTest frames console (before ++ keys) (keys.filter isPick) machine)
    (meets : Run.Meets (machineStep runs cdcConsole)
      (fun _ machine =>
        ((machine.ninja.polled.drop before.length).filter isPick).length < 2)
      events machine) :
    ∃ all, MenuTest frames console (before ++ all) (all.filter isPick)
      (Run.run (machineStep runs cdcConsole) events machine) := by
  induction events generalizing machine keys with
  | nil => exact ⟨keys, test⟩
  | cons event events induction =>
      obtain ⟨few, later⟩ := meets
      rw [test.polled, List.drop_left] at few
      obtain ⟨more, next⟩ := test.step runs cdcConsole few event
      rw [List.append_assoc, ← List.filter_append] at next
      exact induction next later

theorem Polling.longer {point : CommandPoint} {inside : List Frame}
    (polling : Polling point frames inside) : frames.length < inside.length := by
  cases polling with
  | poll => exact Nat.lt_succ_self _
  | tick => exact Nat.lt_succ_of_lt (Nat.lt_succ_self _)

/-- Whatever happens around it until two keys have picked an item: `menutest`
has put out its menus with the keys that picked from them and nothing else;
after the second pick it has said what was picked and returned. -/
theorem menutest_shows_picks (frames : List Frame) (ninja : Ninja δ)
    (garbage pinb : Byte) {events : List MachineEvent}
    (meets : Run.Meets (machineStep runs cdcConsole)
      (fun _ machine => ((machine.ninja.polled.drop
        ninja.polled.length).filter isPick).length < 2)
      events (commandStep frames ninja garbage pinb (.menuShow .myMenu2))) :
    ∃ machine keys,
      machine = Run.run (machineStep runs cdcConsole) events
        (commandStep frames ninja garbage pinb (.menuShow .myMenu2)) ∧
      machine.ninja.polled = ninja.polled ++ keys ∧
      (machine.frames ≠ .command (.menuShow .myMenu) :: frames →
        machine.ninja.console =
          consolePutsP (menuShown (keys.filter isPick)) ninja.console) ∧
      ((keys.filter isPick).length < 2 →
        frames.length < machine.frames.length) ∧
      ((keys.filter isPick).length = 2 →
        machine.frames = frames ∧ machine.ninja.input.mode = .line) := by
  have entered : MenuTest frames ninja.console (ninja.polled ++ [])
      (([] : List Byte).filter isPick)
      (commandStep frames ninja garbage pinb (.menuShow .myMenu2)) := by
    rw [List.append_nil]
    exact .first (menuShow_waits .myMenu2 frames ninja garbage pinb)
  obtain ⟨keys, test⟩ := entered.run runs cdcConsole meets
  refine ⟨_, keys, rfl, test.polled, ?_⟩
  generalize keys.filter isPick = picks at test
  cases test with
  | first waits =>
      exact ⟨fun _ => waits.console, fun _ => waits.frames.longer, nofun⟩
  | between point _ _ =>
      refine ⟨fun other => absurd point other, fun _ => ?_, nofun⟩
      rw [point]
      exact Nat.lt_succ_self _
  | second waits =>
      exact ⟨fun _ => waits.console, fun _ => waits.frames.longer, nofun⟩
  | done returned mode _ shown =>
      refine ⟨fun _ => shown, fun few => ?_, fun _ => ⟨returned, mode⟩⟩
      exact absurd few (Nat.lt_irrefl 2)

end

/-- A `1` and then a `2` from the UART pick the dog. -/
theorem menutest_shows_picks_dog :
    ∃ machine keys,
      machine = Run.run (machineStep (fun _ shell => (none, shell)) true)
        (.next none 0 0 :: .next (some 0x31) 0 0 ::
          List.replicate 5 (.next none 0 0) ++
            .next (some 0x32) 0 0 :: List.replicate 4 (.next none 0 0))
        (commandStep [] (.powerOn (Shell.powerOn ())) 0 0 (.menuShow .myMenu2)) ∧
      machine.ninja.polled = [] ++ keys ∧
      (machine.frames ≠ [.command (.menuShow .myMenu)] →
        machine.ninja.console =
          consolePutsP (menuShown (keys.filter isPick)) ⟨false, []⟩) ∧
      ((keys.filter isPick).length < 2 → 0 < machine.frames.length) ∧
      ((keys.filter isPick).length = 2 →
        machine.frames = [] ∧ machine.ninja.input.mode = .line) :=
  menutest_shows_picks _ true [] (.powerOn (Shell.powerOn ())) 0 0
    (by decide +kernel)

end BusNinja
