import BusNinja.ConsoleCalls

/-!
# Leaving bitbang mode

`command_bitbang` counts the polls that find no key, not the keys.  It
leaves at a key when enough of them came after a `+`, so that the time
between the keys decides whether it leaves at `+++`.
-/

namespace BusNinja

/-- The locals of `command_bitbang`, and whether it has left its loop. -/
structure Bitbang where
  c : Byte
  exitCount : Byte
  left : Bool
  deriving DecidableEq, Repr

def Bitbang.entered (garbage : Byte) : Bitbang := ⟨garbage, 0, false⟩

/-- What follows a poll, which finds a key or not; once the loop is left
nothing is polled. -/
def bitbangRound (poll : Option Byte) (loop : Bitbang) : Bitbang :=
  if loop.left then loop
  else
    match poll with
    | none =>
        { loop with
          exitCount := if loop.c = 0x2B then loop.exitCount + 1 else 0 }
    | some key => { loop with c := key, left := !decide (loop.exitCount < 3) }

def polledKeys (polls : List (Option Byte)) : List Byte := polls.filterMap id

/-- The three most recently polled keys are `+`. -/
def EndsInPlusses (polls : List (Option Byte)) : Prop :=
  [0x2B, 0x2B, 0x2B] <:+ polledKeys polls

/-- Three keys polled in succession have been `+`. -/
def HasPlusses (polls : List (Option Byte)) : Prop :=
  [0x2B, 0x2B, 0x2B] <:+: polledKeys polls

/-- The loop is left at the poll of a third `+` in succession, and at no
other poll. -/
def ExitsOnPlusses (garbage : Byte) (polls : List (Option Byte)) : Prop :=
  ∀ before poll later, polls = before ++ poll :: later →
    (Run.run bitbangRound before (.entered garbage)).left = false →
    ((bitbangRound poll (Run.run bitbangRound before (.entered garbage))).left =
        true ↔
      poll.isSome = true ∧ EndsInPlusses (before ++ [poll]))

/-- The last key, and the number of polls without a key behind a `+` since
the last one behind another key. -/
def idleRound (poll : Option Byte) : Byte × Nat → Byte × Nat
  | (last, idle) =>
      match poll with
      | none => (last, if last = 0x2B then idle + 1 else 0)
      | some key => (key, idle)

/-- How many polls without a key there have been behind a `+`. -/
def idlePlusses (garbage : Byte) (polls : List (Option Byte)) : Nat :=
  (Run.run idleRound polls (garbage, 0)).2

/-- At a key that makes `+++`, 3 to 255 polls modulo 256 have been idle behind
a `+`, and at the other keys before it fewer than 3. -/
def Paced (garbage : Byte) (polls : List (Option Byte)) : Prop :=
  ∀ before key later, polls = before ++ some key :: later →
    ¬ HasPlusses before →
    (3 ≤ idlePlusses garbage before % 256 ↔
      EndsInPlusses (before ++ [some key]))

theorem polledKeys_idle (polls : List (Option Byte)) :
    polledKeys (polls ++ [none]) = polledKeys polls := by
  simp [polledKeys]

theorem polledKeys_key (polls : List (Option Byte)) (key : Byte) :
    polledKeys (polls ++ [some key]) = polledKeys polls ++ [key] := by
  simp [polledKeys]

theorem hasPlusses_key (polls : List (Option Byte)) (key : Byte) :
    HasPlusses (polls ++ [some key]) ↔
      EndsInPlusses (polls ++ [some key]) ∨ HasPlusses polls := by
  rw [HasPlusses, EndsInPlusses, polledKeys_key, List.infix_concat_iff]
  rfl

/-- The loop counts as described, in eight bits, and is left once the three
`+` have come. -/
structure Counted (garbage : Byte) (loop : Bitbang)
    (history : List (Option Byte)) : Prop where
  left : loop.left = true ↔ HasPlusses history
  c : loop.left = false →
    loop.c = (Run.run idleRound history (garbage, 0)).1
  exitCount : loop.left = false →
    loop.exitCount = BitVec.ofNat 8 (idlePlusses garbage history)

variable {garbage : Byte} {loop : Bitbang} {history : List (Option Byte)}

theorem bitbangRound_left (poll : Option Byte) (left : loop.left = true) :
    bitbangRound poll loop = loop := if_pos left

theorem bitbangRound_idle (running : loop.left = false) :
    bitbangRound none loop =
      { loop with
        exitCount := if loop.c = 0x2B then loop.exitCount + 1 else 0 } := by
  rw [bitbangRound, if_neg (by simp [running])]

theorem bitbangRound_key (key : Byte) (running : loop.left = false) :
    bitbangRound (some key) loop =
      { loop with c := key, left := !decide (loop.exitCount < 3) } := by
  rw [bitbangRound, if_neg (by simp [running])]

theorem Counted.entered (garbage : Byte) :
    Counted garbage (.entered garbage) [] := by
  refine ⟨?_, fun _ => rfl, fun _ => rfl⟩
  have none : ¬ HasPlusses [] := by
    rintro ⟨before, after, empty⟩
    simp [polledKeys] at empty
  exact iff_of_false (by simp [Bitbang.entered]) none

theorem Counted.leaves (counted : Counted garbage loop history)
    (running : loop.left = false) (key : Byte) :
    (bitbangRound (some key) loop).left = true ↔
      3 ≤ idlePlusses garbage history % 256 := by
  rw [bitbangRound_key key running]
  dsimp only
  rw [Bool.not_eq_true', decide_eq_false_iff_not, counted.exitCount running,
    BitVec.lt_def, BitVec.toNat_ofNat, Nat.not_lt]
  rfl

theorem Counted.notYet (counted : Counted garbage loop history)
    (running : loop.left = false) : ¬ HasPlusses history := by
  rw [← counted.left, running]
  exact Bool.false_ne_true

theorem Counted.idle (counted : Counted garbage loop history)
    (running : loop.left = false) :
    Counted garbage (bitbangRound none loop) (history ++ [none]) := by
  have before : Run.run idleRound (history ++ [none]) (garbage, 0) =
      idleRound none (Run.run idleRound history (garbage, 0)) :=
    Run.run_append idleRound history [none] _
  rw [bitbangRound_idle running]
  refine ⟨?_, ?_, ?_⟩
  · rw [HasPlusses, polledKeys_idle]
    exact counted.left
  · intro _
    rw [before]
    exact counted.c running
  · intro _
    have count := counted.exitCount running
    rw [idlePlusses] at count ⊢
    rw [before]
    simp only [idleRound, ← counted.c running, count]
    split
    · rw [BitVec.ofNat_add]
      rfl
    · rfl

/-- A key is not counted; what it does to the loop is up to the pace. -/
theorem Counted.key (counted : Counted garbage loop history)
    (running : loop.left = false) (key : Byte)
    (paced : 3 ≤ idlePlusses garbage history % 256 ↔
      EndsInPlusses (history ++ [some key])) :
    Counted garbage (bitbangRound (some key) loop) (history ++ [some key]) := by
  have before : Run.run idleRound (history ++ [some key]) (garbage, 0) =
      idleRound (some key) (Run.run idleRound history (garbage, 0)) :=
    Run.run_append idleRound history [some key] _
  have notYet := counted.notYet running
  refine ⟨?_, ?_, ?_⟩
  · rw [counted.leaves running, paced, hasPlusses_key]
    exact (or_iff_left notYet).symm
  · intro _
    rw [before, bitbangRound_key key running]
    rfl
  · intro _
    rw [idlePlusses, before, bitbangRound_key key running]
    exact counted.exitCount running

/-- The property and the condition, at one poll. -/
def ExitsAt (poll : Option Byte) (state : Bitbang × List (Option Byte)) : Prop :=
  state.1.left = false →
    ((bitbangRound poll state.1).left = true ↔
      poll.isSome = true ∧ EndsInPlusses (state.2 ++ [poll]))

def PacedAt (garbage : Byte) (poll : Option Byte)
    (state : Bitbang × List (Option Byte)) : Prop :=
  ∀ key, poll = some key → ¬ HasPlusses state.2 →
    (3 ≤ idlePlusses garbage state.2 % 256 ↔
      EndsInPlusses (state.2 ++ [some key]))

theorem Counted.agree (counted : Counted garbage loop history)
    (poll : Option Byte) :
    ExitsAt poll (loop, history) ↔ PacedAt garbage poll (loop, history) := by
  cases running : loop.left with
  | true =>
      have plusses := counted.left.mp running
      constructor
      · intro _ key _ notYet
        exact absurd plusses notYet
      · intro _ still
        rw [running] at still
        contradiction
  | false =>
      have notYet := counted.notYet running
      cases poll with
      | none =>
          have stays : (bitbangRound none loop).left ≠ true := by
            rw [bitbangRound_idle running]
            simp [running]
          constructor
          · intro _ key other
            cases other
          · intro _ _
            exact iff_of_false stays (by simp)
      | some key =>
          have leaves := counted.leaves running key
          constructor
          · rintro exits _ ⟨⟩ _
            rw [← leaves, exits running]
            simp
          · intro paced _
            rw [leaves, paced key rfl notYet]
            simp

theorem Counted.round (counted : Counted garbage loop history)
    (poll : Option Byte) (paced : PacedAt garbage poll (loop, history)) :
    Counted garbage (bitbangRound poll loop) (history ++ [poll]) := by
  cases running : loop.left with
  | true =>
      rw [bitbangRound_left poll running]
      have plusses : HasPlusses (history ++ [poll]) := by
        have earlier : polledKeys history <:+: polledKeys (history ++ [poll]) := by
          rw [polledKeys, polledKeys, List.filterMap_append]
          exact List.infix_append' [] _ _
        exact (counted.left.mp running).trans earlier
      refine ⟨iff_of_true running plusses, ?_, ?_⟩
      · intro still
        rw [running] at still
        contradiction
      · intro still
        rw [running] at still
        contradiction
  | false =>
      cases poll with
      | none => exact counted.idle running
      | some key =>
          exact counted.key running key (paced key rfl (counted.notYet running))

/-- Bitbang mode ends on `+++` and only then if and only if the keys are
paced. -/
theorem bitbang_exits_on_plusses_iff (garbage : Byte)
    (polls : List (Option Byte)) :
    ExitsOnPlusses garbage polls ↔ Paced garbage polls := by
  have exits : ExitsOnPlusses garbage polls ↔
      Run.Meets (Run.observed bitbangRound Run.record) ExitsAt polls
        (.entered garbage, []) := by
    rw [Run.meets_recorded_iff]
    rfl
  have paced : Paced garbage polls ↔
      Run.Meets (Run.observed bitbangRound Run.record) (PacedAt garbage) polls
        (.entered garbage, []) := by
    rw [Run.meets_recorded_iff]
    constructor
    · rintro paced before _ later cut key rfl
      exact paced before key later cut
    · intro paced before key later cut
      exact paced before (some key) later cut key rfl
  have agree : ∀ poll (state : Bitbang × List (Option Byte)),
      Counted garbage state.1 state.2 →
      (ExitsAt poll state ↔ PacedAt garbage poll state) :=
    fun poll _ counted => counted.agree poll
  have kept : ∀ poll (state : Bitbang × List (Option Byte)),
      Counted garbage state.1 state.2 → PacedAt garbage poll state →
      Counted garbage (bitbangRound poll state.1) (state.2 ++ [poll]) :=
    fun poll _ counted => counted.round poll
  rw [exits, paced]
  exact Run.meets_iff_of_invariant agree kept (Counted.entered garbage)

/-- One `+`, and any key after three polls that found none. -/
theorem bitbang_exits_on_one_plus :
    ¬ ∀ (garbage : Byte) (polls : List (Option Byte)),
      ExitsOnPlusses garbage polls := by
  intro always
  have exits := always 0 [none, some 0x2B, none, none, none, some 0x78]
    [none, some 0x2B, none, none, none] (some 0x78) [] rfl rfl
  have plusses := (exits.mp rfl).2
  revert plusses
  unfold EndsInPlusses
  decide

/-- The machine has not come out of the command, and its loop is there; a
poll that found no key is counted when the tick has returned. -/
inductive Bitbanging (frames : List Frame) (loop : Bitbang) :
    List Frame → Prop where
  | poll :
      Bitbanging frames loop
        (.command (.bitbangPoll loop.c loop.exitCount) :: frames)
  | ticked {exitCount : Byte}
      (counts : loop.exitCount = if loop.c = 0x2B then exitCount + 1 else 0) :
      Bitbanging frames loop
        (.command (.bitbangTicked loop.c exitCount) :: frames)
  | tick {exitCount : Byte} (point : TickPoint)
      (counts : loop.exitCount = if loop.c = 0x2B then exitCount + 1 else 0) :
      Bitbanging frames loop
        (.driverTick point :: .command (.bitbangTicked loop.c exitCount) ::
          frames)

variable {δ : Type}

/-- The poll that the next step of the machine makes, if it makes one. -/
def pollMade (event : MachineEvent) (machine : Machine δ) :
    List (Option Byte) :=
  match event, machine.frames with
  | .next _ _ _, .command (.bitbangPoll _ _) :: _ =>
      [(consoleKeyPoll machine.ninja.input).1]
  | _, _ => []

variable (runs : List Byte → Shell δ → Option KeyCommand × Shell δ)
  (cdcConsole : Bool)

def pollsMade : List MachineEvent → Machine δ → List (Option Byte)
  | [], _ => []
  | event :: events, machine =>
      pollMade event machine ++
        pollsMade events (machineStep runs cdcConsole event machine)

/-- In key mode and in the command, or out of it and in line mode. -/
structure BitbangFollows (frames : List Frame) (loop : Bitbang)
    (machine : Machine δ) : Prop where
  inside : loop.left = false →
    Bitbanging frames loop machine.frames ∧ machine.ninja.input.mode = .key
  outside : loop.left = true →
    machine.frames = frames ∧ machine.ninja.input.mode = .line

theorem bitbang_poll (received : Option Byte) (garbage pinb : Byte)
    (frames : List Frame) {ninja : Ninja δ} (running : loop.left = false)
    (key : ninja.input.mode = .key) :
    BitbangFollows frames
      (bitbangRound (consoleKeyPoll ninja.input).1 loop)
      (machineStep runs cdcConsole (.next received garbage pinb)
        ⟨ninja, .command (.bitbangPoll loop.c loop.exitCount) :: frames⟩) := by
  simp only [machineStep, Machine.next, commandStep, pollStep]
  cases polled : (consoleKeyPoll ninja.input).1 with
  | none =>
      rw [bitbangRound_idle running]
      refine ⟨fun _ => ⟨.tick .hwUartTick rfl, key⟩, ?_⟩
      intro left
      rw [running] at left
      contradiction
  | some c =>
      rw [bitbangRound_key c running]
      dsimp only
      have kept := (keyPoll_keyKept key).1
      by_cases few : loop.exitCount < 3
      · rw [if_pos few]
        refine ⟨fun _ => ⟨.poll, kept⟩, ?_⟩
        intro left
        rw [Bool.not_eq_true', decide_eq_false_iff_not] at left
        contradiction
      · rw [if_neg few]
        refine ⟨?_, fun _ => ⟨rfl, rfl⟩⟩
        intro stays
        rw [Bool.not_eq_false', decide_eq_true_eq] at stays
        contradiction

/-- A step of the machine makes the rounds of the loop that its polls make. -/
theorem bitbang_step (event : MachineEvent) (frames : List Frame)
    {machine : Machine δ} (running : loop.left = false)
    (inside : Bitbanging frames loop machine.frames)
    (key : machine.ninja.input.mode = .key) :
    BitbangFollows frames
      (Run.run bitbangRound (pollMade event machine) loop)
      (machineStep runs cdcConsole event machine) := by
  have stays : ∀ {next : Machine δ}, Bitbanging frames loop next.frames →
      next.ninja.input.mode = .key → BitbangFollows frames loop next := by
    intro next within mode
    refine ⟨fun _ => ⟨within, mode⟩, ?_⟩
    intro left
    rw [running] at left
    contradiction
  obtain ⟨ninja, now⟩ := machine
  cases event with
  | arrive sent => exact stays inside key
  | connect isConnected => exact stays inside key
  | next received garbage pinb =>
      cases inside with
      | poll =>
          exact bitbang_poll runs cdcConsole received garbage pinb frames running
            key
      | ticked counts =>
          apply stays
          · change Bitbanging frames loop
              (.command (.bitbangPoll loop.c _) :: frames)
            rw [← counts]
            exact .poll
          · exact key
      | @tick exitCount point counts =>
          obtain ⟨⟨mode, -⟩, returns⟩ := tickStep_key received
            (.command (.bitbangTicked loop.c exitCount) :: frames) point key
          apply stays
          · change Bitbanging frames loop (tickStep received
              (.command (.bitbangTicked loop.c exitCount) :: frames) ninja
              point).frames
            rcases returns with returned | ⟨next, goesOn⟩
            · rw [returned]
              exact .ticked counts
            · rw [goesOn]
              exact .tick next counts
          · exact mode

theorem run_left (polls : List (Option Byte)) (left : loop.left = true) :
    Run.run bitbangRound polls loop = loop := by
  induction polls with
  | nil => rfl
  | cons poll polls induction =>
      rw [Run.run_cons, bitbangRound_left poll left, induction]

theorem bitbang_inside (events : List MachineEvent) (frames : List Frame)
    {machine : Machine δ} (follows : BitbangFollows frames loop machine)
    (running : (Run.run bitbangRound (pollsMade runs cdcConsole events machine)
      loop).left = false) :
    BitbangFollows frames
      (Run.run bitbangRound (pollsMade runs cdcConsole events machine) loop)
      (Run.run (machineStep runs cdcConsole) events machine) := by
  induction events generalizing machine loop with
  | nil => exact follows
  | cons event events induction =>
      have before : loop.left = false := by
        rw [← Bool.not_eq_true]
        intro left
        rw [run_left _ left, left] at running
        contradiction
      obtain ⟨inside, key⟩ := follows.inside before
      have next := bitbang_step runs cdcConsole event frames before inside key
      rw [pollsMade, Run.run_append] at running ⊢
      exact induction next running

theorem pollsMade_concat (events : List MachineEvent) (event : MachineEvent)
    (machine : Machine δ) :
    pollsMade runs cdcConsole (events ++ [event]) machine =
      pollsMade runs cdcConsole events machine ++
        pollMade event (Run.run (machineStep runs cdcConsole) events machine) := by
  induction events generalizing machine with
  | nil => exact List.append_nil _
  | cons first events induction =>
      rw [List.cons_append, pollsMade, pollsMade, induction, List.append_assoc]
      rfl

/-- The command enters its loop, and up to the step that leaves it the machine
is where the polls have brought the loop. -/
theorem bitbang_follows (events : List MachineEvent) (event : MachineEvent)
    (frames : List Frame) (ninja : Ninja δ) (garbage pinb : Byte)
    (running : (Run.run bitbangRound
      (pollsMade runs cdcConsole events
        (commandStep frames ninja garbage pinb .bitbang))
      (.entered garbage)).left = false) :
    BitbangFollows frames
      (Run.run bitbangRound
        (pollsMade runs cdcConsole (events ++ [event])
          (commandStep frames ninja garbage pinb .bitbang))
        (.entered garbage))
      (Run.run (machineStep runs cdcConsole) (events ++ [event])
        (commandStep frames ninja garbage pinb .bitbang)) := by
  have entered : BitbangFollows frames (.entered garbage)
      (commandStep frames ninja garbage pinb .bitbang) :=
    ⟨fun _ => ⟨.poll, rfl⟩, fun left => absurd left Bool.false_ne_true⟩
  obtain ⟨inside, key⟩ := (bitbang_inside runs cdcConsole events frames entered
    running).inside running
  rw [pollsMade_concat, Run.run_append, Run.run_append]
  exact bitbang_step runs cdcConsole event frames running inside key

end BusNinja
