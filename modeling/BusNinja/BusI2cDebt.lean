import BusNinja.BusI2cRuns
import BusNinja.Library.Ledger

/-!
# The byte the driver owes

The driver always owes the wire the last thing it was asked for: a written
byte, or the final byte of a read.  A stop pays the debt.  A start does not,
so these are the steps at which a written byte is lost or a slave is left
transmitting.
-/

namespace BusNinja

inductive WriteCall where
  | start
  | stop
  | write (c : Byte)
  deriving DecidableEq, Repr

/-- Whether a start is still waiting for its first byte, or for its stop. -/
inductive Session where
  | idle
  | opened
  | addressed
  deriving DecidableEq, Repr

/-- A byte on the wire: the first after a START, or a further one. -/
inductive Carried where
  | address (value : Byte)
  | data (value : Byte)
  deriving DecidableEq, Repr

namespace WriteCall

def call : WriteCall → BusI2cCall
  | .start => .start
  | .stop => .stop
  | .write c => .write c

def next : WriteCall → Session → Session
  | .start, _ => .opened
  | .stop, _ => .idle
  | .write _, .idle => .idle
  | .write _, _ => .addressed

/-- What a call asks the wire to carry. -/
def asks : WriteCall → Session → List Carried
  | .write c, .opened => [.address c]
  | .write c, .addressed => [.data c]
  | _, _ => []

/-- A start while an earlier one has not been stopped. -/
def repeats : WriteCall → Session → Bool
  | .start, .opened => true
  | .start, .addressed => true
  | _, _ => false

end WriteCall

/-- For each start the first byte written after it, and then every byte up
to the next start or stop. -/
def asked : Session → List WriteCall → List Carried
  | _, [] => []
  | session, call :: calls =>
      call.asks session ++ asked (call.next session) calls

def repeatedStarts : Session → List WriteCall → Nat
  | _, [] => 0
  | session, call :: calls =>
      (call.repeats session).toNat + repeatedStarts (call.next session) calls

/-- Every start is followed by a write before the next start or stop. -/
def Addressed : List WriteCall → Prop
  | [] => True
  | .start :: calls => (∃ c rest, calls = .write c :: rest) ∧ Addressed calls
  | _ :: calls => Addressed calls

/-- What the operations put on the wire, without the bus clears, whose
direction is not the one of their address. -/
def carried (ops : List HwI2cOp) : List Carried :=
  ops.filterMap fun
    | .start address rdwr _ =>
        if rdwr = rdwrOf address then some (.address address) else none
    | .tx data _ => some (.data data)
    | _ => none

def owed : BusI2cState → Byte → List Carried
  | .startPending, pendingData => [.address pendingData]
  | .writeDataPending, pendingData => [.data pendingData]
  | _, _ => []

def HwI2cOp.acked : HwI2cOp → Bool
  | .start _ _ acked => acked
  | .tx _ acked => acked
  | _ => true

def AllAcked (ops : List HwI2cOp) : Prop := ∀ op ∈ ops, op.acked = true

instance (ops : List HwI2cOp) : Decidable (AllAcked ops) :=
  inferInstanceAs (Decidable (∀ op ∈ ops, op.acked = true))

/-- The driver's state in each phase of a session with an obliging slave. -/
def InSession : Session → BusI2cState → Prop
  | .idle, state => state = .init ∨ state = .error
  | .opened, state => state = .addrPending
  | .addressed, state => state = .startPending ∨ state = .writeDataPending

@[simp] theorem carried_append (first second : List HwI2cOp) :
    carried (first ++ second) = carried first ++ carried second :=
  List.filterMap_append

@[simp] theorem carried_clearing (acked : Bool) :
    carried (clearing acked) = [] := by
  simp [carried, clearing, rdwrOf]

@[simp] theorem carried_start (address : Byte) (acked : Bool) :
    carried [.start address (rdwrOf address) acked] = [.address address] := by
  simp [carried]

/-- One call of a session pays the debt and takes on the next one, except
that a repeated start forgets it. -/
structure Pays (session : Session) (call : WriteCall) (s s' : BusI2cState)
    (p p' : Byte) (new : List HwI2cOp) : Prop where
  inSession : InSession (call.next session) s'
  paid : call.repeats session = false →
    carried new ++ owed s' p' = owed s p ++ call.asks session
  forgot : call.repeats session = true →
    (owed s p).length = 1 ∧ carried new ++ owed s' p' = []

variable {s s' : BusI2cState} {p p' : Byte} {new : List HwI2cOp}

theorem Pays.of_settles {session : Session} {call : WriteCall}
    (settles : call.repeats session = false)
    (inSession : InSession (call.next session) s')
    (paid : carried new ++ owed s' p' = owed s p ++ call.asks session) :
    Pays session call s s' p p' new := by
  refine ⟨inSession, fun _ => paid, ?_⟩
  intro repeats
  rw [settles] at repeats
  cases repeats

namespace Moves

theorem pays_start {session : Session}
    (moves : Moves .start s p s' p' new) (inSession : InSession session s)
    (addressed : session ≠ .opened) : Pays session .start s s' p p' new := by
  obtain ⟨rfl, rfl, rfl⟩ := moves.of_start
  cases session with
  | idle =>
      refine .of_settles rfl rfl ?_
      rcases inSession with rfl | rfl <;> rfl
  | opened => exact absurd rfl addressed
  | addressed =>
      -- the one call that forgets: a repeated start
      refine ⟨rfl, by simp [WriteCall.repeats], ?_⟩
      intro _
      rcases inSession with rfl | rfl <;> exact ⟨rfl, rfl⟩

theorem pays_stop {session : Session}
    (moves : Moves .stop s p s' p' new) (inSession : InSession session s)
    (addressed : session ≠ .opened) : Pays session .stop s s' p p' new := by
  cases session with
  | idle =>
      rcases inSession with rfl | rfl
      · cases moves with
        | stopIdle => exact .of_settles rfl (.inl rfl) rfl
      · obtain ⟨rfl, rfl⟩ := moves.of_stop_error
        exact .of_settles rfl (.inl rfl) rfl
  | opened => exact absurd rfl addressed
  | addressed =>
      rcases inSession with rfl | rfl
      · obtain ⟨rfl, acked, rfl⟩ := moves.of_stop_startPending
        refine .of_settles rfl (.inl rfl) ?_
        simp [carried, owed, WriteCall.asks]
      · obtain ⟨rfl, acked, rfl⟩ := moves.of_stop_writeDataPending
        refine .of_settles rfl (.inl rfl) ?_
        simp [carried, owed, WriteCall.asks]

theorem pays_write {session : Session} {c : Byte}
    (moves : Moves (.write c) s p s' p' new) (inSession : InSession session s)
    (acked : AllAcked new) : Pays session (.write c) s s' p p' new := by
  cases session with
  | idle =>
      have cleared : s' = .error ∧ ∃ cleared, new = clearing cleared := by
        rcases inSession with rfl | rfl
        · cases moves with
          | writeAstray c cleared => exact ⟨rfl, cleared, rfl⟩
        · exact moves.of_write_error
      obtain ⟨rfl, cleared, rfl⟩ := cleared
      refine .of_settles rfl (.inr rfl) ?_
      rcases inSession with rfl | rfl <;> simp [owed, WriteCall.asks]
  | opened =>
      cases inSession
      obtain ⟨rfl, rfl, rfl⟩ := moves.of_write_addrPending
      exact .of_settles rfl (.inl rfl) rfl
  | addressed =>
      rcases inSession with rfl | rfl
      · rcases moves.of_write_startPending with
          ⟨rfl, rfl, rfl⟩ | ⟨cleared, rfl, rfl⟩
        · refine .of_settles rfl (.inr rfl) ?_
          simp [owed, WriteCall.asks]
        · simp [AllAcked, HwI2cOp.acked] at acked
      · rcases moves.of_write_writeDataPending with
          ⟨rfl, rfl, rfl⟩ | ⟨cleared, rfl, rfl⟩
        · exact .of_settles rfl (.inr rfl) rfl
        · simp [AllAcked, HwI2cOp.acked] at acked

theorem pays {session : Session} {call : WriteCall}
    (moves : Moves call.call s p s' p' new) (inSession : InSession session s)
    (follows : session = .opened → ∃ c, call = .write c)
    (acked : AllAcked new) : Pays session call s s' p p' new := by
  cases call with
  | start =>
      apply pays_start moves inSession
      intro opened
      obtain ⟨c, write⟩ := follows opened
      cases write
  | stop =>
      apply pays_stop moves inSession
      intro opened
      obtain ⟨c, write⟩ := follows opened
      cases write
  | write c => exact pays_write moves inSession acked

end Moves

theorem Addressed.of_cons {call : WriteCall} {calls : List WriteCall}
    (addressed : Addressed (call :: calls)) :
    Addressed calls ∧
      (∀ session, call.next session = .opened →
        ∃ c rest, calls = .write c :: rest) := by
  cases call with
  | start => exact ⟨addressed.2, fun _ _ => addressed.1⟩
  | stop => exact ⟨addressed, fun _ opened => by cases opened⟩
  | write c =>
      constructor
      · exact addressed
      · intro session opened
        cases session <;> cases opened

section

variable (slave : Slave)

def runSession (calls : List WriteCall) : BusI2c → BusI2c :=
  Run.run (busI2cCall slave) (calls.map WriteCall.call)

def sessionStep (call : WriteCall) (state : Session × BusI2c) :
    Session × BusI2c :=
  (call.next state.1, busI2cCall slave call.call state.2)

/-- What the wire carried and the driver owes, against what is asked for. -/
def writtenLedger : Ledger WriteCall (Session × BusI2c) Carried where
  balance state :=
    carried state.2.hw.ops ++ owed state.2.state state.2.pendingData
  asks call state := call.asks state.1
  forgets call state := call.repeats state.1 = true

theorem sessionStep_run (calls : List WriteCall) (session : Session)
    (bus : BusI2c) :
    (Run.run (sessionStep slave) calls (session, bus)).2 =
      runSession slave calls bus := by
  induction calls generalizing session bus with
  | nil => rfl
  | cons call calls induction =>
      exact induction (call.next session) (busI2cCall slave call.call bus)

theorem writtenLedger_total (calls : List WriteCall) (session : Session)
    (bus : BusI2c) :
    writtenLedger.total (sessionStep slave) calls (session, bus) =
      asked session calls := by
  induction calls generalizing session bus with
  | nil => rfl
  | cons call calls induction =>
      rw [Ledger.total, asked, sessionStep, induction]
      rfl

theorem meets_not_forgets_iff (calls : List WriteCall) (session : Session)
    (bus : BusI2c) :
    Run.Meets (sessionStep slave)
        (fun call state => ¬ writtenLedger.forgets call state) calls
        (session, bus) ↔
      repeatedStarts session calls = 0 := by
  induction calls generalizing session bus with
  | nil => simp [Run.Meets, repeatedStarts]
  | cons call calls induction =>
      rw [Run.Meets, sessionStep, induction, repeatedStarts,
        Nat.add_eq_zero_iff, Bool.toNat_eq_zero]
      exact and_congr_left' (Bool.not_eq_true _).to_iff

theorem Pays.sound {session : Session} {call : WriteCall} {bus : BusI2c}
    {new : List HwI2cOp}
    (pays : Pays session call bus.state (busI2cCall slave call.call bus).state
      bus.pendingData (busI2cCall slave call.call bus).pendingData new)
    (issued : Issued new bus.hw (busI2cCall slave call.call bus).hw) :
    writtenLedger.Sound (sessionStep slave) call (session, bus) := by
  have balance : writtenLedger.balance (sessionStep slave call (session, bus)) =
      carried bus.hw.ops ++ (carried new ++
        owed (busI2cCall slave call.call bus).state
          (busI2cCall slave call.call bus).pendingData) := by
    change carried (busI2cCall slave call.call bus).hw.ops ++
      owed (busI2cCall slave call.call bus).state
        (busI2cCall slave call.call bus).pendingData = _
    rw [issued.ops, carried_append, List.append_assoc]
  constructor
  · intro settles
    rw [balance, pays.paid (Bool.eq_false_iff.mpr settles),
      ← List.append_assoc]
    rfl
  · intro repeats
    obtain ⟨one, nothing⟩ := pays.forgot repeats
    rw [balance, nothing]
    change _ < (carried bus.hw.ops ++ owed bus.state bus.pendingData ++
      call.asks session).length
    simp only [List.length_append, List.length_nil]
    omega

theorem session_sound (calls : List WriteCall) (session : Session)
    (bus : BusI2c) (inSession : InSession session bus.state)
    (addressed : Addressed calls)
    (follows : session = .opened → ∃ c rest, calls = .write c :: rest)
    (acked : AllAcked (runSession slave calls bus).hw.ops) :
    Run.Meets (sessionStep slave) (writtenLedger.Sound (sessionStep slave))
      calls (session, bus) := by
  induction calls generalizing session bus with
  | nil => trivial
  | cons call calls induction =>
      obtain ⟨rest, nextFollows⟩ := addressed.of_cons
      obtain ⟨new, moves, performed⟩ := busI2cCall_step slave bus call.call
      have newAcked : AllAcked new := by
        obtain ⟨later, issued⟩ := run_issued slave (calls.map WriteCall.call)
          (busI2cCall slave call.call bus)
        intro op member
        apply acked op
        change op ∈ (Run.run (busI2cCall slave) (calls.map WriteCall.call)
          (busI2cCall slave call.call bus)).hw.ops
        rw [issued.ops, performed.issued.ops]
        simp [member]
      have pays := moves.pays inSession
        (fun opened => by
          obtain ⟨c, rest, write⟩ := follows opened
          exact ⟨c, (List.cons.inj write).1⟩)
        newAcked
      constructor
      · exact pays.sound slave performed.issued
      · apply induction
        · exact pays.inSession
        · exact rest
        · exact nextFollows session
        · exact acked

/-- Every written byte is carried, with the last one still owed, if and only
if no start comes while an earlier one has not been stopped. -/
theorem written_bytes_carried_iff (bus : BusI2c) (calls : List WriteCall)
    (addressed : Addressed calls)
    (acked : AllAcked (runSession slave calls (justOpened slave bus)).hw.ops) :
    carried (runSession slave calls (justOpened slave bus)).hw.ops ++
        owed (runSession slave calls (justOpened slave bus)).state
          (runSession slave calls (justOpened slave bus)).pendingData =
        asked .idle calls ↔
      repeatedStarts .idle calls = 0 := by
  obtain ⟨init, _, none⟩ := justOpened_facts slave bus
  have sound := session_sound slave calls .idle (justOpened slave bus)
    (.inl init) addressed (by simp) acked
  have balance := Ledger.balance_run_iff calls _ sound
  have nothing : writtenLedger.balance (Session.idle, justOpened slave bus) =
      [] := by
    change carried (justOpened slave bus).hw.ops ++ owed _ _ = []
    rw [none, init]
    rfl
  rw [meets_not_forgets_iff, writtenLedger_total, nothing, List.nil_append,
    writtenLedger] at balance
  simpa only [sessionStep_run] using balance

end

theorem written_bytes_carried_twice :
    carried (runSession (Slave.pulling [19, 28, 38])
        [.start, .write 0xA6, .write 0, .stop, .start, .write 0xA7, .stop]
        (justOpened (Slave.pulling [19, 28, 38]) powerOn)).hw.ops =
      [.address 0xA6, .data 0, .address 0xA7] := by
  have carriedAll := (written_bytes_carried_iff (Slave.pulling [19, 28, 38])
    powerOn [.start, .write 0xA6, .write 0, .stop, .start, .write 0xA7, .stop]
    (by simp [Addressed]) (by decide +kernel)).mpr (by decide)
  have paid : (runSession (Slave.pulling [19, 28, 38])
      [.start, .write 0xA6, .write 0, .stop, .start, .write 0xA7, .stop]
      (justOpened (Slave.pulling [19, 28, 38]) powerOn)).state = .init := rfl
  rw [paid] at carriedAll
  simpa [owed, asked, WriteCall.asks, WriteCall.next] using carriedAll

/-- A byte that is still pending at a repeated start never reaches the wire. -/
theorem repeated_start_loses_byte :
    ¬ ∀ (slave : Slave) (bus : BusI2c) (calls : List WriteCall),
      Addressed calls →
      AllAcked (runSession slave calls (justOpened slave bus)).hw.ops →
      carried (runSession slave calls (justOpened slave bus)).hw.ops ++
          owed (runSession slave calls (justOpened slave bus)).state
            (runSession slave calls (justOpened slave bus)).pendingData =
        asked .idle calls := by
  intro always
  have run := always (Slave.pulling [19, 29]) powerOn
    [.start, .write 0xA6, .write 0, .start, .write 0xA7, .stop]
    (by simp [Addressed]) (by decide +kernel)
  revert run
  decide +kernel

end BusNinja
