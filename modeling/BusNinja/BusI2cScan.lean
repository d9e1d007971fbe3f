import Mathlib.Data.List.Nodup
import BusNinja.BusI2cRuns
import BusNinja.HwI2cRefinement

/-!
# The address scanner

The command `s` probes every address byte once, from 0xFF down to 0, with a
bus clear behind each, and puts out those that are answered.  What is
attached is described by the address bytes it answers; every such set can be
attached.
-/

namespace BusNinja

/-- The starts among the operations are answered by the devices, whatever
went before. -/
def AnswersAs (acked : Byte → Bool) (ops : List HwI2cOp) : Prop :=
  ∀ address rdwr answer, .start address rdwr answer ∈ ops →
    answer = acked (addressByte address rdwr)

/-- A probe and the bus clear behind it, which is a start of its own. -/
def probeOps (acked : Byte → Bool) (i : Byte) : List HwI2cOp :=
  .start i (rdwrOf i) (acked i) :: clearing (acked 0x01)

def hex0x8 (c : Byte) : List Byte :=
  [0x30, 0x78, nibbleToChar ((c &&& 0xF0) >>> 4), nibbleToChar (c &&& 0x0F)]

/-- The line about a device that answers, such as `0xA7(0x53 R)`. -/
def reportLine (i : Byte) : List Byte :=
  hex0x8 i ++ text "(" ++ hex0x8 (i >>> 1) ++
    text (if i &&& 0x1 ≠ 0 then " R)" else " W)") ++ [0x0D, 0x0A]

def BusOutput.logged (bytes : List Byte) (out : BusOutput) : BusOutput :=
  { out with console := consolePutsP bytes out.console }

/-- Every address byte is probed once and downwards, each with a bus clear
behind it, the loop over the eight-bit counter ends, the answered addresses
and no others are put out in this order, and the bus is not held. -/
structure Scans (slave : Slave) (acked : Byte → Bool) (before after : BusI2c) :
    Prop where
  ends : ∀ fuel, 256 ≤ fuel → scanRounds slave fuel 0xFF before = some after
  every : ∀ i, (scanAddresses 0xFF).count i = 1
  descending : (scanAddresses 0xFF).Pairwise fun i j => j < i
  probes : after.hw.ops =
    before.hw.ops ++ (scanAddresses 0xFF).flatMap (probeOps acked)
  reports : after.out =
    before.out.logged
      (((scanAddresses 0xFF).filter acked).flatMap reportLine)
  free : after.hw.grip = Grip.free

theorem addressByte_own (i : Byte) : addressByte i (rdwrOf i) = i := by
  revert i
  decide +kernel

theorem AnswersAs.append {acked : Byte → Bool} {first second : List HwI2cOp}
    (answers : AnswersAs acked (first ++ second)) :
    AnswersAs acked first ∧ AnswersAs acked second := by
  constructor
  · intro address rdwr answer member
    exact answers address rdwr answer (List.mem_append_left _ member)
  · intro address rdwr answer member
    exact answers address rdwr answer (List.mem_append_right _ member)

theorem logged_append (first second : List Byte) (out : BusOutput) :
    out.logged (first ++ second) = (out.logged first).logged second := by
  simp only [BusOutput.logged, consolePutsP_append]

theorem putsFound_report (i : Byte) {bus : BusI2c}
    (logs : bus.out.logEnabled = true) :
    (putsFound i bus).out = bus.out.logged (reportLine i) := by
  obtain ⟨state, pendingData, hw, ⟨outmode, logEnabled, console, handed⟩⟩ := bus
  cases logs
  by_cases reading : i &&& 0x1 ≠ 0
  · simp only [putsFound, reportLine, if_pos reading, BusI2c.put0x8, BusI2c.putc,
      BusI2c.newline, busLogPut0x8, busLogPutc, busLogNewline, busLog,
      if_true, logged_append]
    rfl
  · simp only [putsFound, reportLine, if_neg reading, BusI2c.put0x8, BusI2c.putc,
      BusI2c.newline, busLogPut0x8, busLogPutc, busLogNewline, busLog,
      if_true, logged_append]
    rfl

section

variable {slave : Slave} {acked : Byte → Bool}

theorem scanAddress_answers (i : Byte) (bus : BusI2c) :
    ∃ ops hw out, scanAddress slave i bus = { bus with hw := hw, out := out } ∧
      Issued ops bus.hw hw ∧
      (bus.out.logEnabled = true → AnswersAs acked ops →
        ops = probeOps acked i ∧
          out = bus.out.logged (if acked i then reportLine i else [])) := by
  obtain ⟨answer, cleared, hw, result, issued⟩ := scanAddress_exact slave bus i
  refine ⟨_, hw, _, result, issued, ?_⟩
  intro logs answers
  have own := answers i (rdwrOf i) answer List.mem_cons_self
  rw [addressByte_own] at own
  have clear : cleared = acked 0x01 :=
    answers 0 .rd cleared (List.mem_cons_of_mem _ List.mem_cons_self)
  subst own clear
  refine ⟨rfl, ?_⟩
  cases acked i with
  | false => rfl
  | true => exact putsFound_report i logs

theorem reports_cons (i : Byte) (addresses : List Byte) :
    ((i :: addresses).filter acked).flatMap reportLine =
      (if acked i then reportLine i else []) ++
        (addresses.filter acked).flatMap reportLine := by
  cases found : acked i with
  | false => rw [List.filter_cons_of_neg (by simp [found])]; rfl
  | true => rw [List.filter_cons_of_pos found, List.flatMap_cons]; rfl

theorem scanLoop_answers (i : Nat) (bus : BusI2c) :
    ∃ ops, Issued ops bus.hw (scanLoop slave i bus).hw ∧
      (bus.out.logEnabled = true → AnswersAs acked ops →
        ops = (scanAddresses i).flatMap (probeOps acked) ∧
          (scanLoop slave i bus).out = bus.out.logged
            (((scanAddresses i).filter acked).flatMap reportLine)) := by
  induction i generalizing bus with
  | zero =>
      obtain ⟨ops, hw, out, result, issued, exact'⟩ :=
        @scanAddress_answers slave acked 0 bus
      refine ⟨ops, ?_, ?_⟩
      · rw [scanLoop, result]
        exact issued
      · intro logs answers
        obtain ⟨probed, put⟩ := exact' logs answers
        have only : scanAddresses 0 = [0] := rfl
        rw [only, List.flatMap_singleton, reports_cons, List.filter_nil,
          List.flatMap_nil, List.append_nil, scanLoop, result]
        exact ⟨probed, put⟩
  | succ i induction =>
      obtain ⟨first, hw, out, result, issued, exact'⟩ :=
        @scanAddress_answers slave acked (BitVec.ofNat 8 (i + 1)) bus
      obtain ⟨later, laterIssued, laterExact⟩ :=
        induction { bus with hw := hw, out := out }
      have loop : scanLoop slave (i + 1) bus =
          scanLoop slave i { bus with hw := hw, out := out } := by
        rw [scanLoop, result]
      rw [loop, scanAddresses_succ]
      refine ⟨first ++ later, issued.trans laterIssued, ?_⟩
      intro logs answers
      obtain ⟨probed, put⟩ := exact' logs answers.append.1
      subst probed put
      obtain ⟨laterProbed, laterPut⟩ := laterExact logs answers.append.2
      rw [List.flatMap_cons, reports_cons, logged_append, ← laterProbed]
      exact ⟨rfl, laterPut⟩

/-- The counter of eight bits stops at 0 and does not wrap before. -/
theorem scanRounds_loop (i : Nat) (small : i < 256) {fuel : Nat}
    (enough : i < fuel) (bus : BusI2c) :
    scanRounds slave fuel (BitVec.ofNat 8 i) bus =
      some (scanLoop slave i bus) := by
  induction i generalizing fuel bus with
  | zero =>
      obtain ⟨fuel, rfl⟩ := Nat.exists_eq_add_one.mpr enough
      rfl
  | succ i induction =>
      obtain ⟨fuel, rfl⟩ := Nat.exists_eq_add_one.mpr (Nat.zero_lt_of_lt enough)
      have positive : BitVec.ofNat 8 (i + 1) > 0 := by
        rw [gt_iff_lt, BitVec.lt_def, BitVec.toNat_ofNat, Nat.mod_eq_of_lt small]
        exact Nat.succ_pos i
      have previous : BitVec.ofNat 8 (i + 1) - 1 = BitVec.ofNat 8 i := by
        rw [BitVec.ofNat_add]
        exact BitVec.add_sub_cancel _ _
      rw [scanRounds, scanLoop, if_pos positive, previous]
      exact induction (by omega) (by omega) _

theorem scanAddresses_descending :
    (scanAddresses 0xFF).Pairwise fun i j => j < i := by
  rw [scanAddresses, List.pairwise_map, List.pairwise_reverse]
  refine List.Pairwise.imp_of_mem ?_ List.pairwise_lt_range
  intro i j lower upper less
  have small := List.mem_range.mp upper
  rw [BitVec.lt_def, BitVec.toNat_ofNat, BitVec.toNat_ofNat]
  omega

theorem scanAddresses_every (i : Byte) : (scanAddresses 0xFF).count i = 1 := by
  have distinct : (scanAddresses 0xFF).Nodup :=
    scanAddresses_descending.imp fun less equal =>
      absurd less (by rw [equal]; exact BitVec.lt_irrefl _)
  refine List.count_eq_one_of_mem distinct ?_
  rw [scanAddresses, List.mem_map]
  refine ⟨i.toNat, ?_, BitVec.ofNat_toNat 8 i⟩
  rw [List.mem_reverse, List.mem_range]
  exact i.isLt

end

/-- With logging on, the scanner is complete and exact, whatever the devices
answer. -/
theorem scan_complete_and_exact (slave : Slave) (acked : Byte → Bool)
    (count : BitVec 32) (bus : BusI2c) (logs : bus.out.logEnabled = true)
    (answers : AnswersAs acked
      ((busI2cCommand slave [0x73] count bus).2.hw.ops.drop
        bus.hw.ops.length)) :
    (busI2cCommand slave [0x73] count bus).1 = true ∧
      Scans slave acked bus (busI2cCommand slave [0x73] count bus).2 := by
  obtain ⟨ops, issued, exact'⟩ := @scanLoop_answers slave acked 0xFF bus
  have scanned : busI2cCommand slave [0x73] count bus =
      (true, scanLoop slave 0xFF bus) := if_pos rfl
  rw [scanned] at answers ⊢
  rw [issued.ops, List.drop_left] at answers
  obtain ⟨probed, put⟩ := exact' logs answers
  have frees := (scan_frees slave count bus).2
  refine ⟨rfl, ?_, scanAddresses_every, scanAddresses_descending, ?_, put, ?_⟩
  · intro fuel enough
    dsimp only
    exact scanRounds_loop 0xFF (by omega) (by omega) bus
  · rw [issued.ops, probed]
  · rw [busI2cCall, scanned] at frees
    exact frees

section

open I2cWire HwI2c

/-- The slots of a start: the slave answers in the last one. -/
def startSlots : List Slot :=
  .condition :: (List.replicate 8 .masterBit ++ [.slaveAck])

theorem obeys_starts {pulls : Nat → Bool} (starts : Nat) {p : Nat}
    (own : ∀ i, pulls (p + i) = true → i < 10 * starts ∧ i % 10 = 9) :
    Obeys pulls p (List.replicate starts startSlots).flatten := by
  induction starts generalizing p with
  | zero =>
      intro i pulled
      have inside := (own i pulled).1
      omega
  | succ starts induction =>
      have later : Obeys pulls (p + 10)
          (List.replicate starts startSlots).flatten := by
        apply induction
        intro i pulled
        rw [Nat.add_assoc] at pulled
        obtain ⟨inside, last⟩ := own (10 + i) pulled
        omega
      intro i pulled
      have length : startSlots.length = 10 := rfl
      rw [List.replicate_succ, List.flatten_cons]
      by_cases first : i < 10
      · have ninth : i = 9 := by
          have last := (own i pulled).2
          omega
        subst ninth
        rfl
      · rw [List.getD_append_right _ _ _ _ (by omega), length]
        apply later
        rwa [Nat.add_assoc, Nat.add_sub_cancel' (by omega)]

/-- When devices pull SDA in a scan from address `n` on: behind every probe
and behind every start of a bus clear. -/
def pullsInScan (acked : Byte → Bool) (n i : Nat) : Bool :=
  if i < 20 * (n + 1) then
    if i % 20 = 9 then acked (BitVec.ofNat 8 (n - i / 20))
    else i % 20 == 19 && acked 0x01
  else false

theorem pullsInScan_own {acked : Byte → Bool} {n i : Nat}
    (pulled : pullsInScan acked n i = true) :
    i < 10 * (2 * (n + 1)) ∧ i % 10 = 9 := by
  unfold pullsInScan at pulled
  split_ifs at pulled with inside probe
  · omega
  · rw [Bool.and_eq_true, beq_iff_eq] at pulled
    omega

theorem pullsInScan_later (acked : Byte → Bool) (n i : Nat) :
    pullsInScan acked (n + 1) (20 + i) = pullsInScan acked n i := by
  have inside : 20 + i < 20 * (n + 1 + 1) ↔ i < 20 * (n + 1) := by omega
  have slot : (20 + i) % 20 = i % 20 := by omega
  have address : n + 1 - (20 + i) / 20 = n - i / 20 := by omega
  simp only [pullsInScan, inside, slot, address]

/-- Devices that answer these address bytes, in a scan from slot `p` on. -/
def attached (acked : Byte → Bool) (p : Nat) : Slave where
  pullsSda := fun fall => decide (p ≤ fall) && pullsInScan acked 0xFF (fall - p)
  stretches := fun _ => 0

theorem scanAddress_hw (slave : Slave) (i : Byte) (bus : BusI2c) :
    (scanAddress slave i bus).hw =
      hwI2cBusClear slave (hwI2cMasterStart slave i (rdwrOf i) bus.hw).2 := by
  rcases started : hwI2cMasterStart slave i (rdwrOf i) bus.hw with ⟨ok, hw⟩
  have sent : bus.masterStart slave i (rdwrOf i) = (ok, { bus with hw := hw }) := by
    rw [BusI2c.masterStart, started]
  simp only [scanAddress, sent]
  cases ok with
  | false => rfl
  | true =>
      rw [if_pos rfl, (putsFound_frame bus i hw).1]
      rfl

theorem probeOps_answers (acked : Byte → Bool) (i : Byte) :
    AnswersAs acked (probeOps acked i) := by
  intro address rdwr answer member
  rcases List.mem_cons.mp member with start | cleared
  · obtain ⟨rfl, rfl, rfl⟩ := HwI2cOp.start.inj start
    rw [addressByte_own]
  · have start : HwI2cOp.start address rdwr answer =
        .start 0 .rd (acked 0x01) := by
      simpa [clearing] using cleared
    obtain ⟨rfl, rfl, rfl⟩ := HwI2cOp.start.inj start
    rfl

variable {slave : Slave} (never : ∀ fall, slave.stretches fall = 0)

include never

theorem hwI2cMasterStart_answer {hw : HwI2c} {p : Nat} {events : List Event}
    (held : Bool) (address : Byte) (rdwr : HwI2cRdwr) {slots : List Slot}
    (rest : AtRest hw p events held)
    (obeys : Obeys slave.pullsSda p (startSlots ++ slots)) :
    (hwI2cMasterStart slave address rdwr hw).1 = slave.pullsSda (p + 9) ∧
      ∃ events', AtRest (hwI2cMasterStart slave address rdwr hw).2 (p + 10)
        events' true := by
  obtain ⟨after, result, low⟩ :=
    hwI2cMasterStart_course never held address rdwr rest obeys
  simp only [hwI2cCall, callCourse, Prod.mk.injEq, HwI2cResult.status.injEq]
    at result
  obtain ⟨answer, state⟩ := result
  rw [state]
  exact ⟨answer, _, low⟩

/-- A probe from idle lines, and the idle lines behind its bus clear. -/
theorem scanAddress_course (i : Byte) {bus : BusI2c} {p : Nat}
    {events : List Event} {slots : List Slot} (rest : AtRest bus.hw p events false)
    (obeys : Obeys slave.pullsSda p (startSlots ++ (startSlots ++ slots)))
    (quiet : slave.pullsSda (p + 20) = false) :
    (scanAddress slave i bus).hw.ops = bus.hw.ops ++
        .start i (rdwrOf i) (slave.pullsSda (p + 9)) ::
          clearing (slave.pullsSda (p + 19)) ∧
      ∃ events', AtRest (scanAddress slave i bus).hw (p + 20) events' false := by
  obtain ⟨answer, events₁, low⟩ :=
    hwI2cMasterStart_answer never false i (rdwrOf i) rest obeys
  obtain ⟨cleared, events₂, still⟩ :=
    hwI2cMasterStart_answer never true 0 .rd low obeys.later
  have probed := hwI2cMasterStart_issued slave bus.hw i (rdwrOf i)
  have restarted := hwI2cMasterStart_issued slave
    (hwI2cMasterStart slave i (rdwrOf i) bus.hw).2 0 .rd
  have issued := (probed.trans restarted).trans (hwI2cMasterStop_issued slave _)
  rw [answer, cleared] at issued
  rw [scanAddress_hw]
  exact ⟨issued.ops, _, hwI2cMasterStop_course never still quiet⟩

theorem scanAddress_answered {acked : Byte → Bool} (n : Nat) {bus : BusI2c}
    {p : Nat} {events : List Event} (rest : AtRest bus.hw p events false)
    (pulls : ∀ i, slave.pullsSda (p + i) = pullsInScan acked n i) :
    (scanAddress slave (BitVec.ofNat 8 n) bus).hw.ops =
        bus.hw.ops ++ probeOps acked (BitVec.ofNat 8 n) ∧
      ∃ events', AtRest (scanAddress slave (BitVec.ofNat 8 n) bus).hw (p + 20)
        events' false := by
  have probe : slave.pullsSda (p + 9) = acked (BitVec.ofNat 8 n) := by
    rw [pulls, pullsInScan, if_pos (by omega)]
    rfl
  have clear : slave.pullsSda (p + 19) = acked 0x01 := by
    rw [pulls, pullsInScan, if_pos (by omega)]
    rfl
  have quiet : slave.pullsSda (p + 20) = false := by
    rw [← Bool.not_eq_true, pulls]
    intro pulled
    have last := (pullsInScan_own pulled).2
    omega
  have obeys : Obeys slave.pullsSda p (startSlots ++ (startSlots ++
      (List.replicate (2 * n) startSlots).flatten)) :=
    obeys_starts (2 * n + 1 + 1) fun i pulled =>
      pullsInScan_own ((pulls i).symm.trans pulled)
  have course := scanAddress_course never (BitVec.ofNat 8 n) rest obeys quiet
  rw [probe, clear] at course
  exact course

theorem scanLoop_answered {acked : Byte → Bool} (n : Nat) {bus : BusI2c}
    {p : Nat} {events : List Event} (rest : AtRest bus.hw p events false)
    (pulls : ∀ i, slave.pullsSda (p + i) = pullsInScan acked n i) :
    ∃ ops, (scanLoop slave n bus).hw.ops = bus.hw.ops ++ ops ∧
      AnswersAs acked ops := by
  induction n generalizing bus p events with
  | zero =>
      exact ⟨_, (scanAddress_answered never 0 rest pulls).1,
        probeOps_answers acked _⟩
  | succ n induction =>
      obtain ⟨probed, events', next⟩ :=
        scanAddress_answered never (n + 1) rest pulls
      obtain ⟨ops, later, answers⟩ := induction next fun i => by
        rw [Nat.add_assoc, pulls, pullsInScan_later]
      rw [probed, List.append_assoc] at later
      refine ⟨_, later, ?_⟩
      intro address rdwr answer member
      rcases List.mem_append.mp member with now | after
      · exact probeOps_answers acked _ address rdwr answer now
      · exact answers address rdwr answer after

end

/-- From idle lines every set of address bytes can be answered. -/
theorem attached_answers (acked : Byte → Bool) (count : BitVec 32)
    {bus : BusI2c} {p : Nat} {events : List I2cWire.Event}
    (rest : bus.hw.AtRest p events false) :
    AnswersAs acked
      ((busI2cCommand (attached acked p) [0x73] count bus).2.hw.ops.drop
        bus.hw.ops.length) := by
  have pulls : ∀ i, (attached acked p).pullsSda (p + i) =
      pullsInScan acked 0xFF i := by
    intro i
    simp [attached]
  have scanned : busI2cCommand (attached acked p) [0x73] count bus =
      (true, scanLoop (attached acked p) 0xFF bus) := if_pos rfl
  obtain ⟨ops, later, answers⟩ :=
    scanLoop_answered (fun _ => rfl) 0xFF rest pulls
  rw [scanned, later, List.drop_left]
  exact answers

/-- An EEPROM at 0x53, on lines nobody has used yet. -/
theorem scan_complete_and_exact_eeprom :
    Scans (attached (fun i => i == 0xA6 || i == 0xA7) 0)
      (fun i => i == 0xA6 || i == 0xA7) powerOn
      (busI2cCommand (attached (fun i => i == 0xA6 || i == 0xA7) 0) [0x73] 1
        powerOn).2 :=
  (scan_complete_and_exact _ (fun i => i == 0xA6 || i == 0xA7) 1 powerOn rfl
    (attached_answers _ 1 ⟨rfl, rfl, rfl, rfl, rfl, rfl, rfl, rfl, rfl⟩)).2

end BusNinja
