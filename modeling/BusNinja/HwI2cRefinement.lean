import BusNinja.HwI2cLines

/-!
# The lines carry what the calls mean

Between two calls either SCL is held low with nothing half sampled, or the
bus is idle.  From there every call makes the lines show its course, and
leaves them so for the next call.
-/

namespace BusNinja

open I2cWire

/-- Between two calls: SCL is held low with nothing half sampled, or the bus
is idle. -/
def HwI2c.AtRest (hw : HwI2c) (p : Nat) (events : List Event) : Bool → Prop
  | true => hw.LowAt true p [] events
  | false => hw.HighAt false p true [] events

/-- With the bus idle, the next slot is a START's or nobody's. -/
theorem quiet_of_idle {pulls : Nat → Bool} {calls : List HwI2cCall}
    {p : Nat} (framed : Framed false calls)
    (obeys : Obeys pulls p (callsCourse pulls calls p).1.slots) :
    pulls p = false := by
  cases framed with
  | done => exact obeys.quiet_nil 0
  | start address rdwr framed => exact obeys.quiet_head rfl

section

open HwI2c

variable {slave : Slave} {hw : HwI2c} {p : Nat} {events : List Event}
  (never : ∀ fall, slave.stretches fall = 0)

include never

theorem startCondition (held : Bool) (rest : AtRest hw p events held)
    (quiet : slave.pullsSda p = false) :
    ∃ bits, HighAt
      (if hw.holdBus = true then sclHi slave (sdaHi slave hw) else hw)
      held p true bits events := by
  cases held with
  | false =>
      have free : ¬ hw.holdBus = true := by simp [HighAt.holdBus rest]
      rw [if_neg free]
      exact ⟨[], rest⟩
  | true =>
      have low : LowAt (sdaHi slave hw) true p [] events :=
        LowAt.sdaHi slave rest
      have sampled : (sdaHi slave hw).sdaIn slave = true := by
        rw [low.sdaIn_eq, quiet]
        rfl
      have high := low.rise slave never (by simp)
      rw [sampled] at high
      rw [if_pos (LowAt.holdBus rest)]
      exact ⟨_, high⟩

theorem hwI2cMasterStart_course (held : Bool) (address : Byte)
    (rdwr : HwI2cRdwr) {slots : List Slot} (rest : AtRest hw p events held)
    (obeys : Obeys slave.pullsSda p
      ((callCourse slave.pullsSda p (.start address rdwr)).1.slots ++ slots)) :
    ∃ after, hwI2cCall slave hw (.start address rdwr) =
        ((callCourse slave.pullsSda p (.start address rdwr)).2, after) ∧
      AtRest after
        (p + (callCourse slave.pullsSda p (.start address rdwr)).1.slots.length)
        (events ++
          (callCourse slave.pullsSda p (.start address rdwr)).1.events)
        true := by
  have idle : AtRest (cpuDisableInt hw) p events held := by
    cases held with
    | false => exact HighAt.frame rest _ false _
    | true => exact LowAt.cpuDisableInt rest
  obtain ⟨bits, high⟩ := startCondition never held idle (obeys.quiet_head rfl)
  have started := (high.start slave).sclLow slave
  have later : Obeys slave.pullsSda (p + 1) ((Course.send slave.pullsSda (p + 1)
      (addressByte address rdwr)).slots ++ slots) :=
    obeys.tail
  have holding : LowAt
      { sclLow slave (sdaLow slave
          (if (cpuDisableInt hw).holdBus = true then
            sclHi slave (sdaHi slave (cpuDisableInt hw))
          else cpuDisableInt hw)) with holdBus := true }
      true (p + 1) [] (events ++ [.start]) :=
    ⟨started.sdaOut, started.sclOut, started.sclDdr, rfl, started.falls,
      started.scl, started.bits, started.events⟩
  obtain ⟨after, result, low⟩ := sendByte_lowAt never
    (addressByte address rdwr) holding (Course.send_quiet later)
  refine ⟨log (.start address rdwr (slave.pullsSda (p + 1 + 8))) after, ?_, ?_⟩
  · simp only [hwI2cCall, hwI2cMasterStart, callCourse]
    simp only [addressByte] at result
    rw [result]
    simp only [bitByte_eq_zero, Bool.not_not]
  · rw [List.append_assoc] at low
    exact low.log _

theorem txLoop_course (buf : List Byte) {slots : List Slot}
    (low : LowAt hw true p [] events)
    (obeys : Obeys slave.pullsSda p
      ((sendCourse slave.pullsSda buf p).1.slots ++ slots)) :
    ∃ after, txLoop slave buf false hw =
        (!(sendCourse slave.pullsSda buf p).2, after) ∧
      LowAt after true (p + (sendCourse slave.pullsSda buf p).1.slots.length) []
        (events ++ (sendCourse slave.pullsSda buf p).1.events) := by
  induction buf generalizing hw p events with
  | nil => exact ⟨hw, rfl, by simpa [sendCourse, Course.none] using low⟩
  | cons data buf induction =>
      cases answer : slave.pullsSda (p + 8) with
      | false =>
          simp only [sendCourse, answer, Bool.false_eq_true, if_false] at obeys ⊢
          obtain ⟨sent, result, lowSent⟩ :=
            sendByte_lowAt never data low (Course.send_quiet obeys)
          rw [answer] at result
          refine ⟨log (.tx data false) sent, ?_, lowSent.log _⟩
          simp only [txLoop, Bool.not_false, if_true]
          rw [result]
          cases buf <;> rfl
      | true =>
          simp only [sendCourse, answer, if_true, Course.andThen_slots,
            Course.andThen_events, List.append_assoc] at obeys ⊢
          obtain ⟨sent, result, lowSent⟩ :=
            sendByte_lowAt never data low (Course.send_quiet obeys)
          rw [answer] at result lowSent
          obtain ⟨after, more, lowAfter⟩ :=
            induction (lowSent.log (.tx data true)) obeys.later
          refine ⟨after, ?_, ?_⟩
          · simp only [txLoop, Bool.not_false, if_true]
            rw [result]
            exact more
          · rw [List.length_append, ← Nat.add_assoc]
            rw [List.append_assoc] at lowAfter
            rw [Course.send, answer]
            exact lowAfter

theorem rxLoop_course (ack : Bool) (bufLen : Nat) {slots : List Slot}
    (low : LowAt hw true p [] events)
    (obeys : Obeys slave.pullsSda p
      ((receiveCourse slave.pullsSda ack bufLen p).1.slots ++ slots)) :
    ∃ after, rxLoop slave ack bufLen hw =
        ((receiveCourse slave.pullsSda ack bufLen p).2, after) ∧
      LowAt after true
        (p + (receiveCourse slave.pullsSda ack bufLen p).1.slots.length) []
        (events ++ (receiveCourse slave.pullsSda ack bufLen p).1.events) := by
  induction bufLen generalizing hw p events with
  | zero => exact ⟨hw, rfl, by simpa [receiveCourse, Course.none] using low⟩
  | succ more induction =>
      simp only [receiveCourse, Course.andThen_slots, Course.andThen_events,
        List.append_assoc] at obeys ⊢
      have quiet := Course.receive_quiet obeys
      obtain ⟨read, result, lowRead⟩ := readBits_lowAt never 8 0 low (by simp)
      have sendAck : (decide (more + 1 > 1) || ack) = (decide (0 < more) || ack) := by
        simp
      generalize (decide (0 < more) || ack) = answer at obeys sendAck ⊢
      have driven : ∃ driven,
          (if answer = true then sdaLow slave read else sdaHi slave read) =
            driven ∧
          LowAt driven true (p + 8) (Course.shown slave.pullsSda 8 p) events ∧
          driven.sdaIn slave = !answer := by
        refine ⟨_, rfl, ?_⟩
        cases answer with
        | false =>
            refine ⟨(lowRead.sdaHi slave), ?_⟩
            rw [if_neg (by simp), (lowRead.sdaHi slave).sdaIn_eq, quiet]
            rfl
        | true =>
            refine ⟨(lowRead.sdaLow slave), ?_⟩
            rw [if_pos rfl, (lowRead.sdaLow slave).sdaIn_eq, quiet]
            rfl
      obtain ⟨driven, drive, lowDriven, sampled⟩ := driven
      have clocked :=
        ((lowDriven.riseNinth slave never rfl).sclLow slave).sdaHi slave
      rw [sampled, Bool.not_not] at clocked
      obtain ⟨after, rest, lowAfter⟩ := induction
        (clocked.log (.rx (byteOfBits (Course.shown slave.pullsSda 8 p)) answer))
        obeys.later
      refine ⟨after, ?_, ?_⟩
      · have same : ∀ bits : List Bool, bits.foldl shiftIn 0 = byteOfBits bits :=
          fun _ => rfl
        simp only [rxLoop, result, sendAck, drive, same, rest]
      · rw [List.length_append, ← Nat.add_assoc]
        rw [List.append_assoc] at lowAfter
        exact lowAfter

theorem hwI2cMasterStop_course (low : LowAt hw true p [] events)
    (quiet : slave.pullsSda p = false) :
    HighAt (hwI2cMasterStop slave hw) false p true []
      (events ++ [.stop]) := by
  have held : LowAt (sdaLow slave (sclLow slave (cpuDisableInt hw))) true p []
      events := (low.cpuDisableInt.sclLow slave).sdaLow slave
  have sampled : (sdaLow slave (sclLow slave (cpuDisableInt hw))).sdaIn slave =
      false := by
    rw [held.sdaIn_eq]
    rfl
  have high := held.rise slave never (by simp)
  rw [sampled] at high
  have idle := high.stop slave quiet
  exact ⟨idle.sdaOut, idle.sclOut, idle.sclDdr, rfl, idle.stretching,
    idle.falls, idle.level, idle.bits, idle.events⟩

/-- From rest, framed calls return what their course says, and the lines
show it. -/
theorem hwI2cCalls_course {calls : List HwI2cCall} {held : Bool}
    (framed : Framed held calls) (rest : AtRest hw p events held)
    (obeys : Obeys slave.pullsSda p
      (callsCourse slave.pullsSda calls p).1.slots) :
    ∃ after, hwI2cCalls slave calls hw =
        ((callsCourse slave.pullsSda calls p).2, after) ∧
      after.seen.events =
        events ++ (callsCourse slave.pullsSda calls p).1.events := by
  induction framed generalizing hw p events with
  | done =>
      exact ⟨hw, rfl, by simpa [callsCourse, Course.none] using HighAt.events rest⟩
  | @start held calls address rdwr framed induction =>
      simp only [callsCourse, Course.andThen_slots, Course.andThen_events] at obeys ⊢
      obtain ⟨next, result, low⟩ :=
        hwI2cMasterStart_course never held address rdwr rest obeys
      obtain ⟨after, results, seen⟩ := induction low obeys.later
      refine ⟨after, ?_, ?_⟩
      · simp only [hwI2cCalls, result, results]
      · rw [seen, List.append_assoc]
  | @tx calls buf framed induction =>
      simp only [callsCourse, callCourse, Course.andThen_slots,
        Course.andThen_events] at obeys ⊢
      obtain ⟨sent, result, low⟩ :=
        txLoop_course never buf (LowAt.cpuDisableInt rest) obeys
      obtain ⟨after, results, seen⟩ := induction low.cpuEnableInt obeys.later
      refine ⟨after, ?_, ?_⟩
      · simp only [hwI2cCalls, hwI2cCall, hwI2cMasterTx, result, results,
          Bool.not_not]
      · rw [seen, List.append_assoc]
  | @rx calls bufLen ack framed induction =>
      simp only [callsCourse, callCourse, Course.andThen_slots,
        Course.andThen_events] at obeys ⊢
      obtain ⟨received, result, low⟩ :=
        rxLoop_course never ack bufLen (LowAt.cpuDisableInt rest) obeys
      obtain ⟨after, results, seen⟩ := induction low.cpuEnableInt obeys.later
      refine ⟨after, ?_, ?_⟩
      · simp only [hwI2cCalls, hwI2cCall, hwI2cMasterRx, result, results]
      · rw [seen, List.append_assoc]
  | @stop calls framed induction =>
      simp only [callsCourse, callCourse, Course.andThen_slots,
        Course.andThen_events, Course.stop, List.nil_append] at obeys ⊢
      have high := hwI2cMasterStop_course never rest (quiet_of_idle framed obeys)
      obtain ⟨after, results, seen⟩ := induction high obeys
      refine ⟨after, ?_, ?_⟩
      · simp only [hwI2cCalls, hwI2cCall, results]
        rfl
      · rw [seen, List.append_assoc]
        rfl

/-- The idle lines an init leaves, watched from there on. -/
def idleLines (slave : Slave) (hw : HwI2c) : HwI2c :=
  { hwI2cInit slave hw with samples := [] }

theorem idleLines_rest (hw : HwI2c) :
    AtRest (idleLines slave hw) hw.falls [] false :=
  ⟨rfl, rfl, rfl, rfl, never _, rfl, rfl, rfl, rfl⟩

/-- From idle lines, for a slave that pulls SDA only in its own slots and
never stretches, an observer of the lines decodes exactly the course of the
transactions, and every call returns what the course says. -/
theorem hwI2c_lines_decode (hw : HwI2c) (transactions : List Transaction)
    (obeys : Obeys slave.pullsSda hw.falls
      (callsCourse slave.pullsSda (transactions.flatMap Transaction.calls)
        hw.falls).1.slots) :
    decode ((hwI2cCalls slave (transactions.flatMap Transaction.calls)
        (idleLines slave hw)).2.samples.map Sample.level) =
      (callsCourse slave.pullsSda (transactions.flatMap Transaction.calls)
        hw.falls).1.events ∧
    (hwI2cCalls slave (transactions.flatMap Transaction.calls)
        (idleLines slave hw)).1 =
      (callsCourse slave.pullsSda (transactions.flatMap Transaction.calls)
        hw.falls).2 := by
  obtain ⟨after, results, seen⟩ := hwI2cCalls_course never
    (Framed.transactions transactions) (idleLines_rest never hw) obeys
  rw [results]
  exact ⟨by simpa [decode, HwI2c.seen] using seen, rfl⟩

end

/-- A read of two bytes from an address that is written first. -/
def randomRead : Transaction where
  first := ⟨0xA6, .wr, .tx [⟨[0x00], by decide⟩, ⟨[0x10], by decide⟩]⟩
  more := [⟨0xA6, .rd, .rx [⟨1, by decide⟩, ⟨1, by decide⟩]⟩]

/-- The slave acknowledges four bytes and then shows 0xDF and 0xFB. -/
theorem hwI2c_lines_decode_randomRead :
    decode ((hwI2cCalls (.pulling [9, 18, 27, 37, 40, 52])
        ([randomRead].flatMap Transaction.calls)
        (idleLines (.pulling [9, 18, 27, 37, 40, 52])
          .powerOn)).2.samples.map Sample.level) =
      [.start, .byte 0xA6 true, .byte 0x00 true, .byte 0x10 true,
        .start, .byte 0xA7 true, .byte 0xDF true, .byte 0xFB false, .stop] :=
  (hwI2c_lines_decode (fun _ => rfl) .powerOn [randomRead] (by
    intro i pulled
    simp only [Slave.pulling, HwI2c.powerOn, Nat.zero_add, List.contains_cons,
      List.contains_nil, Bool.or_false, Bool.or_eq_true, beq_iff_eq] at pulled
    rcases pulled with rfl | rfl | rfl | rfl | rfl | rfl <;> decide)).1

end BusNinja
