import BusNinja.Library.I2cSlots
import BusNinja.Source.HwI2c

/-!
# The byte-level meaning of the I2C master's calls

A transaction is a list of calls of the master: one or more segments, each a
start with transfers in one direction, and a stop.  Its course is stated in
terms of bytes and slots alone, from the slots in which the slave pulls SDA.
-/

namespace BusNinja

open I2cWire

/-- The calls of `hw_i2c.h` that use the bus. -/
inductive HwI2cCall where
  | start (address : Byte) (rdwr : HwI2cRdwr)
  | tx (buf : List Byte)
  | rx (bufLen : Nat) (ack : Bool)
  | stop
  deriving DecidableEq, Repr

/-- What a call returns, with the bytes a receive call has stored. -/
inductive HwI2cResult where
  | status (ok : Bool)
  | received (ok : Bool) (buf : List Byte)
  | none
  deriving DecidableEq, Repr

def hwI2cCall (slave : Slave) (hw : HwI2c) : HwI2cCall → HwI2cResult × HwI2c
  | .start address rdwr =>
      let (ok, hw) := hwI2cMasterStart slave address rdwr hw
      (.status ok, hw)
  | .tx buf =>
      let (ok, hw) := hwI2cMasterTx slave buf hw
      (.status ok, hw)
  | .rx bufLen ack =>
      let (ok, buf, hw) := hwI2cMasterRx slave bufLen ack hw
      (.received ok buf, hw)
  | .stop => (.none, hwI2cMasterStop slave hw)

def hwI2cCalls (slave : Slave) :
    List HwI2cCall → HwI2c → List HwI2cResult × HwI2c
  | [], hw => ([], hw)
  | call :: calls, hw =>
      let (result, hw) := hwI2cCall slave hw call
      let (results, hw) := hwI2cCalls slave calls hw
      (result :: results, hw)

/-- What a `buf_len` of one byte can tell the length of. -/
abbrev Buffer := { buf : List Byte // 1 ≤ buf.length ∧ buf.length ≤ 255 }

abbrev BufferLength := { bufLen : Nat // 1 ≤ bufLen ∧ bufLen ≤ 255 }

/-- The calls between a start and the next start or stop. -/
inductive Transfer where
  | tx (bufs : List Buffer)
  | rx (bufLens : List BufferLength)

/-- All receive calls but the last acknowledge their last byte. -/
def receiveCalls : List BufferLength → List HwI2cCall
  | [] => []
  | [bufLen] => [.rx bufLen.val false]
  | bufLen :: more => .rx bufLen.val true :: receiveCalls more

def Transfer.calls : Transfer → List HwI2cCall
  | .tx bufs => bufs.map fun buf => .tx buf.val
  | .rx bufLens => receiveCalls bufLens

structure Segment where
  address : Byte
  rdwr : HwI2cRdwr
  transfer : Transfer

def Segment.calls (segment : Segment) : List HwI2cCall :=
  .start segment.address segment.rdwr :: segment.transfer.calls

structure Transaction where
  first : Segment
  more : List Segment

def Transaction.calls (transaction : Transaction) : List HwI2cCall :=
  transaction.first.calls ++ transaction.more.flatMap Segment.calls ++ [.stop]

/-- Calls that keep to transactions, with the bus held at first or not. -/
inductive Framed : Bool → List HwI2cCall → Prop where
  | done : Framed false []
  | start {held : Bool} {calls : List HwI2cCall} (address : Byte)
      (rdwr : HwI2cRdwr) :
      Framed true calls → Framed held (.start address rdwr :: calls)
  | tx {calls : List HwI2cCall} (buf : List Byte) :
      Framed true calls → Framed true (.tx buf :: calls)
  | rx {calls : List HwI2cCall} (bufLen : Nat) (ack : Bool) :
      Framed true calls → Framed true (.rx bufLen ack :: calls)
  | stop {calls : List HwI2cCall} :
      Framed false calls → Framed true (.stop :: calls)

namespace Framed

variable {calls : List HwI2cCall}

theorem receiveCalls (bufLens : List BufferLength) (framed : Framed true calls) :
    Framed true (BusNinja.receiveCalls bufLens ++ calls) := by
  fun_induction BusNinja.receiveCalls with
  | case1 => exact framed
  | case2 bufLen => exact .rx _ _ framed
  | case3 bufLen more nonempty induction => exact .rx _ _ induction

theorem transfer (transfer : Transfer) (framed : Framed true calls) :
    Framed true (transfer.calls ++ calls) := by
  cases transfer with
  | tx bufs =>
      induction bufs with
      | nil => exact framed
      | cons buf bufs induction => exact .tx _ induction
  | rx bufLens => exact receiveCalls bufLens framed

theorem segment {held : Bool} (segment : Segment) (framed : Framed true calls) :
    Framed held (segment.calls ++ calls) :=
  .start _ _ (transfer segment.transfer framed)

theorem segments (segments : List Segment) (framed : Framed true calls) :
    Framed true (segments.flatMap Segment.calls ++ calls) := by
  induction segments with
  | nil => exact framed
  | cons first more induction =>
      rw [List.flatMap_cons, List.append_assoc]
      exact segment first induction

theorem transactions (transactions : List Transaction) :
    Framed false (transactions.flatMap Transaction.calls) := by
  induction transactions with
  | nil => exact .done
  | cons transaction more induction =>
      rw [List.flatMap_cons, Transaction.calls, List.append_assoc,
        List.append_assoc]
      exact segment _ (segments _ (.stop induction))

end Framed

section

variable (pulls : Nat → Bool)

/-- Bytes are sent until one of them is refused. -/
def sendCourse : List Byte → Nat → Course × Bool
  | [], _ => (.none, true)
  | data :: buf, p =>
      if pulls (p + 8) then
        let (course, ok) := sendCourse buf (p + 9)
        ((Course.send pulls p data).andThen course, ok)
      else (Course.send pulls p data, false)

/-- All bytes but the last are acknowledged, and the last one if asked to. -/
def receiveCourse (ack : Bool) : Nat → Nat → Course × List Byte
  | 0, _ => (.none, [])
  | more + 1, p =>
      let (course, buf) := receiveCourse ack more (p + 9)
      ((Course.receive pulls p (decide (0 < more) || ack)).andThen course,
        byteOfBits (Course.shown pulls 8 p) :: buf)

def addressByte (address : Byte) (rdwr : HwI2cRdwr) : Byte :=
  (address &&& 0xfe) ||| rdwr.bit

/-- The course of one call from slot `p` on, and its result. -/
def callCourse (p : Nat) : HwI2cCall → Course × HwI2cResult
  | .start address rdwr =>
      (Course.start.andThen
          (Course.send pulls (p + 1) (addressByte address rdwr)),
        .status (pulls (p + 1 + 8)))
  | .tx buf =>
      let (course, ok) := sendCourse pulls buf p
      (course, .status ok)
  | .rx bufLen ack =>
      let (course, buf) := receiveCourse pulls ack bufLen p
      (course, .received true buf)
  | .stop => (.stop, .none)

def callsCourse : List HwI2cCall → Nat → Course × List HwI2cResult
  | [], _ => (.none, [])
  | call :: calls, p =>
      let (now, result) := callCourse pulls p call
      let (later, results) := callsCourse calls (p + now.slots.length)
      (now.andThen later, result :: results)

end

end BusNinja
