import Mathlib.Data.List.GetD
import BusNinja.Library.I2cWire

/-!
# Bytes on the I2C bus, slot by slot

The time between two falls of SCL is a slot.  A byte takes nine of them, and
each belongs to the master or to the slave.  Given the slots in which the
slave pulls SDA, an exchange of bytes has a course: the events to be observed
and the owners of the slots it takes.
-/

namespace I2cWire

inductive Slot where
  | condition
  | masterBit
  | slaveAck
  | slaveBit
  | masterAck
  deriving DecidableEq, Repr

/-- The slots in which the slave may pull SDA: the acknowledge bit of a byte
the master has sent, and the data bits of a byte the master reads. -/
def Slot.slaves : Slot → Bool
  | .slaveAck => true
  | .slaveBit => true
  | _ => false

/-- From slot `p` on the slave pulls SDA only in its own slots.  What is not
listed is not the slave's. -/
def Obeys (pulls : Nat → Bool) (p : Nat) (slots : List Slot) : Prop :=
  ∀ i, pulls (p + i) = true → (slots.getD i .condition).slaves = true

theorem Obeys.later {pulls : Nat → Bool} {p : Nat} {first second : List Slot}
    (obeys : Obeys pulls p (first ++ second)) :
    Obeys pulls (p + first.length) second := by
  intro i pulled
  have own := obeys (first.length + i) (by rwa [← Nat.add_assoc])
  rwa [List.getD_append_right _ _ _ _ (Nat.le_add_right _ _),
    Nat.add_sub_cancel_left] at own

theorem Obeys.quiet {pulls : Nat → Bool} {p : Nat} {first second : List Slot}
    (obeys : Obeys pulls p (first ++ second))
    (others : ∀ slot ∈ first, slot.slaves = false) :
    ∀ i, i < first.length → pulls (p + i) = false := by
  intro i inside
  by_contra pulled
  have own := obeys i (by simpa using pulled)
  rw [List.getD_append _ _ _ _ inside, List.getD_eq_getElem _ _ inside,
    others _ (List.getElem_mem inside)] at own
  cases own

theorem Obeys.tail {pulls : Nat → Bool} {p : Nat} {slot : Slot}
    {slots : List Slot} (obeys : Obeys pulls p (slot :: slots)) :
    Obeys pulls (p + 1) slots := by
  have obeysHead : Obeys pulls p ([slot] ++ slots) := obeys
  exact obeysHead.later

theorem Obeys.quiet_nil {pulls : Nat → Bool} {p : Nat}
    (obeys : Obeys pulls p []) (i : Nat) : pulls (p + i) = false := by
  by_contra pulled
  have own := obeys i (by simpa using pulled)
  cases own

theorem Obeys.quiet_head {pulls : Nat → Bool} {p : Nat} {slot : Slot}
    {slots : List Slot} (obeys : Obeys pulls p (slot :: slots))
    (other : slot.slaves = false) : pulls p = false := by
  have obeysHead : Obeys pulls p ([slot] ++ slots) := obeys
  exact obeysHead.quiet (by simpa using other) 0 (by simp)

/-- The events of an exchange, and the owners of the slots it takes. -/
structure Course where
  events : List Event
  slots : List Slot
  deriving DecidableEq, Repr

namespace Course

def none : Course := ⟨[], []⟩

def andThen (first second : Course) : Course :=
  ⟨first.events ++ second.events, first.slots ++ second.slots⟩

/-- A START takes the slot in which SDA falls. -/
def start : Course := ⟨[.start], [.condition]⟩

/-- A STOP ends in the slot it was given in, where the next START may come. -/
def stop : Course := ⟨[.stop], []⟩

/-- A byte sent from slot `p` on; the slave answers in the ninth slot. -/
def send (pulls : Nat → Bool) (p : Nat) (value : BitVec 8) : Course :=
  ⟨[.byte value (pulls (p + 8))], List.replicate 8 .masterBit ++ [.slaveAck]⟩

/-- The bits the slave shows in the slots from `p` on. -/
def shown (pulls : Nat → Bool) : Nat → Nat → List Bool
  | 0, _ => []
  | slots + 1, p => (!pulls p) :: shown pulls slots (p + 1)

/-- A byte read from slot `p` on; the master answers in the ninth slot. -/
def receive (pulls : Nat → Bool) (p : Nat) (acked : Bool) : Course :=
  ⟨[.byte (byteOfBits (shown pulls 8 p)) acked],
    List.replicate 8 .slaveBit ++ [.masterAck]⟩

@[simp] theorem andThen_events (first second : Course) :
    (first.andThen second).events = first.events ++ second.events := rfl

@[simp] theorem andThen_slots (first second : Course) :
    (first.andThen second).slots = first.slots ++ second.slots := rfl

/-- The slave leaves the bits of a byte it is sent alone. -/
theorem send_quiet {pulls : Nat → Bool} {p : Nat} {value : BitVec 8}
    {slots : List Slot}
    (obeys : Obeys pulls p ((send pulls p value).slots ++ slots)) :
    ∀ i, i < 8 → pulls (p + i) = false := by
  rw [send, List.append_assoc] at obeys
  exact obeys.quiet (by simp [Slot.slaves])

theorem receive_quiet {pulls : Nat → Bool} {p : Nat} {acked : Bool}
    {slots : List Slot}
    (obeys : Obeys pulls p ((receive pulls p acked).slots ++ slots)) :
    pulls (p + 8) = false := by
  rw [receive, List.append_assoc] at obeys
  exact obeys.later.quiet_head rfl

end Course

end I2cWire
