import BusNinja.Source.Console

/-!
# LED sequences

The selection of a sequence in `led.c`.  A sequence is a block in flash: the
number of its steps, then for every step its duration and its start and end
brightness.
-/

namespace BusNinja

def ledSeqOff : List Byte := [1, 255, 0x00, 0x00]

def ledSeqOn : List Byte := [1, 255, 0xFF, 0xFF]

def ledSeqSlowflash : List Byte := [2, 255, 0x00, 0x00, 255, 0xFF, 0xFF]

def ledSeqFastflash : List Byte := [2, 32, 0x00, 0x00, 32, 0xFF, 0xFF]

def ledSeqBlink : List Byte := [2, 255, 0x00, 0x00, 16, 0xFF, 0xFF]

def ledSeqSine : List Byte :=
  [8, 16, 0x80, 0xD9, 16, 0xD9, 0xFF, 16, 0xFF, 0xD9, 16, 0xD9, 0x80,
    16, 0x80, 0x27, 16, 0x27, 0x00, 16, 0x00, 0x27, 16, 0x27, 0x80]

def ledSeqGlow : List Byte := [2, 64, 0xFF, 0x80, 64, 0x80, 0xFF]

def ledSequences : List (List Byte) :=
  [ledSeqOff, ledSeqOn, ledSeqSlowflash, ledSeqFastflash, ledSeqBlink,
    ledSeqSine, ledSeqGlow]

def ledSeqMax : BitVec 32 := 7

/-- The statics of `led.c` that a sequence sets; `reads` records the indices
read in its block. -/
structure Led where
  curSeq : List Byte
  seqIndex : Byte
  t : Byte
  seqInterpA : BitVec 16
  seqInterpB : BitVec 16
  seqDur : BitVec 16
  reads : List Nat
  deriving DecidableEq, Repr

/-- `pgm_read_byte(cur_seq + i)` -/
def Led.read (i : Nat) (led : Led) : Byte × Led :=
  (led.curSeq.getD i 0, { led with reads := led.reads ++ [i] })

def ledSeqNext (led : Led) : Led :=
  let index := led.seqIndex.toNat
  let (seqLen, led) := led.read 0
  let (seqDur, led) := led.read (1 + index * 3)
  let (seqInterpA, led) := led.read (2 + index * 3)
  let (seqInterpB, led) := led.read (3 + index * 3)
  { led with
    t := 0
    seqDur := seqDur.setWidth 16
    seqInterpA := seqInterpA.setWidth 16
    seqInterpB := seqInterpB.setWidth 16
    seqIndex := BitVec.ofNat 8 ((index + 1) % seqLen.toNat) }

def ledSetSeq (seq : Byte) (led : Led) : Led :=
  ledSeqNext
    { led with
      curSeq := ledSequences.getD seq.toNat []
      seqIndex := 0 }

@[simp] theorem ledSetSeq_curSeq (seq : Byte) (led : Led) :
    (ledSetSeq seq led).curSeq = ledSequences.getD seq.toNat [] := rfl

def ledInit (led : Led) : Led := ledSeqNext (ledSetSeq 0 led)

/-- The statics before `main`, which then selects the sine sequence. -/
def Led.powerOn : Led where
  curSeq := []
  seqIndex := 0
  t := 0
  seqInterpA := 0
  seqInterpB := 0
  seqDur := 0
  reads := []

end BusNinja
