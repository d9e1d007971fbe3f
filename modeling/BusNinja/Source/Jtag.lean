import BusNinja.Source.Console

/-!
# The JTAG port

`jtag.c`.  Memory is addressed from the start of the USB buffer, and keeps
a record of the bytes stored and of the bytes read as tap data.  What the
input pins show may depend on everything written to the port before.
-/

namespace BusNinja

structure Memory where
  bytes : Nat → Byte
  stores : List Nat
  tapReads : List Nat

def Memory.store (address : Nat) (value : Byte) (memory : Memory) : Memory :=
  { memory with
    bytes := fun i => if i = address then value else memory.bytes i
    stores := memory.stores ++ [address] }

def Memory.tapRead (address : Nat) (memory : Memory) : Byte × Memory :=
  (memory.bytes address,
    { memory with tapReads := memory.tapReads ++ [address] })

/-- `JTAG_OUT` with the values written to it, and `jtag_delay` with the
arguments of `_delay_loop_2`. -/
structure Jtag where
  out : Byte
  writes : List Byte
  delay : BitVec 16
  delays : List (BitVec 16)

namespace Jtag

def write (value : Byte) (jtag : Jtag) : Jtag :=
  { jtag with out := value, writes := jtag.writes ++ [value] }

/-- `_delay_loop_2(jtag_delay)` -/
def delayLoop (jtag : Jtag) : Jtag :=
  { jtag with delays := jtag.delays ++ [jtag.delay] }

end Jtag

/-- The pins before anything is written, all low. -/
def Jtag.powerOn : Jtag :=
  { out := 0
    writes := []
    delay := 0
    delays := [] }

/-- TRST and SRST are left high. -/
def jtagInit (jtag : Jtag) : Jtag := (jtag.write 0).write 0x0C

/-- In which the three tap output functions differ.  A pause writes nothing,
and the bits of `tapsPerByte` pairs, which are whole bytes of the request,
fill a byte of the reply. -/
structure TapEngine where
  pause : Jtag → Jtag
  sample : Byte → Byte → Byte
  bits : Nat
  tapsPerByte : Nat
  pause_out : ∀ jtag, (pause jtag).out = jtag.out
  pause_writes : ∀ jtag, (pause jtag).writes = jtag.writes
  bits_mul_tapsPerByte : bits * tapsPerByte = 8
  four_dvd : 4 ∣ tapsPerByte

/-- `in_data` with the level of TDO shifted in. -/
def sampleTdo (inData pins : Byte) : Byte :=
  (inData >>> 1) ||| ((pins <<< 2) &&& 0x80)

def sampleEmu (inData pins : Byte) : Byte :=
  (inData >>> 1) ||| ((pins <<< 1) &&& 0x80)

/-- The locals of a tap output function, with what it acts on. -/
structure Tapping where
  jtag : Jtag
  memory : Memory
  outData : Byte
  inData : Byte
  outBufferIndex : Nat
  inBufferIndex : Nat
  outLengthIndex : Nat

section

variable (pins : List Byte → Byte) (engine : TapEngine)
  (outBuffer inBuffer : Nat)

/-- One TMS/TDI/TDO. -/
def tapOne (s : Tapping) : Tapping :=
  let tmsTdi := s.outData &&& 0x03
  let jtag := s.jtag.write ((s.jtag.out &&& 0xFC) ||| tmsTdi)
  let jtag := engine.pause (jtag.write (jtag.out ||| 0x10))
  let jtag := engine.pause (jtag.write (jtag.out &&& 0xEF))
  { s with
    jtag := jtag
    inData := engine.sample s.inData (pins jtag.writes)
    outLengthIndex := s.outLengthIndex + 1 }

def loadOut (s : Tapping) : Tapping :=
  let (outData, memory) := s.memory.tapRead (outBuffer + s.outBufferIndex)
  { s with
    outData := outData
    memory := memory
    outBufferIndex := s.outBufferIndex + 1 }

def shiftOut (s : Tapping) : Tapping := { s with outData := s.outData >>> 2 }

/-- A full byte is stored. -/
def storeIn (s : Tapping) : Tapping :=
  if s.outLengthIndex % engine.tapsPerByte = 0 then
    { s with
      memory := s.memory.store (inBuffer + s.inBufferIndex) s.inData
      inBufferIndex := s.inBufferIndex + 1
      inData := 0 }
  else s

/-- The body of the tap loop: up to four pairs from one byte.  The flag says
that the loop is left. -/
def tapByte (outLength : Nat) (s : Tapping) : Bool × Tapping :=
  let s := tapOne pins engine (loadOut outBuffer s)
  if s.outLengthIndex ≥ outLength then (true, s)
  else
    let s := tapOne pins engine (shiftOut s)
    if s.outLengthIndex ≥ outLength then (true, s)
    else
      let s := tapOne pins engine (shiftOut s)
      if s.outLengthIndex ≥ outLength then (true, s)
      else
        let s := storeIn engine inBuffer (tapOne pins engine (shiftOut s))
        (decide (s.outLengthIndex ≥ outLength), s)

/-- The tap loop for at most `rounds` rounds. -/
def tapLoop (outLength : Nat) : Nat → Tapping → Tapping
  | 0, s => s
  | rounds + 1, s =>
      let (done, s) := tapByte pins engine outBuffer inBuffer outLength s
      if done then s else tapLoop outLength rounds s

/-- What is left of the last byte is stored after the loop. -/
def storeRest (s : Tapping) : Tapping :=
  let rest := s.outLengthIndex % engine.tapsPerByte
  if rest ≠ 0 then
    { s with
      memory := s.memory.store (inBuffer + s.inBufferIndex)
        (s.inData >>> (8 - engine.bits * rest)) }
  else s

/-- A tap output function: its result, the port and the memory.  Every round
clocks at least one pair, and the index of the pairs does not reach 2^16. -/
def jtagTapOutput (outLength : BitVec 16) (jtag : Jtag) (memory : Memory) :
    Byte × Jtag × Memory :=
  let s := tapLoop pins engine outBuffer inBuffer outLength.toNat
    (outLength.toNat + 1)
    { jtag := jtag
      memory := memory
      outData := 0
      inData := 0
      outBufferIndex := 0
      inBufferIndex := 0
      outLengthIndex := 0 }
  let s := storeRest engine inBuffer s
  let size := (outLength + BitVec.ofNat 16 (engine.tapsPerByte - 1)) /
    BitVec.ofNat 16 engine.tapsPerByte
  (size.setWidth 8, s.jtag, s.memory)

end

def maxSpeed : TapEngine where
  pause := id
  sample := sampleTdo
  bits := 1
  tapsPerByte := 8
  pause_out := fun _ => rfl
  pause_writes := fun _ => rfl
  bits_mul_tapsPerByte := rfl
  four_dvd := by decide

def withDelay : TapEngine where
  pause := Jtag.delayLoop
  sample := sampleTdo
  bits := 1
  tapsPerByte := 8
  pause_out := fun _ => rfl
  pause_writes := fun _ => rfl
  bits_mul_tapsPerByte := rfl
  four_dvd := by decide

def emu : TapEngine where
  pause := Jtag.delayLoop
  sample := fun inData pins => sampleEmu (sampleTdo inData pins) pins
  bits := 2
  tapsPerByte := 4
  pause_out := fun _ => rfl
  pause_writes := fun _ => rfl
  bits_mul_tapsPerByte := rfl
  four_dvd := by decide

section

variable (pins : List Byte → Byte)

def jtagTapOutputMaxSpeed := jtagTapOutput pins maxSpeed

def jtagTapOutputWithDelay := jtagTapOutput pins withDelay

def jtagTapOutputEmu := jtagTapOutput pins emu

/-- TDO in bit 0, EMU in bit 1. -/
def jtagReadInput (jtag : Jtag) : Byte :=
  let data := pins jtag.writes
  ((data >>> 5) &&& 1) ||| (((data >>> 6) &&& 1) <<< 1)

end

def jtagSetTrst (trst : Byte) (jtag : Jtag) : Jtag :=
  jtag.write ((jtag.out &&& 0xFB) ||| (trst <<< 2))

def jtagSetSrst (srst : Byte) (jtag : Jtag) : Jtag :=
  jtag.write ((jtag.out &&& 0xF7) ||| (srst <<< 3))

def jtagSetTrstSrst (trst srst : Byte) (jtag : Jtag) : Jtag :=
  jtag.write (((jtag.out &&& 0xF3) ||| (srst <<< 3)) ||| (trst <<< 2))

def jtagSetDelay (delay : BitVec 16) (jtag : Jtag) : Jtag :=
  { jtag with delay := delay }

end BusNinja
