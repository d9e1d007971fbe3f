import BusNinja.BusSwitches
import BusNinja.CommandSpelling
import BusNinja.Source.OutputCommands

/-!
# Dumps

With logging off a bus puts out nothing but the bytes it hands to `bus_out`,
one behind the other.  In three of the modes this text is itself a script:
given back to the command line, it sends the same bytes.
-/

namespace BusNinja

open Lexing

def binaryDigit (c mask : Byte) : Byte := if c &&& mask ≠ 0 then 0x31 else 0x30

def binaryDigits (c : Byte) : List Byte :=
  [0x80#8, 0x40, 0x20, 0x10, 0x08, 0x04, 0x02, 0x01].map (binaryDigit c)

def hexDigits (c : Byte) : List Byte :=
  [nibbleToChar ((c &&& 0xF0) >>> 4), nibbleToChar (c &&& 0x0F)]

/-- What `bus_out` puts out for a byte, less the separator. -/
def Outmode.chars : Outmode → Byte → List Byte
  | .hex0x8, c => 0x30 :: 0x78 :: hexDigits c
  | .ascii, c => [c]
  | .bin, c => 0x62 :: binaryDigits c
  | .dec, c => decimalChars (c.setWidth 32)
  | .hex8, c => hexDigits c
  | .silent, _ => []

/-- The modes in which a byte is put out as a numeral of its own. -/
def Outmode.isNumeral : Outmode → Bool
  | .hex0x8 => true
  | .bin => true
  | .dec => true
  | _ => false

theorem consolePutbin_chars (c : Byte) (console : Console) :
    consolePutbin c console = consolePutsP (Outmode.bin.chars c) console := by
  have digit : ∀ mask (console : Console),
      (if c &&& mask ≠ 0 then consolePutc 0x31 console
        else consolePutc 0x30 console) =
        consolePutc (binaryDigit c mask) console := by
    intro mask console
    unfold binaryDigit
    split <;> rfl
  simp only [consolePutbin, digit]
  rfl

theorem busOut_chars (c : Byte) (out : BusOutput) :
    busOut c out =
      { out with
        console := consolePutsP
          (out.outmode.chars c ++ if out.logEnabled then [] else [0x20])
          out.console
        handed := out.handed ++ [c] } := by
  obtain ⟨outmode, logEnabled, console, handed⟩ := out
  have separated : ∀ console, (if !logEnabled then consolePutc 0x20 console
      else console) = consolePutsP (if logEnabled then [] else [0x20]) console := by
    cases logEnabled <;> exact fun _ => rfl
  simp only [busOut, separated, consolePutsP_append]
  cases outmode with
  | bin => rw [consolePutbin_chars]
  | dec => rw [consolePutdec_chars, Outmode.chars]
  | hex0x8 | ascii | hex8 | silent => rfl

/-- The output after the bytes have been handed to `bus_out`. -/
def BusOutput.dump (bytes : List Byte) (out : BusOutput) : BusOutput :=
  bytes.foldl (fun out c => busOut c out) out

theorem BusOutput.dump_eq (bytes : List Byte) (out : BusOutput) :
    out.dump bytes =
      { out with
        console := consolePutsP
          (bytes.flatMap fun c =>
            out.outmode.chars c ++ if out.logEnabled then [] else [0x20])
          out.console
        handed := out.handed ++ bytes } := by
  induction bytes generalizing out with
  | nil => simp [BusOutput.dump, consolePutsP]
  | cons c bytes induction =>
      rw [BusOutput.dump, List.foldl_cons, ← BusOutput.dump, induction,
        busOut_chars]
      simp only [List.flatMap_cons, consolePutsP_append, List.append_assoc,
        List.singleton_append]

variable {δ : Type}

/-- With logging off, only bytes handed to `bus_out` have been put out. -/
def Dumped (before after : Board δ) : Prop :=
  before.out.logEnabled = false →
    ∃ bytes, after.out = before.out.dump bytes

theorem Dumped.refl (board : Board δ) : Dumped board board :=
  fun _ => ⟨[], rfl⟩

theorem Dumped.trans {before between after : Board δ}
    (earlier : Dumped before between) (later : Dumped between after) :
    Dumped before after := by
  intro off
  obtain ⟨first, putFirst⟩ := earlier off
  have still : between.out.logEnabled = false := by
    rw [putFirst, BusOutput.dump_eq]
    exact off
  obtain ⟨second, putSecond⟩ := later still
  refine ⟨first ++ second, ?_⟩
  rw [putSecond, putFirst, BusOutput.dump, BusOutput.dump, BusOutput.dump,
    List.foldl_append]

/-- Brackets and reads of the bus keep the relation, and so do numbers with
the flag set like this; none of them lacks a handler. -/
structure BusInterface.Serves (keeps : Board δ → Board δ → Prop)
    (duplex : Bool) (bus : BusInterface δ) : Prop where
  start : ∀ act ∈ bus.start, ∀ board, keeps board (act board)
  stop : ∀ act ∈ bus.stop, ∀ board, keeps board (act board)
  number : ∃ act, (if duplex then bus.xact else bus.write) = some act ∧
    ∀ c board, keeps board (act c board)
  read : ∃ act, bus.read = some act ∧ ∀ board, keeps board (act board)

section

variable {keeps : Board δ → Board δ → Prop}
  (refl : ∀ board, keeps board board)
  (trans : ∀ {before between after},
    keeps before between → keeps between after → keeps before after)
  {bus : BusInterface δ}

include refl

theorem call_keeps {shell : Shell δ} (selected : shell.currentBus = some bus)
    {handler : BusInterface δ → Option (Board δ → Board δ)}
    (kept : ∀ act ∈ handler bus, ∀ board, keeps board (act board)) :
    (shell.call handler).currentBus = some bus ∧
      (shell.call handler).duplex = shell.duplex ∧
      keeps shell.board (shell.call handler).board := by
  simp only [Shell.call, selected]
  cases found : handler bus with
  | none => exact ⟨selected, rfl, refl _⟩
  | some act => exact ⟨rfl, rfl, kept act found shell.board⟩

include trans

theorem scriptStep_keeps (step : ScriptStep) {shell : Shell δ}
    (selected : shell.currentBus = some bus)
    (serves : bus.Serves keeps shell.duplex) :
    (scriptStep step shell).currentBus = some bus ∧
      ((scriptStep step shell).duplex = true →
        shell.duplex = true ∨ step = .startDuplex) ∧
      keeps shell.board (scriptStep step shell).board := by
  have repeated : ∀ (act : Board δ → Board δ),
      (∀ board, keeps board (act board)) → ∀ count,
      keeps shell.board (act^[count] shell.board) := by
    intro act once count
    exact Function.Iterate.rec (keeps shell.board) (refl _)
      (fun board sofar => trans sofar (once board)) count
  cases step with
  | start =>
      obtain ⟨current, duplex, kept⟩ := call_keeps refl selected serves.start
      exact ⟨current, fun set => .inl (duplex ▸ set), kept⟩
  | startDuplex =>
      obtain ⟨current, -, kept⟩ := @call_keeps _ _ refl _
        { shell with duplex := true } selected _ serves.start
      exact ⟨current, fun _ => .inr rfl, kept⟩
  | stop =>
      obtain ⟨current, duplex, kept⟩ := @call_keeps _ _ refl _
        { shell with duplex := false } selected _ serves.stop
      exact ⟨current, fun set => absurd (duplex.symm.trans set) Bool.false_ne_true,
        kept⟩
  | send data count =>
      obtain ⟨act, handler, once⟩ := serves.number
      have found : shell.numberHandler = some act :=
        (numberHandler_eq selected).trans handler
      simp only [scriptStep, found]
      exact ⟨selected, .inl, repeated _ (once data) _⟩
  | receive count =>
      obtain ⟨act, handler, once⟩ := serves.read
      have found : shell.currentBus.bind BusInterface.read = some act := by
        rw [selected]
        exact handler
      simp only [scriptStep, found]
      exact ⟨selected, .inl, repeated _ once _⟩

theorem script_keeps {script : List ScriptStep} {shell : Shell δ}
    (selected : shell.currentBus = some bus)
    (serves : ∀ duplex,
      (duplex = true → shell.duplex = true ∨ .startDuplex ∈ script) →
        bus.Serves keeps duplex) :
    (Run.run scriptStep script shell).currentBus = some bus ∧
      keeps shell.board (Run.run scriptStep script shell).board := by
  induction script generalizing shell with
  | nil => exact ⟨selected, refl _⟩
  | cons step script induction =>
      obtain ⟨current, duplex, kept⟩ := scriptStep_keeps refl trans step
        selected (serves shell.duplex .inl)
      obtain ⟨final, later⟩ := induction current (by
        intro flag allowed
        apply serves
        intro set
        rcases allowed set with now | after
        · refine (duplex now).imp id ?_
          rintro rfl
          exact List.mem_cons_self
        · exact .inr (List.mem_cons_of_mem _ after))
      exact ⟨final, trans kept later⟩

end

theorem busLog_off {out : BusOutput} (off : out.logEnabled = false)
    (put : Console → Console) : busLog put out = out := by
  rw [busLog, off]
  rfl

section

variable (wiring : Wiring)

theorem busSpi_dumps (duplex : Bool) :
    (busSpi wiring).Serves Dumped duplex where
  start := by
    rintro act ⟨⟩ board off
    refine ⟨[], ?_⟩
    change busLog _ (busLog _ board.out) = _
    rw [busLog_off off, busLog_off off]
    rfl
  stop := by
    rintro act ⟨⟩ board off
    refine ⟨[], ?_⟩
    change busLog _ (busLog _ board.out) = _
    rw [busLog_off off, busLog_off off]
    rfl
  number := by
    cases duplex with
    | false =>
        refine ⟨_, rfl, fun c board off => ⟨[], ?_⟩⟩
        change busLog _ (busLog _ (busLog _ board.out)) = _
        rw [busLog_off off, busLog_off off, busLog_off off]
        rfl
    | true =>
        refine ⟨_, rfl, fun c board off =>
          ⟨[c, wiring.spiSlave (board.devices.spi.sent ++ [c])], ?_⟩⟩
        have written : ∀ c, (busOut c board.out).logEnabled = false :=
          fun _ => off
        have replied : ∀ c r, (busOut r (busOut c board.out)).logEnabled = false :=
          fun _ _ => off
        change busLog _ (busOut _ (busLog _ (busLog _ (busOut _
          (busLog _ board.out))))) = _
        rw [busLog_off off, busLog_off (written _), busLog_off (written _),
          busLog_off (replied _ _)]
        rfl
  read := by
    refine ⟨_, rfl, fun board off =>
      ⟨[wiring.spiSlave (board.devices.spi.sent ++ [0xFF])], ?_⟩⟩
    have replied : ∀ r, (busOut r board.out).logEnabled = false := fun _ => off
    change busLog _ (busOut _ (busLog _ board.out)) = _
    rw [busLog_off off, busLog_off (replied _)]
    rfl

end

theorem masterRx_ok (slave : Slave) (ack : Bool) (bus : BusI2c) :
    (bus.masterRx slave ack).1 = true := rfl

section

variable (slave : Slave) {bus : BusI2c} (off : bus.out.logEnabled = false)

include off

open BusI2c

theorem busI2cWrite_out (c : Byte) :
    (busI2cWrite slave c bus).out = bus.out := by
  unfold busI2cWrite
  cases bus.state with
  | startPending =>
      dsimp only
      split <;>
        simp only [puts, newline, putsWrite, put0x8, masterStart, busClear,
          busLogPutsP, busLogNewline, busLogPut0x8, busLog_off off]
  | writeDataPending =>
      dsimp only
      split <;>
        simp only [puts, newline, putsWrite, put0x8, masterTx, busClear,
          busLogPutsP, busLogNewline, busLogPut0x8, busLog_off off]
  | init | addrPending | readDataPending | error => rfl

theorem busI2cRead_out :
    ∃ bytes, (busI2cRead slave bus).out = bus.out.dump bytes := by
  have replied : ∀ r, (busOut r bus.out).logEnabled = false := fun _ => off
  unfold busI2cRead
  cases bus.state with
  | startPending =>
      refine ⟨[], ?_⟩
      dsimp only
      split <;>
        simp only [puts, newline, masterStart, busClear, busLogPutsP,
          busLogNewline, busLog_off off] <;> rfl
  | readDataPending =>
      refine ⟨[(masterRx slave true (bus.puts "I2C READ: ")).2.1], ?_⟩
      dsimp only
      rw [if_pos (masterRx_ok slave _ _)]
      simp only [hand, puts, newline, masterRx, busLogPutsP, busLogNewline,
        busLog_off off, busLog_off (replied _)]
      rfl
  | init | addrPending | writeDataPending | error => exact ⟨[], rfl⟩

theorem busI2cStop_out :
    ∃ bytes, (busI2cStop slave bus).out = bus.out.dump bytes := by
  have replied : ∀ r, (busOut r bus.out).logEnabled = false := fun _ => off
  unfold busI2cStop
  cases bus.state with
  | startPending =>
      refine ⟨[], ?_⟩
      dsimp only
      split <;>
        simp only [puts, newline, masterStart, masterStop, busLogPutsP,
          busLogNewline, busLog_off off] <;> rfl
  | writeDataPending =>
      refine ⟨[], ?_⟩
      dsimp only
      split <;>
        simp only [puts, newline, putsWrite, put0x8, masterTx, masterStop,
          busLogPutsP, busLogNewline, busLogPut0x8, busLog_off off] <;> rfl
  | readDataPending =>
      refine ⟨[(masterRx slave false (bus.puts "I2C READ: ")).2.1], ?_⟩
      dsimp only
      rw [if_pos (masterRx_ok slave _ _)]
      simp only [hand, puts, newline, masterRx, masterStop, busLogPutsP,
        busLogNewline, busLog_off off, busLog_off (replied _)]
      rfl
  | init | addrPending | error => exact ⟨[], rfl⟩

end

theorem busI2c_dumps (wiring : Wiring) :
    (busI2c wiring).Serves Dumped false where
  start := by
    rintro act ⟨⟩ board off
    exact ⟨[], rfl⟩
  stop := by
    rintro act ⟨⟩ board off
    exact @busI2cStop_out _ board.i2c off
  number := ⟨_, rfl, fun c board off =>
    ⟨[], @busI2cWrite_out _ board.i2c off c⟩⟩
  read := ⟨_, rfl, fun board off => @busI2cRead_out _ board.i2c off⟩

/-- What is put out for the bytes with logging off. -/
def Outmode.dump (outmode : Outmode) (bytes : List Byte) : List Byte :=
  bytes.flatMap fun c => outmode.chars c ++ [0x20]

/-- A script for one of the two buses; I2C has no duplex transfers. -/
def RunsOn (wiring : Wiring) (script : List ScriptStep) (shell : Shell Devices) :
    Prop :=
  shell.currentBus = some (busSpi wiring) ∨
    (shell.currentBus = some (busI2c wiring) ∧ shell.duplex = false ∧
      .startDuplex ∉ script)

theorem RunsOn.dumped {wiring : Wiring} {script : List ScriptStep}
    {shell : Shell Devices} (runs : RunsOn wiring script shell) :
    Dumped shell.board (Run.run scriptStep script shell).board := by
  rcases runs with spi | ⟨i2c, simplex, noBrace⟩
  · exact (script_keeps Dumped.refl Dumped.trans spi
      (fun duplex _ => busSpi_dumps wiring duplex)).2
  · refine (script_keeps Dumped.refl Dumped.trans i2c ?_).2
    intro duplex allowed
    cases duplex with
    | false => exact busI2c_dumps wiring
    | true =>
        rcases allowed rfl with set | brace
        · exact absurd (set.symm.trans simplex) (by decide)
        · exact absurd brace noBrace

/-- With logging off a script puts out the bytes handed to `bus_out`, in the
mode that is set, and nothing else. -/
theorem script_puts_out_dump (wiring : Wiring) {script : List ScriptStep}
    {shell : Shell Devices} (runs : RunsOn wiring script shell)
    (off : shell.board.out.logEnabled = false) :
    ∃ bytes, (Run.run scriptStep script shell).board.out =
      { shell.board.out with
        console := consolePutsP (shell.board.out.outmode.dump bytes)
          shell.board.out.console
        handed := shell.board.out.handed ++ bytes } := by
  obtain ⟨bytes, dumped⟩ := runs.dumped off
  refine ⟨bytes, dumped.trans ?_⟩
  simp only [BusOutput.dump_eq, Outmode.dump, off, Bool.false_eq_true, if_false]

theorem nibbleToChar_digit : ∀ nibble : Byte, nibble < 16 →
    Radix.hexadecimal.isDigit (nibbleToChar nibble) = true ∧
      digitValue (nibbleToChar nibble) = nibble.toNat := by
  decide +kernel

theorem nibbles : ∀ c : Byte, (c &&& 0xF0) >>> 4 < 16 ∧ c &&& 0x0F < 16 ∧
    ((c &&& 0xF0) >>> 4).toNat * 16 + (c &&& 0x0F).toNat = c.toNat := by
  decide +kernel

theorem hexDigits_value (c : Byte) :
    (∀ digit ∈ hexDigits c, Radix.hexadecimal.isDigit digit = true) ∧
      Radix.hexadecimal.value (hexDigits c) = c.toNat := by
  obtain ⟨high, low, sum⟩ := nibbles c
  obtain ⟨highDigit, highValue⟩ := nibbleToChar_digit _ high
  obtain ⟨lowDigit, lowValue⟩ := nibbleToChar_digit _ low
  constructor
  · exact List.forall_mem_cons.mpr ⟨highDigit, by simpa using lowDigit⟩
  · rw [← sum, ← highValue, ← lowValue]
    simp [Radix.value, hexDigits, Positional.value, Positional.horner, Radix.base]

theorem bits_value : ∀ c : Byte,
    Positional.value 2 ([0x80#8, 0x40, 0x20, 0x10, 0x08, 0x04, 0x02, 0x01].map
      fun mask => if c &&& mask ≠ 0 then 1 else 0) = c.toNat := by
  decide +kernel

theorem binaryDigits_value (c : Byte) :
    (∀ digit ∈ binaryDigits c, Radix.binary.isDigit digit = true) ∧
      Radix.binary.value (binaryDigits c) = c.toNat := by
  constructor
  · intro digit member
    obtain ⟨mask, -, rfl⟩ := List.mem_map.mp member
    unfold binaryDigit
    split <;> rfl
  · have digits : digitValue ∘ binaryDigit c =
        fun mask => if c &&& mask ≠ 0 then 1 else 0 := by
      funext mask
      simp only [Function.comp_apply, binaryDigit]
      split <;> rfl
    rw [Radix.value, binaryDigits, List.map_map, digits]
    exact bits_value c

theorem chars_numeral {outmode : Outmode} (isNumeral : outmode.isNumeral = true)
    (c : Byte) :
    ∃ numeral : Numeral, numeral.chars = outmode.chars c ∧ numeral.Clear ∧
      numeral.value = c.toNat := by
  cases outmode with
  | hex0x8 =>
      obtain ⟨valid, value⟩ := hexDigits_value c
      exact ⟨⟨.zeroX, hexDigits c, List.cons_ne_nil _ _, valid⟩, rfl,
        .of_marker nofun, value⟩
  | bin =>
      obtain ⟨valid, value⟩ := binaryDigits_value c
      exact ⟨⟨.letterB, binaryDigits c, List.cons_ne_nil _ _, valid⟩, rfl,
        .of_marker nofun, value⟩
  | dec =>
      refine ⟨decimalNumeral (c.setWidth 32), rfl, .of_marker nofun, ?_⟩
      rw [decimalNumeral_value, BitVec.toNat_setWidth]
      exact Nat.mod_eq_of_lt (Nat.lt_trans c.isLt (by decide))
  | ascii | hex8 | silent => cases isNumeral

theorem Outmode.chars_length (outmode : Outmode) (c : Byte) :
    (outmode.chars c).length ≤ 10 := by
  cases outmode with
  | dec =>
      rw [Outmode.chars, decimalChars, List.length_map]
      exact (@Positional.significant_length 10 9 _).2
  | hex0x8 | ascii | bin | hex8 | silent =>
      simp [Outmode.chars, hexDigits, binaryDigits]

theorem spellsWord_chars {outmode : Outmode} (numeral : outmode.isNumeral = true)
    (c : Byte) : SpellsWord (outmode.chars c) (.send c 1) := by
  obtain ⟨number, chars, clear, value⟩ := chars_numeral numeral c
  have length := outmode.chars_length c
  have word := @SpellsWord.send number none clear nofun (by
    rw [suffix, List.append_nil, chars]
    omega)
  rw [value, suffix, List.append_nil, chars, BitVec.ofNat_toNat,
    BitVec.setWidth_eq] at word
  exact word

theorem spells_dump {outmode : Outmode} (numeral : outmode.isNumeral = true)
    (bytes : List Byte) :
    Spells (outmode.dump bytes) (bytes.map fun c => .send c 1) := by
  induction bytes with
  | nil => exact .nil
  | cons c bytes induction =>
      rw [Outmode.dump, List.flatMap_cons, List.append_assoc, ← Outmode.dump]
      exact .word (spellsWord_chars numeral c) (endsWord_cons rfl _)
        (.blank rfl induction)

/-- Numbers on SPI are clocked out as they stand, in duplex mode too. -/
theorem spi_sends {wiring : Wiring} (bytes : List Byte) {shell : Shell Devices}
    (spi : shell.currentBus = some (busSpi wiring)) :
    (Run.run scriptStep (bytes.map fun c => .send c 1) shell).board.devices.spi =
      { shell.board.devices.spi with
        sent := shell.board.devices.spi.sent ++ bytes } := by
  induction bytes generalizing shell with
  | nil => simp
  | cons c bytes induction =>
      have handler : shell.numberHandler =
          some fun c => onSpi (if shell.duplex then busSpiXact wiring.spiSlave c
            else busSpiWrite wiring.spiSlave c) := by
        rw [numberHandler_eq spi]
        cases shell.duplex <;> rfl
      have step : scriptStep (.send c 1) shell =
          { shell with
            board := onSpi (if shell.duplex then busSpiXact wiring.spiSlave c
              else busSpiWrite wiring.spiSlave c) shell.board } := by
        simp only [scriptStep, handler]
        rfl
      have clocked : (scriptStep (.send c 1) shell).board.devices.spi =
          { shell.board.devices.spi with
            sent := shell.board.devices.spi.sent ++ [c] } := by
        rw [step]
        cases shell.duplex <;> rfl
      rw [List.map_cons, Run.run_cons, induction (by rw [step]; exact spi), clocked]
      simp

/-- What a script on SPI puts out in one of the three modes, on a console that
is not silent and with logging off, is a line that sends the bytes again,
whatever is attached then. -/
theorem dump_replays (table : List (GlobalCommand Devices))
    (wiring other : Wiring) (script : List ScriptStep)
    {shell replay : Shell Devices}
    (spi : shell.currentBus = some (busSpi wiring))
    (off : shell.board.out.logEnabled = false)
    (audible : shell.board.out.console.silent = false)
    (numeral : shell.board.out.outmode.isNumeral = true)
    (again : replay.currentBus = some (busSpi other)) :
    ∃ after dump bytes replayed,
      after = Run.run scriptStep script shell ∧
      after.board.out.console.output = shell.board.out.console.output ++ dump ∧
      after.board.out.handed = shell.board.out.handed ++ bytes ∧
      executeCommandLine table dump replay = some replayed ∧
      replayed.board.devices.spi =
        { replay.board.devices.spi with
          sent := replay.board.devices.spi.sent ++ bytes } := by
  obtain ⟨bytes, out⟩ := script_puts_out_dump wiring (.inl spi) off
  have spelled := (spells_dump numeral bytes).executed table replay
  refine ⟨_, _, bytes, _, rfl, ?_, ?_, spelled, spi_sends bytes again⟩
  · rw [out]
    exact consolePutsP_output _ audible
  · rw [out]

/-- `r:3` on SPI with logging off, and what it prints typed in again. -/
theorem dump_replays_reads :
    ∃ after dump bytes replayed,
      after = Run.run scriptStep [.receive 3]
        (busInit (some (busSpi ⟨Slave.pulling [], fun _ => 0x9F, false⟩))
          (Shell.onBoard (busEnableLog false
            (Shell.powerOn Devices.powerOn).board))) ∧
      after.board.out.console.output = [] ++ dump ∧
      after.board.out.handed = [] ++ bytes ∧
      executeCommandLine
          (globalCommandTable ⟨[], fun _ _ => 0⟩ ⟨Slave.pulling [], fun _ => 0, false⟩)
          dump
          (busInit (some (busSpi ⟨Slave.pulling [], fun _ => 0, false⟩))
            (Shell.started ⟨[], fun _ _ => 0⟩)) =
        some replayed ∧
      replayed.board.devices.spi =
        { (busInit (some (busSpi ⟨Slave.pulling [], fun _ => 0, false⟩))
            (Shell.started ⟨[], fun _ _ => 0⟩)).board.devices.spi with
          sent := [] ++ bytes } :=
  dump_replays _ _ _ [.receive 3] rfl rfl rfl rfl rfl

end BusNinja
