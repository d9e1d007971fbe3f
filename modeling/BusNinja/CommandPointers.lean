import Mathlib.Data.List.GetD
import BusNinja.CommandArguments
import BusNinja.CommandLine
import BusNinja.CommandNames
import BusNinja.Source.Pointers

/-!
# The pointers stay inside the line

Whatever lies behind the line, the scanners over pointers end, and do what
the scanners over the bytes of the line do.  All they read lies inside it, and
`parse_number` is given true lengths.
-/

namespace BusNinja.Pointers

open Tracing

/-- The line, and what lies behind it. -/
def memoryOf (cmdline : List Byte) (behind : Nat → Byte) (ptr : Nat) : Byte :=
  cmdline.getD ptr (behind ptr)

/-- The byte is one of the line, or the eight bits given to `parse_number`
are the length of a range of the line. -/
def Access.Inside (size : Nat) : Access → Prop
  | .read ptr => ptr < size
  | .number str stop len => str ≤ stop ∧ stop ≤ size ∧ len.toNat = stop - str

section

variable (cmdline : List Byte) (behind : Nat → Byte)

theorem readByte_tracks (ptr : Nat) :
    Tracks (Access.Inside cmdline.length) cmdline[ptr]?
      (readByte (memoryOf cmdline behind) ptr) := by
  intro c read
  obtain ⟨inside, rfl⟩ := List.getElem?_eq_some_iff.mp read
  have byte : memoryOf cmdline behind ptr = cmdline[ptr] := by
    rw [memoryOf, List.getD_eq_getElem _ _ inside]
  have tracked : Tracks (Access.Inside cmdline.length)
      (some (memoryOf cmdline behind ptr))
      (readByte (memoryOf cmdline behind) ptr) := by
    refine (tracks_record ?_).after (tracks_pure _)
    exact inside
  exact tracked _ (congrArg some byte)

theorem bytesBetween_line {start stop : Nat} (inside : stop ≤ cmdline.length) :
    bytesBetween (memoryOf cmdline behind) start stop =
      (cmdline.drop start).take (stop - start) := by
  apply List.ext_getElem
  · simp only [bytesBetween, List.length_map, List.length_range,
      List.length_take, List.length_drop]
    omega
  · intro i left right
    simp only [bytesBetween, List.length_map, List.length_range] at left
    have within : start + i < cmdline.length := by omega
    simp only [bytesBetween, List.getElem_map, List.getElem_range,
      List.getElem_take, List.getElem_drop, memoryOf]
    exact List.getD_eq_getElem _ _ within

theorem parseLoop_tracks (str : Nat) (len : Byte) (toGo : Nat) {rounds : Nat}
    (enough : toGo < rounds) {i : Byte} (position : i.toNat + toGo = len.toNat)
    (base : Byte) (result : BitVec 32) :
    Tracks (Access.Inside cmdline.length)
      (BusNinja.parseLoop cmdline str len toGo i.toNat base result)
      (parseLoop (memoryOf cmdline behind) str len rounds i base result) := by
  induction toGo generalizing rounds i base result with
  | zero =>
      obtain ⟨spare, rfl⟩ := Nat.exists_eq_add_of_lt enough
      have stops : ¬ i < len := by
        rw [BitVec.lt_def]
        omega
      rw [BusNinja.parseLoop, parseLoop, if_neg stops]
      exact tracks_pure _
  | succ toGo induction =>
      obtain ⟨spare, rfl⟩ := Nat.exists_eq_add_of_lt enough
      have goesOn : i < len := by
        rw [BitVec.lt_def]
        omega
      have next : (i + 1).toNat = i.toNat + 1 := by bv_omega
      have later := fun base result =>
        @induction (toGo + 1 + spare) (by omega) (i + 1) (by omega) base result
      have first : i.toNat = 0 ↔ i = 0 := by bv_omega
      have second : i.toNat = 1 ↔ i = 1 := by bv_omega
      rw [next] at later
      rw [BusNinja.parseLoop, parseLoop, if_pos goesOn]
      refine (readByte_tracks cmdline behind _).bind fun c _ => ?_
      simp only [first, second]
      split_ifs
      all_goals first | exact tracks_pure _ | exact later _ _

/-- A range of the line is read as the number of its bytes, if eight bits can
count them. -/
theorem parseNumber_tracks {fuel str stop : Nat} (ordered : str ≤ stop)
    (inside : stop ≤ cmdline.length) (short : stop - str < 256)
    (enough : stop - str < fuel) :
    Tracks (Access.Inside cmdline.length)
      (BusNinja.parseNumber cmdline str (BitVec.ofNat 8 (stop - str)))
      (parseNumber (memoryOf cmdline behind) fuel str stop) := by
  have length : BitVec.ofInt 8 ((stop : Int) - str) = BitVec.ofNat 8 (stop - str) := by
    rw [← Int.ofNat_sub ordered]
    exact BitVec.ofInt_natCast 8 _
  have exactLength : (BitVec.ofNat 8 (stop - str)).toNat = stop - str := by
    rw [BitVec.toNat_ofNat]
    exact Nat.mod_eq_of_lt short
  rw [BusNinja.parseNumber, parseNumber, length]
  have recorded : Access.Inside cmdline.length
      (.number str stop (BitVec.ofNat 8 (stop - str))) :=
    ⟨ordered, inside, exactLength⟩
  refine (tracks_record recorded).after ?_
  have whole : (0 : Byte).toNat + (BitVec.ofNat 8 (stop - str)).toNat =
      (BitVec.ofNat 8 (stop - str)).toNat := Nat.zero_add _
  exact parseLoop_tracks cmdline behind str _ _ (by omega) whole 10 0

theorem tokLoop_tracks (skips : Byte → Bool) (toGo : Nat) {rounds ptr : Nat}
    (enough : toGo < rounds) (position : ptr + toGo = cmdline.length) :
    Tracks (Access.Inside cmdline.length)
      (BusNinja.tokLoop cmdline skips toGo ptr)
      (tokLoop (memoryOf cmdline behind) skips cmdline.length rounds ptr) := by
  induction toGo generalizing rounds ptr with
  | zero =>
      obtain ⟨spare, rfl⟩ := Nat.exists_eq_add_of_lt enough
      rw [BusNinja.tokLoop, tokLoop, if_neg (by omega)]
      exact tracks_pure _
  | succ toGo induction =>
      obtain ⟨spare, rfl⟩ := Nat.exists_eq_add_of_lt enough
      rw [BusNinja.tokLoop, tokLoop, if_pos (by omega)]
      refine (readByte_tracks cmdline behind _).bind fun c _ => ?_
      exact Tracks.ite Iff.rfl (fun _ => induction (by omega) (by omega))
        (fun _ => tracks_pure _)

theorem tok_tracks {fuel tokStart : Nat} (inside : tokStart ≤ cmdline.length)
    (enough : cmdline.length < fuel) :
    Tracks (Access.Inside cmdline.length) (BusNinja.tok cmdline tokStart)
      (tok (memoryOf cmdline behind) fuel tokStart cmdline.length) := by
  refine (tokLoop_tracks cmdline behind isSpace _ (by omega) (by omega)).bind
    fun start found => ?_
  have startBounds := tokLoop_bounds found
  refine (tokLoop_tracks cmdline behind (!isSpace ·) _ (by omega) (by omega)).bind
    fun stop _ => ?_
  exact tracks_pure _

theorem tokNum_tracks {fuel tokStart : Nat} (inside : tokStart ≤ cmdline.length)
    (short : cmdline.length < 256) (enough : cmdline.length < fuel)
    (i : BitVec 32) :
    Tracks (Access.Inside cmdline.length) (BusNinja.tokNum cmdline tokStart i)
      (tokNum (memoryOf cmdline behind) fuel tokStart cmdline.length i) := by
  refine (tok_tracks cmdline behind inside enough).bind ?_
  rintro ⟨found, start, stop⟩ token
  obtain ⟨ordered, bounded⟩ := tok_bounds inside token
  refine Tracks.ite Iff.rfl (fun _ => ?_) (fun _ => tracks_pure _)
  refine (parseNumber_tracks cmdline behind ordered bounded (by omega)
    (by omega)).bind ?_
  rintro ⟨ok, num⟩ _
  exact Tracks.ite Iff.rfl (fun _ => tracks_pure _) (fun _ => tracks_pure _)

end

variable {δ : Type}

def LineHandler.plain :
    LineHandler δ → List Byte → Shell δ → Bool × Shell δ
  | .led setSeq, args, shell =>
      match ledSequence args with
      | some seq => (true, { shell with board := setSeq seq shell.board })
      | none => (false, shell)
  | .returns handler, args, shell => handler args shell

def LineCommand.entry (command : LineCommand δ) : GlobalCommand δ where
  name := command.name
  handler := command.handler.plain

/-- The table of the firmware, with `led` told apart. -/
def lineCommands (firmware : Firmware) (wiring : Wiring) :
    List (LineCommand Devices) :=
  (globalCommands firmware wiring).map fun command =>
    { name := command.name
      handler :=
        if command.name.chars = text "led" then .led Board.setSeq
        else .returns command.kind.handler }

theorem plain_led :
    LineHandler.plain (.led Board.setSeq) =
      (CommandKind.acts BusNinja.globalCommandLed).handler := by
  funext args shell
  simp only [CommandKind.handler, globalCommandLed_sequence, LineHandler.plain]
  cases ledSequence args <;> rfl

theorem lineCommands_entries (firmware : Firmware) (wiring : Wiring) :
    (lineCommands firmware wiring).map LineCommand.entry =
      globalCommandTable firmware wiring := by
  have others : ∀ name ∈ ["version", "help", "reset", "spi", "i2c"],
      text name ≠ text "led" := by
    decide
  simp only [List.forall_mem_cons] at others
  obtain ⟨version, help, reset, spi, i2c, -⟩ := others
  simp only [lineCommands, globalCommandTable, globalCommands, List.map_cons,
    List.map_nil, LineCommand.entry, NamedCommand.entry, version, help, reset, spi,
    i2c, if_true, if_false, plain_led]
  rfl

section

variable (cmdline : List Byte) (behind : Nat → Byte)

theorem globalCommandLed_tracks {fuel tokStart : Nat}
    (inside : tokStart ≤ cmdline.length) (short : cmdline.length < 256)
    (enough : cmdline.length < fuel) (setSeq : Byte → Board δ → Board δ)
    (shell : Shell δ) :
    Tracks (Access.Inside cmdline.length)
      (some (LineHandler.plain (.led setSeq) (cmdline.drop tokStart) shell))
      (globalCommandLed (memoryOf cmdline behind) fuel setSeq tokStart
        cmdline.length shell) := by
  obtain ⟨ok, num, start, stop, _, _, here, there⟩ := tokNum_drop inside 0
  have read := tokNum_tracks cmdline behind inside short enough 0
  rw [here] at read
  refine read.after ?_
  simp only [LineHandler.plain, ledSequence, there]
  cases ok with
  | false => exact tracks_pure _
  | true =>
      simp only [if_true]
      split_ifs <;> exact tracks_pure _

theorem LineHandler.call_tracks {fuel tokStart : Nat}
    (inside : tokStart ≤ cmdline.length) (short : cmdline.length < 256)
    (enough : cmdline.length < fuel) (handler : LineHandler δ)
    (shell : Shell δ) :
    Tracks (Access.Inside cmdline.length)
      (some (handler.plain (cmdline.drop tokStart) shell))
      (handler.call (memoryOf cmdline behind) fuel tokStart cmdline.length
        shell) := by
  cases handler with
  | led setSeq =>
      exact globalCommandLed_tracks cmdline behind inside short enough setSeq shell
  | returns handler =>
      have args : bytesBetween (memoryOf cmdline behind) tokStart cmdline.length =
          cmdline.drop tokStart := by
        rw [bytesBetween_line cmdline behind le_rfl, ← List.length_drop,
          List.take_length]
      rw [LineHandler.call, args]
      exact tracks_pure _

theorem memcmpP_tracks (cmdname : Nat) (name : FlashName) (len i : Nat) :
    Tracks (Access.Inside cmdline.length)
      (BusNinja.memcmpP cmdline cmdname name len i)
      (memcmpP (memoryOf cmdline behind) cmdname name len i) := by
  induction len generalizing i with
  | zero => exact tracks_pure _
  | succ len induction =>
      refine (readByte_tracks cmdline behind _).bind fun c _ => ?_
      exact Tracks.ite Iff.rfl (fun _ => induction (i + 1)) (fun _ => tracks_pure _)

theorem handleGlobalCommand_tracks {fuel cmdname len : Nat}
    (inside : cmdname + len ≤ cmdline.length) (short : cmdline.length < 256)
    (enough : cmdline.length < fuel) (table : List (LineCommand δ))
    (shell : Shell δ) :
    Tracks (Access.Inside cmdline.length)
      (BusNinja.handleGlobalCommand cmdline cmdname len
        (table.map LineCommand.entry) shell)
      (handleGlobalCommand (memoryOf cmdline behind) fuel cmdname len
        cmdline.length table shell) := by
  induction table with
  | nil => exact tracks_pure _
  | cons cmd table induction =>
      refine (memcmpP_tracks cmdline behind cmdname cmd.name len 0).bind
        fun same _ => ?_
      refine Tracks.ite Iff.rfl (fun _ => ?_) (fun _ => induction)
      exact (LineHandler.call_tracks cmdline behind inside short enough
        cmd.handler shell).after (tracks_pure _)

theorem findRepeat_tracks {fuel start stop : Nat} (inside : stop ≤ cmdline.length)
    (short : cmdline.length < 256) (enough : cmdline.length < fuel) (toGo : Nat)
    {rounds ptr : Nat} (more : toGo < rounds) (position : ptr + toGo = stop)
    (count : BitVec 32) :
    Tracks (Access.Inside cmdline.length)
      (BusNinja.findRepeat cmdline start toGo ptr count)
      (findRepeat (memoryOf cmdline behind) fuel start stop rounds ptr count) := by
  induction toGo generalizing rounds ptr count with
  | zero =>
      obtain ⟨spare, rfl⟩ := Nat.exists_eq_add_of_lt more
      obtain rfl : ptr = stop := by omega
      rw [findRepeat, if_neg (by omega)]
      exact tracks_pure _
  | succ toGo induction =>
      obtain ⟨spare, rfl⟩ := Nat.exists_eq_add_of_lt more
      have later := fun count =>
        @induction (toGo + 1 + spare) (ptr + 1) (by omega) (by omega) count
      have left : stop - (ptr + 1) = toGo := by omega
      have number := @parseNumber_tracks cmdline behind fuel (ptr + 1) stop
        (by omega) inside (by omega) (by omega)
      rw [left] at number
      rw [BusNinja.findRepeat, findRepeat, if_pos (by omega)]
      refine (readByte_tracks cmdline behind _).bind fun c _ => ?_
      refine Tracks.ite (and_congr_right fun _ => by omega) (fun _ => ?_)
        (fun _ => later count)
      refine number.bind ?_
      rintro ⟨ok, num⟩ _
      cases ok with
      | true => exact tracks_pure _
      | false => exact later 0

theorem isRead_tracks {start tokenEnd : Nat} (ordered : start ≤ tokenEnd) :
    Tracks (Access.Inside cmdline.length)
      (BusNinja.isRead cmdline start (tokenEnd - start))
      (isRead (memoryOf cmdline behind) start tokenEnd) := by
  rw [BusNinja.isRead, isRead]
  refine Tracks.ite (by omega) (fun _ => ?_) (fun _ => tracks_pure _)
  exact (readByte_tracks cmdline behind start).bind fun c _ => tracks_pure _

variable (table : List (LineCommand δ))

theorem handleCommand_tracks {fuel start tokenEnd : Nat}
    (ordered : start ≤ tokenEnd) (inside : tokenEnd ≤ cmdline.length)
    (short : cmdline.length < 256) (enough : cmdline.length < fuel)
    (firstToken : Bool) (shell : Shell δ) :
    Tracks (Access.Inside cmdline.length)
      (BusNinja.handleCommand (table.map LineCommand.entry) cmdline start tokenEnd
        firstToken shell)
      (handleCommand (memoryOf cmdline behind) fuel table start tokenEnd firstToken
        cmdline.length shell) := by
  have suffix := @findRepeat_tracks cmdline behind fuel start tokenEnd inside short
    enough (tokenEnd - start) fuel start (by omega) (by omega) 1
  refine suffix.bind ?_
  rintro ⟨stop, count⟩ found
  obtain ⟨front, cut⟩ := findRepeat_bounds found
  have bounded : stop ≤ cmdline.length := by omega
  refine (parseNumber_tracks cmdline behind front bounded (by omega)
    (by omega)).bind ?_
  rintro ⟨isNumber, num⟩ _
  refine Tracks.ite Iff.rfl (fun _ => ?_) (fun _ => ?_)
  · cases shell.numberHandler <;> exact tracks_pure _
  · refine (isRead_tracks cmdline behind front).bind fun reads _ => ?_
    refine Tracks.ite Iff.rfl (fun _ => ?_) (fun _ => ?_)
    · cases shell.currentBus.bind BusInterface.read <;> exact tracks_pure _
    · have global := @handleGlobalCommand_tracks _ cmdline behind fuel start
        (stop - start) (by omega) short enough table shell
      rw [bytesBetween_line cmdline behind bounded]
      refine Tracks.ite Iff.rfl (fun _ => global.bind ?_)
        (fun _ => (tracks_pure (false, shell)).bind ?_)
      all_goals
        rintro ⟨found, handled⟩ _
        exact Tracks.ite Iff.rfl (fun _ => tracks_pure _) (fun _ => tracks_pure _)

theorem executeLoop_tracks {fuel : Nat} (short : cmdline.length < 256)
    (enough : cmdline.length < fuel) (rounds : Nat) {allowed : Nat}
    (more : rounds ≤ allowed) (state : LineState) {str tokenStart : Nat}
    (ordered : tokenStart ≤ str) (inside : str ≤ cmdline.length)
    (firstToken : Bool) (shell : Shell δ) :
    Tracks (Access.Inside cmdline.length)
      (BusNinja.executeLoop (table.map LineCommand.entry) cmdline rounds state str
        tokenStart firstToken shell)
      (executeLoop (memoryOf cmdline behind) fuel table cmdline.length allowed state
        str tokenStart firstToken shell) := by
  induction rounds generalizing allowed state str tokenStart firstToken shell with
  | zero => exact tracks_none _
  | succ rounds induction =>
      obtain ⟨spare, rfl⟩ := Nat.exists_eq_add_of_lt more
      have later := @induction (rounds + spare) (by omega)
      have handled := fun tokenEnd ordered inside =>
        @handleCommand_tracks _ cmdline behind table fuel tokenStart tokenEnd ordered
          inside short enough firstToken shell
      cases state with
      | searching =>
          rw [BusNinja.executeLoop, executeLoop]
          by_cases atEnd : str = cmdline.length
          · rw [if_pos atEnd, if_neg (not_not.mpr atEnd)]
            exact tracks_pure _
          · rw [if_neg atEnd, if_pos atEnd]
            refine (readByte_tracks cmdline behind str).bind fun c _ => ?_
            split_ifs
            · exact tracks_pure _
            · exact later .searching (by omega) (by omega) firstToken shell
            · exact later .searching (by omega) (by omega) false _
            · exact later .searching (by omega) (by omega) false _
            · exact later .inToken (by omega) (by omega) firstToken shell
      | inToken =>
          rw [BusNinja.executeLoop, executeLoop]
          by_cases atEnd : str = cmdline.length
          · rw [if_pos atEnd, if_neg (not_not.mpr atEnd)]
            refine (handled cmdline.length (by omega) le_rfl).bind fun _ _ => ?_
            exact tracks_pure _
          · rw [if_neg atEnd, if_pos atEnd]
            refine (readByte_tracks cmdline behind str).bind fun c _ => ?_
            refine Tracks.ite Iff.rfl (fun _ => ?_) (fun _ => ?_)
            · refine (handled str ordered inside).bind ?_
              rintro ⟨done, after⟩ _
              exact Tracks.ite Iff.rfl (fun _ => tracks_pure _)
                (fun _ => later .searching ordered inside false after)
            · exact later .inToken (by omega) (by omega) firstToken shell

end

/-- The console hands over at most 63 bytes. Such a line is executed in so many
rounds, with the result that `executeCommandLine` has for its bytes; no pointer
into it is read outside it, and no length is cut to eight bits. -/
theorem line_executed_inside (table : List (LineCommand δ)) (cmdline : List Byte)
    (behind : Nat → Byte) (shell : Shell δ) (short : cmdline.length ≤ 63) :
    ∃ executed,
      BusNinja.executeCommandLine (table.map LineCommand.entry) cmdline shell =
        some executed ∧
      ∀ fuel, 2 * cmdline.length + 1 ≤ fuel →
        ∃ trace,
          (executeCommandLine (memoryOf cmdline behind) fuel table cmdline.length
            shell).run = some (executed, trace) ∧
          ∀ access ∈ trace, access.Inside cmdline.length := by
  have returns := executeCommandLine_lex (table.map LineCommand.entry) cmdline shell
  refine ⟨_, returns, ?_⟩
  intro fuel enough
  have scanned := @executeLoop_tracks _ cmdline behind table fuel (by omega)
    (by omega) _ fuel enough .searching 0 0 le_rfl (Nat.zero_le _) true shell
  exact scanned _ returns

theorem line_executed_inside_led :
    ∃ executed,
      BusNinja.executeCommandLine
        ((lineCommands plainFirmware nothingAttached).map LineCommand.entry)
        (text "led 3") (Shell.powerOn Devices.powerOn) = some executed ∧
      ∀ fuel, 2 * (text "led 3").length + 1 ≤ fuel →
        ∃ trace,
          (executeCommandLine (memoryOf (text "led 3") fun _ => 0x20) fuel
            (lineCommands plainFirmware nothingAttached) (text "led 3").length
            (Shell.powerOn Devices.powerOn)).run = some (executed, trace) ∧
          ∀ access ∈ trace, access.Inside (text "led 3").length :=
  line_executed_inside _ (text "led 3") _ _ (by decide)

/-- The token is looked at three times: for its end, its suffix and its meaning. -/
example :
    ((executeCommandLine (memoryOf (text "r:2") fun _ => 0x30) 7 [] 3
      (Shell.powerOn ())).run.map Prod.snd) =
      some [.read 0, .read 1, .read 2, .read 0, .read 1, .number 2 3 1, .read 2,
        .number 0 1 1, .read 0, .read 0] := by
  decide

end BusNinja.Pointers
