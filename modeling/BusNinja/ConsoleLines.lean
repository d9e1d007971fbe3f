import BusNinja.Library.LineEditor
import BusNinja.Source.Ninja

/-!
# Console lines

In line mode the console is a line editor whose finished lines are executed.
A line that has been got waits for the next tick of the console, and until
then no further byte is taken.
-/

namespace BusNinja

/-- CR ends a line, backspace and delete erase, and 63 bytes are held. -/
def consoleEditor : LineEditor Byte where
  ends := fun c => c == 0x0D
  erases := isErase
  room := cmdbufSiz - 1

theorem store_cmdline (c : Byte) (input : ConsoleInput)
    (room : input.cmdbufLen.val < cmdbufSiz - 1) :
    (input.store c room).cmdline = input.cmdline ++ [c] := by
  have bound := input.cmdbufLen.isLt
  simp only [ConsoleInput.cmdline, ConsoleInput.bytes, ConsoleInput.store,
    Vector.toList_set]
  rw [List.take_add_one, List.take_set_of_le (Nat.le_refl _),
    List.getElem?_set_self (by simp)]
  rfl

theorem consoleErase_cmdline (input : ConsoleInput)
    (some : 0 < input.cmdbufLen.val) :
    { input with cmdbufLen := input.cmdbufLen - 1 }.cmdline =
      input.cmdline.dropLast := by
  have bound := input.cmdbufLen.isLt
  have less : (input.cmdbufLen - 1).val = input.cmdbufLen.val - 1 := by
    rw [Fin.sub_val_of_le]
    · rfl
    · exact some
  simp only [ConsoleInput.cmdline, ConsoleInput.bytes, less]
  rw [List.dropLast_take (by simp)]

/-- What has been typed, if these lines have been handled.  A line that has
been got is ended but not handled. -/
def ConsoleInput.typed (lines : List (List Byte)) (input : ConsoleInput) :
    Edited Byte :=
  if input.gotLine then ⟨[], lines ++ [input.cmdline]⟩
  else ⟨input.cmdline, lines⟩

theorem consoleRxCallback_edits (c : Byte) {input : ConsoleInput}
    (console : Console) (lines : List (List Byte))
    (line : input.mode = .line) (ready : input.gotLine = false) :
    ∃ after, (consoleRxCallback c input console).1 = after ∧
      after.mode = .line ∧ after.discarded = input.discarded ∧
      after.typed lines = consoleEditor.edit c (input.typed lines) := by
  refine ⟨_, rfl, ?_⟩
  have typed : input.typed lines = ⟨input.cmdline, lines⟩ := by
    simp [ConsoleInput.typed, ready]
  rw [typed]
  have unfinished : ¬ input.gotLine = true := by simp [ready]
  unfold consoleRxCallback
  split
  · next key => exact absurd (line.symm.trans key) (by decide)
  rw [if_neg unfinished]
  by_cases ends : c = 0x0D
  · rw [if_pos ends, LineEditor.edit_ends (beq_iff_eq.mpr ends)]
    exact ⟨line, rfl, rfl⟩
  · rw [if_neg ends]
    have plain : consoleEditor.ends c = false := beq_eq_false_iff_ne.mpr ends
    by_cases erases : isErase c = true
    · rw [if_pos erases, LineEditor.edit_erases plain erases]
      split
      · next some =>
          refine ⟨line, rfl, ?_⟩
          rw [← consoleErase_cmdline input some]
          simp [ConsoleInput.typed, ready]
      · next none =>
          have empty : input.cmdline = [] := by
            by_contra nonempty
            exact none ((input.cmdline_ne_nil).mp nonempty)
          refine ⟨line, rfl, ?_⟩
          rw [typed, empty]
          rfl
    · have kept : consoleEditor.erases c = false :=
        Bool.eq_false_iff.mpr erases
      rw [if_neg erases]
      split
      · next room =>
          rw [LineEditor.edit_holds plain kept (lt_of_eq_of_lt input.cmdline_length room),
            ← store_cmdline c input room]
          refine ⟨line, rfl, ?_⟩
          simp [ConsoleInput.typed, ConsoleInput.store, ready]
      · next full =>
          rw [LineEditor.edit_full plain kept
            (fun room => full (lt_of_eq_of_lt
              input.cmdline_length.symm room))]
          exact ⟨line, rfl, typed⟩

section

variable {δ : Type} (execute : List Byte → Shell δ → Shell δ)

def nonempty (lines : List (List Byte)) : List (List Byte) :=
  lines.filter fun line => !line.isEmpty

/-- The console in line mode, when these lines have been handled. -/
structure Handled (lines : List (List Byte)) (ninja : Ninja δ) : Prop where
  mode : ninja.input.mode = .line
  discarded : ninja.input.discarded = []
  typed : consoleEditor.edited ninja.taken = ninja.input.typed lines
  executed : ninja.executed = nonempty lines
  prompts : ninja.prompts = lines.length
  paired : ninja.cdc.rxReadyCb = ninja.cdc.rxCb

variable {lines : List (List Byte)} {ninja : Ninja δ}

theorem Handled.frame (handled : Handled lines ninja) {cdc : UsbdevCdc}
    (paired : cdc.rxReadyCb = cdc.rxCb) :
    Handled lines { ninja with cdc := cdc } :=
  ⟨handled.mode, handled.discarded, handled.typed, handled.executed,
    handled.prompts, paired⟩

theorem Handled.rx (handled : Handled lines ninja)
    (ready : ninja.input.gotLine = false) (c : Byte) :
    Handled lines (ninja.rx c) := by
  obtain ⟨after, received, mode, discarded, typed⟩ :=
    consoleRxCallback_edits c ninja.shell.board.out.console lines handled.mode
      ready
  have input : (ninja.rx c).input = after := received
  have taken : (ninja.rx c).taken = ninja.taken ++ [c] := rfl
  refine ⟨?_, ?_, ?_, handled.executed, handled.prompts, handled.paired⟩
  · rw [input, mode]
  · rw [input, discarded, handled.discarded]
  · rw [input, taken, LineEditor.edited_concat, handled.typed, typed]

/-- The receive loop stops when a line has been got. -/
theorem Handled.cdcLoop (rounds : Nat) {ninja : Ninja δ}
    (handled : Handled lines ninja) : Handled lines (cdcLoop rounds ninja) := by
  induction rounds generalizing ninja with
  | zero => exact handled
  | succ rounds induction =>
      unfold BusNinja.cdcLoop
      split
      · exact handled
      · next c endpoint _ =>
          split
          · next ready =>
              obtain ⟨set, accepts⟩ := ready
              have free : ninja.input.gotLine = false := by
                simpa [consoleRxReadyCallback, handled.mode] using accepts
              have present : ninja.cdc.rxCb = true := handled.paired ▸ set
              have rest : Handled lines
                  { ninja with cdc.endpoint := endpoint } :=
                handled.frame handled.paired
              rw [if_pos present]
              exact induction (rest.rx free c)
          · exact handled

theorem nonempty_concat (line : List Byte) :
    nonempty (lines ++ [line]) =
      if line = [] then nonempty lines else nonempty lines ++ [line] := by
  cases line <;> simp [nonempty]

/-- A line that has been got is handled, and none is left waiting. -/
theorem Handled.consoleTick (handled : Handled lines ninja) :
    ∃ lines, Handled lines (consoleTick execute ninja) ∧
      (BusNinja.consoleTick execute ninja).input.gotLine = false := by
  unfold BusNinja.consoleTick
  split
  · by_cases got : ninja.input.gotLine = true
    · rw [if_pos got]
      have typed := handled.typed
      rw [ConsoleInput.typed, if_pos got] at typed
      have length : ninja.prompts + 1 = (lines ++ [ninja.input.cmdline]).length := by
        rw [handled.prompts, List.length_append]
        rfl
      refine ⟨lines ++ [ninja.input.cmdline], ?_⟩
      by_cases some : 0 < ninja.input.cmdbufLen.val
      · rw [if_pos some]
        refine ⟨⟨handled.mode, handled.discarded, typed, ?_, length,
          handled.paired⟩, rfl⟩
        rw [nonempty_concat, if_neg (ninja.input.cmdline_ne_nil.mpr some),
          ← handled.executed]
        rfl
      · rw [if_neg some]
        refine ⟨⟨handled.mode, handled.discarded, typed, ?_, length,
          handled.paired⟩, rfl⟩
        have empty := mt ninja.input.cmdline_ne_nil.mp some
        rw [nonempty_concat, if_pos (not_not.mp empty), ← handled.executed]
        rfl
    · rw [if_neg got]
      exact ⟨lines, handled, Bool.eq_false_iff.mpr got⟩
  · next key => exact absurd (handled.mode.symm.trans key) (by decide)

theorem Handled.keyPoll (handled : Handled lines ninja) :
    Handled lines ninja.keyPoll ∧
      ninja.keyPoll.input.gotLine = ninja.input.gotLine := by
  cases got : ninja.input.gotKey with
  | false =>
      rw [Ninja.keyPoll_none got]
      exact ⟨handled, rfl⟩
  | true =>
      rw [Ninja.keyPoll_got got]
      exact ⟨⟨handled.mode, handled.discarded, handled.typed,
        handled.executed, handled.prompts, handled.paired⟩, rfl⟩

/-- Between two events no line is waiting. -/
def Listening (ninja : Ninja δ) : Prop :=
  ninja.input.gotLine = false ∧ ∃ lines, Handled lines ninja

/-- The UART needs no readiness check: the last tick of the console has left
no line waiting. -/
theorem Listening.driverTick (listening : Listening ninja)
    (received : Option Byte) :
    Listening (driverTick execute received ninja) := by
  obtain ⟨free, lines, handled⟩ := listening
  have uart : Handled lines (hwUartTick received ninja) := by
    cases received with
    | none => exact handled
    | some c => exact handled.rx free c
  have usb : Handled lines (usbdevCdcTick (hwUartTick received ninja)) := by
    unfold usbdevCdcTick
    split
    · exact uart
    · exact uart.cdcLoop cdcBufsize
  obtain ⟨after, ticked, freed⟩ := usb.consoleTick execute
  exact ⟨freed, after, ticked⟩

theorem Listening.step (cdcConsole : Bool) (event : InputEvent)
    {ninja : Ninja δ} (listening : Listening ninja) :
    Listening (inputStep execute cdcConsole event ninja) := by
  cases event with
  | arrive sent =>
      obtain ⟨free, lines, handled⟩ := listening
      exact ⟨free, lines, handled.frame handled.paired⟩
  | connect isConnected =>
      obtain ⟨free, lines, handled⟩ := listening
      refine ⟨free, lines, handled.frame ?_⟩
      unfold usbdevCdcDeviceConnect
      dsimp only
      split
      · rfl
      · exact handled.paired
  | driverTick received => exact listening.driverTick execute received
  | keyPoll =>
      obtain ⟨free, lines, handled⟩ := listening
      obtain ⟨polled, same⟩ := handled.keyPoll
      exact ⟨same.trans free, lines, polled⟩

/-- Whatever is sent, however it arrives and whatever the lines do, no byte
taken is discarded, and exactly the lines typed so far that are not empty
have been executed, with a prompt for every line. -/
theorem console_executes_lines (cdcConsole : Bool) (shell : Shell δ)
    (events : List InputEvent) :
    ∃ ninja,
      ninja = Run.run (inputStep execute cdcConsole) events (.powerOn shell) ∧
      ninja.input.discarded = [] ∧
      ninja.executed =
        nonempty (consoleEditor.edited ninja.taken).lines ∧
      ninja.prompts = (consoleEditor.edited ninja.taken).lines.length := by
  have initial : Listening (Ninja.powerOn shell) :=
    ⟨rfl, [], rfl, rfl, rfl, rfl, rfl, rfl⟩
  have listening := Run.run_invariant
    (fun event _ => Listening.step execute cdcConsole event) events initial
  obtain ⟨free, lines, handled⟩ := listening
  have typed := handled.typed
  rw [ConsoleInput.typed, free] at typed
  refine ⟨_, rfl, handled.discarded, ?_, ?_⟩
  · rw [typed]
    exact handled.executed
  · rw [typed]
    exact handled.prompts

end

end BusNinja
