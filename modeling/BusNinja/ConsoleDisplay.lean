import BusNinja.ConsoleLines
import BusNinja.Library.Terminal

/-!
# What the user sees

In line mode a terminal shows the line being typed behind the prompt, byte for
byte as it stands in `cmdbuf`, with the cursor behind it.  Erasing at an empty
line and typing against a full one leave both as they are.
-/

namespace BusNinja

open TerminalRow

def rxStep (c : Byte) (state : ConsoleInput × Console) : ConsoleInput × Console :=
  consoleRxCallback c state.1 state.2

/-- The prompt has been put out, and nothing been received since. -/
def afterPrompt (input : ConsoleInput) (console : Console) :
    ConsoleInput × Console :=
  ({ input.startLine with gotLine := false }, prompt console)

theorem finishLine_afterPrompt {δ : Type} (ninja : Ninja δ) :
    (ninja.finishLine.input, ninja.finishLine.shell.board.out.console) =
      afterPrompt ninja.input ninja.shell.board.out.console :=
  rfl

def prompted (terminal : Terminal) : Terminal := terminal.puts (text "> ")

/-- `shown` has been put out behind the prompt.  A terminal shows the bytes of
the line in front of the cursor, and at no time anything else than the prompt
where the prompt was. -/
structure DisplayMatches (terminal : Terminal) (console : Console)
    (shown : List Byte) (after : ConsoleInput × Console) : Prop where
  output : after.2.output = console.output ++ text "> " ++ shown
  prompt : (prompted terminal).row terminal.column = 0x3E ∧
    (prompted terminal).row (terminal.column + 1) = 0x20
  guards : Guards (terminal.column + 2) (prompted terminal) shown
  shows : Shows (terminal.column + 2) (prompted terminal) after.1.cmdline
    ((prompted terminal).puts shown)
  room : after.1.cmdbufLen.val ≤ 63

/-- A byte that is printable, a backspace or a delete. -/
def IsEditing (c : Byte) : Prop := printable c = true ∨ isErase c = true

structure Typing (terminal : Terminal) (console : Console)
    (state : ConsoleInput × Console) : Prop where
  line : state.1.mode = .line
  ready : state.1.gotLine = false
  echo : state.1.echo = true
  audible : state.2.silent = false
  display : ∃ shown, DisplayMatches terminal console shown state

variable {terminal : Terminal} {console : Console}

theorem printable_plain {c : Byte} (isPrintable : printable c = true) :
    c ≠ 0x0D ∧ isErase c = false := by
  revert c
  decide

theorem erase_plain {c : Byte} (erases : isErase c = true) : c ≠ 0x0D := by
  rintro rfl
  exact absurd erases (by decide)

/-- A byte that does not end the line, as long as the line is not ended. -/
theorem rxStep_unended {c : Byte} {input : ConsoleInput} (out : Console)
    (line : input.mode = .line) (ready : input.gotLine = false)
    (notEnd : c ≠ 0x0D) :
    rxStep c (input, out) =
      if isErase c then
        if 0 < input.cmdbufLen.val then
          ({ input with cmdbufLen := input.cmdbufLen - 1 },
            consolePutsP erasing out)
        else (input, out)
      else if room : input.cmdbufLen.val < cmdbufSiz - 1 then
        (input.store c room,
          if input.echo then consolePutsP [c] out else out)
      else (input, consolePutsP [0x07] out) := by
  have unfinished : ¬ input.gotLine = true := by
    rw [ready]
    exact Bool.false_ne_true
  unfold rxStep consoleRxCallback
  split
  · next key => exact absurd (line.symm.trans key) (by decide)
  · rw [if_neg unfinished, if_neg notEnd]
    rfl

theorem DisplayMatches.put {shown more : List Byte} {input : ConsoleInput}
    {before : ConsoleInput × Console}
    (display : DisplayMatches terminal console shown before)
    (audible : before.2.silent = false)
    (guards : ∀ part, part <+: more → Keeps (terminal.column + 2)
      (prompted terminal) (((prompted terminal).puts shown).puts part))
    (shows : Shows (terminal.column + 2) (prompted terminal) input.cmdline
      (((prompted terminal).puts shown).puts more)) :
    DisplayMatches terminal console (shown ++ more)
      (input, consolePutsP more before.2) where
  output := by
    rw [consolePutsP_output more audible, display.output, List.append_assoc]
  prompt := display.prompt
  guards := display.guards.append guards
  shows := by
    rw [Terminal.puts_append]
    exact shows
  room := Nat.le_of_lt_succ input.cmdbufLen.isLt

theorem Typing.put {before : ConsoleInput × Console} {input : ConsoleInput}
    {shown more : List Byte} (typing : Typing terminal console before)
    (display : DisplayMatches terminal console shown before)
    (kept : input.mode = before.1.mode ∧ input.gotLine = before.1.gotLine ∧
      input.echo = before.1.echo)
    (guards : ∀ part, part <+: more → Keeps (terminal.column + 2)
      (prompted terminal) (((prompted terminal).puts shown).puts part))
    (shows : Shows (terminal.column + 2) (prompted terminal) input.cmdline
      (((prompted terminal).puts shown).puts more)) :
    Typing terminal console (input, consolePutsP more before.2) where
  line := kept.1.trans typing.line
  ready := kept.2.1.trans typing.ready
  echo := kept.2.2.trans typing.echo
  audible := (consolePutsP_silent more before.2).trans typing.audible
  display := ⟨_, display.put typing.audible guards shows⟩

theorem Typing.step (c : Byte) (state : ConsoleInput × Console)
    (editing : IsEditing c) (typing : Typing terminal console state) :
    Typing terminal console (rxStep c state) := by
  obtain ⟨input, out⟩ := state
  obtain ⟨shown, display⟩ := typing.display
  have shows := display.shows
  rcases editing with isPrintable | erases
  · obtain ⟨notEnd, noErase⟩ := printable_plain isPrintable
    rw [rxStep_unended out typing.line typing.ready notEnd,
      if_neg (Bool.eq_false_iff.mp noErase)]
    by_cases room : input.cmdbufLen.val < cmdbufSiz - 1
    · have typed := shows.type isPrintable
      rw [← store_cmdline c input room] at typed
      rw [dif_pos room, if_pos typing.echo]
      exact typing.put display ⟨rfl, rfl, rfl⟩
        (shows.keeps.guards_single typed.keeps) typed
    · -- a terminal shows nothing of the bell
      rw [dif_neg room]
      exact typing.put display ⟨rfl, rfl, rfl⟩
        (shows.keeps.guards_single shows.keeps) shows
  · rw [rxStep_unended out typing.line typing.ready (erase_plain erases),
      if_pos erases]
    by_cases some : 0 < input.cmdbufLen.val
    · have nonempty : input.cmdline ≠ [] := input.cmdline_ne_nil.mpr some
      have erased := shows.erase nonempty
      rw [← consoleErase_cmdline input some] at erased
      rw [if_pos some]
      exact typing.put display ⟨rfl, rfl, rfl⟩ (shows.guards_erase nonempty)
        erased
    · rw [if_neg some]
      exact typing

theorem Typing.prompted {input : ConsoleInput} (line : input.mode = .line)
    (echo : input.echo = true) (audible : console.silent = false)
    (empty : ∀ i, terminal.column ≤ i → terminal.row i = blank) :
    Typing terminal console (afterPrompt input console) := by
  have cells : BusNinja.prompted terminal =
      { row := Function.update (Function.update terminal.row terminal.column 0x3E)
          (terminal.column + 1) 0x20
        column := terminal.column + 2 } := rfl
  have none : (afterPrompt input console).1.cmdline = [] := rfl
  have shows : Shows (terminal.column + 2) (BusNinja.prompted terminal) []
      (BusNinja.prompted terminal) := by
    refine ⟨rfl, fun _ _ => rfl, ?_⟩
    intro i
    rw [cells]
    dsimp only
    rw [Function.update_of_ne (by omega), Function.update_of_ne (by omega)]
    exact empty _ (by omega)
  refine ⟨line, rfl, echo, ?_, [], ?_, ⟨?_, ?_⟩, ?_, ?_, ?_⟩
  · exact (consolePutsP_silent (text "> ") console).trans audible
  · rw [List.append_nil]
    exact consolePutsP_output (text "> ") audible
  · rw [cells]
    dsimp only
    rw [Function.update_of_ne (by omega), Function.update_self]
  · rw [cells]
    exact Function.update_self _ _ _
  · intro part front
    rw [List.prefix_nil.mp front]
    exact shows.keeps
  · rw [none]
    exact shows
  · exact Nat.zero_le 63

/-- After every sequence of printable bytes, backspaces and deletes, the
display matches the line. -/
theorem display_matches_buffer (terminal : Terminal)
    (empty : ∀ i, terminal.column ≤ i → terminal.row i = blank)
    (input : ConsoleInput) (line : input.mode = .line)
    (echo : input.echo = true) (console : Console)
    (audible : console.silent = false) (keys : List Byte)
    (editing : ∀ c ∈ keys, IsEditing c) :
    ∃ shown, DisplayMatches terminal console shown
      (Run.run rxStep keys (afterPrompt input console)) := by
  have typing := Run.run_invariant_of_allowed Typing.step editing
    (Typing.prompted line echo audible empty)
  exact typing.display

/-- `ab`, a delete and two backspaces, and `c`. -/
theorem display_matches_buffer_c :
    ∃ shown, DisplayMatches ⟨fun _ => blank, 0⟩ ⟨false, []⟩ shown
      (Run.run rxStep [0x61, 0x62, 0x7F, 0x08, 0x08, 0x63]
        (afterPrompt .powerOn ⟨false, []⟩)) :=
  display_matches_buffer ⟨fun _ => blank, 0⟩ (fun _ _ => rfl) .powerOn rfl rfl
    ⟨false, []⟩ rfl [0x61, 0x62, 0x7F, 0x08, 0x08, 0x63] (by
      unfold IsEditing
      decide)

end BusNinja
