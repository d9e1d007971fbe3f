import Mathlib.Data.List.GetD
import Mathlib.Logic.Function.Basic

/-!
# One row of a terminal

A printable character writes a cell and moves the cursor right, a backspace
moves it left, and other characters show nothing.  `Shows` says that a text
stands on the row from some column on, with the cursor behind it and nothing
changed before it.
-/

namespace TerminalRow

structure Terminal where
  row : Nat → BitVec 8
  column : Nat

/-- What an empty cell shows. -/
def blank : BitVec 8 := 0x20

def printable (c : BitVec 8) : Bool := decide (0x20 ≤ c) && decide (c ≤ 0x7E)

namespace Terminal

def put (c : BitVec 8) (terminal : Terminal) : Terminal :=
  if c = 0x08 then { terminal with column := terminal.column - 1 }
  else if printable c then
    { row := Function.update terminal.row terminal.column c
      column := terminal.column + 1 }
  else terminal

def puts (chars : List (BitVec 8)) (terminal : Terminal) : Terminal :=
  chars.foldl (fun terminal c => terminal.put c) terminal

theorem puts_append (first second : List (BitVec 8)) (terminal : Terminal) :
    terminal.puts (first ++ second) = (terminal.puts first).puts second :=
  List.foldl_append

theorem put_printable {c : BitVec 8} (isPrintable : printable c = true)
    (terminal : Terminal) :
    terminal.put c =
      { row := Function.update terminal.row terminal.column c
        column := terminal.column + 1 } := by
  have other : c ≠ 0x08 := by
    rintro rfl
    exact absurd isPrintable (by decide)
  rw [put, if_neg other, if_pos isPrintable]

end Terminal

/-- The cursor has not gone before `start`, and what stands there is
untouched. -/
structure Keeps (start : Nat) (before after : Terminal) : Prop where
  cursor : start ≤ after.column
  cells : ∀ i, i < start → after.row i = before.row i

/-- The text stands from `start` on, the cursor right behind it. -/
structure Shows (start : Nat) (before : Terminal) (chars : List (BitVec 8))
    (after : Terminal) : Prop where
  cursor : after.column = start + chars.length
  cells : ∀ i, i < start → after.row i = before.row i
  chars : ∀ i, after.row (start + i) = chars.getD i blank

variable {start : Nat} {before after : Terminal} {chars : List (BitVec 8)}

theorem Shows.keeps (shows : Shows start before chars after) :
    Keeps start before after where
  cursor := by rw [shows.cursor]; exact Nat.le_add_right _ _
  cells := shows.cells

theorem Keeps.backspace (keeps : Keeps start before after)
    (room : start < after.column) : Keeps start before (after.put 0x08) where
  cursor := Nat.le_sub_one_of_lt room
  cells := keeps.cells

theorem Keeps.type (keeps : Keeps start before after) {c : BitVec 8}
    (isPrintable : printable c = true) :
    Keeps start before (after.put c) := by
  rw [Terminal.put_printable isPrintable]
  refine ⟨Nat.le_succ_of_le keeps.cursor, ?_⟩
  intro i inside
  have other : i ≠ after.column := by
    have cursor := keeps.cursor
    omega
  exact (Function.update_of_ne other _ _).trans (keeps.cells i inside)

theorem Shows.type (shows : Shows start before chars after) {c : BitVec 8}
    (isPrintable : printable c = true) :
    Shows start before (chars ++ [c]) (after.put c) := by
  have cells := (shows.keeps.type isPrintable).cells
  refine ⟨?_, cells, ?_⟩
  · rw [Terminal.put_printable isPrintable, List.length_append]
    exact congrArg (· + 1) shows.cursor
  · intro i
    rw [Terminal.put_printable isPrintable, shows.cursor]
    dsimp only
    by_cases last : i = chars.length
    · subst last
      rw [Function.update_self, List.getD_append_right _ _ _ _ (Nat.le_refl _),
        Nat.sub_self]
      rfl
    · have other : start + i ≠ start + chars.length := by omega
      rw [Function.update_of_ne other, shows.chars]
      by_cases inside : i < chars.length
      · rw [List.getD_append _ _ _ _ inside]
      · rw [List.getD_eq_default _ _ (by omega),
          List.getD_eq_default _ _ (by
            rw [List.length_append, List.length_singleton]
            omega)]

/-- Backspace, blank, backspace. -/
def erasing : List (BitVec 8) := [0x08, 0x20, 0x08]

theorem Shows.erase (shows : Shows start before chars after)
    (some : chars ≠ []) :
    Shows start before chars.dropLast (after.puts erasing) := by
  have length := List.length_pos_iff.mpr some
  have cursor := shows.cursor
  have erased : after.puts erasing =
      { row := Function.update after.row (after.column - 1) blank
        column := after.column - 1 } := rfl
  rw [erased]
  refine ⟨?_, ?_, ?_⟩
  · rw [List.length_dropLast]
    dsimp only
    omega
  · intro i inside
    have other : i ≠ after.column - 1 := by omega
    exact (Function.update_of_ne other _ _).trans (shows.cells i inside)
  · intro i
    dsimp only
    by_cases last : i = chars.length - 1
    · have here : start + i = after.column - 1 := by omega
      rw [here, Function.update_self, List.getD_eq_default]
      rw [List.length_dropLast]
      exact Nat.le_of_eq last.symm
    · have other : start + i ≠ after.column - 1 := by omega
      rw [Function.update_of_ne other, shows.chars]
      by_cases inside : i < chars.length - 1
      · rw [List.getD_eq_getElem?_getD, List.getD_eq_getElem?_getD,
          List.getElem?_dropLast, if_pos inside]
      · rw [List.getD_eq_default _ _ (by omega),
          List.getD_eq_default _ _ (by
            rw [List.length_dropLast]
            omega)]

/-- Every part of the characters leaves what stands before `start` alone. -/
def Guards (start : Nat) (before : Terminal) (chars : List (BitVec 8)) : Prop :=
  ∀ part, part <+: chars → Keeps start before (before.puts part)

theorem Guards.append {first second : List (BitVec 8)}
    (guards : Guards start before first)
    (later : ∀ part, part <+: second →
      Keeps start before ((before.puts first).puts part)) :
    Guards start before (first ++ second) := by
  intro part front
  rcases List.prefix_or_prefix_of_prefix front (List.prefix_append first second)
    with inside | ⟨beyond, rfl⟩
  · exact guards part inside
  · rw [Terminal.puts_append]
    exact later beyond ((List.prefix_append_right_inj first).mp front)

theorem Keeps.guards_single {c : BitVec 8} (keeps : Keeps start before after)
    (next : Keeps start before (after.put c)) (part : List (BitVec 8))
    (front : part <+: [c]) : Keeps start before (after.puts part) := by
  rcases List.prefix_cons_iff.mp front with rfl | ⟨rest, rfl, none⟩
  · exact keeps
  · rw [List.prefix_nil.mp none]
    exact next

/-- Erasing does not go before the text. -/
theorem Shows.guards_erase (shows : Shows start before chars after)
    (some : chars ≠ []) (part : List (BitVec 8)) (front : part <+: erasing) :
    Keeps start before (after.puts part) := by
  have length := List.length_pos_iff.mpr some
  have cursor := shows.cursor
  have back := shows.keeps.backspace (by omega)
  have written := back.type (rfl : printable 0x20 = true)
  have erased := (shows.erase some).keeps
  have parts : part = [] ∨ part = [0x08] ∨ part = [0x08, 0x20] ∨
      part = erasing := by
    have cut := List.prefix_iff_eq_take.mp front
    have short : part.length ≤ 3 := front.length_le
    generalize part.length = n at cut short
    subst cut
    have cases' : n = 0 ∨ n = 1 ∨ n = 2 ∨ n = 3 := by omega
    rcases cases' with rfl | rfl | rfl | rfl <;> simp [erasing]
  rcases parts with rfl | rfl | rfl | rfl
  · exact shows.keeps
  · exact back
  · exact written
  · exact erased

end TerminalRow
