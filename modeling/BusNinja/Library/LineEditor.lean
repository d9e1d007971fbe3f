import BusNinja.Library.Run

/-!
# Line editors

A line editor reads characters one by one.  Some end a line, some erase the
last character held, and any other is held as long as there is room.
-/

structure LineEditor (α : Type*) where
  ends : α → Bool
  erases : α → Bool
  room : Nat

/-- The line being typed, and the lines that have been ended. -/
structure Edited (α : Type*) where
  held : List α
  lines : List (List α)
  deriving DecidableEq, Repr

namespace LineEditor

variable {α : Type*} (editor : LineEditor α)

def edit (c : α) (edited : Edited α) : Edited α :=
  if editor.ends c then ⟨[], edited.lines ++ [edited.held]⟩
  else if editor.erases c then { edited with held := edited.held.dropLast }
  else if edited.held.length < editor.room then
    { edited with held := edited.held ++ [c] }
  else edited

/-- What has been typed from the start on. -/
def edited (typed : List α) : Edited α := Run.run editor.edit typed ⟨[], []⟩

@[simp] theorem edited_nil : editor.edited [] = ⟨[], []⟩ := rfl

@[simp] theorem edited_concat (typed : List α) (c : α) :
    editor.edited (typed ++ [c]) = editor.edit c (editor.edited typed) :=
  Run.run_append editor.edit typed [c] _

variable {editor}

theorem edit_ends {c : α} (ends : editor.ends c = true) (edited : Edited α) :
    editor.edit c edited = ⟨[], edited.lines ++ [edited.held]⟩ :=
  if_pos ends

theorem edit_erases {c : α} (plain : editor.ends c = false)
    (erases : editor.erases c = true) (edited : Edited α) :
    editor.edit c edited = { edited with held := edited.held.dropLast } := by
  simp [edit, plain, erases]

theorem edit_holds {c : α} (plain : editor.ends c = false)
    (kept : editor.erases c = false) {edited : Edited α}
    (room : edited.held.length < editor.room) :
    editor.edit c edited = { edited with held := edited.held ++ [c] } := by
  simp [edit, plain, kept, room]

theorem edit_full {c : α} (plain : editor.ends c = false)
    (kept : editor.erases c = false) {edited : Edited α}
    (full : ¬ edited.held.length < editor.room) :
    editor.edit c edited = edited := by
  simp [edit, plain, kept, full]

end LineEditor
