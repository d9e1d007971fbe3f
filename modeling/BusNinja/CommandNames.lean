import BusNinja.CommandRepeats
import BusNinja.Source.GlobalCommands

/-!
# Commands by name

An entry of the table is selected by its name and by nothing else, unless a
NUL in the token is compared with the terminator of the name and what follows
it in flash.
-/

namespace BusNinja

variable {δ : Type}

/-- What the console leaves in a token. -/
structure Deliverable (token : List Byte) : Prop where
  nonempty : token ≠ []
  accepted : ∀ c ∈ token,
    endsToken c = false ∧ c ≠ 0x0D ∧ c ≠ 0x08 ∧ c ≠ 0x7F

/-- The names of a table are distinct, and end where their terminator is. -/
structure WellNamed (table : List (GlobalCommand δ)) : Prop where
  distinct : (table.map fun cmd => cmd.name.chars).Nodup
  noNul : ∀ cmd ∈ table, (0 : Byte) ∉ cmd.name.chars

def GlobalCommand.run (cmd : GlobalCommand δ) (args : List Byte)
    (shell : Shell δ) : Shell δ :=
  if (cmd.handler args shell).1 then (cmd.handler args shell).2
  else (cmd.handler args shell).2.putLine "Error"

/-- One handler runs, that of the entry with this name, and `TRUE` is
returned; without such an entry none runs, and `FALSE` is returned. -/
structure SelectsByName (table : List (GlobalCommand δ))
    (token pre post : List Byte) (shell : Shell δ) : Prop where
  named : ∀ cmd ∈ table, token = cmd.name.chars →
    handleGlobalCommand (pre ++ token ++ post) pre.length token.length table
      shell = some (true, cmd.run post shell)
  unnamed : (∀ cmd ∈ table, token ≠ cmd.name.chars) →
    handleGlobalCommand (pre ++ token ++ post) pre.length token.length table
      shell = some (false, shell)

/-- The token goes on after a name as the flash does: with the terminator,
and with what lies behind it. -/
def GoesOnAs (name : FlashName) (token : List Byte) : Prop :=
  ∃ tail, token = name.chars ++ 0 :: tail ∧
    ∀ (i : Nat) (c : Byte), tail[i]? = some c → c = name.after i

theorem memcmpBytes_iff (name : FlashName) (bytes : List Byte) (i : Nat) :
    memcmpBytes name i bytes = true ↔
      ∀ (k : Nat) (c : Byte), bytes[k]? = some c → c = name.byte (i + k) := by
  constructor
  · intro same k c read
    exact memcmpBytes_byte same read
  · intro equal
    induction bytes generalizing i with
    | nil => rfl
    | cons first rest induction =>
        have head : first = name.byte i := equal 0 first rfl
        rw [memcmpBytes, if_pos head]
        apply induction
        intro k c read
        rw [equal (k + 1) c read, Nat.add_assoc, Nat.add_comm 1 k]

theorem FlashName.byte_chars (name : FlashName) {k : Nat} {c : Byte}
    (read : name.chars[k]? = some c) : name.byte k = c := by
  obtain ⟨inside, rfl⟩ := List.getElem?_eq_some_iff.mp read
  simp [FlashName.byte, inside]

theorem FlashName.byte_terminator (name : FlashName) :
    name.byte name.chars.length = 0 := by
  simp [FlashName.byte]

theorem FlashName.byte_after (name : FlashName) (i : Nat) :
    name.byte (name.chars.length + 1 + i) = name.after i := by
  have beyond : ¬ name.chars.length + 1 + i < name.chars.length := by omega
  have past : name.chars.length + 1 + i ≠ name.chars.length := by omega
  have offset : name.chars.length + 1 + i - name.chars.length - 1 = i := by omega
  rw [FlashName.byte, if_neg beyond, if_neg past, offset]

theorem goesOnAs_of_longer {name : FlashName} {token : List Byte}
    (same : memcmpBytes name 0 token = true)
    (longer : name.chars.length < token.length) : GoesOnAs name token := by
  have equal := (memcmpBytes_iff name token 0).mp same
  have front : token.take name.chars.length = name.chars := by
    apply List.ext_getElem?
    intro k
    by_cases inside : k < name.chars.length
    · have read : token[k]? = some token[k] := List.getElem?_eq_getElem _
      have char := List.getElem?_eq_getElem inside
      have byte := equal k _ read
      rw [Nat.zero_add, name.byte_chars char] at byte
      rw [List.getElem?_take_of_lt inside, read, byte, char]
    · rw [List.getElem?_eq_none (by rw [List.length_take]; omega),
        List.getElem?_eq_none (by omega)]
  have terminator : token[name.chars.length] = 0 := by
    have byte := equal _ _ (List.getElem?_eq_getElem longer)
    rwa [Nat.zero_add, name.byte_terminator] at byte
  refine ⟨token.drop (name.chars.length + 1), ?_, ?_⟩
  · calc token = token.take name.chars.length ++ token.drop name.chars.length :=
        (List.take_append_drop _ _).symm
      _ = name.chars ++ 0 :: token.drop (name.chars.length + 1) := by
        rw [front, List.drop_eq_getElem_cons longer, terminator]
  · intro i c read
    rw [List.getElem?_drop] at read
    have byte := equal _ c read
    rwa [Nat.zero_add, name.byte_after] at byte

theorem GoesOnAs.same {name : FlashName} {token : List Byte}
    (goesOn : GoesOnAs name token) :
    memcmpBytes name 0 token = true ∧ name.chars.length ≤ token.length := by
  obtain ⟨tail, rfl, agrees⟩ := goesOn
  refine ⟨(memcmpBytes_iff name _ 0).mpr ?_, by simp⟩
  intro k c read
  rw [Nat.zero_add]
  rcases Nat.lt_trichotomy k name.chars.length with inside | rfl | beyond
  · rw [List.getElem?_append_left inside] at read
    exact (name.byte_chars read).symm
  · rw [List.getElem?_append_right (Nat.le_refl _), Nat.sub_self,
      List.getElem?_cons_zero] at read
    rw [← Option.some.inj read, name.byte_terminator]
  · obtain ⟨i, rfl⟩ := Nat.exists_eq_add_of_lt beyond
    rw [List.getElem?_append_right (by omega),
      show name.chars.length + i + 1 - name.chars.length = i + 1 by omega,
      List.getElem?_cons_succ] at read
    rw [agrees i c read, ← name.byte_after, Nat.add_right_comm]

theorem selected_iff (name : FlashName) (token : List Byte) :
    (memcmpBytes name 0 token = true ∧ name.chars.length ≤ token.length) ↔
      token = name.chars ∨ GoesOnAs name token := by
  constructor
  · rintro ⟨same, short⟩
    rcases Nat.lt_or_eq_of_le short with longer | equal
    · exact .inr (goesOnAs_of_longer same longer)
    · exact .inl (memcmpBytes_chars same equal.symm)
  · rintro (rfl | goesOn)
    · refine ⟨(memcmpBytes_iff name _ 0).mpr ?_, Nat.le_refl _⟩
      intro k c read
      rw [Nat.zero_add, name.byte_chars read]
    · exact goesOn.same

theorem GoesOnAs.nul {name : FlashName} {token : List Byte}
    (goesOn : GoesOnAs name token) : (0 : Byte) ∈ token := by
  obtain ⟨tail, rfl, -⟩ := goesOn
  simp

/-- The first entry with the name of the token is the only one it can
select. -/
theorem globalCommand_named {table : List (GlobalCommand δ)}
    (wellNamed : WellNamed table) {cmd : GlobalCommand δ} (member : cmd ∈ table)
    (args : List Byte) (shell : Shell δ) :
    globalCommand cmd.name.chars args table shell =
      (true, cmd.run args shell) := by
  obtain ⟨distinct, noNul⟩ := wellNamed
  induction table with
  | nil => cases member
  | cons first table induction =>
      obtain ⟨fresh, distinct⟩ := List.nodup_cons.mp distinct
      rw [globalCommand]
      rcases List.mem_cons.mp member with rfl | later
      · rw [if_pos ((selected_iff _ _).mpr (.inl rfl))]
        unfold GlobalCommand.run
        cases cmd.handler args shell with
        | mk ok shell => cases ok <;> rfl
      · rw [if_neg]
        · exact induction later distinct
            fun other listed => noNul other (List.mem_cons_of_mem _ listed)
        · intro same
          rcases (selected_iff _ _).mp same with equal | goesOn
          · exact fresh (List.mem_map.mpr ⟨cmd, later, equal⟩)
          · exact noNul cmd member goesOn.nul

/-- Global commands are selected by exact name if and only if the token is
not the name of an entry with a NUL behind it and then what the flash holds
behind that name. -/
theorem commands_selected_by_name_iff (table : List (GlobalCommand δ))
    (wellNamed : WellNamed table) (token pre post : List Byte)
    (shell : Shell δ) :
    SelectsByName table token pre post shell ↔
      ¬ ∃ cmd ∈ table, GoesOnAs cmd.name token := by
  have bytes : handleGlobalCommand (pre ++ token ++ post) pre.length
      token.length table shell = _ :=
    handleGlobalCommand_bytes token table shell rfl
  constructor
  · rintro ⟨-, unnamed⟩ ⟨cmd, member, goesOn⟩
    have noName : ∀ other ∈ table, token ≠ other.name.chars := by
      rintro other listed rfl
      exact wellNamed.noNul other listed goesOn.nul
    have found := (globalCommand_any token post table shell).mpr
      ⟨cmd, member, goesOn.same⟩
    have none := Option.some.inj (bytes.symm.trans (unnamed noName))
    rw [none] at found
    contradiction
  · intro within
    constructor
    · rintro cmd member rfl
      rw [bytes, globalCommand_named wellNamed member]
    · intro noName
      have notFound : (globalCommand token post table shell).1 = false := by
        rw [← Bool.not_eq_true, globalCommand_any]
        rintro ⟨cmd, member, same⟩
        rcases (selected_iff _ _).mp same with equal | goesOn
        · exact noName cmd member equal
        · exact within ⟨cmd, member, goesOn⟩
      rw [bytes, globalCommand_none token post notFound]

theorem globalCommandTable_names (firmware : Firmware) (wiring : Wiring) :
    ((globalCommandTable firmware wiring).map fun cmd => cmd.name.chars) =
      commandNames.map text :=
  rfl

theorem globalCommandTable_listed {firmware : Firmware} {wiring : Wiring}
    {cmd : GlobalCommand Devices}
    (member : cmd ∈ globalCommandTable firmware wiring) :
    cmd.name.chars ∈ commandNames.map text := by
  rw [← globalCommandTable_names firmware wiring]
  exact List.mem_map_of_mem member

theorem globalCommandTable_wellNamed (firmware : Firmware) (wiring : Wiring) :
    WellNamed (globalCommandTable firmware wiring) := by
  constructor
  · rw [globalCommandTable_names]
    decide
  · intro cmd member
    have noNul : ∀ chars ∈ commandNames.map text, (0 : Byte) ∉ chars := by decide
    exact noNul _ (globalCommandTable_listed member)

/-- A build with nothing but 0 behind the names. -/
def plainFirmware : Firmware where
  version := text "1.0"
  after := fun _ _ => 0

def nothingAttached : Wiring where
  i2cSlave := .pulling []
  spiSlave := fun _ => 0xFF
  sharedPins := false

/-- `i2c` -/
theorem commands_selected_by_name_i2c :
    SelectsByName (globalCommandTable plainFirmware nothingAttached)
      (text "i2c") [] [] (Shell.powerOn Devices.powerOn) := by
  refine (commands_selected_by_name_iff _
    (globalCommandTable_wellNamed plainFirmware nothingAttached) (text "i2c")
    [] [] (Shell.powerOn Devices.powerOn)).mpr ?_
  rintro ⟨cmd, -, goesOn⟩
  have noNul : (0 : Byte) ∉ text "i2c" := by decide
  exact noNul goesOn.nul

/-- `led` and a NUL selects the entry of `led`. -/
theorem led_selected_with_nul :
    ¬ ∀ (table : List (GlobalCommand Devices)), WellNamed table →
      ∀ (token : List Byte), Deliverable token →
        ∀ (pre post : List Byte) (shell : Shell Devices),
          SelectsByName table token pre post shell := by
  intro always
  have deliverable : Deliverable (text "led" ++ [0]) :=
    ⟨by decide, by decide⟩
  have selects := always _
    (globalCommandTable_wellNamed plainFirmware nothingAttached) _ deliverable
    [] [] (Shell.powerOn Devices.powerOn)
  have noName : ∀ chars ∈ commandNames.map text, text "led" ++ [0] ≠ chars := by
    decide
  have nothing := selects.unnamed fun cmd member =>
    noName _ (globalCommandTable_listed member)
  have found := congrArg (Option.map Prod.fst) nothing
  contradiction

end BusNinja
