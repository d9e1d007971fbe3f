import BusNinja.NumeralReading

/-!
# Repeat counts

A token is split at the first colon behind which `parse_number` accepts what
follows.  With numerals on both sides the handler is called as often as
written; an empty count is accepted as 0, so that nothing is done and nothing
is reported.
-/

namespace BusNinja

variable {δ : Type}

theorem splitRepeat_colon {name : List Byte} (noColon : 0x3A ∉ name)
    {done : List Byte} (nonempty : done ++ name ≠ []) {count : List Byte}
    (accepted : (parsed count).1 = true) (before : BitVec 32) :
    splitRepeat done (name ++ 0x3A :: count) before =
      (done ++ name, (parsed count).2) := by
  induction name generalizing done before with
  | nil =>
      have some : 0 < done.length := by
        rw [List.length_pos_iff]
        simpa using nonempty
      have number : parsed count = (true, (parsed count).2) := by
        rw [← accepted]
      rw [List.nil_append, splitRepeat, if_pos ⟨rfl, some⟩, number,
        List.append_nil]
  | cons c name induction =>
      have different : ¬ (c = 0x3A ∧ 0 < done.length) := by
        rintro ⟨rfl, -⟩
        simp at noColon
      rw [List.cons_append, splitRepeat, if_neg different, induction]
      · simp
      · intro later
        exact noColon (List.mem_cons_of_mem c later)
      · simp

theorem splitRepeat_whole {name : List Byte} (noColon : 0x3A ∉ name)
    (done : List Byte) (count : BitVec 32) :
    splitRepeat done name count = (done ++ name, count) := by
  induction name generalizing done with
  | nil => rw [splitRepeat, List.append_nil]
  | cons c name induction =>
      have different : ¬ (c = 0x3A ∧ 0 < done.length) := by
        rintro ⟨rfl, -⟩
        simp at noColon
      rw [splitRepeat, if_neg different, induction]
      · simp
      · intro later
        exact noColon (List.mem_cons_of_mem c later)

/-- A token is not split, or behind a colon where what follows is accepted. -/
theorem splitRepeat_cases (rest done : List Byte) (count : BitVec 32) :
    (splitRepeat done rest count).1 = done ++ rest ∨
      ∃ counted, done ++ rest =
          (splitRepeat done rest count).1 ++ 0x3A :: counted ∧
        (parsed counted).1 = true := by
  induction rest generalizing done count with
  | nil => exact .inl (by simp [splitRepeat])
  | cons c rest induction =>
      have later : ∀ count, _ := fun count => induction (done ++ [c]) count
      simp only [List.append_assoc, List.singleton_append] at later
      unfold splitRepeat
      split
      · next colon =>
          cases number : parsed rest with
          | mk ok num =>
              cases ok with
              | true =>
                  right
                  exact ⟨rest, by rw [colon.1], by rw [number]⟩
              | false => exact later 0
      · exact later count

theorem splitRepeat_done (rest done : List Byte) (count : BitVec 32) :
    done <+: (splitRepeat done rest count).1 := by
  induction rest generalizing done count with
  | nil => exact List.prefix_rfl
  | cons c rest induction =>
      have later : ∀ count, done <+: (splitRepeat (done ++ [c]) rest count).1 :=
        fun count => (List.prefix_append done [c]).trans (induction _ count)
      unfold splitRepeat
      split
      · cases parsed rest with
        | mk ok num =>
            cases ok with
            | true => exact List.prefix_rfl
            | false => exact later 0
      · exact later count

theorem splitRepeat_nonempty {token : List Byte} (nonempty : token ≠ [])
    (count : BitVec 32) : (splitRepeat [] token count).1 ≠ [] := by
  cases token with
  | nil => contradiction
  | cons c rest =>
      have first : [c] <+: (splitRepeat [] (c :: rest) count).1 := by
        rw [splitRepeat, if_neg (by simp)]
        exact splitRepeat_done rest [c] count
      rintro none
      rw [none] at first
      simp at first

/-- The repeat suffix, `:5`, if there is one. -/
def suffix : Option Numeral → List Byte
  | none => []
  | some count => 0x3A :: count.chars

def times : Option Numeral → Nat
  | none => 1
  | some count => count.value

theorem noColon_of_accepted {name : List Byte} (short : name.length ≤ 255)
    (accepted : (parsed name).1 = true) : 0x3A ∉ name := by
  intro colon
  exact absurd (accepted_byte short accepted colon) (by decide)

theorem splitRepeat_counted {name : List Byte} (noColon : 0x3A ∉ name)
    (nonempty : name ≠ []) {count : Option Numeral}
    (plain : ∀ numeral ∈ count, numeral.marker.isPlain = true)
    (short : (name ++ suffix count).length ≤ 255) :
    splitRepeat [] (name ++ suffix count) 1 =
      (name, BitVec.ofNat 32 (times count)) := by
  cases count with
  | none =>
      rw [suffix, List.append_nil, splitRepeat_whole noColon]
      rfl
  | some numeral =>
      rw [suffix, List.length_append, List.length_cons] at short
      have number := Numeral.parsed_plain (plain numeral rfl) (by omega)
      have whole : [] ++ name ≠ [] := nonempty
      rw [suffix, splitRepeat_colon noColon whole (by rw [number]), number]
      rfl

theorem handleToken_number {table : List (GlobalCommand δ)}
    {token name : List Byte} {count num : BitVec 32} {shell : Shell δ}
    {act : Byte → Board δ → Board δ}
    (split : splitRepeat [] token 1 = (name, count))
    (number : parsed name = (true, num))
    (handler : shell.numberHandler = some act) (after : List Byte)
    (firstToken : Bool) :
    handleToken table token after firstToken shell =
      (false, repeatCall (act (num.setWidth 8)) count shell) := by
  simp only [handleToken, split, number, handler, if_true]

theorem handleToken_read {table : List (GlobalCommand δ)}
    {token name : List Byte} {count : BitVec 32} {shell : Shell δ}
    {act : Board δ → Board δ} (split : splitRepeat [] token 1 = (name, count))
    (read : name = [0x72] ∨ name = [0x52])
    (handler : shell.currentBus.bind BusInterface.read = some act)
    (after : List Byte) (firstToken : Bool) :
    handleToken table token after firstToken shell =
      (false, repeatCall act count shell) := by
  have noNumber : (parsed name).1 = false := by
    rcases read with rfl | rfl <;> decide
  simp only [handleToken, split, noNumber, read, handler, if_true,
    Bool.false_eq_true, if_false]

/-- What a token of the line does to the shell; `none` if a pointer leaves the
line. -/
def tokenEffect (table : List (GlobalCommand δ)) (pre token post : List Byte)
    (firstToken : Bool) (shell : Shell δ) : Option (Bool × Shell δ) :=
  handleCommand table (pre ++ token ++ post) pre.length
    (pre.length + token.length) firstToken shell

/-- A value with a count calls the handler of numbers, with both read modulo
what holds them. -/
theorem tokenEffect_number (table : List (GlobalCommand δ)) {value : Numeral}
    {count : Option Numeral} (valuePlain : value.marker.isPlain = true)
    (plain : ∀ numeral ∈ count, numeral.marker.isPlain = true)
    (short : (value.chars ++ suffix count).length ≤ 63) {shell : Shell δ}
    {act : Byte → Board δ → Board δ} (handler : shell.numberHandler = some act)
    (pre post : List Byte) (firstToken : Bool) :
    tokenEffect table pre (value.chars ++ suffix count) post firstToken shell =
      some (false, repeatCall (act (BitVec.ofNat 8 value.value))
        (BitVec.ofNat 32 (times count)) shell) := by
  rw [List.length_append] at short
  have few : value.chars.length ≤ 255 := by omega
  have number := value.parsed_plain valuePlain few
  have noColon := noColon_of_accepted few (by rw [number])
  have nonempty : value.chars ≠ [] := by
    intro none
    exact value.nonempty (List.append_eq_nil_iff.mp none).2
  have split := splitRepeat_counted noColon nonempty plain
    (by rw [List.length_append]; omega)
  have byte : (BitVec.ofNat 32 value.value).setWidth 8 =
      BitVec.ofNat 8 value.value := by
    apply BitVec.eq_of_toNat_eq
    rw [BitVec.toNat_setWidth, BitVec.toNat_ofNat, BitVec.toNat_ofNat]
    omega
  rw [tokenEffect, handleCommand_bytes table _ firstToken shell rfl,
    handleToken_number split number handler, byte]

theorem repeatCall_times {count : Option Numeral}
    (small : ∀ numeral ∈ count, numeral.value < 2 ^ 32)
    (act : Board δ → Board δ) (shell : Shell δ) :
    repeatCall act (BitVec.ofNat 32 (times count)) shell =
      { shell with board := act^[times count] shell.board } := by
  have bound : times count < 2 ^ 32 := by
    cases count with
    | none => decide
    | some numeral => exact small numeral rfl
  rw [repeatCall, BitVec.toNat_ofNat, Nat.mod_eq_of_lt bound]

/-- A value or a read with a count calls its handler exactly so many times,
and does nothing else. -/
theorem counted_commands_repeat (table : List (GlobalCommand δ))
    (bus : BusInterface δ) (count : Option Numeral)
    (plain : ∀ numeral ∈ count, numeral.marker.isPlain = true)
    (small : ∀ numeral ∈ count, numeral.value < 2 ^ 32) (shell : Shell δ)
    (selected : shell.currentBus = some bus) (firstToken : Bool)
    (pre post : List Byte) :
    (∀ (value : Numeral) (act : Byte → Board δ → Board δ),
      value.marker.isPlain = true →
      (value.chars ++ suffix count).length ≤ 63 →
      (bus.write = some act ∧ shell.duplex = false) ∨
        (bus.xact = some act ∧ shell.duplex = true) →
      tokenEffect table pre (value.chars ++ suffix count) post firstToken
          shell =
        some (false,
          { shell with
            board := (act (BitVec.ofNat 8 value.value))^[times count]
              shell.board })) ∧
    ∀ (r : Byte) (act : Board δ → Board δ), r = 0x72 ∨ r = 0x52 →
      (r :: suffix count).length ≤ 63 → bus.read = some act →
      tokenEffect table pre (r :: suffix count) post firstToken shell =
        some (false,
          { shell with board := act^[times count] shell.board }) := by
  constructor
  · intro value act valuePlain short handler
    have handled : shell.numberHandler = some act := by
      rcases handler with ⟨write, off⟩ | ⟨xact, on⟩
      · simp [Shell.numberHandler, selected, off, write]
      · simp [Shell.numberHandler, selected, on, xact]
    rw [tokenEffect_number table valuePlain plain short handled,
      repeatCall_times small]
  · intro r act reads short handler
    have noColon : 0x3A ∉ [r] := by
      rcases reads with rfl | rfl <;> decide
    have split := splitRepeat_counted noColon (by simp) plain
      (Nat.le_trans short (by decide))
    have handled : shell.currentBus.bind BusInterface.read = some act := by
      rw [selected]
      exact handler
    have name : [r] = [0x72] ∨ [r] = [0x52] := by
      rcases reads with rfl | rfl
      · exact .inl rfl
      · exact .inr rfl
    rw [tokenEffect, handleCommand_bytes table _ firstToken shell rfl]
    rw [List.singleton_append] at split
    rw [handleToken_read split name handled, repeatCall_times small]

/-- A bus that keeps what is written to it, and a 0 for every read. -/
def recorder : BusInterface (List Byte) where
  openBus := none
  close := none
  start := none
  stop := none
  write := some fun c board => { board with devices := board.devices ++ [c] }
  read := some fun board => { board with devices := board.devices ++ [0] }
  xact := none
  command := none

def recording : Shell (List Byte) :=
  { Shell.powerOn [] with currentBus := some recorder }

/-- `0x1F:3` -/
theorem counted_commands_repeat_thrice :
    tokenEffect [] [] (text "0x1F:3") [] true recording =
      some (false,
        { recording with
          board := { recording.board with devices := [0x1F, 0x1F, 0x1F] } }) :=
  (counted_commands_repeat [] recorder
    (some ⟨.none, text "3", by decide, by decide⟩)
    (by rintro _ ⟨⟩; rfl) (by rintro _ ⟨⟩; decide) recording rfl true [] []).1
    ⟨.zeroX, text "1F", by decide, by decide⟩ _ rfl (by decide)
    (.inl ⟨rfl, rfl⟩)

/-- `parse_number` accepts the string. -/
def Accepted (chars : List Byte) : Prop :=
  ∃ num, parseNumber chars 0 (BitVec.ofNat 8 chars.length) = some (true, num)

theorem accepted_iff (chars : List Byte) :
    Accepted chars ↔ (parsed chars).1 = true := by
  have whole : chars = [] ++ chars ++ [] := by simp
  have number : parseNumber chars 0 (BitVec.ofNat 8 chars.length) =
      some (parsed chars) := parseNumber_bytes chars whole
  rw [Accepted, number]
  constructor
  · rintro ⟨num, read⟩
    rw [Option.some.inj read]
  · intro accepted
    exact ⟨(parsed chars).2, by rw [← accepted]⟩

/-- A value, or `r` or `R`. -/
def IsOperation (name : List Byte) : Prop :=
  (name ≠ [] ∧ Accepted name) ∨ name = [0x72] ∨ name = [0x52]

def IsCounted (token : List Byte) : Prop :=
  ∃ name, IsOperation name ∧
    (token = name ∨
      ∃ count, count ≠ [] ∧ Accepted count ∧ token = name ++ 0x3A :: count)

def EmptyCount (token : List Byte) : Prop :=
  ∃ name, IsOperation name ∧ token = name ++ [0x3A]

/-- The name of a global command, with a suffix or without. -/
def NamesCommand (table : List (GlobalCommand δ)) (token : List Byte) : Prop :=
  ∃ cmd ∈ table, token = cmd.name.chars ∨
    ∃ suffix, token = cmd.name.chars ++ 0x3A :: suffix

/-- Without its count the token is a name and then, as in flash, the
terminator and more. -/
def ReadsPastName (table : List (GlobalCommand δ)) (token : List Byte) : Prop :=
  ∃ cmd ∈ table,
    memcmpBytes cmd.name 0 (splitRepeat [] token 1).1 = true ∧
      cmd.name.chars.length < (splitRepeat [] token 1).1.length

/-- What the command handler of the bus makes of a token. -/
def offered (bus : BusInterface δ) (token : List Byte) (board : Board δ) :
    Bool × Board δ :=
  match bus.command with
  | some command =>
      command (splitRepeat [] token 1).1 (splitRepeat [] token 1).2 board
  | none => (false, board)

/-- Only the command handler of the bus is called, and `BadCmd` put out. -/
def refused (bus : BusInterface δ) (token : List Byte) (shell : Shell δ) :
    Bool × Shell δ :=
  badCmd { shell with board := (offered bus token shell.board).2 }

theorem globalCommand_any (cmdname args : List Byte)
    (table : List (GlobalCommand δ)) (shell : Shell δ) :
    (globalCommand cmdname args table shell).1 = true ↔
      ∃ cmd ∈ table, memcmpBytes cmd.name 0 cmdname = true ∧
        cmd.name.chars.length ≤ cmdname.length := by
  induction table with
  | nil => simp [globalCommand]
  | cons cmd table induction =>
      rw [globalCommand]
      split
      · next same => simpa using .inl same
      · next other => simp [induction, other]

theorem globalCommand_none (cmdname args : List Byte)
    {table : List (GlobalCommand δ)} {shell : Shell δ}
    (notFound : (globalCommand cmdname args table shell).1 = false) :
    globalCommand cmdname args table shell = (false, shell) := by
  induction table with
  | nil => rfl
  | cons cmd table induction =>
      rw [globalCommand] at notFound ⊢
      split at notFound
      · contradiction
      · next other =>
          rw [if_neg other]
          exact induction notFound

theorem memcmpBytes_byte {name : FlashName} {bytes : List Byte} {i : Nat}
    (same : memcmpBytes name i bytes = true) {k : Nat} {c : Byte}
    (read : bytes[k]? = some c) : c = name.byte (i + k) := by
  induction bytes generalizing i k with
  | nil => simp at read
  | cons first rest induction =>
      unfold memcmpBytes at same
      split at same
      · next equal =>
          cases k with
          | zero =>
              rw [List.getElem?_cons_zero] at read
              rw [← Option.some.inj read, equal, Nat.add_zero]
          | succ k =>
              rw [List.getElem?_cons_succ] at read
              rw [induction same read, Nat.add_assoc, Nat.add_comm 1 k]
      · contradiction

theorem memcmpBytes_chars {name : FlashName} {bytes : List Byte}
    (same : memcmpBytes name 0 bytes = true)
    (length : bytes.length = name.chars.length) : bytes = name.chars := by
  apply List.ext_getElem length
  intro k inside within
  have byte := memcmpBytes_byte same (List.getElem?_eq_getElem inside)
  rw [byte, Nat.zero_add, FlashName.byte, if_pos within]
  simp [List.getD_eq_getElem?_getD, within]

theorem found_cases {table : List (GlobalCommand δ)} {token args : List Byte}
    {shell : Shell δ}
    (found : (globalCommand (splitRepeat [] token 1).1 args table shell).1 =
      true) : NamesCommand table token ∨ ReadsPastName table token := by
  obtain ⟨cmd, member, same, short⟩ := (globalCommand_any _ _ _ _).mp found
  by_cases length : (splitRepeat [] token 1).1.length = cmd.name.chars.length
  · left
    have name := memcmpBytes_chars same length
    refine ⟨cmd, member, ?_⟩
    rcases splitRepeat_cases token [] 1 with whole | ⟨counted, split, -⟩
    · left
      rw [← name, whole, List.nil_append]
    · right
      rw [List.nil_append, name] at split
      exact ⟨counted, split⟩
  · exact .inr ⟨cmd, member, same, by omega⟩

theorem handleToken_other {table : List (GlobalCommand δ)} {token : List Byte}
    {shell : Shell δ} {after : List Byte} {firstToken : Bool}
    (other : ¬ IsOperation (splitRepeat [] token 1).1) (nonempty : token ≠ []) :
    handleToken table token after firstToken shell =
      if firstToken = true ∧
          (globalCommand (splitRepeat [] token 1).1
            (token.drop (splitRepeat [] token 1).1.length ++ after) table
            shell).1 = true then
        (true, (globalCommand (splitRepeat [] token 1).1
          (token.drop (splitRepeat [] token 1).1.length ++ after) table
          shell).2)
      else
        handleBusCommand (splitRepeat [] token 1).1 (splitRepeat [] token 1).2
          shell := by
  have some := splitRepeat_nonempty nonempty 1
  have noNumber : (parsed (splitRepeat [] token 1).1).1 = false := by
    rw [← Bool.not_eq_true, ← accepted_iff]
    exact fun accepted => other (.inl ⟨some, accepted⟩)
  have noRead : ¬ ((splitRepeat [] token 1).1 = [0x72] ∨
      (splitRepeat [] token 1).1 = [0x52]) := fun read => other (.inr read)
  simp only [handleToken, noNumber, noRead, Bool.false_eq_true, if_false]
  cases firstToken with
  | false => simp
  | true =>
      simp only [if_true, true_and]
      cases found : (globalCommand (splitRepeat [] token 1).1
          (token.drop (splitRepeat [] token 1).1.length ++ after) table
          shell).1 with
      | true => rfl
      | false =>
          rw [globalCommand_none _ _ found]

theorem handleBusCommand_refused {bus : BusInterface δ} {token : List Byte}
    {shell : Shell δ} (selected : shell.currentBus = some bus)
    (refuses : (offered bus token shell.board).1 = false) :
    handleBusCommand (splitRepeat [] token 1).1 (splitRepeat [] token 1).2
      shell = refused bus token shell := by
  rw [handleBusCommand, selected, refused]
  unfold offered at refuses ⊢
  rw [Option.bind_some]
  cases handler : bus.command with
  | none => rfl
  | some command =>
      rw [handler] at refuses
      simp only [refuses, selected, Bool.false_eq_true, if_false]

theorem IsOperation.noColon {name : List Byte} (operation : IsOperation name)
    (short : name.length ≤ 255) : 0x3A ∉ name := by
  obtain ⟨-, accepted⟩ | rfl | rfl := operation
  · exact noColon_of_accepted short ((accepted_iff name).mp accepted)
  · decide
  · decide

theorem IsOperation.nonempty {name : List Byte} (operation : IsOperation name) :
    name ≠ [] := by
  obtain ⟨some, -⟩ | rfl | rfl := operation
  · exact some
  · decide
  · decide

/-- Where an operation is counted, the token is split behind it. -/
theorem IsCounted.operation {token : List Byte} (counted : IsCounted token)
    (short : token.length ≤ 255) :
    IsOperation (splitRepeat [] token 1).1 := by
  obtain ⟨name, operation, rfl | ⟨count, -, accepted, rfl⟩⟩ := counted
  · rw [splitRepeat_whole (operation.noColon short)]
    exact operation
  · rw [List.length_append, List.length_cons] at short
    have whole : [] ++ name ≠ [] := operation.nonempty
    rw [splitRepeat_colon (operation.noColon (by omega)) whole
      ((accepted_iff count).mp accepted)]
    exact operation

theorem emptyCount_split {token : List Byte} (empty : EmptyCount token)
    (short : token.length ≤ 63) :
    ∃ name, IsOperation name ∧ splitRepeat [] token 1 = (name, 0) := by
  obtain ⟨name, operation, rfl⟩ := empty
  rw [List.length_append, List.length_singleton] at short
  refine ⟨name, operation, ?_⟩
  have whole : [] ++ name ≠ [] := operation.nonempty
  have zero : (parsed []).1 = true := rfl
  exact splitRepeat_colon (operation.noColon (by omega)) whole zero 1

theorem emptyCount_of_operation {token : List Byte}
    (uncounted : ¬ IsCounted token)
    (operation : IsOperation (splitRepeat [] token 1).1) : EmptyCount token := by
  rcases splitRepeat_cases token [] 1 with whole | ⟨count, split, accepted⟩
  · rw [whole, List.nil_append] at operation
    exact absurd ⟨token, operation, .inl rfl⟩ uncounted
  · rw [List.nil_append] at split
    by_cases none : count = []
    · rw [none] at split
      exact ⟨_, operation, split⟩
    · have counted : IsCounted token :=
        ⟨_, operation, .inr ⟨count, none, (accepted_iff count).mpr accepted,
          split⟩⟩
      exact absurd counted uncounted

/-- An operation with an empty count does nothing and reports nothing. -/
theorem emptyCount_nothing {table : List (GlobalCommand δ)} {token : List Byte}
    (empty : EmptyCount token) (short : token.length ≤ 63)
    {bus : BusInterface δ} {shell : Shell δ}
    (selected : shell.currentBus = some bus) (write : bus.write.isSome = true)
    (read : bus.read.isSome = true) (simplex : shell.duplex = false)
    (pre post : List Byte) (firstToken : Bool) :
    tokenEffect table pre token post firstToken shell = some (false, shell) := by
  obtain ⟨name, operation, split⟩ := emptyCount_split empty short
  obtain ⟨writes, written⟩ := Option.isSome_iff_exists.mp write
  obtain ⟨reads, answered⟩ := Option.isSome_iff_exists.mp read
  rw [tokenEffect, handleCommand_bytes table token firstToken shell rfl]
  rcases operation with ⟨-, accepted⟩ | operation
  · have number : parsed name = (true, (parsed name).2) := by
      rw [← (accepted_iff name).mp accepted]
    have handler : shell.numberHandler = some writes := by
      simp [Shell.numberHandler, selected, simplex, written]
    rw [handleToken_number split number handler]
    rfl
  · have handler : shell.currentBus.bind BusInterface.read = some reads := by
      rw [selected]
      exact answered
    rw [handleToken_read split operation handler]
    rfl

/-- A malformed token is reported, and nothing done for it, unless it is an
operation with an empty count or reads past the name of a command. -/
theorem malformed_token_reported_iff (table : List (GlobalCommand δ))
    (devices : δ) (token : List Byte) (firstToken : Bool) (nonempty : token ≠ [])
    (short : token.length ≤ 63) (uncounted : ¬ IsCounted token)
    (unnamed : firstToken = true → ¬ NamesCommand table token) :
    (∀ (bus : BusInterface δ) (shell : Shell δ) (pre post : List Byte),
      shell.currentBus = some bus → bus.write.isSome = true →
      bus.read.isSome = true → shell.duplex = false →
      (offered bus token shell.board).1 = false →
      tokenEffect table pre token post firstToken shell =
        some (refused bus token shell)) ↔
      ¬ EmptyCount token ∧
        (firstToken = true → ¬ ReadsPastName table token) := by
  constructor
  · intro reported
    let bus : BusInterface δ :=
      { openBus := none, close := none, start := none, stop := none
        write := some fun _ board => board, read := some id, xact := none
        command := none }
    let shell : Shell δ := { Shell.powerOn devices with currentBus := some bus }
    have report := reported bus shell [] [] rfl rfl rfl rfl rfl
    have filled : ¬ EmptyCount token := by
      intro empty
      rw [emptyCount_nothing empty short rfl rfl rfl rfl] at report
      have silence : ([] : List Byte) = text "BadCmd" ++ [0x0D, 0x0A] :=
        congrArg (fun result => result.2.board.out.console.output)
          (Option.some.inj report)
      exact absurd silence (by decide)
    refine ⟨filled, ?_⟩
    rintro first ⟨cmd, member, same, longer⟩
    have other := mt (emptyCount_of_operation uncounted) filled
    have found := (globalCommand_any (splitRepeat [] token 1).1
      (token.drop (splitRepeat [] token 1).1.length ++ []) table shell).mpr
      ⟨cmd, member, same, Nat.le_of_lt longer⟩
    rw [tokenEffect, handleCommand_bytes table token firstToken shell rfl,
      handleToken_other other nonempty, if_pos ⟨first, found⟩] at report
    have goesOn := congrArg Prod.fst (Option.some.inj report)
    contradiction
  · rintro ⟨filled, within⟩ bus shell pre post selected - - - refuses
    have other := mt (emptyCount_of_operation uncounted) filled
    rw [tokenEffect, handleCommand_bytes table token firstToken shell rfl,
      handleToken_other other nonempty, if_neg]
    · rw [handleBusCommand_refused selected refuses]
    · rintro ⟨first, found⟩
      rcases found_cases found with named | past
      · exact unnamed first named
      · exact within first past

/-- `5:x` -/
theorem malformed_token_reported_5x :
    tokenEffect [] [] [0x35, 0x3A, 0x78] [] true recording =
      some (refused recorder [0x35, 0x3A, 0x78] recording) := by
  have unread : ¬ IsOperation [0x35, 0x3A, 0x78] := by
    rintro (⟨-, accepted⟩ | read | read)
    · exact absurd ((accepted_iff _).mp accepted) (by decide)
    · contradiction
    · contradiction
  have uncounted : ¬ IsCounted [0x35, 0x3A, 0x78] :=
    fun counted => unread (counted.operation (by decide))
  have filled : ¬ EmptyCount [0x35, 0x3A, 0x78] := by
    rintro ⟨name, operation, cut⟩
    have last := congrArg List.getLast? cut
    simp at last
  let table : List (GlobalCommand (List Byte)) := []
  have unnamed : ¬ NamesCommand table [0x35, 0x3A, 0x78] := by
    rintro ⟨cmd, none, -⟩
    exact List.not_mem_nil none
  have within : ¬ ReadsPastName table [0x35, 0x3A, 0x78] := by
    rintro ⟨cmd, none, -⟩
    exact List.not_mem_nil none
  have reported := (malformed_token_reported_iff table [] [0x35, 0x3A, 0x78]
    true (by simp) (by decide) uncounted (fun _ => unnamed)).mpr
    ⟨filled, fun _ => within⟩
  exact reported recorder recording [] [] rfl rfl rfl rfl rfl

/-- `5:` does nothing, and nothing is reported. -/
theorem empty_count_not_reported :
    ¬ ∀ (table : List (GlobalCommand (List Byte))) (bus : BusInterface (List Byte))
      (shell : Shell (List Byte)) (token pre post : List Byte)
      (firstToken : Bool), token ≠ [] → token.length ≤ 63 →
      shell.currentBus = some bus → bus.write.isSome = true →
      bus.read.isSome = true → shell.duplex = false → ¬ IsCounted token →
      (firstToken = true → ¬ NamesCommand table token) →
      (offered bus token shell.board).1 = false →
      tokenEffect table pre token post firstToken shell =
        some (refused bus token shell) := by
  intro always
  have uncounted : ¬ IsCounted [0x35, 0x3A] := by
    rintro ⟨name, operation, rfl | ⟨count, some, -, cut⟩⟩
    · rcases operation with ⟨-, accepted⟩ | read | read
      · exact absurd ((accepted_iff _).mp accepted) (by decide)
      · contradiction
      · contradiction
    · rcases name with _ | ⟨c, _ | ⟨d, name⟩⟩
      · simp at cut
      · exact some (List.cons.inj (List.cons.inj cut).2).2.symm
      · simp at cut
  have report := always [] recorder recording [0x35, 0x3A] [] [] true (by simp)
    (by decide) rfl rfl rfl rfl uncounted (by rintro - ⟨cmd, none, -⟩; simp at none)
    rfl
  have nothing : tokenEffect [] [] [0x35, 0x3A] [] true recording =
      some (false, recording) := by rfl
  have silence : ([] : List Byte) = text "BadCmd" ++ [0x0D, 0x0A] :=
    congrArg (fun result => result.2.board.out.console.output)
      (Option.some.inj (nothing.symm.trans report))
  exact absurd silence (by decide)

end BusNinja
