import BusNinja.Source.Commands

/-!
# What a token means

`handle_command` reads a token through pointers into the line.  What it does
depends only on the bytes of the token, and of what follows it only if the
token is a global command, and every byte it reads lies inside the line.
-/

namespace BusNinja

/-- The loop of `parse_number` on the bytes still to be read. -/
def parseBytes (len : Byte) :
    Nat → Byte → BitVec 32 → List Byte → Bool × BitVec 32
  | _, _, result, [] => (true, result)
  | i, base, result, c :: rest =>
      if result = 0 ∧ (i = 0 ∨ i = 1) ∧ c = 0x62 then
        if len < 2 then (false, result)
        else parseBytes len (i + 1) 2 result rest
      else if result = 0 ∧ i = 0 ∧ c = 0x68 then
        if len < 2 then (false, result)
        else parseBytes len (i + 1) 16 result rest
      else if result = 0 ∧ i = 1 ∧ c = 0x78 then
        if len < 3 then (false, result)
        else parseBytes len (i + 1) 16 result rest
      else if digitToInt c < base then
        parseBytes len (i + 1) base
          (result * base.setWidth 32 + (digitToInt c).setWidth 32) rest
      else (false, result)

/-- The number a string of bytes is read as; only so many of them are read as
eight bits can count. -/
def parsed (bytes : List Byte) : Bool × BitVec 32 :=
  let len := BitVec.ofNat 8 bytes.length
  parseBytes len 0 10 0 (bytes.take len.toNat)

/-- A token without its repeat suffix, and the count; `done` has been looked
at already. -/
def splitRepeat : List Byte → List Byte → BitVec 32 → List Byte × BitVec 32
  | done, [], count => (done, count)
  | done, c :: rest, count =>
      if c = 0x3A ∧ 0 < done.length then
        match parsed rest with
        | (true, num) => (done, num)
        | (false, _) => splitRepeat (done ++ [c]) rest 0
      else splitRepeat (done ++ [c]) rest count

/-- `memcmp_P(...) == 0` on the bytes still to be compared. -/
def memcmpBytes (name : FlashName) : Nat → List Byte → Bool
  | _, [] => true
  | i, c :: rest =>
      if c = name.byte i then memcmpBytes name (i + 1) rest else false

variable {δ : Type}

def globalCommand (cmdname args : List Byte) :
    List (GlobalCommand δ) → Shell δ → Bool × Shell δ
  | [], shell => (false, shell)
  | cmd :: table, shell =>
      if memcmpBytes cmd.name 0 cmdname = true ∧
          cmd.name.chars.length ≤ cmdname.length then
        let (ok, shell) := cmd.handler args shell
        (true, if !ok then shell.putLine "Error" else shell)
      else globalCommand cmdname args table shell

/-- What a token does; `after` is what follows it on the line. -/
def handleToken (table : List (GlobalCommand δ)) (token after : List Byte)
    (firstToken : Bool) (shell : Shell δ) : Bool × Shell δ :=
  let (name, count) := splitRepeat [] token 1
  let (isNumber, num) := parsed name
  if isNumber then
    match shell.numberHandler with
    | some act => (false, repeatCall (act (num.setWidth 8)) count shell)
    | none => badCmd shell
  else if name = [0x72] ∨ name = [0x52] then
    match shell.currentBus.bind BusInterface.read with
    | some act => (false, repeatCall act count shell)
    | none => badCmd shell
  else
    let (found, shell) :=
      if firstToken then
        globalCommand name (token.drop name.length ++ after) table shell
      else (false, shell)
    if found then (true, shell) else handleBusCommand name count shell

/-- An index into bytes of the line reads the first of them, and is then an
index into the rest. -/
theorem cursor_step {cmdline pre rest post : List Byte} {c : Byte} {base i : Nat}
    (cut : cmdline = pre ++ c :: rest ++ post)
    (position : base + i = pre.length) :
    cmdline[base + i]? = some c ∧ cmdline = (pre ++ [c]) ++ rest ++ post ∧
      base + (i + 1) = (pre ++ [c]).length := by
  refine ⟨?_, ?_, ?_⟩
  · rw [cut, position]
    simp
  · rw [cut]
    simp
  · simp [← position, Nat.add_assoc]

theorem parseLoop_bytes (bytes : List Byte) {cmdline pre post : List Byte}
    {str i : Nat} (len base : Byte) (result : BitVec 32)
    (cut : cmdline = pre ++ bytes ++ post) (position : str + i = pre.length) :
    parseLoop cmdline str len bytes.length i base result =
      some (parseBytes len i base result bytes) := by
  induction bytes generalizing pre i base result with
  | nil => rfl
  | cons c rest induction =>
      obtain ⟨read, shifted, next⟩ := cursor_step cut position
      have later := fun base result => induction base result shifted next
      simp only [List.length_cons, parseLoop, parseBytes, read, later,
        Option.bind_eq_bind, Option.bind_some]
      split_ifs <;> rfl

/-- The pointers of `parse_number` stay inside the bytes it is given. -/
theorem parseNumber_bytes (bytes : List Byte) {cmdline pre post : List Byte}
    (cut : cmdline = pre ++ bytes ++ post) :
    parseNumber cmdline pre.length (BitVec.ofNat 8 bytes.length) =
      some (parsed bytes) := by
  generalize lenEq : BitVec.ofNat 8 bytes.length = len
  have short : len.toNat ≤ bytes.length := by
    rw [← lenEq, BitVec.toNat_ofNat]
    exact Nat.mod_le _ _
  have taken : cmdline = pre ++ bytes.take len.toNat ++
      (bytes.drop len.toNat ++ post) := by
    calc cmdline = pre ++ (bytes.take len.toNat ++ bytes.drop len.toNat) ++ post := by
          rw [List.take_append_drop, cut]
      _ = pre ++ bytes.take len.toNat ++ (bytes.drop len.toNat ++ post) := by
          simp only [List.append_assoc]
  have loop := parseLoop_bytes (bytes.take len.toNat) len 10 0 taken
    (Nat.add_zero pre.length)
  rw [List.length_take, Nat.min_eq_left short] at loop
  rw [parseNumber, parsed, lenEq]
  exact loop

theorem findRepeat_bytes (rest : List Byte) {cmdline pre done post : List Byte}
    (count : BitVec 32) (cut : cmdline = pre ++ (done ++ rest) ++ post) :
    findRepeat cmdline pre.length rest.length (pre.length + done.length) count =
      some (pre.length + (splitRepeat done rest count).1.length,
        (splitRepeat done rest count).2) := by
  induction rest generalizing done count with
  | nil => rfl
  | cons c rest induction =>
      have read : cmdline[pre.length + done.length]? = some c := by
        rw [cut]
        simp
      have number : parseNumber cmdline (pre.length + done.length + 1)
          (BitVec.ofNat 8 rest.length) = some (parsed rest) := by
        have suffix : cmdline = (pre ++ done ++ [c]) ++ rest ++ post := by
          rw [cut]
          simp
        have parse := parseNumber_bytes rest suffix
        simpa [Nat.add_assoc] using parse
      have shifted : cmdline = pre ++ ((done ++ [c]) ++ rest) ++ post := by
        rw [cut]
        simp
      have later := fun count => induction count shifted
      simp only [List.length_append, List.length_singleton,
        ← Nat.add_assoc] at later
      simp only [List.length_cons, findRepeat, splitRepeat, read, number, later,
        Option.bind_eq_bind, Option.bind_some, Nat.add_sub_cancel_left]
      split
      · rcases parsed rest with ⟨ok, num⟩
        cases ok <;> rfl
      · rfl

theorem findRepeat_bounds {cmdline : List Byte} {start toGo ptr stop : Nat} {initial count : BitVec 32}
    (returns : findRepeat cmdline start toGo ptr initial =
      some (stop, count)) :
    ptr ≤ stop ∧ stop ≤ ptr + toGo := by
  induction toGo generalizing ptr initial with
  | zero =>
      cases returns
      exact ⟨Nat.le_refl _, Nat.le_refl _⟩
  | succ toGo induction =>
      rw [findRepeat] at returns
      obtain ⟨c, -, continued⟩ := Option.bind_eq_some_iff.mp returns
      split at continued
      · obtain ⟨⟨ok, num⟩, -, parsed⟩ := Option.bind_eq_some_iff.mp continued
        cases ok with
        | true =>
            cases parsed
            omega
        | false =>
            have later := induction parsed
            omega
      · have later := induction continued
        omega

theorem splitRepeat_prefix (rest : List Byte) (done : List Byte)
    (count : BitVec 32) :
    ∃ suffix, done ++ rest = (splitRepeat done rest count).1 ++ suffix := by
  induction rest generalizing done count with
  | nil => exact ⟨[], rfl⟩
  | cons c rest induction =>
      have later : ∀ count, ∃ suffix, done ++ c :: rest =
          (splitRepeat (done ++ [c]) rest count).1 ++ suffix := by
        intro count
        obtain ⟨suffix, split⟩ := induction (done ++ [c]) count
        exact ⟨suffix, by rw [← split]; simp⟩
      simp only [splitRepeat]
      split
      · rcases parsed rest with ⟨ok, num⟩
        cases ok with
        | false => exact later 0
        | true => exact ⟨c :: rest, rfl⟩
      · exact later count

theorem memcmpP_bytes (name : FlashName) (bytes : List Byte)
    {cmdline pre post : List Byte} {cmdname i : Nat}
    (cut : cmdline = pre ++ bytes ++ post) (position : cmdname + i = pre.length) :
    memcmpP cmdline cmdname name bytes.length i =
      some (memcmpBytes name i bytes) := by
  induction bytes generalizing pre i with
  | nil => rfl
  | cons c rest induction =>
      obtain ⟨read, shifted, next⟩ := cursor_step cut position
      simp only [List.length_cons, memcmpP, memcmpBytes, read,
        induction shifted next, Option.bind_eq_bind, Option.bind_some]
      split <;> rfl

theorem handleGlobalCommand_bytes (cmdname : List Byte)
    (table : List (GlobalCommand δ)) (shell : Shell δ)
    {cmdline pre post : List Byte} (cut : cmdline = pre ++ cmdname ++ post) :
    handleGlobalCommand cmdline pre.length cmdname.length table shell =
      some (globalCommand cmdname post table shell) := by
  have args : cmdline.drop (pre.length + cmdname.length) = post := by
    rw [cut, ← List.length_append]
    exact List.drop_left
  induction table with
  | nil => rfl
  | cons cmd table induction =>
      have same := memcmpP_bytes cmd.name cmdname cut (Nat.add_zero pre.length)
      simp only [handleGlobalCommand, globalCommand, same, args, induction,
        Option.bind_eq_bind, Option.bind_some]
      split <;> rfl

theorem isRead_bytes (name : List Byte) {cmdline pre post : List Byte}
    (cut : cmdline = pre ++ name ++ post) :
    isRead cmdline pre.length name.length =
      some (decide (name = [0x72] ∨ name = [0x52])) := by
  rcases name with _ | ⟨c, _ | ⟨d, rest⟩⟩
  · rfl
  · have read : cmdline[pre.length]? = some c := by
      rw [cut]
      simp
    simp [isRead, read]
  · simp [isRead]

/-- `handle_command` is total on a token of the line, and does what the
bytes of the token mean. -/
theorem handleCommand_bytes (table : List (GlobalCommand δ))
    (token : List Byte) (firstToken : Bool) (shell : Shell δ)
    {cmdline pre post : List Byte} (cut : cmdline = pre ++ token ++ post) :
    handleCommand table cmdline pre.length (pre.length + token.length) firstToken
        shell =
      some (handleToken table token post firstToken shell) := by
  have suffixed : cmdline = pre ++ ([] ++ token) ++ post := cut
  have split := findRepeat_bytes token 1 suffixed
  obtain ⟨suffix, front⟩ := splitRepeat_prefix token [] 1
  rw [List.length_nil, Nat.add_zero] at split
  rw [List.nil_append] at front
  simp only [handleCommand, handleToken, Nat.add_sub_cancel_left, split,
    Option.bind_eq_bind, Option.bind_some]
  generalize (splitRepeat [] token 1).1 = name at front ⊢
  generalize (splitRepeat [] token 1).2 = count
  have named : cmdline = pre ++ name ++ (suffix ++ post) := by
    rw [cut, front]
    simp
  have dropped : token.drop name.length = suffix := by
    rw [front]
    exact List.drop_left
  have slice : (cmdline.drop pre.length).take name.length = name := by
    rw [named, List.append_assoc, List.drop_left, List.take_left]
  have global := handleGlobalCommand_bytes name table shell named
  simp only [parseNumber_bytes name named, isRead_bytes name named, global,
    Option.bind_some, dropped, slice]
  split
  · cases shell.numberHandler <;> rfl
  · simp only [decide_eq_true_eq]
    split
    · cases shell.currentBus.bind BusInterface.read <;> rfl
    · cases firstToken with
      | false => rfl
      | true =>
          simp only [if_true]
          split <;> rfl

end BusNinja
