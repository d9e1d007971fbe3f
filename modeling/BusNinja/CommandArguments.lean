import Mathlib.Data.List.TakeWhile
import BusNinja.NumeralReading
import BusNinja.Source.GlobalCommands

/-!
# What a global command reads

`tok` separates arguments by blanks only, so a comma, a bracket or a `#` is
part of an argument.  Its pointers stay inside the rest of the line, which
makes `tok_num` a function of the first argument.
-/

namespace BusNinja

/-- The first argument, empty if there is none. -/
def argument (args : List Byte) : List Byte :=
  (args.dropWhile isSpace).takeWhile fun c => !isSpace c

theorem tokLoop_bytes (skips : Byte → Bool) (rest : List Byte)
    {args pre : List Byte} (cut : args = pre ++ rest) :
    tokLoop args skips rest.length pre.length =
      some (pre.length + (rest.takeWhile skips).length) := by
  induction rest generalizing pre with
  | nil => rfl
  | cons c rest induction =>
      have read : args[pre.length]? = some c := by simp [cut]
      have shifted : args = (pre ++ [c]) ++ rest := by simp [cut]
      have later := induction shifted
      simp only [List.length_append, List.length_singleton] at later
      simp only [List.length_cons, tokLoop, read, later, Option.bind_eq_bind,
        Option.bind_some, List.takeWhile_cons]
      cases skips c with
      | false => rfl
      | true =>
          simp only [if_true, List.length_cons, Option.some.injEq]
          omega

theorem tokLoop_bounds {args : List Byte} {skips : Byte → Bool} {toGo start stop : Nat}
    (returns : tokLoop args skips toGo start = some stop) :
    start ≤ stop ∧ stop ≤ start + toGo := by
  induction toGo generalizing start with
  | zero =>
      cases returns
      exact ⟨le_rfl, le_rfl⟩
  | succ toGo induction =>
      rw [tokLoop] at returns
      obtain ⟨c, -, continued⟩ := Option.bind_eq_some_iff.mp returns
      split at continued
      · have later := induction continued
        omega
      · cases continued
        omega

/-- Both loops of `tok` end, and find the first argument of what is left. -/
theorem tok_rest {args pre rest : List Byte} (cut : args = pre ++ rest) :
    tok args pre.length =
      some (decide (argument rest ≠ []),
        pre.length + (rest.takeWhile isSpace).length,
        pre.length + (rest.takeWhile isSpace).length +
          (argument rest).length) := by
  have split : rest = rest.takeWhile isSpace ++ rest.dropWhile isSpace :=
    List.takeWhile_append_dropWhile.symm
  have lengths := congrArg List.length split
  have shifted : args = (pre ++ rest.takeWhile isSpace) ++
      rest.dropWhile isSpace := by
    rw [List.append_assoc, ← split, cut]
  have start := tokLoop_bytes isSpace rest cut
  have stop := tokLoop_bytes (!isSpace ·) (rest.dropWhile isSpace) shifted
  rw [List.length_append] at lengths stop
  have before : args.length - pre.length = rest.length := by
    simp [cut]
  have behind : args.length - (pre.length + (rest.takeWhile isSpace).length) =
      (rest.dropWhile isSpace).length := by
    omega
  simp only [tok, before, start, behind, stop, Option.bind_eq_bind,
    Option.bind_some]
  change some (_ + (argument rest).length != _, _, _ + (argument rest).length) = _
  cases argument rest with
  | nil => simp
  | cons c token => simp

theorem tok_bounds {args : List Byte} {tokStart start stop : Nat} {found : Bool}
    (inside : tokStart ≤ args.length)
    (returns : tok args tokStart = some (found, start, stop)) :
    start ≤ stop ∧ stop ≤ args.length := by
  obtain ⟨first, skipped, continued⟩ := Option.bind_eq_some_iff.mp returns
  obtain ⟨last, read, result⟩ := Option.bind_eq_some_iff.mp continued
  have startBounds := tokLoop_bounds skipped
  have stopBounds := tokLoop_bounds read
  cases result
  omega

theorem argument_split (args : List Byte) :
    args = args.takeWhile isSpace ++ argument args ++
      (args.dropWhile isSpace).dropWhile fun c => !isSpace c := by
  rw [argument, List.append_assoc, List.takeWhile_append_dropWhile,
    List.takeWhile_append_dropWhile]

theorem tokNum_rest {args pre rest : List Byte} (cut : args = pre ++ rest)
    (i : BitVec 32) :
    tokNum args pre.length i =
      some (if argument rest = [] then
          (false, pre.length + (rest.takeWhile isSpace).length,
            pre.length + (rest.takeWhile isSpace).length, i)
        else if (parsed (argument rest)).1 = true then
          (true,
            pre.length + (rest.takeWhile isSpace).length + (argument rest).length,
            pre.length + (rest.takeWhile isSpace).length + (argument rest).length,
            (parsed (argument rest)).2)
        else
          (false, pre.length + (rest.takeWhile isSpace).length,
            pre.length + (rest.takeWhile isSpace).length + (argument rest).length,
            (parsed (argument rest)).2)) := by
  have whole : args = (pre ++ rest.takeWhile isSpace) ++ argument rest ++
      (rest.dropWhile isSpace).dropWhile fun c => !isSpace c := by
    rw [List.append_assoc pre, List.append_assoc pre, ← argument_split, cut]
  have number := parseNumber_bytes (argument rest) whole
  rw [List.length_append] at number
  simp only [tokNum, tok_rest cut, Option.bind_eq_bind, Option.bind_some,
    Nat.add_sub_cancel_left, number]
  by_cases none : argument rest = []
  · simp [none]
  · simp only [none, not_false_eq_true, decide_true, ne_eq, if_true, if_false]
    rcases parsed (argument rest) with ⟨ok, num⟩
    cases ok <;> rfl

theorem tokNum_drop {args : List Byte} {tokStart : Nat}
    (inside : tokStart ≤ args.length) (i : BitVec 32) :
    ∃ ok num start stop start' stop',
      tokNum args tokStart i = some (ok, start, stop, num) ∧
      tokNum (args.drop tokStart) 0 i = some (ok, start', stop', num) := by
  have cut : args = args.take tokStart ++ args.drop tokStart :=
    (List.take_append_drop _ _).symm
  have position : (args.take tokStart).length = tokStart :=
    List.length_take_of_le inside
  have here := tokNum_rest cut i
  have there := tokNum_rest (List.nil_append (args.drop tokStart)).symm i
  rw [position] at here
  rw [List.length_nil] at there
  rw [here, there]
  split_ifs <;> exact ⟨_, _, _, _, _, _, rfl, rfl⟩

theorem tokNum_bytes (args : List Byte) (i : BitVec 32) :
    (tokNum args 0 i).map (fun result => (result.1, result.2.2.2)) =
      some (if argument args = [] then (false, i) else parsed (argument args)) := by
  have read : tokNum args 0 i = _ := tokNum_rest (List.nil_append args).symm i
  rw [read, Option.map_some]
  split
  · rfl
  · rcases parsed (argument args) with ⟨ok, num⟩
    cases ok <;> rfl

/-- The sequence that `led` selects: its range check after `tok_num`. -/
def ledSequence (args : List Byte) : Option Byte :=
  match tokNum args 0 0 with
  | some (true, _, _, num) =>
      if num ≥ ledSeqMax then none else some (num.setWidth 8)
  | _ => none

theorem globalCommandLed_sequence (args : List Byte) (board : Board Devices) :
    globalCommandLed args board =
      match ledSequence args with
      | some seq => (true, board.setSeq seq)
      | none => (false, board) := by
  unfold globalCommandLed ledSequence
  rcases tokNum args 0 0 with _ | ⟨ok, tokStart, tokEnd, num⟩
  · rfl
  · cases ok with
    | false => rfl
    | true =>
        dsimp only
        split <;> rfl

theorem ledSequence_argument (args : List Byte) :
    ledSequence args =
      if argument args ≠ [] ∧ (parsed (argument args)).1 = true ∧
          (parsed (argument args)).2 < ledSeqMax then
        some ((parsed (argument args)).2.setWidth 8)
      else none := by
  obtain ⟨⟨ok, tokStart, tokEnd, num⟩, read, result⟩ :=
    Option.map_eq_some_iff.mp (tokNum_bytes args 0)
  simp only at result
  simp only [ledSequence, read]
  by_cases none : argument args = []
  · rw [if_pos none] at result
    obtain ⟨rfl, rfl⟩ := Prod.mk.inj result
    simp [none]
  · rw [if_neg none] at result
    simp only [← result, none, ne_eq, not_false_eq_true, true_and]
    cases ok with
    | false => simp
    | true =>
        by_cases small : num < ledSeqMax
        · simp [small]
        · simp [small, BitVec.not_lt.mp small]

theorem ledSequence_lt {args : List Byte} {seq : Byte}
    (selected : ledSequence args = some seq) : seq.toNat < 7 := by
  rw [ledSequence_argument] at selected
  split at selected
  · next valid =>
      have small : (parsed (argument args)).2.toNat < 7 := valid.2.2
      rw [← Option.some.inj selected, BitVec.toNat_setWidth]
      omega
  · cases selected

/-- The length of a number has eight bits, so a longer one is cut. -/
theorem parsed_hash {bytes : List Byte} (hash : 0x23 ∈ bytes)
    (short : bytes.length < 256) : (parsed bytes).1 = false := by
  rw [← Bool.not_eq_true]
  intro accepted
  have byte := accepted_byte (by omega) accepted hash
  exact absurd byte (by decide)

/-- The first argument is followed by a blank. -/
def EndsInBlank (args : List Byte) : Prop :=
  ∃ c ∈ args.dropWhile isSpace, isSpace c = true

theorem argument_append_blank {args : List Byte} (ends : EndsInBlank args)
    (comment : List Byte) : argument (args ++ comment) = argument args := by
  obtain ⟨c, member, blank⟩ := ends
  have some : (args.dropWhile isSpace).isEmpty = false := by
    rw [List.isEmpty_eq_false_iff]
    exact List.ne_nil_of_mem member
  have stops : ((args.dropWhile isSpace).takeWhile fun c => !isSpace c).length ≠
      (args.dropWhile isSpace).length := by
    intro whole
    have all := List.takeWhile_eq_self_iff.mp
      ((List.takeWhile_prefix _).eq_of_length whole) c member
    simp [blank] at all
  rw [argument, argument, List.dropWhile_append, some, if_neg (by simp),
    List.takeWhile_append, if_neg stops]

theorem argument_append_hash {args : List Byte} (open' : ¬ EndsInBlank args)
    (rest : List Byte) : 0x23 ∈ argument (args ++ 0x23 :: rest) := by
  have inside : ∀ c ∈ args.dropWhile isSpace, (!isSpace c) = true := by
    intro c member
    by_contra blank
    exact open' ⟨c, member, by simpa using blank⟩
  have whole : (args ++ 0x23 :: rest).dropWhile isSpace =
      args.dropWhile isSpace ++ 0x23 :: rest := by
    rw [List.dropWhile_append]
    split
    · next empty =>
        rw [List.isEmpty_iff.mp empty]
        rfl
    · rfl
  rw [argument, whole, List.takeWhile_append_of_pos inside]
  exact List.mem_append_right _ (List.mem_cons_self)

/-- On a line of ordinary length a comment changes what `led` reads exactly
if it follows a valid number without a blank between them. -/
theorem ledSequence_comment_iff {args rest : List Byte}
    (short : args.length + rest.length < 255) :
    ledSequence (args ++ 0x23 :: rest) = ledSequence args ↔
      EndsInBlank args ∨ ledSequence args = none := by
  by_cases ends : EndsInBlank args
  · have same : ledSequence (args ++ 0x23 :: rest) = ledSequence args := by
      rw [ledSequence_argument, ledSequence_argument,
        argument_append_blank ends]
    exact ⟨fun _ => .inl ends, fun _ => same⟩
  · have hash := argument_append_hash ends rest
    have length : (argument (args ++ 0x23 :: rest)).length < 256 := by
      have taken := (List.takeWhile_sublist (fun c => !isSpace c)
        (l := (args ++ 0x23 :: rest).dropWhile isSpace)).length_le
      have dropped := (List.dropWhile_sublist isSpace
        (l := args ++ 0x23 :: rest)).length_le
      rw [List.length_append, List.length_cons] at dropped
      exact Nat.lt_of_le_of_lt (taken.trans dropped) (by omega)
    have fails : ledSequence (args ++ 0x23 :: rest) = none := by
      rw [ledSequence_argument, parsed_hash hash length]
      simp
    rw [fails]
    constructor
    · intro same
      exact .inr same.symm
    · rintro (blank | none)
      · exact absurd blank ends
      · exact none.symm

end BusNinja
