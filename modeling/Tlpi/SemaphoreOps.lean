import Mathlib.Data.BitVec
import Mathlib.Data.List.Basic
import Tlpi.CStrings
import Tlpi.Numerals

/-!
svsem/svsem_op.c: `parseOps`, which reads the operations of one `semop` call from an
argument. A pointer into the argument is the text from there on. `cmdLineErr` and `fatal`
end the program with the text that they are given.
-/

namespace Tlpi.SemaphoreOps

open CStrings Numerals
open DecimalText (isdigit printed)

def comma : UInt8 := 44
def plus : UInt8 := 43
def minus : UInt8 := 45
def equal : UInt8 := 61

def MAX_SEMOPS : Nat := 1000

def IPC_NOWAIT : BitVec 16 := 0x800#16
def SEM_UNDO : BitVec 16 := 0x1000#16

/-- An unsigned short, a short and a short. -/
structure Sembuf where
  sem_num : BitVec 16
  sem_op : BitVec 16
  sem_flg : BitVec 16
  deriving DecidableEq

inductive Failure where
  | cmdLineErr (text : Str)
  | fatal (text : Str)
  deriving DecidableEq

def quoted (before arg : Str) : Str := before ++ literal "\"" ++ arg ++ literal "\""

def cmdLineErr (before arg : Str) : Failure := .cmdLineErr (quoted before arg ++ literal "\n")

/-- The loop over the flags: what they mean, and the text after them. -/
def parseFlags (sem_flg : BitVec 16) : Str → BitVec 16 × Str
  | [] => (sem_flg, [])
  | ch :: flags =>
      if ch = 110 then parseFlags (sem_flg ||| IPC_NOWAIT) flags
      else if ch = 117 then parseFlags (sem_flg ||| SEM_UNDO) flags
      else (sem_flg, ch :: flags)

/-- One operation; the comma or the end after it is only looked at. -/
def parseOp (arg remaining : Str) : Except Failure Sembuf :=
  match remaining with
  | [] => .error (.fatal (quoted (literal "Trailing comma or empty argument: ") arg))
  | first :: _ =>
      if isdigit first = false then .error (cmdLineErr (literal "Expected initial digit: ") arg)
      else
        let num := strtol remaining 10
        match num.endptr with
        | [] => .error (cmdLineErr (literal "Expected '+', '-', or '=' in ") arg)
        | sign :: after =>
            if sign ≠ plus ∧ sign ≠ minus ∧ sign ≠ equal then
              .error (cmdLineErr (literal "Expected '+', '-', or '=' in ") arg)
            else if (after.head?.any isdigit) = false then
              .error (cmdLineErr (literal "Expected digit after '" ++ [sign] ++
                literal "' in ") arg)
            else
              let value := strtol after 10
              let sem_op := BitVec.ofInt 16 value.value
              if sign = equal ∧ sem_op ≠ 0#16 then
                .error (cmdLineErr (literal "Expected \"=0\" in ") arg)
              else
                let flags := parseFlags 0#16 value.endptr
                match flags.2.head? with
                | none => .ok ⟨BitVec.ofInt 16 num.value, if sign = minus then -sem_op
                    else sem_op, flags.1⟩
                | some ch =>
                    if ch = comma then
                      .ok ⟨BitVec.ofInt 16 num.value, if sign = minus then -sem_op
                        else sem_op, flags.1⟩
                    else .error (cmdLineErr (literal "Bad trailing character (" ++ [ch] ++
                      literal ") in ") arg)

/-- The loop of `parseOps` with `numOps` operations behind it. -/
def parseLoop (arg : Str) (numOps : Nat) (remaining : Str) : Except Failure (List Sembuf) :=
  if numOps ≥ MAX_SEMOPS then
    .error (cmdLineErr (literal "Too many operations (maximum=" ++ printed MAX_SEMOPS ++
      literal "): ") arg)
  else
    match parseOp arg remaining with
    | .error failure => .error failure
    | .ok sop =>
        match left : remaining.dropWhile (· ≠ comma) with
        | [] => .ok [sop]
        | _ :: next => (parseLoop arg (numOps + 1) next).map (sop :: ·)
termination_by remaining.length
decreasing_by
  have shorter := (List.dropWhile_sublist (p := (· ≠ comma)) (l := remaining)).length_le
  rw [left, List.length_cons] at shorter
  omega

/-- The array `sops` as far as it has been filled; its length is what is returned. -/
def parseOps (arg : Str) : Except Failure (List Sembuf) := parseLoop arg 0 arg

/-! What is written. -/

/-- An operation as it is written: two numerals with a sign between them, and flags. -/
structure Op where
  num : Str
  sign : UInt8
  value : Str
  flags : Str
  deriving DecidableEq

def Op.text (op : Op) : Str := op.num ++ op.sign :: (op.value ++ op.flags)

structure Op.WellFormed (op : Op) : Prop where
  num : op.num ≠ [] ∧ ∀ ch ∈ op.num, isdigit ch = true
  sign : op.sign = plus ∨ op.sign = minus ∨ op.sign = equal
  value : op.value ≠ [] ∧ ∀ ch ∈ op.value, isdigit ch = true
  flags : ∀ ch ∈ op.flags, ch = 110 ∨ ch = 117

def flagBit (ch : UInt8) : BitVec 16 := if ch = 110 then IPC_NOWAIT else SEM_UNDO

/-- The union of the flags. -/
def flagBits (flags : Str) : BitVec 16 := flags.foldl (fun sofar ch => sofar ||| flagBit ch) 0#16

/-- The operation that `parseOps` makes of it, with both numbers narrowed. -/
def narrowed (op : Op) : Sembuf :=
  let sem_op := BitVec.ofInt 16 (clamp (magnitude 10 op.value))
  ⟨BitVec.ofInt 16 (clamp (magnitude 10 op.num)), if op.sign = minus then -sem_op else sem_op,
    flagBits op.flags⟩

/-- The test after '=' is made on the short. -/
def PassesZero (op : Op) : Prop :=
  op.sign = equal → BitVec.ofInt 16 (clamp (magnitude 10 op.value)) = 0#16

theorem parse_flags_append (flags tail : Str) (each : ∀ ch ∈ flags, ch = 110 ∨ ch = 117)
    (ends : ∀ ch, tail.head? = some ch → ch = comma) (sofar : BitVec 16) :
    parseFlags sofar (flags ++ tail) =
      (flags.foldl (fun sofar ch => sofar ||| flagBit ch) sofar, tail) := by
  induction flags generalizing sofar with
  | nil =>
      cases tail with
      | nil => rfl
      | cons ch rest =>
          cases ends ch rfl
          rfl
  | cons ch flags ih =>
      have later := ih fun other member => each other (List.mem_cons_of_mem ch member)
      rcases each ch List.mem_cons_self with rfl | rfl
      · exact later (sofar ||| IPC_NOWAIT)
      · exact later (sofar ||| SEM_UNDO)

theorem parse_flags_split (text : Str) (sofar : BitVec 16) :
    ∃ flags tail, text = flags ++ tail ∧ (∀ ch ∈ flags, ch = 110 ∨ ch = 117) ∧
      parseFlags sofar text = (flags.foldl (fun sofar ch => sofar ||| flagBit ch) sofar, tail) := by
  induction text generalizing sofar with
  | nil => exact ⟨[], [], rfl, by simp, rfl⟩
  | cons ch text ih =>
      unfold parseFlags
      split
      · next same =>
          subst same
          obtain ⟨flags, tail, rfl, each, bits⟩ := ih (sofar ||| IPC_NOWAIT)
          exact ⟨110 :: flags, tail, rfl, by simpa using each, bits⟩
      · split
        · next same =>
            subst same
            obtain ⟨flags, tail, rfl, each, bits⟩ := ih (sofar ||| SEM_UNDO)
            exact ⟨117 :: flags, tail, rfl, by simpa using each, bits⟩
        · exact ⟨[], ch :: text, rfl, by simp, rfl⟩

/-- Where an operation may end. -/
def Ended (tail : Str) : Prop := ∀ ch, tail.head? = some ch → ch = comma

theorem sign_not_digit (op : Op) (fine : op.WellFormed) : isdigit op.sign = false := by
  rcases fine.sign with same | same | same <;> (rw [same]; decide)

/-- After the second numeral there are flags, a comma or nothing. -/
theorem flags_not_digit (op : Op) (fine : op.WellFormed) (tail : Str)
    (ended : Ended tail) (ch : UInt8) (first : (op.flags ++ tail).head? = some ch) :
    isdigit ch = false := by
  cases same : op.flags with
  | nil =>
      rw [same] at first
      cases ended ch first
      decide
  | cons flag rest =>
      rw [same] at first
      cases first
      rcases fine.flags ch (by rw [same]; exact List.mem_cons_self) with rfl | rfl <;> decide

theorem parse_op_text (arg : Str) (op : Op) (fine : op.WellFormed)
    (zero : PassesZero op) (tail : Str) (ended : Ended tail) :
    parseOp arg (op.text ++ tail) = .ok (narrowed op) := by
  obtain ⟨first, rest, num⟩ := List.exists_cons_of_ne_nil fine.num.1
  obtain ⟨second, more, value⟩ := List.exists_cons_of_ne_nil fine.value.1
  have digit : isdigit first = true := fine.num.2 first (by rw [num]; exact List.mem_cons_self)
  have other : isdigit second = true :=
    fine.value.2 second (by rw [value]; exact List.mem_cons_self)
  have whole : op.text ++ tail = op.num ++ op.sign :: (op.value ++ (op.flags ++ tail)) := by
    simp [Op.text]
  have leading :=
    strtol_digits op.num (op.sign :: (op.value ++ (op.flags ++ tail))) fine.num.1 fine.num.2 (by
      intro ch same
      cases same
      exact sign_not_digit op fine)
  have trailing := strtol_digits op.value (op.flags ++ tail) fine.value.1 fine.value.2
    (flags_not_digit op fine tail ended)
  have signed : ¬ (op.sign ≠ plus ∧ op.sign ≠ minus ∧ op.sign ≠ equal) := by
    rintro ⟨one, two, three⟩
    rcases fine.sign with same | same | same
    · exact one same
    · exact two same
    · exact three same
  have start : (op.value ++ (op.flags ++ tail)).head?.any isdigit = true := by
    rw [value]
    exact other
  have zeroed :
      ¬ (op.sign = equal ∧ BitVec.ofInt 16 (clamp (magnitude 10 op.value)) ≠ 0#16) := by
    rintro ⟨same, bad⟩
    exact bad (zero same)
  have bits := parse_flags_append op.flags tail fine.flags ended 0#16
  rw [whole]
  unfold parseOp
  split
  · next empty => simp [num] at empty
  · next head others same =>
      have here : head = first := by
        rw [num] at same
        exact (List.cons.inj same).1.symm
      subst here
      simp only [digit, Bool.true_eq_false, if_false, leading, if_neg signed, start, trailing,
        if_neg zeroed, bits]
      cases last : tail.head? with
      | none => rfl
      | some ch =>
          cases ended ch last
          rfl

theorem parse_op_ok (arg remaining : Str) (sop : Sembuf)
    (parsed : parseOp arg remaining = .ok sop) :
    ∃ op tail, remaining = op.text ++ tail ∧ op.WellFormed ∧ PassesZero op ∧ Ended tail ∧
      sop = narrowed op := by
  unfold parseOp at parsed
  split at parsed
  · cases parsed
  · next first rest =>
      split at parsed
      · cases parsed
      · next begins =>
          obtain ⟨num, after, whole, some_, digits, ends⟩ :=
            digits_first (first :: rest) (by simpa using begins)
          have leading := strtol_digits num after some_ digits ends
          rw [whole] at parsed ⊢
          simp only [leading] at parsed
          split at parsed
          · cases parsed
          · next sign text =>
              split at parsed
              · cases parsed
              · next signed =>
                  split at parsed
                  · cases parsed
                  · next begins =>
                      obtain ⟨value, after, rfl, nonempty, figures, stops⟩ :=
                        digits_first text (by simpa using begins)
                      have trailing := strtol_digits value after nonempty figures stops
                      simp only [trailing] at parsed
                      split at parsed
                      · cases parsed
                      · next zero =>
                          obtain ⟨flags, tail, rfl, each, bits⟩ := parse_flags_split after 0#16
                          rw [bits] at parsed
                          have fine : (⟨num, sign, value, flags⟩ : Op).WellFormed := by
                            refine ⟨⟨some_, digits⟩, ?_, ⟨nonempty, figures⟩, each⟩
                            by_contra none_
                            rw [not_or, not_or] at none_
                            exact signed none_
                          have passes : PassesZero ⟨num, sign, value, flags⟩ := by
                            intro same
                            by_contra bad
                            exact zero ⟨same, bad⟩
                          refine ⟨⟨num, sign, value, flags⟩, tail,
                            by simp [Op.text], fine, passes, ?_⟩
                          split at parsed
                          · next last =>
                              cases parsed
                              refine ⟨fun ch found => ?_, rfl⟩
                              rw [show tail.head? = none from last] at found
                              cases found
                          · next ch last =>
                              split at parsed
                              · next same =>
                                  cases parsed
                                  refine ⟨fun other found => ?_, rfl⟩
                                  rw [show tail.head? = some ch from last] at found
                                  cases found
                                  exact same
                              · cases parsed

theorem text_plain (op : Op) (fine : op.WellFormed) : comma ∉ op.text := by
  intro member
  rw [Op.text, List.mem_append, List.mem_cons, List.mem_append] at member
  rcases member with inside | same | inside | inside
  · exact absurd (fine.num.2 comma inside) (by decide)
  · rcases fine.sign with sign | sign | sign <;> (rw [sign] at same; cases same)
  · exact absurd (fine.value.2 comma inside) (by decide)
  · rcases fine.flags comma inside with bad | bad <;> cases bad

theorem parse_loop_eq (arg : Str) (numOps : Nat) (remaining : Str) (few : numOps < MAX_SEMOPS)
    (sop : Sembuf) (parsed : parseOp arg remaining = .ok sop) :
    parseLoop arg numOps remaining =
      match remaining.dropWhile (· ≠ comma) with
      | [] => .ok [sop]
      | _ :: next => (parseLoop arg (numOps + 1) next).map (sop :: ·) := by
  rw [parseLoop, if_neg (Nat.not_le.mpr few), parsed]
  dsimp only
  split
  · next same => rw [same]
  · next same => rw [same]

/-- One turn of the loop, when the text begins with an operation. -/
theorem parse_loop_op (arg : Str) (numOps : Nat) (few : numOps < MAX_SEMOPS) (op : Op)
    (fine : op.WellFormed) (zero : PassesZero op) :
    parseLoop arg numOps op.text = .ok [narrowed op] ∧
      ∀ more, parseLoop arg numOps (op.text ++ comma :: more) =
        (parseLoop arg (numOps + 1) more).map (narrowed op :: ·) := by
  constructor
  · have ended : Ended [] := fun ch bad => by cases bad
    have parsed := parse_op_text arg op fine zero [] ended
    have left := dropWhile_part comma op.text [] (text_plain op fine) ended
    rw [List.append_nil] at parsed left
    rw [parse_loop_eq arg numOps op.text few _ parsed, left]
  · intro more
    have ended : Ended (comma :: more) := fun ch same => (Option.some.inj same).symm
    have parsed := parse_op_text arg op fine zero (comma :: more) ended
    rw [parse_loop_eq arg numOps _ few _ parsed,
        dropWhile_part comma op.text _ (text_plain op fine) ended]

theorem parse_loop_text (arg remaining : Str) (ops : List Op)
    (cut : remaining.splitOn comma = ops.map Op.text)
    (fine : ∀ op ∈ ops, op.WellFormed ∧ PassesZero op) (numOps : Nat)
    (few : numOps + ops.length ≤ MAX_SEMOPS) :
    parseLoop arg numOps remaining = .ok (ops.map narrowed) := by
  induction ops generalizing remaining numOps with
  | nil => exact absurd cut (List.splitOn_ne_nil comma remaining)
  | cons op ops ih =>
      obtain ⟨good, zero⟩ := fine op List.mem_cons_self
      rw [List.length_cons] at few
      obtain ⟨single, several⟩ := parse_loop_op arg numOps (by omega) op good zero
      obtain ⟨_, ⟨rfl, none_⟩ | ⟨more, rfl, parts⟩⟩ :=
        split_cons comma remaining op.text (ops.map Op.text) cut
      · rw [List.map_eq_nil_iff.mp none_]
        exact single
      · have later := ih more parts (fun op member => fine op (List.mem_cons_of_mem _ member))
          (numOps + 1) (by omega)
        rw [several more, later]
        rfl

theorem parse_loop_ok (arg remaining : Str) (numOps : Nat) (sops : List Sembuf)
    (parsed : parseLoop arg numOps remaining = .ok sops) :
    ∃ ops : List Op, remaining.splitOn comma = ops.map Op.text ∧
      (∀ op ∈ ops, op.WellFormed ∧ PassesZero op) ∧
      numOps + ops.length ≤ MAX_SEMOPS ∧ sops = ops.map narrowed := by
  induction size : remaining.length
    using Nat.strong_induction_on generalizing remaining numOps sops with
  | _ size' ih =>
      have few : numOps < MAX_SEMOPS := by
        by_contra many
        rw [parseLoop, if_pos (Nat.le_of_not_lt many)] at parsed
        cases parsed
      cases one : parseOp arg remaining with
      | error failure =>
          rw [parseLoop, if_neg (Nat.not_le.mpr few), one] at parsed
          cases parsed
      | ok sop =>
          obtain ⟨op, tail, rfl, fine, zero, ended, rfl⟩ := parse_op_ok arg remaining sop one
          obtain ⟨single, several⟩ := parse_loop_op arg numOps few op fine zero
          cases tail with
          | nil =>
              rw [List.append_nil] at parsed ⊢
              rw [single] at parsed
              cases parsed
              exact ⟨[op], List.splitOn_eq_singleton (text_plain op fine),
                by simpa using ⟨fine, zero⟩, few, rfl⟩
          | cons ch more =>
              cases ended ch rfl
              rw [several more] at parsed
              cases later : parseLoop arg (numOps + 1) more with
              | error failure =>
                  rw [later] at parsed
                  cases parsed
              | ok others =>
                  rw [later] at parsed
                  cases parsed
                  obtain ⟨ops, cut, each, bound, rfl⟩ :=
                    ih more.length (by simp [← size]; omega) more (numOps + 1)
                      others later rfl
                  refine ⟨op :: ops, ?_, ?_, ?_, rfl⟩
                  · rw [List.splitOn_append_cons_self_of_not_mem (text_plain op fine), cut]
                    rfl
                  · exact List.forall_mem_cons.mpr ⟨⟨fine, zero⟩, each⟩
                  · rw [List.length_cons]
                    omega

/-! What an operation should mean, and when the narrowed numbers say it. -/

structure Means (op : Op) (sop : Sembuf) : Prop where
  sem_num : sop.sem_num.toNat = magnitude 10 op.num
  sem_op : sop.sem_op.toInt =
    if op.sign = plus then (magnitude 10 op.value : Int)
    else if op.sign = minus then -(magnitude 10 op.value : Int)
    else 0
  sem_flg : sop.sem_flg = flagBits op.flags

/-- Only a list of operations is accepted, and each of them is what is written. -/
def Denotes (arg : Str) (result : Except Failure (List Sembuf)) : Prop :=
  ∀ sops, result = .ok sops → ∃ ops : List Op, arg.splitOn comma = ops.map Op.text ∧
    (1 ≤ ops.length ∧ ops.length ≤ MAX_SEMOPS) ∧
    (∀ op ∈ ops, op.WellFormed ∧ (op.sign = equal → magnitude 10 op.value = 0)) ∧
      List.Forall₂ Means ops sops

/-- The numbers fit into the fields, and after '=' there is a zero. -/
structure InRange (op : Op) : Prop where
  num : magnitude 10 op.num < 2 ^ 16
  added : op.sign = plus → magnitude 10 op.value < 2 ^ 15
  subtracted : op.sign = minus → magnitude 10 op.value ≤ 2 ^ 15
  zero : op.sign = equal → magnitude 10 op.value = 0

/-- Where the grammar and the tests let an argument pass, its numbers are in range. -/
def Fits (arg : Str) : Prop :=
  ∀ ops : List Op, arg.splitOn comma = ops.map Op.text → ops.length ≤ MAX_SEMOPS →
    (∀ op ∈ ops, op.WellFormed ∧
      (op.sign = equal → clamp (magnitude 10 op.value) % 2 ^ 16 = 0)) →
    ∀ op ∈ ops, InRange op

theorem passes_zero_iff (op : Op) :
    PassesZero op ↔ (op.sign = equal → clamp (magnitude 10 op.value) % 2 ^ 16 = 0) := by
  unfold PassesZero
  refine imp_congr_right fun _ => ?_
  have zero : (0#16).toNat = 0 := rfl
  rw [BitVec.toNat_eq, BitVec.toNat_ofInt, zero]
  omega

theorem num_narrowed (number : Nat) :
    (BitVec.ofInt 16 (clamp number)).toNat = number ↔ number < 2 ^ 16 := by
  rw [BitVec.toNat_ofInt]
  unfold clamp
  omega

theorem plus_narrowed (number : Nat) :
    (BitVec.ofInt 16 (clamp number)).toInt = number ↔ number < 2 ^ 15 := by
  rw [BitVec.toInt_ofInt, Int.bmod_def]
  unfold clamp
  omega

theorem minus_narrowed (number : Nat) :
    (-BitVec.ofInt 16 (clamp number)).toInt = -number ↔ number ≤ 2 ^ 15 := by
  rw [BitVec.toInt_neg, BitVec.toInt_ofInt, Int.bmod_def, Int.bmod_def]
  unfold clamp
  omega

theorem means_iff (op : Op) (fine : op.WellFormed) (zero : PassesZero op) :
    Means op (narrowed op) ∧ (op.sign = equal → magnitude 10 op.value = 0) ↔ InRange op := by
  constructor
  · rintro ⟨means, equal⟩
    refine ⟨(num_narrowed _).mp means.sem_num, fun same => ?_, fun same => ?_, equal⟩
    · have told := means.sem_op
      rw [if_pos same, narrowed, if_neg (by rw [same]; decide)] at told
      exact (plus_narrowed _).mp told
    · have told := means.sem_op
      rw [if_neg (by rw [same]; decide), if_pos same, narrowed, if_pos same] at told
      exact (minus_narrowed _).mp told
  · intro inside
    refine ⟨⟨(num_narrowed _).mpr inside.num, ?_, rfl⟩, inside.zero⟩
    rcases fine.sign with same | same | same
    · rw [if_pos same, narrowed, if_neg (by rw [same]; decide)]
      exact (plus_narrowed _).mpr (inside.added same)
    · rw [if_neg (by rw [same]; decide), if_pos same, narrowed, if_pos same]
      exact (minus_narrowed _).mpr (inside.subtracted same)
    · rw [if_neg (by rw [same]; decide), if_neg (by rw [same]; decide), narrowed,
        if_neg (by rw [same]; decide), zero same]
      rfl

/-- A text is the text of one operation only. -/
theorem text_injective (op other : Op) (fine : op.WellFormed) (good : other.WellFormed)
    (same : op.text = other.text) : op = other := by
  have stops : ∀ op : Op, op.WellFormed →
      DecimalText.Ends (op.sign :: (op.value ++ op.flags)) := by
    rintro op fine ch rest begins
    cases begins
    exact sign_not_digit op fine
  have ends : ∀ op : Op, op.WellFormed → DecimalText.Ends op.flags := by
    intro op fine ch rest begins
    refine flags_not_digit op fine [] (fun ch bad => by cases bad) ch ?_
    rw [begins]
    rfl
  have nums : op.num = other.num := by
    have taken := DecimalText.take_digits op.num _ fine.num.2 (stops op fine)
    rw [← taken, ← DecimalText.take_digits other.num _ good.num.2 (stops other good)]
    exact congrArg (List.takeWhile isdigit) same
  unfold Op.text at same
  rw [nums] at same
  obtain ⟨signs, tails⟩ := List.cons.inj (List.append_cancel_left same)
  have values : op.value = other.value := by
    have taken := DecimalText.take_digits op.value _ fine.value.2 (ends op fine)
    rw [← taken, ← DecimalText.take_digits other.value _ good.value.2 (ends other good), tails]
  rw [values] at tails
  cases op
  cases other
  cases nums
  cases signs
  cases values
  cases List.append_cancel_left tails
  rfl

theorem texts_injective (ops others : List Op) (fine : ∀ op ∈ ops, op.WellFormed)
    (good : ∀ op ∈ others, op.WellFormed) (same : ops.map Op.text = others.map Op.text) :
    ops = others := by
  induction ops generalizing others with
  | nil => exact (List.map_eq_nil_iff.mp same.symm).symm
  | cons op ops ih =>
      cases others with
      | nil => cases same
      | cons other others =>
          obtain ⟨first, rest⟩ := List.cons.inj same
          rw [text_injective op other (fine op List.mem_cons_self)
              (good other List.mem_cons_self) first,
            ih others (fun op member => fine op (List.mem_cons_of_mem _ member))
              (fun op member => good op (List.mem_cons_of_mem _ member)) rest]

theorem denotes_fits (arg : Str) (denotes : Denotes arg (parseOps arg)) : Fits arg := by
  intro ops cut few fine
  have passes : ∀ op ∈ ops, op.WellFormed ∧ PassesZero op := fun op member =>
    ⟨(fine op member).1, (passes_zero_iff op).mpr (fine op member).2⟩
  obtain ⟨others, again, _, good, means⟩ :=
    denotes _ (parse_loop_text arg arg ops cut passes 0 (by omega))
  have same : ops = others := texts_injective ops others (fun op member => (fine op member).1)
    (fun op member => (good op member).1) (cut.symm.trans again)
  subst same
  rw [List.forall₂_map_right_iff, List.forall₂_same] at means
  intro op member
  exact (means_iff op (passes op member).1 (passes op member).2).mp ⟨means op member,
    (good op member).2⟩

theorem fits_denotes (arg : Str) (fits : Fits arg) : Denotes arg (parseOps arg) := by
  intro sops parsed
  obtain ⟨ops, cut, fine, few, rfl⟩ := parse_loop_ok arg arg 0 sops parsed
  rw [Nat.zero_add] at few
  have inside := fits ops cut few fun op member =>
    ⟨(fine op member).1, (passes_zero_iff op).mp (fine op member).2⟩
  have means : ∀ op ∈ ops, Means op (narrowed op) ∧
      (op.sign = equal → magnitude 10 op.value = 0) :=
    fun op member => (means_iff op (fine op member).1 (fine op member).2).mpr (inside op member)
  refine ⟨ops, cut, ⟨?_, few⟩,
    fun op member => ⟨(fine op member).1, (means op member).2⟩, ?_⟩
  · rw [Nat.one_le_iff_ne_zero, Ne, List.length_eq_zero_iff]
    rintro rfl
    exact List.splitOn_ne_nil comma arg cut
  · rw [List.forall₂_map_right_iff, List.forall₂_same]
    exact fun op member => (means op member).1

/-- `parseOps` denotes what is written exactly when no number is changed by narrowing it. -/
theorem parse_ops_denotes_iff (arg : Str) : Denotes arg (parseOps arg) ↔ Fits arg := by
  exact ⟨denotes_fits arg, fits_denotes arg⟩

-- "65536+1" is an operation on semaphore 0.
theorem large_semaphore_wraps : ¬ ∀ arg : Str, Denotes arg (parseOps arg) := by
  intro claimed
  have op : (⟨literal "65536", plus, literal "1", []⟩ : Op).WellFormed :=
    ⟨⟨by decide, List.all_eq_true.mp rfl⟩, Or.inl rfl,
      ⟨by decide, List.all_eq_true.mp rfl⟩, by simp⟩
  have fits :=
    denotes_fits _ (claimed (literal "65536+1")) [⟨literal "65536", plus, literal "1", []⟩]
      (by decide) (by decide) (by simpa using ⟨op, fun bad => by cases bad⟩)
        _ List.mem_cons_self
  exact absurd fits.num (by decide)

end Tlpi.SemaphoreOps
