import Mathlib.Data.List.Basic
import Tlpi.CStrings
import Tlpi.DecimalText
import Tlpi.GetNum
import Tlpi.Numerals
import Tlpi.RandomAccess

/-!
fileio/seek_io.c: the arguments are commands that display, write and seek in one file. The
commands are compared with a log of the writes made so far, in which nothing is overwritten.
-/

namespace Tlpi.SeekIo

open CStrings RandomAccess

/-- `malloc` says which sizes can be had, and `limit` is the largest size of a file. -/
structure System where
  malloc : Nat → Bool
  limit : Nat

inductive Failure where
  | usageErr (text : Str)
  | cmdLineErr (text : Str)
  | errExit (text : Str)
  | gnFail (text : Str)
  deriving DecidableEq

structure State where
  file : List UInt8
  offset : Nat
  stdout : Str
  deriving DecidableEq

/-- The most that one `read` or `write` moves. -/
def MAX_RW_COUNT : Nat := 0x7ffff000

def isprint (ch : UInt8) : Bool := 32 ≤ ch && ch ≤ 126

/-- `(unsigned int) buf[j]` of a signed character. -/
def widened (byte : UInt8) : Nat := if byte < 128 then byte.toNat else 2 ^ 32 - 256 + byte.toNat

/-- The conversion `%02x`. -/
def hexadecimal (number : Nat) : Str :=
  ((Nat.toDigits 16 number).leftpad 2 '0').map fun ch => UInt8.ofNat ch.toNat

/-- One byte as `r` or `R` displays it. -/
def shown (kind byte : UInt8) : Str :=
  if kind = 114 then [if isprint byte then byte else 63] else hexadecimal (widened byte) ++ [32]

/-- What is printed for the bytes that have been read. -/
def displayed (arg : Str) (kind : UInt8) (bytes : List UInt8) : Str :=
  if bytes = [] then arg ++ literal ": end-of-file\n"
  else arg ++ literal ": " ++ bytes.flatMap (shown kind) ++ literal "\n"

def display (system : System) (kind : UInt8) (rest : Str) (state : State) : Except Failure State :=
  match GetNum.getLong (some rest) GetNum.GN_ANY_BASE (some (kind :: rest)) with
  | .error text => .error (.gnFail text)
  | .ok number =>
      let len := (number % 2 ^ 64).toNat
      if system.malloc len then
        let buf := fetch state.file state.offset (min len MAX_RW_COUNT)
        .ok { state with
          offset := state.offset + buf.length
          stdout := state.stdout ++ displayed (kind :: rest) kind buf }
      else .error (.errExit (literal "malloc"))

/-- How many bytes `write` moves; none if it fails. -/
def written (system : System) (text : Str) (offset : Nat) : Option Nat :=
  if text = [] then some 0
  else if system.limit ≤ offset then none
  else some (min (min text.length MAX_RW_COUNT) (system.limit - offset))

def command (system : System) (arg : Str) (state : State) : Except Failure State :=
  match arg with
  | [] => .error (.cmdLineErr (literal "Argument must start with [rRws]: \n"))
  | kind :: rest =>
      if kind = 114 ∨ kind = 82 then display system kind rest state
      else if kind = 119 then
        match written system rest state.offset with
        | none => .error (.errExit (literal "write"))
        | some numWritten =>
            .ok
              { file := store 0 state.file state.offset (rest.take numWritten)
                offset := state.offset + numWritten
                stdout := state.stdout ++ arg ++ literal ": wrote " ++
                  DecimalText.decimal numWritten ++
                  literal " bytes\n" }
      else if kind = 115 then
        match GetNum.getLong (some rest) GetNum.GN_ANY_BASE (some arg) with
        | .error text => .error (.gnFail text)
        | .ok offset =>
            if offset < 0 ∨ (system.limit : Int) < offset then .error (.errExit (literal "lseek"))
            else .ok { state with
              offset := offset.toNat
              stdout := state.stdout ++ arg ++ literal ": seek succeeded\n" }
      else .error (.cmdLineErr (literal "Argument must start with [rRws]: " ++ arg ++ literal "\n"))

/-- The loop over the arguments; what a program has done before it fails stays. -/
def loop (system : System) : List Str → State → State × Option Failure
  | [], state => (state, none)
  | arg :: rest, state =>
      match command system arg state with
      | .error failure => (state, some failure)
      | .ok next => loop system rest next

/-- `existing` is the file, if there is one; `opens` says whether it can be opened. -/
def main (system : System) (argv : List Str) (existing : Option (List UInt8)) (opens : Bool) :
    Option (List UInt8) × Str × Option Failure :=
  if argv.length < 3 ∨ argv[1]? = some (literal "--help") then
    (existing, [], some (.usageErr (argv.headD [] ++
      literal " file \x7br<length>|R<length>|w<string>|s<offset>\x7d...\n")))
  else if opens then
    let ended := loop system (argv.drop 2) ⟨existing.getD [], 0, []⟩
    (some ended.1.file, ended.1.stdout, ended.2)
  else (existing, [], some (.errExit (literal "open")))

/-! A log of the writes, and what a command does by it. -/

structure Log where
  writes : List (Write UInt8)
  offset : Nat
  stdout : Str

/-- The bytes from the log's offset on, each as it was written last. -/
def Log.read (initial : List UInt8) (log : Log) (count : Nat) : List UInt8 :=
  (List.range (min count (extent initial.length log.writes - log.offset))).map fun index =>
    (latest log.writes (log.offset + index)).getD (initial.getD (log.offset + index) 0)

/-- A numeral of any base that a `long` can hold. -/
def Denotes (text : Str) (number : Int) : Prop :=
  Numerals.Reads 0 text number ∧ -2 ^ 63 ≤ number ∧ number < 2 ^ 63

inductive Carried (system : System) (initial : List UInt8) : Str → Log → Log → Prop where
  | display (kind : UInt8) (rest : Str) (number : Int) (log : Log)
      (either : kind = 114 ∨ kind = 82)
      (means : Denotes rest number) (room : system.malloc (number % 2 ^ 64).toNat = true) :
      Carried system initial (kind :: rest) log
        (let bytes := log.read initial (min (number % 2 ^ 64).toNat MAX_RW_COUNT)
         { log with
           offset := log.offset + bytes.length
           stdout := log.stdout ++ displayed (kind :: rest) kind bytes })
  | write (text : Str) (count : Nat) (log : Log)
      (moved : written system text log.offset = some count) :
      Carried system initial (119 :: text) log
        ⟨⟨log.offset, text.take count⟩ :: log.writes, log.offset + count,
          log.stdout ++ (119 :: text) ++ literal ": wrote " ++ DecimalText.decimal count ++
            literal " bytes\n"⟩
  | seek (rest : Str) (offset : Nat) (log : Log) (means : Denotes rest offset)
      (fits : offset ≤ system.limit) :
      Carried system initial (115 :: rest) log
        { log with
          offset := offset, stdout := log.stdout ++ (115 :: rest) ++ literal ": seek succeeded\n" }

inductive Run (system : System) (initial : List UInt8) : List Str → Log → Log → Prop where
  | done (log : Log) : Run system initial [] log log
  | next (arg : Str) (rest : List Str) (before middle after : Log)
      (first : Carried system initial arg before middle)
      (later : Run system initial rest middle after) : Run system initial (arg :: rest) before after

structure Represents (initial : List UInt8) (log : Log) (state : State) : Prop where
  file : state.file = replay 0 initial log.writes
  offset : state.offset = log.offset
  stdout : state.stdout = log.stdout

theorem long_denotes (rest arg : Str) (number : Int) :
    GetNum.getLong (some rest) GetNum.GN_ANY_BASE (some arg) = .ok number ↔
      Denotes rest number := by
  have base : GetNum.baseOf GetNum.GN_ANY_BASE = 0 := by decide
  have free : GetNum.Allowed GetNum.GN_ANY_BASE number :=
    ⟨fun bad => absurd bad (by decide), fun bad => absurd bad (by decide)⟩
  rw [GetNum.getLong, GetNum.get_num_ok, base]
  constructor
  · rintro ⟨text, ⟨⟩, reads, fits, _⟩
    exact ⟨reads, fits⟩
  · rintro ⟨reads, fits⟩
    exact ⟨rest, rfl, reads, fits, free⟩

section Simulation
variable (system : System) (initial : List UInt8) (log : Log) (state : State)
  (rep : Represents initial log state)
include rep

theorem read_same (count : Nat) : fetch state.file state.offset count = log.read initial count := by
  rw [rep.file, rep.offset, fetch_replay]
  rfl

theorem display_carried (kind : UInt8) (rest : Str) (either : kind = 114 ∨ kind = 82)
    (next : State) (taken : display system kind rest state = .ok next) :
    ∃ after, Carried system initial (kind :: rest) log after ∧
      Represents initial after next := by
  unfold display at taken
  split at taken
  · cases taken
  · next number found =>
      dsimp only at taken
      split at taken
      · next room =>
          cases taken
          refine ⟨_, .display kind rest number log either
            ((long_denotes rest _ number).mp found) room, ?_⟩
          exact ⟨rep.file, by rw [read_same initial log state rep, rep.offset],
            by rw [read_same initial log state rep, rep.stdout]⟩
      · cases taken

theorem command_carried (arg : Str) (next : State) (taken : command system arg state = .ok next) :
    ∃ after, Carried system initial arg log after ∧ Represents initial after next := by
  unfold command at taken
  split at taken
  · cases taken
  · next kind rest =>
      split at taken
      · next either =>
          exact display_carried system initial log state rep kind rest either next taken
      · split at taken
        · next isWrite =>
            subst isWrite
            split at taken
            · cases taken
            · next count moved =>
                cases taken
                rw [rep.offset] at moved
                refine ⟨_, .write rest count log moved, ?_⟩
                exact ⟨by rw [rep.file, rep.offset, replay], by rw [rep.offset], by
                  rw [rep.stdout]⟩
        · split at taken
          · next isSeek =>
              subst isSeek
              split at taken
              · cases taken
              · next number found =>
                  split at taken
                  · cases taken
                  · next inside =>
                      cases taken
                      rw [not_or, Int.not_lt, Int.not_lt] at inside
                      obtain ⟨offset, rfl⟩ := Int.eq_ofNat_of_zero_le inside.1
                      refine ⟨_, .seek rest offset log ((long_denotes rest _ _).mp found)
                        (Int.ofNat_le.mp inside.2), ?_⟩
                      exact ⟨rep.file, Int.toNat_natCast offset, by rw [rep.stdout]⟩
          · cases taken

/-- What the log allows succeeds. -/
theorem carried_command (arg : Str) (after : Log) (carried : Carried system initial arg log after) :
    ∃ next, command system arg state = .ok next := by
  cases carried with
  | display kind rest number log either means room =>
      have found := (long_denotes rest (kind :: rest) number).mpr means
      rw [command, if_pos either, display, found]
      exact ⟨_, if_pos room⟩
  | write text count log moved =>
      rw [← rep.offset] at moved
      rw [command, if_neg (by decide), if_pos rfl, moved]
      exact ⟨_, rfl⟩
  | seek rest offset log means fits =>
      have found := (long_denotes rest (115 :: rest) offset).mpr means
      rw [command, if_neg (by decide), if_neg (by decide), if_pos rfl, found]
      exact ⟨_, if_neg (by omega)⟩

end Simulation

theorem loop_run (system : System) (initial : List UInt8) (args : List Str)
    (log : Log) (state : State) (rep : Represents initial log state) :
    ∃ done rest after, args = done ++ rest ∧ Run system initial done log after ∧
      Represents initial after (loop system args state).1 ∧
      ((loop system args state).2 = none ∧ rest = [] ∨
        (loop system args state).2 ≠ none ∧
          ∃ arg tail, rest = arg :: tail ∧ ∀ next,
          ¬ Carried system initial arg after next) := by
  induction args generalizing log state with
  | nil => exact ⟨[], [], log, rfl, .done log, rep, Or.inl ⟨rfl, rfl⟩⟩
  | cons arg args ih =>
      cases taken : command system arg state with
      | error failure =>
          simp only [loop, taken]
          refine ⟨[], arg :: args, log, rfl, .done log, rep,
            Or.inr ⟨Option.some_ne_none failure, arg, args, rfl, ?_⟩⟩
          intro next carried
          obtain ⟨state, fine⟩ := carried_command system initial log state rep arg next carried
          rw [taken] at fine
          cases fine
      | ok next =>
          obtain ⟨middle, carried, same⟩ :=
            command_carried system initial log state rep arg next taken
          obtain ⟨done, rest, after, parts, run, ended⟩ := ih middle next same
          simp only [loop, taken]
          exact ⟨arg :: done, rest, after,
            by rw [parts, List.cons_append], .next arg done log middle after carried run, ended⟩

/-! What `R` prints tells the bytes. -/

theorem word_plain (byte : UInt8) : (32 : UInt8) ∉ hexadecimal (widened byte) ∧
    Numerals.magnitude 16 (hexadecimal (widened byte)) % 256 = byte.toNat := by
  have each : ∀ number : Fin 256, (32 : UInt8) ∉ hexadecimal (widened (UInt8.ofNat number)) ∧
      Numerals.magnitude 16 (hexadecimal (widened (UInt8.ofNat number))) % 256 = number := by
        decide +kernel
  simpa using each ⟨byte.toNat, byte.toNat_lt⟩

theorem hexadecimal_injective (bytes others : List UInt8)
    (same : bytes.flatMap (shown 82) = others.flatMap (shown 82)) : bytes = others := by
  have word (byte : UInt8) (rest : Str) :
      shown 82 byte ++ rest = hexadecimal (widened byte) ++ 32 :: rest := by
    rw [shown, if_neg (by decide), List.append_assoc, List.singleton_append]
  induction bytes generalizing others with
  | nil =>
      cases others with
      | nil => rfl
      | cons other rest =>
          rw [List.flatMap_nil, List.flatMap_cons, word] at same
          simp at same
  | cons byte bytes ih =>
      cases others with
      | nil =>
          rw [List.flatMap_nil, List.flatMap_cons, word] at same
          simp at same
      | cons other others =>
          rw [List.flatMap_cons, List.flatMap_cons, word, word] at same
          -- a word ends at the first blank
          have first : hexadecimal (widened byte) = hexadecimal (widened other) := by
            rw [← takeWhile_part 32 _ (32 :: bytes.flatMap (shown 82)) (word_plain byte).1
                (by simp), same,
              takeWhile_part 32 _ _ (word_plain other).1 (by simp)]
          have equal : byte = other := by
            rw [← UInt8.toNat_inj, ← (word_plain byte).2, first, (word_plain other).2]
          rw [first] at same
          rw [equal, ih others (List.cons.inj (List.append_cancel_left same)).2]

/-- The program does what its arguments ask for up to the first one that cannot be done. Each
byte that it displays or leaves in the file is the one that was written there last, else the
one the file had, else a zero in a hole; and what `R` displays tells the bytes apart. -/
theorem last_written_is_kept (system : System) (argv0 path : Str) (args : List Str)
    (existing : Option (List UInt8)) (plain : path ≠ literal "--help") (some_ : args ≠ []) :
    (∃ file failure done rest log, main system (argv0 :: path :: args) existing true =
      (some file, log.stdout, failure) ∧
      args = done ++ rest ∧ Run system (existing.getD []) done ⟨[], 0, []⟩ log ∧
      file.length = extent (existing.getD []).length log.writes ∧
      (∀ place, file.getD place 0 =
        (latest log.writes place).getD ((existing.getD []).getD place 0)) ∧
      (failure = none ∧ rest = [] ∨
        failure ≠ none ∧ ∃ arg tail, rest = arg :: tail ∧ ∀ next,
        ¬ Carried system (existing.getD []) arg log next)) ∧
      ∀ bytes others : List UInt8, bytes.flatMap (shown 82) = others.flatMap (shown 82) →
        bytes = others := by
  refine ⟨?_, hexadecimal_injective⟩
  have enough : ¬ ((argv0 :: path :: args).length < 3 ∨
      (argv0 :: path :: args)[1]? = some (literal "--help")) := by
    have positive := List.length_pos_iff.mpr some_
    rintro (short | help)
    · simp only [List.length_cons] at short
      omega
    · exact plain (Option.some.inj help)
  obtain ⟨done, rest, log, parts, run, rep, ended⟩ :=
    loop_run system (existing.getD []) args ⟨[], 0, []⟩ ⟨existing.getD [],
      0, []⟩ ⟨rfl, rfl, rfl⟩
  refine ⟨(loop system args ⟨existing.getD [], 0, []⟩).1.file, _, done, rest, log, ?_, parts,
    run, ?_, fun place => ?_, ended⟩
  · rw [main, if_neg enough, if_pos rfl, ← rep.stdout]
    rfl
  · rw [rep.file, replay_length]
  · rw [rep.file, replay_get]

/-- A write behind the end of an empty file, displayed with the hole before it. -/
theorem hole_is_displayed :
    ∃ file log, main ⟨fun _ => true, 100⟩ (["seek_io", "f", "s2", "wA", "s0",
      "R9"].map literal) none true =
        (some file, log.stdout, none) ∧
      Run ⟨fun _ => true, 100⟩ [] (["s2", "wA", "s0", "R9"].map literal) ⟨[], 0, []⟩ log ∧
        file = [0, 0, 65] := by
  obtain ⟨⟨file, failure, done, rest, log, ran, parts, run, _, _, ended⟩, _⟩ :=
    last_written_is_kept ⟨fun _ => true, 100⟩ (literal "seek_io") (literal "f")
      (["s2", "wA", "s0", "R9"].map literal) none (by decide) (by decide)
  have result : (main ⟨fun _ => true, 100⟩ (["seek_io", "f", "s2", "wA", "s0",
    "R9"].map literal) none true).1 =
        some [0, 0, 65] ∧
      (main ⟨fun _ => true, 100⟩ (["seek_io", "f", "s2", "wA", "s0", "R9"].map literal) none
        true).2.2 = none := by
    decide +kernel
  replace ran : main ⟨fun _ => true, 100⟩ (["seek_io", "f", "s2", "wA", "s0",
    "R9"].map literal) none true =
      (some file, log.stdout, failure) := ran
  rw [ran] at result
  obtain ⟨whole, fine⟩ := result
  obtain rfl : failure = none := fine
  rcases ended with ⟨_, rfl⟩ | ⟨bad, _⟩
  · rw [List.append_nil] at parts
    exact ⟨file, log, ran, parts ▸ run, Option.some.inj whole⟩
  · exact absurd rfl bad

end Tlpi.SeekIo
