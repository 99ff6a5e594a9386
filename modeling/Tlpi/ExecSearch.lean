import Mathlib.Data.List.Basic
import Tlpi.Blocks
import Tlpi.CStrings

/-!
procexec/execlp.c: the argument vector, the search along PATH and the script that is given to
the shell. A null pointer is `none`. `execve` returns only when it fails, so its answer is an
error number or `none`; the n-th attempt is answered by `execve n`, and the shell that is tried
after it by `shell n`. An access outside a block makes the argument vector undefined; in
`execShScript` it is recorded and the run goes on.
-/

namespace Tlpi.ExecSearch

open CStrings Blocks

def slash : UInt8 := 47
def colon : UInt8 := 58

def SHELL_PATH : Str := literal "/bin/sh"

inductive Errno where
  | EACCES
  | ENOEXEC
  | other (number : Nat)
  deriving DecidableEq

/-! The argument vector. -/

/-- Which allocations find no memory; `realloc` is asked with `argc` items stored. -/
structure Memory where
  argvFails : Bool
  reallocFails : Nat → Bool
  envpFails : Bool

abbrev Pointers := Block (Option Str)

inductive Built where
  | fault (fault : Fault)
  | pastEnd
  | noMemory
  | vector (argv : Pointers) (argc : Nat)
  deriving DecidableEq

/-- `sizeof(void *)` in cells. -/
def pointer : Nat := 1

/-- The loop that copies the variable arguments, which end with a null pointer. -/
def buildLoop (memory : Memory) (argv : Pointers) (argc argvSize : Nat)
    (argList : List (Option Str)) : Built :=
  match load argv (argc - 1), argList with
  | .error fault, _ => .fault fault
  | .ok none, _ => .vector argv argc
  | .ok (some _), [] => .pastEnd
  | .ok (some _), arg :: argList =>
      if argc + 1 ≥ argvSize then
        if memory.reallocFails argc then .noMemory
        else
          match store (realloc argv pointer) argc arg with
          | .error fault => .fault fault
          | .ok argv => buildLoop memory argv (argc + 1) (argvSize + 100) argList
      else
        match store argv argc arg with
        | .error fault => .fault fault
        | .ok argv => buildLoop memory argv (argc + 1) argvSize argList

/-- What the caller passes after the file name. -/
def passed (args : List Str) : List (Option Str) := args.map some ++ [none]

def buildArgv (memory : Memory) (args : List Str) : Built :=
  if memory.argvFails then .noMemory
  else
    match store (calloc 100 none) 0 args.head? with
    | .error fault => .fault fault
    | .ok argv => buildLoop memory argv 1 100 (passed args).tail

/-- The vector while there is room: the arguments so far and the zeros of `calloc`. -/
def filled (args : List Str) : Pointers :=
  args.map (fun arg => .value (some arg)) ++ calloc (100 - args.length) none

/-- What the loop makes of all arguments. -/
def built (memory : Memory) (args : List Str) : Built :=
  if args.length < 99 then .vector (filled args) (args.length + 1)
  else if memory.reallocFails 99 then .noMemory
  else .fault (.outside 99 1)

theorem load_last (args : List Str) (arg : Str) :
    load (filled (args ++ [arg])) args.length = .ok (some arg) := by
  apply load_value
  rw [filled, List.map_append, List.append_assoc,
    List.getElem?_append_right (by rw [List.length_map]), List.length_map, Nat.sub_self]
  rfl

/-- The cell behind the arguments still holds a zero. -/
theorem filled_room (args : List Str) (room : args.length < 100) :
    filled args = args.map (fun arg => .value (some arg)) ++ .value none ::
      calloc (99 - args.length) none := by
  have more : 100 - args.length = 99 - args.length + 1 := by omega
  rw [filled, more]
  rfl

theorem load_end (args : List Str) (room : args.length < 100) :
    load (filled args) args.length = .ok none := by
  apply load_value
  rw [filled_room args room, List.getElem?_append_right (by rw [List.length_map]),
      List.length_map, Nat.sub_self]
  rfl

theorem length_filled (args : List Str) (room : args.length < 100) :
    (filled args).length = 100 := by
  rw [filled, calloc, List.length_append, List.length_map, List.length_replicate]
  omega

theorem set_filled (args : List Str) (room : args.length < 100) (cell : Cell (Option Str)) :
    (filled args).set args.length cell =
      args.map (fun arg => .value (some arg)) ++ cell :: calloc (99 - args.length) none := by
  rw [filled_room args room, List.set_append_right _ _ (by rw [List.length_map]),
      List.length_map, Nat.sub_self]
  rfl

theorem store_arg (args : List Str) (arg : Str) (room : args.length < 100) :
    store (filled args) args.length (some arg) = .ok (filled (args ++ [arg])) := by
  have fewer : 100 - (args ++ [arg]).length = 99 - args.length := by
    rw [List.length_append, List.length_singleton]
    omega
  rw [store_inside _ _ _ (by rw [length_filled args room]; exact room),
    set_filled args room, filled, fewer, List.map_append, List.append_assoc]
  rfl

theorem store_end (args : List Str) (room : args.length < 100) :
    store (filled args) args.length none = .ok (filled args) := by
  rw [store_inside _ _ _ (by rw [length_filled args room]; exact room), set_filled args room,
    ← filled_room args room]

theorem built_long (memory : Memory) (args : List Str) (long : 99 ≤ args.length) :
    built memory args = if memory.reallocFails 99 then .noMemory else .fault (.outside 99 1) :=
      if_neg (by omega)

/-- When the vector is full, what is left of it has one cell. -/
theorem build_full (memory : Memory) (stored : List Str) (last : Str) (args : List Str)
    (full : stored.length = 98) :
    buildLoop memory (filled (stored ++ [last])) (stored.length + 1) 100 (passed args) =
      built memory (stored ++ last :: args) := by
  obtain ⟨arg, argList, some_next⟩ : ∃ arg argList, passed args = arg :: argList := by
    cases args with
    | nil => exact ⟨none, [], rfl⟩
    | cons arg args => exact ⟨some arg, passed args, rfl⟩
  have small := length_realloc (filled (stored ++ [last])) pointer
  rw [buildLoop.eq_def, Nat.add_sub_cancel, load_last, some_next, full,
    built_long memory _ (by rw [List.length_append, List.length_cons]; omega)]
  dsimp only
  rw [if_pos (by decide), store_outside _ _ _ (by rw [small]; decide), small]
  rfl

/-- One more argument, or the null pointer at the end, is stored while there is room. -/
theorem build_next (memory : Memory) (stored : List Str) (last : Str) (room : stored.length < 98)
    (arg : Option Str) (argList : List (Option Str)) (argv : Pointers)
    (next : store (filled (stored ++ [last])) (stored.length + 1) arg = .ok argv) :
    buildLoop memory (filled (stored ++ [last])) (stored.length + 1) 100 (arg :: argList) =
      buildLoop memory argv (stored.length + 1 + 1) 100 argList := by
  rw [buildLoop.eq_def, Nat.add_sub_cancel, load_last]
  dsimp only
  rw [if_neg (by omega), next]

-- by induction on the arguments that are still to come; `argvSize` is 100 until the vector
-- is reallocated, and the store that follows is outside the one cell that is left
theorem build_loop (memory : Memory) (stored : List Str) (last : Str) (args : List Str)
    (room : stored.length < 99) :
    buildLoop memory (filled (stored ++ [last])) (stored.length + 1) 100 (passed args) =
      built memory (stored ++ last :: args) := by
  induction args generalizing stored last with
  | nil =>
      have count : (stored ++ [last]).length = stored.length + 1 := List.length_append
      rcases Nat.lt_or_ge stored.length 98 with short | full
      · have ended := store_end (stored ++ [last]) (by omega)
        have found := load_end (stored ++ [last]) (by omega)
        rw [count] at ended found
        rw [passed, List.map_nil, List.nil_append,
          build_next memory stored last short none [] _ ended, buildLoop.eq_def, Nat.add_sub_cancel,
          found, built, if_pos (by omega), count]
      · exact build_full memory stored last [] (by omega)
  | cons arg args ih =>
      have count : (stored ++ [last]).length = stored.length + 1 := List.length_append
      rcases Nat.lt_or_ge stored.length 98 with short | full
      · have placed := store_arg (stored ++ [last]) arg (by omega)
        have later := ih (stored ++ [last]) arg (by omega)
        rw [count] at placed later
        rw [List.append_cons stored last (arg :: args), ← later]
        exact build_next memory stored last short (some arg) (passed args) _ placed
      · exact build_full memory stored last (arg :: args) (by omega)

theorem build_argv (memory : Memory) (args : List Str) :
    buildArgv memory args = if memory.argvFails then .noMemory else built memory args := by
  rw [buildArgv]
  congr 1
  cases args with
  | nil => rfl
  | cons arg args =>
      have first : store (calloc 100 none) 0 (some arg) = .ok (filled [arg]) :=
        store_arg [] arg (by decide)
      rw [List.head?_cons, first]
      exact build_loop memory [] arg args (by decide)

/-- No store falls outside the vector, and at the end it holds the arguments and the null
pointer. -/
def Faithful (args : List Str) : Built → Prop
  | .fault _ | .pastEnd => False
  | .noMemory => True
  | .vector argv argc => argc = args.length + 1 ∧ argv.take argc = (passed args).map .value

theorem filled_take (args : List Str) (room : args.length < 99) :
    (filled args).take (args.length + 1) = (passed args).map .value := by
  have front : (args.map fun arg => Cell.value (some arg)).length = args.length :=
    List.length_map ..
  rw [filled_room args (by omega), ← front, List.take_length_add_append, passed,
      List.map_append, List.map_map]
  rfl

/-- The vector is not grown: from 99 arguments on its block is cut down to one pointer. -/
theorem argument_vector_is_faithful_iff (memory : Memory) (args : List Str) :
    Faithful args (buildArgv memory args) ↔
      memory.argvFails = true ∨ args.length < 99 ∨ memory.reallocFails 99 = true := by
  rw [build_argv, built]
  split
  · next fails => exact ⟨fun _ => Or.inl fails, fun _ => trivial⟩
  · next works =>
      split
      · next short =>
          exact ⟨fun _ => Or.inr (Or.inl short), fun _ => ⟨rfl, filled_take args short⟩⟩
      · next long =>
          split
          · next fails => exact ⟨fun _ => Or.inr (Or.inr fails), fun _ => trivial⟩
          · next grows =>
              constructor
              · exact fun bad => bad.elim
              · rintro (fails | short | fails)
                · exact works fails
                · exact long short
                · exact grows fails

theorem ninety_nine_arguments_overrun :
    ¬ Faithful (List.replicate 99 (literal "a"))
      (buildArgv ⟨false, fun _ => false, false⟩ (List.replicate 99 (literal "a"))) := by
  rw [build_argv, built, if_neg (by decide), if_neg (by decide), if_neg (by decide)]
  exact fun bad => bad

/-! The script. -/

def copyLoop (argv shArgv : Pointers) : List Nat → Except Fault Pointers
  | [] => .ok shArgv
  | j :: rest =>
      match load argv j with
      | .error fault => .error fault
      | .ok arg =>
          match store shArgv (j + 1) arg with
          | .error fault => .error fault
          | .ok shArgv => copyLoop argv shArgv rest

/-- The vector that the shell is given. -/
def execShScript (argc : Nat) (argv : Pointers) : Except Fault Pointers :=
  match store (declare (argc + 1)) 0 (some SHELL_PATH) with
  | .error fault => .error fault
  | .ok shArgv => copyLoop argv shArgv (List.range (argc + 1))

-- by induction on what is left to copy: the last pointer goes behind the last cell
theorem copy_overruns (argv shArgv : Pointers) (argc start count : Nat)
    (size : shArgv.length = argc + 1) (left : start + count = argc)
    (loads : ∀ j ≤ argc, ∃ arg, load argv j = .ok arg) :
    copyLoop argv shArgv (List.range' start (count + 1)) =
      .error (.outside (argc + 1) (argc + 1)) := by
  induction count generalizing shArgv start with
  | zero =>
      obtain ⟨arg, loaded⟩ := loads start (by omega)
      have beyond := store_outside shArgv (start + 1) arg (by omega)
      rw [List.range'_one, copyLoop, loaded]
      dsimp only
      rw [beyond, size]
      subst left
      rfl
  | succ count ih =>
      obtain ⟨arg, loaded⟩ := loads start (by omega)
      rw [List.range'_succ, copyLoop, loaded]
      dsimp only
      rw [store_inside shArgv (start + 1) arg (by omega)]
      exact ih _ (start + 1) (by rw [List.length_set]; exact size) (by omega)

theorem load_filled (args : List Str) (room : args.length < 100) (j : Nat) (inside : j < 100) :
    ∃ arg, load (filled args) j = .ok arg := by
  have within : j < (filled args).length := by
    rw [length_filled args room]
    exact inside
  have member := List.getElem_mem within
  obtain ⟨arg, cell⟩ : ∃ arg, (filled args)[j] = .value arg := by
    rcases List.mem_append.mp member with front | back
    · obtain ⟨arg, _, same⟩ := List.mem_map.mp front
      exact ⟨some arg, same.symm⟩
    · exact ⟨none, List.eq_of_mem_replicate back⟩
  exact ⟨arg, load_value _ _ _ (by rw [List.getElem?_eq_getElem within, cell])⟩

/-- The vector for the shell has one cell less than is copied into it. -/
theorem script_overruns (args : List Str) (room : args.length < 99) :
    execShScript (args.length + 1) (filled args) =
      .error (.outside (args.length + 2) (args.length + 2)) := by
  have size : (declare (args.length + 1 + 1) : Pointers).length = args.length + 2 :=
    List.length_replicate
  rw [execShScript, store_inside _ _ _ (by rw [size]; omega), List.range_eq_range']
  exact copy_overruns (filled args) _ (args.length + 1) 0 (args.length + 1)
    (by rw [List.length_set]; exact size)
    (Nat.zero_add _) fun j _ => load_filled args (by omega) j (by omega)

/-! The search. -/

/-- `size` is that of the block that holds the pathname. -/
structure Attempt where
  pathname : Str
  size : Nat
  answer : Option Errno
  script : Option (Except Fault Pointers)

inductive Outcome where
  | executed
  | returned (errno : Errno)
  deriving DecidableEq

structure Run where
  attempts : List Attempt
  outcome : Outcome

/-- Appends to the string in a block; no result when it would not fit. -/
def strcat (size : Nat) (text more : Str) : Option Str :=
  if text.length + more.length + 1 ≤ size then some (text ++ more) else none

def buildPathname (size : Nat) (dir filename : Str) : Option Str :=
  (strcat size [] (if dir = [] then literal "." else dir)).bind fun pathname =>
    (strcat size pathname (literal "/")).bind fun pathname => strcat size pathname filename

section Search
variable (argc : Nat) (argv : Pointers) (filename : Str) (execve shell : Nat → Option Errno)

/-- The attempt that `execve` answers, and the script if it asks for one. -/
def attempt (count : Nat) (pathname : Str) (size : Nat) : Attempt :=
  ⟨pathname, size, execve count,
    if execve count = some .ENOEXEC then some (execShScript argc argv) else none⟩

/-- The loop over the prefixes of PATH, the text from `prStart` on. -/
def searchLoop (count : Nat) (fndEACCES : Bool) (prStart : Str) : Option Run :=
  let dir := prStart.takeWhile (· ≠ colon)
  let size := max 1 dir.length + filename.length + 2
  (buildPathname size dir filename).bind fun pathname =>
    let tried := attempt argc argv execve count pathname size
    match execve count with
    | none => some ⟨[tried], .executed⟩
    | some errno =>
        let fndEACCES := fndEACCES || errno = .EACCES
        if errno = .ENOEXEC ∧ shell count = none then some ⟨[tried], .executed⟩
        else
          match left : prStart.dropWhile (· ≠ colon) with
          | [] => some ⟨[tried], .returned (if fndEACCES then .EACCES else errno)⟩
          | _ :: next =>
              (searchLoop (count + 1) fndEACCES next).map fun run =>
                { run with attempts := tried :: run.attempts }
termination_by prStart.length
decreasing_by
  have shorter := (List.dropWhile_sublist (p := (· ≠ colon)) (l := prStart)).length_le
  rw [left, List.length_cons] at shorter
  omega

def searchPath (PATH : Option Str) : Option Run :=
  match PATH with
  | none | some [] => searchLoop argc argv filename execve shell 0 false (literal ".")
  | some path => searchLoop argc argv filename execve shell 0 false path

/-- A file name with a slash is tried as it is. -/
def execPathname : Run :=
  let tried := attempt argc argv execve 0 filename (filename.length + 1)
  match execve 0 with
  | none => ⟨[tried], .executed⟩
  | some errno =>
      if errno = .ENOEXEC ∧ shell 0 = none then ⟨[tried], .executed⟩
      else ⟨[tried], .returned errno⟩

/-! What the search tries. -/

def candidate (filename dir : Str) : Str :=
  (if dir = [] then literal "." else dir) ++ literal "/" ++ filename

def candidates (filename : Str) : Option Str → List Str
  | none | some [] => [literal "./" ++ filename]
  | some path => (path.splitOn colon).map (candidate filename)

/-- An attempt whose block has exactly the bytes that the pathname needs. -/
def fitting (count : Nat) (pathname : Str) : Attempt :=
  attempt argc argv execve count pathname (pathname.length + 1)

/-- The search along the prefixes themselves, `dir` and then `dirs`. -/
def searched (count : Nat) (fndEACCES : Bool) (dir : Str) (dirs : List Str) : Run :=
  let tried := fitting argc argv execve count (candidate filename dir)
  match execve count with
  | none => ⟨[tried], .executed⟩
  | some errno =>
      let fndEACCES := fndEACCES || errno = .EACCES
      if errno = .ENOEXEC ∧ shell count = none then ⟨[tried], .executed⟩
      else
        match dirs with
        | [] => ⟨[tried], .returned (if fndEACCES then .EACCES else errno)⟩
        | next :: dirs =>
            let run := searched (count + 1) fndEACCES next dirs
            { run with attempts := tried :: run.attempts }

theorem length_prefix (dir : Str) :
    (if dir = [] then literal "." else dir).length = max 1 dir.length := by
  split
  · next empty =>
      subst empty
      rfl
  · next solid =>
      have := List.length_pos_iff.mpr solid
      omega

theorem length_candidate (dir : Str) :
    (candidate filename dir).length = max 1 dir.length + 1 + filename.length := by
  rw [candidate, List.length_append, List.length_append, length_prefix]
  rfl

theorem build_pathname (dir : Str) :
    buildPathname (max 1 dir.length + filename.length + 2) dir filename =
      some (candidate filename dir) := by
  have slashes : (literal "/").length = 1 := rfl
  rw [buildPathname, strcat, List.length_nil, length_prefix, if_pos (by omega),
    Option.bind_some, strcat, List.nil_append, length_prefix, if_pos (by omega), Option.bind_some,
    strcat, List.length_append, length_prefix, if_pos (by omega)]
  rfl

/-- One turn of the loop, at the prefix before a colon or at the end. -/
theorem search_turn (count : Nat) (fndEACCES : Bool) (dir : Str) (absent : colon ∉ dir)
    (tail : Option Str) :
    searchLoop argc argv filename execve shell count fndEACCES (dir ++ tail.elim [] (colon :: ·)) =
      let tried := fitting argc argv execve count (candidate filename dir)
      match execve count with
      | none => some ⟨[tried], .executed⟩
      | some errno =>
          let fndEACCES := fndEACCES || errno = .EACCES
          if errno = .ENOEXEC ∧ shell count = none then some ⟨[tried], .executed⟩
          else
            match tail with
            | none => some ⟨[tried], .returned (if fndEACCES then .EACCES else errno)⟩
            | some next =>
                (searchLoop argc argv filename execve shell (count + 1) fndEACCES next).map
                  fun run =>
                  { run with attempts := tried :: run.attempts } := by
  have size : max 1 dir.length + filename.length + 2 = (candidate filename dir).length + 1 := by
    rw [length_candidate]
    omega
  have ends : ∀ ch, (tail.elim [] (colon :: ·)).head? = some ch → ch = colon := by
    cases tail <;> simp
  have back := dropWhile_part colon dir (tail.elim [] (colon :: ·)) absent ends
  rw [searchLoop, takeWhile_part colon dir _ absent ends, build_pathname, Option.bind_some, size]
  dsimp only
  cases execve count with
  | none => rfl
  | some errno =>
      dsimp only
      congr 1
      split
      · next left =>
          rw [back] at left
          cases tail with
          | none => rfl
          | some next => cases left
      · next left =>
          rw [back] at left
          cases tail with
          | none => cases left
          | some next =>
              cases left
              rfl

-- by induction on the prefixes that follow: each is a part of the text cut at its colons
theorem search_refines (count : Nat) (fndEACCES : Bool) (text dir : Str) (dirs : List Str)
    (cut : text.splitOn colon = dir :: dirs) :
    searchLoop argc argv filename execve shell count fndEACCES text =
      some (searched argc argv filename execve shell count fndEACCES dir dirs) := by
  induction dirs generalizing count fndEACCES text dir with
  | nil =>
      obtain ⟨absent, ⟨rfl, _⟩ | ⟨more, _, none_left⟩⟩ :=
        split_cons colon text dir [] cut
      · have turn := search_turn argc argv filename execve shell count fndEACCES text absent none
        rw [Option.elim_none, List.append_nil] at turn
        rw [turn, searched]
        split
        · rfl
        · split <;> rfl
      · exact absurd none_left (List.splitOn_ne_nil colon more)
  | cons next dirs ih =>
      obtain ⟨absent, ⟨_, bad⟩ | ⟨more, rfl, others⟩⟩ :=
        split_cons colon text dir (next :: dirs) cut
      · cases bad
      · have turn :=
          search_turn argc argv filename execve shell count fndEACCES dir absent (some more)
        rw [Option.elim_some] at turn
        rw [turn, searched]
        split
        · rfl
        · split
          · rfl
          · dsimp only
            rw [ih _ _ more next others]
            rfl

section Turn
variable (count : Nat) (fndEACCES : Bool) (dir : Str)

theorem searched_success (dirs : List Str) (success : execve count = none) :
    searched argc argv filename execve shell count fndEACCES dir dirs =
      ⟨[fitting argc argv execve count (candidate filename dir)], .executed⟩ := by
  unfold searched
  rw [success]

variable (errno : Errno) (failure : execve count = some errno) (refused : shell count ≠ none)
include failure refused

theorem searched_last :
    searched argc argv filename execve shell count fndEACCES dir [] =
      ⟨[fitting argc argv execve count (candidate filename dir)],
        .returned (if fndEACCES || errno = .EACCES then .EACCES else errno)⟩ := by
  unfold searched
  rw [failure]
  exact if_neg fun bad => refused bad.2

theorem searched_next (next : Str) (dirs : List Str) :
    searched argc argv filename execve shell count fndEACCES dir (next :: dirs) =
      let run := searched argc argv filename execve shell (count + 1) (fndEACCES || errno =
        .EACCES) next dirs
      { run with
        attempts := fitting argc argv execve count (candidate filename dir) :: run.attempts } := by
  rw [searched, failure]
  exact if_neg fun bad => refused bad.2

end Turn

theorem searched_attempts (count : Nat) (fndEACCES : Bool) (dir : Str) (dirs : List Str)
    (tried : Attempt)
    (member : tried ∈ (searched argc argv filename execve shell count fndEACCES dir
      dirs).attempts) :
    ∃ n pathname, tried = fitting argc argv execve n pathname := by
  have first : tried ∈ [fitting argc argv execve count (candidate filename dir)] →
      ∃ n pathname, tried = fitting argc argv execve n pathname := fun inside =>
    ⟨count, candidate filename dir, List.mem_singleton.mp inside⟩
  induction dirs generalizing count fndEACCES dir with
  | nil =>
      rw [searched] at member
      split at member
      · exact first member
      · split at member <;> exact first member
  | cons next dirs ih =>
      rw [searched] at member
      split at member
      · exact first member
      · split at member
        · exact first member
        · rcases List.mem_cons.mp member with same | later
          · exact ⟨count, _, same⟩
          · exact ih _ _ _ later fun inside => ⟨_, _, List.mem_singleton.mp inside⟩

section Refused
variable (refused : ∀ n, shell n ≠ none)
include refused

theorem searched_stops (count : Nat) (fndEACCES : Bool) (dir : Str) (dirs : List Str) (i : Nat)
    (inside : i ≤ dirs.length) (success : execve (count + i) = none)
    (earlier : ∀ j < i, execve (count + j) ≠ none) :
    (searched argc argv filename execve shell count fndEACCES dir dirs).attempts.map (·.pathname) =
        ((dir :: dirs).map (candidate filename)).take (i + 1) ∧
      (searched argc argv filename execve shell count fndEACCES dir dirs).outcome = .executed := by
  induction i generalizing count fndEACCES dir dirs with
  | zero =>
      rw [searched_success argc argv filename execve shell count fndEACCES dir dirs success]
      exact ⟨rfl, rfl⟩
  | succ i ih =>
      obtain ⟨errno, failure⟩ := Option.ne_none_iff_exists'.mp (earlier 0 (Nat.succ_pos i))
      cases dirs with
      | nil => cases inside
      | cons next dirs =>
          rw [searched_next argc argv filename execve shell count fndEACCES dir errno failure
              (refused count)]
          have later :=
            ih (count + 1) (fndEACCES || errno = .EACCES) next dirs (Nat.le_of_succ_le_succ inside)
              (by rw [Nat.add_right_comm]; exact success)
              (fun j before => by
                rw [Nat.add_right_comm]
                exact earlier (j + 1) (Nat.succ_lt_succ before))
          exact ⟨congrArg (candidate filename dir :: ·) later.1, later.2⟩

theorem searched_fails (count : Nat) (fndEACCES : Bool) (dir : Str) (dirs : List Str)
    (failures : ∀ i ≤ dirs.length, execve (count + i) ≠ none) :
    (searched argc argv filename execve shell count fndEACCES dir dirs).attempts.map (·.pathname) =
        (dir :: dirs).map (candidate filename) ∧
      (fndEACCES = true ∨ (∃ i ≤ dirs.length, execve (count + i) = some .EACCES) →
        (searched argc argv filename execve shell count fndEACCES dir dirs).outcome =
          .returned .EACCES) ∧
      (fndEACCES = false → (∀ i ≤ dirs.length, execve (count + i) ≠ some .EACCES) →
        ∀ errno, execve (count + dirs.length) = some errno →
          (searched argc argv filename execve shell count fndEACCES dir dirs).outcome =
            .returned errno) := by
  obtain ⟨errno, failure⟩ := Option.ne_none_iff_exists'.mp (failures 0 (Nat.zero_le _))
  induction dirs generalizing count fndEACCES dir errno with
  | nil =>
      rw [searched_last argc argv filename execve shell count fndEACCES dir errno failure
          (refused count)]
      refine ⟨rfl, ?_, ?_⟩
      · rintro (found | ⟨i, inside, denied⟩)
        · rw [found]
          rfl
        · cases Nat.le_zero.mp inside
          cases failure.symm.trans denied
          exact congrArg Outcome.returned (if_pos (by simp))
      · intro unfound allowed last answered
        cases failure.symm.trans answered
        have other : errno ≠ .EACCES := fun bad => allowed 0 (Nat.le_refl 0) (bad ▸ failure)
        exact congrArg Outcome.returned (if_neg (by simp [unfound, other]))
  | cons next dirs ih =>
      rw [searched_next argc argv filename execve shell count fndEACCES dir errno failure
          (refused count)]
      have shift (i : Nat) : count + 1 + i = count + (i + 1) := by omega
      have failures_next : ∀ i ≤ dirs.length, execve (count + 1 + i) ≠ none :=
        fun i inside => by
          rw [shift]
          exact failures (i + 1) (Nat.succ_le_succ inside)
      obtain ⟨answer, answered⟩ :=
        Option.ne_none_iff_exists'.mp (failures_next 0 (Nat.zero_le _))
      obtain ⟨names, denies, passes⟩ :=
        ih (count + 1) (fndEACCES || errno = .EACCES) next failures_next answer answered
      refine ⟨congrArg (candidate filename dir :: ·) names, ?_, ?_⟩
      · rintro (found | ⟨i, inside, denied⟩)
        · exact denies (Or.inl (by simp [found]))
        · cases i with
          | zero =>
              cases failure.symm.trans denied
              exact denies (Or.inl (by simp))
          | succ i =>
              exact denies (Or.inr ⟨i, Nat.le_of_succ_le_succ inside,
                by rw [shift]; exact denied⟩)
      · intro unfound allowed last ending
        have other : errno ≠ .EACCES := fun bad => allowed 0 (Nat.zero_le _) (bad ▸ failure)
        refine passes (by simp [unfound, other]) (fun i inside => ?_) last
          (by rw [shift]; exact ending)
        rw [shift]
        exact allowed (i + 1) (Nat.succ_le_succ inside)

end Refused


end Search

inductive Result where
  | undefined
  | noMemory
  | ran (run : Run)

def execlp (memory : Memory) (filename : Str) (args : List Str) (PATH : Option Str)
    (execve shell : Nat → Option Errno) : Result :=
  match buildArgv memory args with
  | .fault _ | .pastEnd => .undefined
  | .noMemory => .noMemory
  | .vector argv argc =>
      if memory.envpFails then .noMemory
      else if slash ∈ filename then .ran (execPathname argc argv filename execve shell)
      else
        match searchPath argc argv filename execve shell PATH with
        | none => .undefined
        | some run => .ran run

theorem search_path (argc : Nat) (argv : Pointers) (filename : Str)
    (execve shell : Nat → Option Errno) (PATH : Option Str) :
    ∃ dir dirs, (dir :: dirs).map (candidate filename) = candidates filename PATH ∧
      searchPath argc argv filename execve shell PATH =
        some (searched argc argv filename execve shell 0 false dir dirs) := by
  have current : (literal ".").splitOn colon = [literal "."] := rfl
  rcases PATH with _ | _ | ⟨ch, path⟩
  · exact ⟨literal ".", [], rfl,
      search_refines argc argv filename execve shell 0 false _ _ _ current⟩
  · exact ⟨literal ".", [], rfl,
      search_refines argc argv filename execve shell 0 false _ _ _ current⟩
  · obtain ⟨dir, dirs, cut⟩ :=
      List.exists_cons_of_ne_nil (List.splitOn_ne_nil colon (ch :: path))
    refine ⟨dir, dirs, ?_, search_refines argc argv filename execve shell 0 false _ _ _ cut⟩
    rw [candidates, cut]
    intro bad
    cases bad

theorem path_search_is_exact (argc : Nat) (argv : Pointers) (filename : Str)
    (execve shell : Nat → Option Errno) (PATH : Option Str) (plain : slash ∉ filename)
    (refused : ∀ n, shell n ≠ none) :
    ∃ run, searchPath argc argv filename execve shell PATH = some run ∧
      (∀ memory args, buildArgv memory args = .vector argv argc → memory.envpFails = false →
        execlp memory filename args PATH execve shell = .ran run) ∧
      (∀ tried ∈ run.attempts, tried.pathname.length + 1 ≤ tried.size) ∧
      (∀ i < (candidates filename PATH).length, execve i = none →
        (∀ j < i, execve j ≠ none) →
        run.attempts.map (·.pathname) = (candidates filename PATH).take (i + 1) ∧
        run.outcome = .executed) ∧
      ((∀ i < (candidates filename PATH).length, execve i ≠ none) →
        run.attempts.map (·.pathname) = candidates filename PATH ∧
          ((∃ i < (candidates filename PATH).length, execve i = some .EACCES) →
            run.outcome = .returned .EACCES) ∧
          ((∀ i < (candidates filename PATH).length, execve i ≠ some .EACCES) →
            ∀ errno, execve ((candidates filename PATH).length - 1) = some errno →
              run.outcome = .returned errno)) := by
  obtain ⟨dir, dirs, names, search⟩ := search_path argc argv filename execve shell PATH
  have count : (candidates filename PATH).length = dirs.length + 1 := by
    rw [← names, List.length_map, List.length_cons]
  refine ⟨_, search, ?_, ?_, ?_, ?_⟩
  · intro memory args vector room
    rw [execlp, vector]
    dsimp only
    rw [room, if_neg (by decide), if_neg plain, search]
  · intro tried member
    obtain ⟨n, pathname, rfl⟩ :=
      searched_attempts argc argv filename execve shell 0 false dir dirs tried member
    exact Nat.le_refl _
  · intro i inside success earlier
    rw [← names]
    exact searched_stops argc argv filename execve shell refused 0 false dir dirs i (by omega)
      (by rw [Nat.zero_add]; exact success) fun j before => by
        rw [Nat.zero_add]
        exact earlier j before
  · intro failures
    obtain ⟨tried, denies, passes⟩ :=
      searched_fails argc argv filename execve shell refused 0 false dir dirs
        fun i inside => by
          rw [Nat.zero_add]
          exact failures i (by omega)
    refine ⟨tried.trans names, ?_, ?_⟩
    · rintro ⟨i, inside, denied⟩
      exact denies (Or.inr ⟨i, by omega, by rw [Nat.zero_add]; exact denied⟩)
    · intro allowed errno last
      refine passes rfl (fun i inside => ?_) errno ?_
      · rw [Nat.zero_add]
        exact allowed i (by omega)
      · rw [count, Nat.add_sub_cancel] at last
        rw [Nat.zero_add]
        exact last

theorem empty_prefixes_are_the_current_directory :
    ∃ run, searchPath 0 [] (literal "ls") (fun _ => some (.other 2)) (fun _ => some (.other 2))
        (some (literal ":/bin:")) = some run ∧
      run.attempts.map (·.pathname) = [literal "./ls", literal "/bin/ls", literal "./ls"] ∧
      run.outcome = .returned (.other 2) := by
  obtain ⟨run, search, _, _, _, failing⟩ :=
    path_search_is_exact 0 [] (literal "ls") (fun _ => some (.other 2))
      (fun _ => some (.other 2)) (some (literal ":/bin:")) (by decide) (by simp)
  obtain ⟨tried, _, passes⟩ := failing (by simp)
  exact ⟨run, search, tried, passes (by simp) (.other 2) rfl⟩

/-- What the shell should be given: a zeroth argument, the script, its arguments and a null
pointer. -/
def GivesScript (pathname : Str) (args : List Str)
    (script : Option (Except Fault Pointers)) : Prop :=
  ∃ zeroth beyond, script =
    some (.ok ((some zeroth :: some pathname :: passed args.tail).map .value ++ beyond))

theorem pathname_attempts (argc : Nat) (argv : Pointers) (filename : Str)
    (execve shell : Nat → Option Errno) :
    (execPathname argc argv filename execve shell).attempts =
      [fitting argc argv execve 0 filename] := by
  rw [execPathname]
  split
  · rfl
  · split <;> rfl

/-- Every attempt is made with the vector of all arguments. -/
theorem ran_attempts (memory : Memory) (filename : Str) (args : List Str) (PATH : Option Str)
    (execve shell : Nat → Option Errno) (run : Run)
    (ran : execlp memory filename args PATH execve shell = .ran run) :
    args.length < 99 ∧
      ∀ tried ∈ run.attempts, ∃ n pathname,
        tried = fitting (args.length + 1) (filled args) execve n pathname := by
  rw [execlp, build_argv, built] at ran
  split at ran
  · cases ran
  · cases ran
  · cases ran
  · next argv argc vector =>
      obtain ⟨short, rfl, rfl⟩ : args.length < 99 ∧ filled args = argv ∧
        args.length + 1 = argc := by
        split at vector
        · cases vector
        · split at vector
          · next short =>
              cases vector
              exact ⟨short, rfl, rfl⟩
          · split at vector <;> cases vector
      refine ⟨short, fun tried member => ?_⟩
      split at ran
      · cases ran
      · split at ran
        · cases ran
          rw [pathname_attempts] at member
          exact ⟨0, filename, List.mem_singleton.mp member⟩
        · obtain ⟨dir, dirs, _, search⟩ :=
            search_path (args.length + 1) (filled args) filename execve shell PATH
          rw [search] at ran
          cases ran
          exact searched_attempts (args.length + 1) (filled args) filename execve shell 0 false
            dir dirs tried member

theorem fitting_script (args : List Str) (short : args.length < 99)
    (execve : Nat → Option Errno) (n : Nat) (pathname : Str)
    (refused : execve n = some .ENOEXEC) :
    (fitting (args.length + 1) (filled args) execve n pathname).script =
      some (.error (.outside (args.length + 2) (args.length + 2))) := by
  rw [fitting, attempt, refused, ← script_overruns args short]
  rfl

theorem script_is_never_given (memory : Memory) (filename : Str) (args : List Str)
    (PATH : Option Str) (execve shell : Nat → Option Errno) (run : Run)
    (ran : execlp memory filename args PATH execve shell = .ran run) (tried : Attempt)
    (member : tried ∈ run.attempts) (refused : tried.answer = some .ENOEXEC) :
    ¬ GivesScript tried.pathname args tried.script := by
  obtain ⟨short, attempts⟩ := ran_attempts memory filename args PATH execve shell run ran
  obtain ⟨n, pathname, rfl⟩ := attempts tried member
  rintro ⟨zeroth, beyond, given⟩
  rw [fitting_script args short execve n pathname refused] at given
  cases given

theorem script_of_two_arguments :
    ∃ run tried, execlp ⟨false, fun _ => false, false⟩ (literal "./f")
      [literal "f", literal "x"] none
        (fun _ => some .ENOEXEC) (fun _ => some (.other 2)) = .ran run ∧
      tried ∈ run.attempts ∧ tried.answer = some .ENOEXEC ∧
      ¬ GivesScript tried.pathname [literal "f", literal "x"] tried.script := by
  have ran : execlp ⟨false, fun _ => false, false⟩ (literal "./f")
    [literal "f", literal "x"] none
      (fun _ => some .ENOEXEC) (fun _ => some (.other 2)) =
        .ran (execPathname 3 (filled [literal "f", literal "x"]) (literal "./f")
          (fun _ => some .ENOEXEC) (fun _ => some (.other 2))) := by
    rw [execlp, build_argv]
    rfl
  have member : fitting 3 (filled [literal "f", literal "x"]) (fun _ => some .ENOEXEC) 0
    (literal "./f") ∈
      (execPathname 3 (filled [literal "f", literal "x"]) (literal "./f") (fun _ => some .ENOEXEC)
        (fun _ => some (.other 2))).attempts := by
    rw [pathname_attempts]
    exact List.mem_singleton_self _
  exact ⟨_, _, ran, member, rfl, script_is_never_given _ _ _ _ _ _ _ ran _ member rfl⟩

theorem script_of_one_argument_overruns :
    ∃ run tried, execlp ⟨false, fun _ => false, false⟩ (literal "./f") [literal "f"] none
        (fun _ => some .ENOEXEC) (fun _ => some (.other 2)) = .ran run ∧
      tried ∈ run.attempts ∧ tried.answer = some .ENOEXEC ∧
      ¬ GivesScript tried.pathname [literal "f"] tried.script := by
  refine ⟨execPathname 2 (filled [literal "f"]) (literal "./f") (fun _ => some .ENOEXEC)
    (fun _ => some (.other 2)),
    fitting 2 (filled [literal "f"]) (fun _ => some .ENOEXEC) 0 (literal "./f"), ?_, ?_, rfl, ?_⟩
  · rw [execlp, build_argv]
    rfl
  · rw [pathname_attempts]
    exact List.mem_singleton_self _
  · rintro ⟨zeroth, beyond, given⟩
    have overrun :=
      fitting_script [literal "f"] (by decide) (fun _ => some .ENOEXEC) 0 (literal "./f") rfl
    cases overrun.symm.trans given

end Tlpi.ExecSearch
