import Mathlib.Data.List.Basic
import Tlpi.CStrings
import Tlpi.Descriptors
import Tlpi.Transition

/-!
daemons/become_daemon.c and daemons/daemon_SIGHUP.c: a program detaches itself from its session
and its files, and on SIGHUP opens its log again and reads its configuration file. Log files are
numbered as they come to have the log's name, and the time stamps of messages are left out.
-/

namespace Tlpi.Daemons

open Tlpi.CStrings Tlpi.Descriptors

def BD_NO_CHDIR : BitVec 32 := 0o1#32
def BD_NO_CLOSE_FILES : BitVec 32 := 0o2#32
def BD_NO_REOPEN_STD_FDS : BitVec 32 := 0o4#32
def BD_NO_UMASK0 : BitVec 32 := 0o10#32
def BD_MAX_CLOSE : Nat := 8192

def STDIN_FILENO : Nat := 0
def STDOUT_FILENO : Nat := 1
def STDERR_FILENO : Nat := 2

inductive File where
  | devNull
  | other (number : Nat)
  deriving DecidableEq

inductive Directory where
  | root
  | other (number : Nat)
  deriving DecidableEq

structure Process where
  pid : Nat
  pgid : Nat
  sid : Nat
  terminal : Option Nat
  umask : BitVec 32
  directory : Directory
  table : List (Option File)
  deriving DecidableEq

/-- What the calls answer: the process IDs of the children, whether /dev/null can be opened, and
the limit of open files that `sysconf` reports, if it is determinate. -/
structure Answers where
  fork : Option Nat
  forkAgain : Option Nat
  devNull : Bool
  limit : Option Nat

/-- The process in which `becomeDaemon` returns, and those that have called `_exit`. -/
structure Outcome where
  returns : Int
  process : Process
  exited : List Nat
  deriving DecidableEq

/-- A process group leader cannot start a session. -/
def setsid (process : Process) : Option Process :=
  if process.pid = process.pgid then none
  else some { process with sid := process.pid, pgid := process.pid, terminal := none }

def closeFiles (limit : Option Nat) (table : List (Option File)) : List (Option File) :=
  (List.range (limit.getD BD_MAX_CLOSE)).foldl (fun table fd => close fd table) table

def openDevNull (answers : Answers) (table : List (Option File)) :
    Option (Nat × List (Option File)) :=
  if answers.devNull then allocate answers.limit .devNull table else none

def reopenStdFds (answers : Answers) (table : List (Option File)) : Int × List (Option File) :=
  let table := close STDIN_FILENO table
  match openDevNull answers table with
  | none => (-1, table)
  | some (fd, table) =>
      if fd ≠ STDIN_FILENO then (-1, table)
      else
        match dup2 answers.limit STDIN_FILENO STDOUT_FILENO table with
        | none => (-1, table)
        | some (_, table) =>
            match dup2 answers.limit STDIN_FILENO STDERR_FILENO table with
            | none => (-1, table)
            | some (_, table) => (0, table)

/-- What `flags` leaves of the last steps, in the grandchild. -/
def settle (answers : Answers) (flags : BitVec 32) (process : Process) : Int × Process :=
  let umask := if flags &&& BD_NO_UMASK0 = 0 then 0 else process.umask
  let directory := if flags &&& BD_NO_CHDIR = 0 then .root else process.directory
  let table :=
    if flags &&& BD_NO_CLOSE_FILES = 0 then closeFiles answers.limit process.table
    else process.table
  let reopened :=
    if flags &&& BD_NO_REOPEN_STD_FDS = 0 then reopenStdFds answers table else (0, table)
  (reopened.1, { process with umask := umask, directory := directory, table := reopened.2 })

def becomeDaemon (answers : Answers) (flags : BitVec 32) (caller : Process) : Outcome :=
  match answers.fork with
  | none => ⟨-1, caller, []⟩
  | some pid =>
      let child := { caller with pid := pid }
      match setsid child with
      | none => ⟨-1, child, [caller.pid]⟩
      | some leader =>
          match answers.forkAgain with
          | none => ⟨-1, leader, [caller.pid]⟩
          | some second =>
              let settled := settle answers flags { leader with pid := second }
              ⟨settled.1, settled.2, [caller.pid, leader.pid]⟩

theorem close_files_lookup (limit : Option Nat) (table : List (Option File)) (fd : Nat) :
    lookup (closeFiles limit table) fd =
      if fd < limit.getD BD_MAX_CLOSE then none else lookup table fd := by
  rw [closeFiles, lookup_close_all]
  simp only [List.mem_range]

/-- The lowest descriptor is given out first, so `open` can only return 0. -/
theorem open_dev_null (answers : Answers) (table : List (Option File)) :
    openDevNull answers (close STDIN_FILENO table) =
      if answers.devNull = true ∧ within answers.limit STDIN_FILENO then
        some (STDIN_FILENO, assign STDIN_FILENO (some .devNull) (close STDIN_FILENO table))
      else none := by
  have first : lowest (close STDIN_FILENO table) = STDIN_FILENO := by
    refine lowest_eq _ _ ?_ fun other below => absurd below (Nat.not_lt_zero other)
    rw [lookup_close, if_pos rfl]
  unfold openDevNull allocate
  rw [first]
  by_cases there : answers.devNull = true
  · simp only [there, ↓reduceIte, true_and]
  · simp only [there, Bool.false_eq_true, ↓reduceIte, false_and]

theorem dup2_used (limit : Option Nat) (newfd : Nat) (table : List (Option File)) (file : File)
    (used : lookup table STDIN_FILENO = some file) :
    dup2 limit STDIN_FILENO newfd table =
      if within limit newfd then some (newfd, assign newfd (some file) table) else none := by
  unfold dup2
  rw [used]

theorem within_less (limit : Option Nat) (fd other : Nat) (fine : within limit fd)
    (less : other ≤ fd) : within limit other := by
  intro bound there
  exact Nat.lt_of_le_of_lt less (fine bound there)

theorem reopen_done (answers : Answers) (table : List (Option File))
    (there : answers.devNull = true) (enough : within answers.limit STDERR_FILENO) :
    reopenStdFds answers table =
      (0, assign STDERR_FILENO (some .devNull) (assign STDOUT_FILENO (some .devNull)
      (assign STDIN_FILENO (some .devNull) (close STDIN_FILENO table)))) := by
  have zero := within_less _ _ STDIN_FILENO enough (by decide)
  have one := within_less _ _ STDOUT_FILENO enough (by decide)
  unfold reopenStdFds
  dsimp only
  rw [open_dev_null, if_pos ⟨there, zero⟩]
  dsimp only
  rw [if_neg (not_not_intro rfl), dup2_used _ _ _ .devNull (by rw [lookup_assign, if_pos rfl]),
      if_pos one]
  dsimp only
  rw [dup2_used _ _ _ .devNull
      (by rw [lookup_assign, if_neg (by decide), lookup_assign, if_pos rfl]), if_pos enough]

theorem reopen_fails (answers : Answers) (table : List (Option File))
    (short : ¬ (answers.devNull = true ∧ within answers.limit STDERR_FILENO)) :
    (reopenStdFds answers table).1 = -1 := by
  unfold reopenStdFds
  dsimp only
  rw [open_dev_null]
  split
  · rfl
  · next fd opened found =>
      rw [Option.ite_none_right_eq_some, Option.some.injEq, Prod.mk.injEq] at found
      obtain ⟨⟨there, _⟩, rfl, rfl⟩ := found
      rw [if_neg (not_not_intro rfl)]
      split
      · rfl
      · next _ doubled copied =>
          obtain ⟨_, file, used, rfl⟩ := dup2_some _ _ _ _ _ _ copied
          have kept : lookup (assign STDOUT_FILENO (some file)
              (assign STDIN_FILENO (some File.devNull) (close STDIN_FILENO table))) STDIN_FILENO =
                some .devNull := by
            rw [lookup_assign, if_neg (by decide), lookup_assign, if_pos rfl]
          rw [dup2_used _ _ _ .devNull kept, if_neg fun bad => short ⟨there, bad⟩]

theorem reopen_returns (answers : Answers) (table : List (Option File)) :
    (reopenStdFds answers table).1 = 0 ∨ (reopenStdFds answers table).1 = -1 := by
  by_cases fine : answers.devNull = true ∧ within answers.limit STDERR_FILENO
  · rw [reopen_done answers table fine.1 fine.2]
    exact .inl rfl
  · exact .inr (reopen_fails answers table fine)

theorem reopened (answers : Answers) (table : List (Option File)) :
    (reopenStdFds answers table).1 = 0 ↔ answers.devNull = true ∧
      within answers.limit STDERR_FILENO := by
  constructor
  · intro done_
    by_contra short
    rw [reopen_fails answers table short] at done_
    cases done_
  · rintro ⟨there, enough⟩
    rw [reopen_done answers table there enough]

theorem reopened_lookup (answers : Answers) (table : List (Option File)) (fd : Nat)
    (fine : (reopenStdFds answers table).1 = 0) :
    lookup (reopenStdFds answers table).2 fd =
      if fd ≤ STDERR_FILENO then some .devNull else lookup table fd := by
  obtain ⟨there, enough⟩ := (reopened answers table).mp fine
  rw [reopen_done answers table there enough]
  by_cases std : fd ≤ STDERR_FILENO
  · rw [if_pos std]
    have known : fd = STDERR_FILENO ∨ fd = STDOUT_FILENO ∨ fd = STDIN_FILENO := by
      simp only [STDERR_FILENO, STDOUT_FILENO, STDIN_FILENO] at std ⊢
      omega
    rcases known with rfl | rfl | rfl
    · rw [lookup_assign, if_pos rfl]
    · rw [lookup_assign, if_neg (by decide), lookup_assign, if_pos rfl]
    · rw [lookup_assign, if_neg (by decide), lookup_assign, if_neg (by decide),
          lookup_assign, if_pos rfl]
  · have above (low : Nat) (small : low ≤ STDERR_FILENO) : fd ≠ low :=
      fun same => std (same ▸ small)
    rw [if_neg std, lookup_assign, if_neg (above _ (by decide)), lookup_assign,
      if_neg (above _ (by decide)), lookup_assign, if_neg (above _ (by decide)), lookup_close,
      if_neg (above _ (by decide))]

/-- What the descriptors of a daemon are. -/
def daemonFile (answers : Answers) (flags : BitVec 32) (table : List (Option File))
    (fd : Nat) : Option File :=
  if flags &&& BD_NO_REOPEN_STD_FDS = 0 ∧ fd ≤ STDERR_FILENO then some .devNull
  else if flags &&& BD_NO_CLOSE_FILES = 0 ∧ fd < answers.limit.getD BD_MAX_CLOSE then none
  else lookup table fd

section Settle
variable (answers : Answers) (flags : BitVec 32) (process : Process)

theorem settle_returns : ((settle answers flags process).1 = 0 ↔
      (flags &&& BD_NO_REOPEN_STD_FDS = 0 → answers.devNull = true ∧
        within answers.limit STDERR_FILENO)) ∧
    ((settle answers flags process).1 = 0 ∨ (settle answers flags process).1 = -1) := by
  unfold settle
  dsimp only
  by_cases again : flags &&& BD_NO_REOPEN_STD_FDS = 0
  · rw [if_pos again]
    exact ⟨(reopened answers _).trans ⟨fun fine _ => fine, fun fine => fine again⟩,
      reopen_returns answers _⟩
  · rw [if_neg again]
    exact ⟨⟨fun _ bad => absurd bad again, fun _ => rfl⟩, .inl rfl⟩

theorem settle_files (fine : (settle answers flags process).1 = 0) (fd : Nat) :
    lookup (settle answers flags process).2.table fd =
      daemonFile answers flags process.table fd := by
  have closed : lookup (if flags &&& BD_NO_CLOSE_FILES = 0 then
    closeFiles answers.limit process.table
        else process.table) fd =
      if flags &&& BD_NO_CLOSE_FILES = 0 ∧ fd < answers.limit.getD BD_MAX_CLOSE then none
      else lookup process.table fd := by
    by_cases closing : flags &&& BD_NO_CLOSE_FILES = 0
    · simp only [closing, ↓reduceIte, true_and]
      exact close_files_lookup answers.limit process.table fd
    · simp only [closing, ↓reduceIte, false_and]
  unfold settle at fine ⊢
  unfold daemonFile
  dsimp only at fine ⊢
  by_cases again : flags &&& BD_NO_REOPEN_STD_FDS = 0
  · rw [if_pos again] at fine ⊢
    rw [reopened_lookup answers _ fd fine, closed]
    simp only [again, true_and]
  · rw [if_neg again]
    simp only [again, false_and, ↓reduceIte]
    exact closed

end Settle

/-- Process IDs that are in use are not given to a child. -/
structure Fresh (answers : Answers) (caller : Process) : Prop where
  first : ∀ pid ∈ answers.fork,
    pid ≠ caller.pid ∧ pid ≠ caller.pgid ∧ pid ≠ caller.sid
  second : ∀ pid ∈ answers.fork, ∀ later ∈ answers.forkAgain, later ≠ pid

/-- In the process where it returns 0, which is in a session of its own without a terminal and
cannot get one as it does not lead the session. -/
theorem daemon_is_detached (answers : Answers) (flags : BitVec 32) (caller : Process)
    (fresh : Fresh answers caller) :
    ((becomeDaemon answers flags caller).returns = 0 ∨
      (becomeDaemon answers flags caller).returns = -1) ∧
      ((becomeDaemon answers flags caller).returns = 0 ↔ answers.fork ≠ none ∧
        answers.forkAgain ≠ none ∧
        (flags &&& BD_NO_REOPEN_STD_FDS = 0 → answers.devNull = true ∧
          within answers.limit STDERR_FILENO)) ∧
      ∀ daemon, (becomeDaemon answers flags caller).returns = 0 →
        (becomeDaemon answers flags caller).process = daemon →
        daemon.pid ≠ daemon.sid ∧ daemon.pid ≠ daemon.pgid ∧ daemon.sid ≠ caller.sid ∧
          daemon.terminal = none ∧
          (becomeDaemon answers flags caller).exited = [caller.pid, daemon.sid] ∧
          daemon.umask = (if flags &&& BD_NO_UMASK0 = 0 then 0 else caller.umask) ∧
          daemon.directory = (if flags &&& BD_NO_CHDIR = 0 then .root else caller.directory) ∧
          ∀ fd, lookup daemon.table fd = daemonFile answers flags caller.table fd := by
  unfold becomeDaemon
  cases first : answers.fork with
  | none =>
      exact ⟨.inr rfl, ⟨fun bad => (by cases bad), fun bad => absurd rfl bad.1⟩,
        fun _ bad => by cases bad⟩
  | some pid =>
      obtain ⟨_, group, session⟩ := fresh.first pid first
      dsimp only
      rw [setsid, if_neg group]
      dsimp only
      cases second : answers.forkAgain with
      | none =>
          exact ⟨.inr rfl, ⟨fun bad => (by cases bad), fun bad => absurd rfl bad.2.1⟩,
            fun _ bad => by cases bad⟩
      | some later =>
          have other := fresh.second pid first later second
          dsimp only
          obtain ⟨fine, either⟩ := settle_returns answers flags
            { caller with pid := later, pgid := pid, sid := pid, terminal := none }
          refine ⟨either,
            fine.trans ⟨fun can => ⟨Option.some_ne_none _, Option.some_ne_none _, can⟩,
              fun can => can.2.2⟩, ?_⟩
          rintro daemon returned rfl
          exact ⟨other, other, session, rfl, rfl, rfl, rfl,
            settle_files answers flags _ returned⟩

def shellChild : Process :=
  ⟨100, 100, 90, some 3, 0o22#32, .other 5, [some (.other 1), some (.other 1), some (.other 1)]⟩

theorem shell_child_is_detached :
    (becomeDaemon ⟨some 101, some 102, true, some 1024⟩ 0 shellChild).returns = 0 := by
  have fresh : Fresh ⟨some 101, some 102, true, some 1024⟩ shellChild :=
    ⟨fun pid there => by cases there; decide, fun pid there later here => by
      cases there; cases here; decide⟩
  refine (daemon_is_detached _ 0 shellChild fresh).2.1.mpr
    ⟨by decide, by decide, fun _ => ⟨rfl, ?_⟩⟩
  intro bound there
  cases there
  decide

def SLEEP_TIME : Nat := 15
def SBUF_SIZE : Nat := 100
def newline : UInt8 := 10

inductive Message where
  | opened
  | closing
  | config (str : Str)
  | main (count : Nat)
  deriving DecidableEq

def firstLine (content : List UInt8) : List UInt8 := content.takeWhile (· ≠ newline)

/-- The bytes that `fgets` stores before its null byte. -/
def fgets (size : Nat) (content : List UInt8) : List UInt8 :=
  (content.take ((firstLine content).length + 1)).take (size - 1)

inductive Logged where
  | nothing
  | message (message : Message)
  | undefined
  deriving DecidableEq

/-- A missing file is ignored. Where the line starts with a null byte, the byte before `str` is
written. -/
def readConfigFile (config : Option (List UInt8)) : Logged :=
  match config with
  | none => .nothing
  | some content =>
      if content = [] then .message (.config [])
      else
        let str := (fgets SBUF_SIZE content).takeWhile (· ≠ 0)
        if str = [] then .undefined else .message (.config str.dropLast)

/-- What is stored is one byte longer than the line only if it is the line with its newline. -/
theorem whole_line (content : List UInt8)
    (size : ((fgets SBUF_SIZE content).takeWhile (· ≠ 0)).length = (firstLine content).length +
      1) :
    0 ∉ firstLine content ∧ newline ∈ content.take (SBUF_SIZE - 1) := by
  have front : (fgets SBUF_SIZE content).takeWhile (· ≠ 0) <+: fgets SBUF_SIZE content :=
    List.takeWhile_prefix _
  have stored : fgets SBUF_SIZE content <+: content.take ((firstLine content).length + 1) :=
    List.take_prefix _ _
  have long := front.length_le
  have longer := stored.length_le
  rw [List.length_take] at longer
  have short : (fgets SBUF_SIZE content).length ≤ SBUF_SIZE - 1 := by
    rw [fgets, List.length_take]
    exact Nat.min_le_left _ _
  have all : (fgets SBUF_SIZE content).takeWhile (· ≠ 0) =
      content.take ((firstLine content).length + 1) :=
    (front.trans stored).eq_of_length (by rw [List.length_take]; omega)
  have there : newline ∈ content := by
    by_contra absent
    have line := takeWhile_part newline content [] absent fun _ bad => by cases bad
    rw [List.append_nil] at line
    rw [firstLine, line] at size
    omega
  obtain ⟨⟨line, rest⟩, parts⟩ :=
    Option.ne_none_iff_exists'.mp (mt (cut_none newline content).mp (not_not_intro there))
  obtain ⟨rfl, absent⟩ := (cut_some newline content line rest).mp parts
  have first : firstLine (line ++ newline :: rest) = line :=
    takeWhile_part newline line _ absent fun _ head => (Option.some.inj head).symm
  rw [first] at all size ⊢
  constructor
  · intro bad
    have inside : (0 : UInt8) ∈ (line ++ newline :: rest).take (line.length + 1) :=
      (List.take_prefix_take_left (Nat.le_succ _)).subset (by rw [List.take_left]; exact bad)
    rw [← all] at inside
    have nonzero := List.mem_takeWhile_imp inside
    simp at nonzero
  · rw [List.take_append]
    refine List.mem_append_right _ ?_
    obtain ⟨more, room⟩ : ∃ more, SBUF_SIZE - 1 - line.length = more + 1 :=
      ⟨SBUF_SIZE - 1 - line.length - 1, by omega⟩
    rw [room, List.take_succ_cons]
    exact List.mem_cons_self

theorem line_stored (content : List UInt8) (text : 0 ∉ firstLine content)
    (ends : newline ∈ content.take (SBUF_SIZE - 1)) :
    (fgets SBUF_SIZE content).takeWhile (· ≠ 0) = firstLine content ++ [newline] := by
  have there : newline ∈ content := List.mem_of_mem_take ends
  obtain ⟨⟨line, rest⟩, parts⟩ :=
    Option.ne_none_iff_exists'.mp (mt (cut_none newline content).mp (not_not_intro there))
  obtain ⟨rfl, absent⟩ := (cut_some newline content line rest).mp parts
  have first : firstLine (line ++ newline :: rest) = line :=
    takeWhile_part newline line _ absent fun _ head => (Option.some.inj head).symm
  rw [first] at text ⊢
  have short : line.length < SBUF_SIZE - 1 := by
    by_contra long
    rw [List.take_append_of_le_length (Nat.le_of_not_lt long)] at ends
    exact absent (List.mem_of_mem_take ends)
  have stored : fgets SBUF_SIZE (line ++ newline :: rest) = line ++ [newline] := by
    rw [fgets, first, List.take_take, Nat.min_eq_right (by omega), List.take_length_add_append]
    rfl
  rw [stored, List.takeWhile_eq_self_iff]
  intro byte member
  rw [decide_eq_true_eq]
  rcases List.mem_append.mp member with inside | last
  · exact fun zero => text (zero ▸ inside)
  · rw [List.mem_singleton.mp last]
    decide

/-- The last byte that was read is removed whether or not it is a newline. -/
theorem config_line_is_logged (content : List UInt8) :
    readConfigFile (some content) = .message (.config (firstLine content)) ↔
      content = [] ∨ (0 ∉ firstLine content ∧ newline ∈ content.take (SBUF_SIZE - 1)) := by
  by_cases empty : content = []
  · subst empty
    exact ⟨fun _ => .inl rfl, fun _ => rfl⟩
  simp only [readConfigFile, empty, ↓reduceIte, false_or]
  constructor
  · intro logged
    split at logged
    · cases logged
    · next some_ =>
        rw [Logged.message.injEq, Message.config.injEq] at logged
        have size : ((fgets SBUF_SIZE content).takeWhile (· ≠ 0)).length =
            (firstLine content).length + 1 := by
          have positive := List.length_pos_iff.mpr some_
          have shorter := congrArg List.length logged
          rw [List.length_dropLast] at shorter
          omega
        exact whole_line content size
  · rintro ⟨text, ends⟩
    rw [line_stored content text ends, if_neg (by simp), List.dropLast_concat]

/-- The next thing `main` does; `first` tells its start from a later round. -/
inductive Place where
  | logOpen (first : Bool)
  | readConfig (first : Bool)
  | sleep
  | check
  | clear
  | logClose
  | interval
  | exited
  | undefined
  deriving DecidableEq

/-- `named` is the file that has the log's name now and `version` counts the changes of the
configuration. `asked` is what they were at the last SIGHUP, `loaded` what was read last. -/
structure State where
  place : Place
  hupReceived : Bool
  unslept : Nat
  count : Nat
  logfp : Nat
  log : List (Nat × Message)
  named : Nat
  config : Option (List UInt8)
  version : Nat
  askedLog : Nat
  askedVersion : Nat
  loaded : Nat
  deriving DecidableEq

inductive Choice where
  | act (opens : Bool)
  | sighup (rest : Nat)
  | rotate
  | edit (config : Option (List UInt8))
  deriving DecidableEq

def logMessage (message : Message) (state : State) : State :=
  { state with log := state.log ++ [(state.logfp, message)] }

def act (opens : Bool) (state : State) : Option State :=
  match state.place with
  | .logOpen first =>
      if opens then
        some (logMessage .opened { state with logfp := state.named, place := .readConfig first })
      else some { state with place := .exited }
  | .readConfig first =>
      let next :=
        if first then { state with loaded := state.version, unslept := SLEEP_TIME, place := .sleep }
        else { state with loaded := state.version, place := .interval }
      match readConfigFile state.config with
      | .nothing => some next
      | .message message => some (logMessage message next)
      | .undefined => some { state with place := .undefined }
  | .sleep => some { state with unslept := 0, place := .check }
  | .check => some { state with place := if state.hupReceived then .clear else .interval }
  | .clear => some { state with hupReceived := false, place := .logClose }
  | .logClose => some { logMessage .closing state with place := .logOpen false }
  | .interval =>
      if state.unslept = 0 then
        some (logMessage (.main (state.count + 1))
          { state with count := state.count + 1, unslept := SLEEP_TIME, place := .sleep })
      else some { state with place := .sleep }
  | .exited => none
  | .undefined => none

/-- SIGHUP ends a sleep, of which whole seconds may be left. -/
def sighup (rest : Nat) (state : State) : State :=
  let noted :=
    { state with hupReceived := true, askedLog := state.named, askedVersion := state.version }
  if state.place = .sleep then { noted with unslept := min rest state.unslept, place := .check }
  else noted

def step (choice : Choice) (state : State) : Option State :=
  match choice with
  | .act opens => act opens state
  | .sighup rest => some (sighup rest state)
  | .rotate => some { state with named := state.named + 1 }
  | .edit config => some { state with config := config, version := state.version + 1 }

def start (config : Option (List UInt8)) : State :=
  ⟨.logOpen true, false, 0, 0, 0, [], 0, config, 0, 0, 0, 0⟩

/-- The log is opened and closed in turn, is written while it is open, and its intervals are
counted from one. -/
def scanMessage : Bool × Nat → Message → Option (Bool × Nat)
  | (false, count), .opened => some (true, count)
  | (true, count), .closing => some (false, count)
  | (true, count), .config _ => some (true, count)
  | (true, count), .main number => if number = count + 1 then some (true, number) else none
  | _, _ => none

def scan (log : List (Nat × Message)) : Option (Bool × Nat) :=
  (log.map Prod.snd).foldlM scanMessage (false, 0)

def Place.writes : Place → Bool
  | .logOpen _ => false
  | .exited => false
  | _ => true

/-- The log is to be opened before anything else is written. -/
def Place.reopens : Place → Bool
  | .clear => true
  | .logClose => true
  | .logOpen _ => true
  | .exited => true
  | .undefined => true
  | _ => false

def Place.rereads : Place → Bool
  | .readConfig _ => true
  | place => place.reopens

structure Inv (state : State) : Prop where
  scanned : scan state.log = some (state.place.writes, state.count)
  order : (state.log.map Prod.fst).Pairwise (· ≤ ·)
  latest : ∀ entry ∈ state.log, entry.1 ≤ state.logfp
  current : state.logfp ≤ state.named
  asked : state.askedLog ≤ state.named ∧ state.askedVersion ≤ state.version
  reopened : state.hupReceived = true ∨ state.place.reopens = true ∨
    state.askedLog ≤ state.logfp
  reread : state.hupReceived = true ∨ state.place.rereads = true ∨
    state.askedVersion ≤ state.loaded

theorem scan_append (log : List (Nat × Message)) (file : Nat) (message : Message)
    (before after : Bool × Nat) (scanned : scan log = some before)
    (next : scanMessage before message = some after) :
    scan (log ++ [(file, message)]) = some after := by
  unfold scan at scanned ⊢
  rw [List.map_append, List.foldlM_append, scanned]
  simp [next]

theorem start_inv (config : Option (List UInt8)) : Inv (start config) :=
  ⟨rfl, List.Pairwise.nil, fun _ bad => absurd bad List.not_mem_nil, Nat.le_refl 0,
    ⟨Nat.le_refl 0, Nat.le_refl 0⟩, .inr (.inl rfl), .inr (.inl rfl)⟩

/-- A message that is written to the file `logfp`, which may have been opened since the last one. -/
theorem ordered_append (log : List (Nat × Message)) (old new : Nat) (message : Message)
    (order : (log.map Prod.fst).Pairwise (· ≤ ·)) (latest : ∀ entry ∈ log, entry.1 ≤ old)
    (later : old ≤ new) :
    ((log ++ [(new, message)]).map Prod.fst).Pairwise (· ≤ ·) ∧
      ∀ entry ∈ log ++ [(new, message)], entry.1 ≤ new := by
  have below (entry : Nat × Message) (member : entry ∈ log) : entry.1 ≤ new :=
    Nat.le_trans (latest entry member) later
  constructor
  · rw [List.map_append, List.pairwise_append]
    refine ⟨order, List.pairwise_singleton _ _, fun file member other single => ?_⟩
    obtain ⟨entry, inside, rfl⟩ := List.mem_map.mp member
    rw [List.map_singleton, List.mem_singleton] at single
    rw [single]
    exact below entry inside
  · intro entry member
    rcases List.mem_append.mp member with inside | single
    · exact below entry inside
    · rw [List.mem_singleton.mp single]

/-- A step of the program that writes nothing. -/
theorem quiet_inv (before after : State) (inv : Inv before) (log : after.log = before.log)
    (count : after.count = before.count) (writes : after.place.writes = before.place.writes)
    (logfp : after.logfp = before.logfp) (named : before.named ≤ after.named)
    (asked : after.askedLog ≤ after.named ∧ after.askedVersion ≤ after.version)
    (reopened : after.hupReceived = true ∨ after.place.reopens = true ∨
      after.askedLog ≤ after.logfp)
    (reread : after.hupReceived = true ∨ after.place.rereads = true ∨
      after.askedVersion ≤ after.loaded) :
    Inv after := by
  refine ⟨?_, ?_, ?_, ?_, asked, reopened, reread⟩
  · rw [log, count, writes]
    exact inv.scanned
  · rw [log]
    exact inv.order
  · rw [log, logfp]
    exact inv.latest
  · rw [logfp]
    exact Nat.le_trans inv.current named

/-- A step of the program that writes one message. -/
theorem written_inv (before after : State) (inv : Inv before) (message : Message)
    (log : after.log = before.log ++ [(after.logfp, message)])
    (next : scanMessage (before.place.writes, before.count) message =
      some (after.place.writes, after.count))
    (logfp : before.logfp ≤ after.logfp) (current : after.logfp ≤ after.named)
    (asked : after.askedLog ≤ after.named ∧ after.askedVersion ≤ after.version)
    (reopened : after.hupReceived = true ∨ after.place.reopens = true ∨
      after.askedLog ≤ after.logfp)
    (reread : after.hupReceived = true ∨ after.place.rereads = true ∨
      after.askedVersion ≤ after.loaded) :
    Inv after := by
  obtain ⟨order, latest⟩ := ordered_append before.log _ _ message inv.order inv.latest logfp
  rw [← log] at order latest
  refine ⟨?_, order, latest, current, asked, reopened, reread⟩
  rw [log]
  exact scan_append before.log _ message _ _ inv.scanned next

section Act
variable (before after : State) (inv : Inv before)
include inv

theorem log_open_inv (opens first : Bool) (place : before.place = .logOpen first)
    (taken : act opens before = some after) : Inv after := by
  simp only [act, place] at taken
  cases opens with
  | true =>
      cases taken
      refine written_inv before _ inv .opened rfl ?_ inv.current (Nat.le_refl _) inv.asked ?_ ?_
      · rw [place]
        rfl
      · exact .inr (.inr inv.asked.1)
      · exact .inr (.inl rfl)
  | false =>
      cases taken
      refine quiet_inv before _ inv rfl rfl ?_ rfl (Nat.le_refl _) inv.asked (.inr (.inl rfl))
        (.inr (.inl rfl))
      rw [place]
      rfl

theorem read_config_inv (opens first : Bool) (place : before.place = .readConfig first)
    (taken : act opens before = some after) : Inv after := by
  simp only [act, place] at taken
  have reopened : before.hupReceived = true ∨ before.askedLog ≤ before.logfp := by
    have known := inv.reopened
    rw [place] at known
    rcases known with hup | bad | fine
    · exact .inl hup
    · cases bad
    · exact .inr fine
  have writes : before.place.writes = true := by rw [place]; rfl
  split at taken
  · cases taken
    cases first with
    | true =>
        exact quiet_inv before _ inv rfl rfl (by rw [writes]; rfl) rfl (Nat.le_refl _) inv.asked
          (reopened.imp_right .inr) (.inr (.inr inv.asked.2))
    | false =>
        exact quiet_inv before _ inv rfl rfl (by rw [writes]; rfl) rfl (Nat.le_refl _) inv.asked
          (reopened.imp_right .inr) (.inr (.inr inv.asked.2))
  · next message found =>
      have config : ∃ str, message = .config str := by
        unfold readConfigFile at found
        split at found
        · cases found
        · split at found
          · cases found
            exact ⟨_, rfl⟩
          · dsimp only at found
            split at found
            · cases found
            · cases found
              exact ⟨_, rfl⟩
      obtain ⟨str, rfl⟩ := config
      cases taken
      cases first with
      | true =>
          exact written_inv before _ inv (.config str) rfl (by rw [writes]; rfl)
            (Nat.le_refl _) inv.current inv.asked
            (reopened.imp_right .inr) (.inr (.inr inv.asked.2))
      | false =>
          exact written_inv before _ inv (.config str) rfl (by rw [writes]; rfl)
            (Nat.le_refl _) inv.current inv.asked
            (reopened.imp_right .inr) (.inr (.inr inv.asked.2))
  · cases taken
    exact quiet_inv before _ inv rfl rfl (by rw [writes]; rfl) rfl (Nat.le_refl _) inv.asked
      (.inr (.inl rfl)) (.inr (.inl rfl))

theorem act_inv (opens : Bool) (taken : act opens before = some after) : Inv after := by
  cases place : before.place with
  | logOpen first => exact log_open_inv before after inv opens first place taken
  | readConfig first => exact read_config_inv before after inv opens first place taken
  | sleep =>
      simp only [act, place] at taken
      cases taken
      have reopened := inv.reopened
      have reread := inv.reread
      rw [place] at reopened reread
      exact quiet_inv before _ inv rfl rfl (by rw [place]; rfl) rfl
        (Nat.le_refl _) inv.asked reopened reread
  | check =>
      simp only [act, place] at taken
      cases taken
      have reopened := inv.reopened
      have reread := inv.reread
      rw [place] at reopened reread
      cases hup : before.hupReceived with
      | true =>
          exact quiet_inv before _ inv rfl rfl (by rw [place]; rfl) rfl (Nat.le_refl _) inv.asked
            (.inl rfl) (.inl rfl)
      | false =>
          rw [hup] at reopened reread
          exact quiet_inv before _ inv rfl rfl (by rw [place]; rfl) rfl
            (Nat.le_refl _) inv.asked reopened reread
  | clear =>
      simp only [act, place] at taken
      cases taken
      exact quiet_inv before _ inv rfl rfl (by rw [place]; rfl) rfl (Nat.le_refl _) inv.asked
        (.inr (.inl rfl)) (.inr (.inl rfl))
  | logClose =>
      simp only [act, place] at taken
      cases taken
      exact written_inv before _ inv .closing rfl (by rw [place]; rfl)
        (Nat.le_refl _) inv.current inv.asked (.inr (.inl rfl)) (.inr (.inl rfl))
  | interval =>
      simp only [act, place] at taken
      have reopened := inv.reopened
      have reread := inv.reread
      rw [place] at reopened reread
      split at taken
      · cases taken
        refine written_inv before _ inv (.main (before.count + 1)) rfl ?_
          (Nat.le_refl _) inv.current inv.asked reopened reread
        rw [place]
        exact if_pos rfl
      · cases taken
        exact quiet_inv before _ inv rfl rfl (by rw [place]; rfl) rfl
          (Nat.le_refl _) inv.asked reopened reread
  | exited =>
      simp only [act, place] at taken
      cases taken
  | undefined =>
      simp only [act, place] at taken
      cases taken

theorem step_inv (choice : Choice) (taken : step choice before = some after) : Inv after := by
  cases choice with
  | act opens => exact act_inv before after inv opens taken
  | sighup rest =>
      cases taken
      have asked : before.named ≤ before.named ∧ before.version ≤ before.version :=
        ⟨Nat.le_refl _, Nat.le_refl _⟩
      unfold sighup
      dsimp only
      split
      · next place =>
          exact quiet_inv before _ inv rfl rfl (by rw [place]; rfl) rfl (Nat.le_refl _) asked
            (.inl rfl) (.inl rfl)
      · exact quiet_inv before _ inv rfl rfl rfl rfl (Nat.le_refl _) asked (.inl rfl) (.inl rfl)
  | rotate =>
      cases taken
      exact quiet_inv before _ inv rfl rfl rfl rfl (Nat.le_succ _)
        ⟨Nat.le_succ_of_le inv.asked.1, inv.asked.2⟩ inv.reopened inv.reread
  | edit config =>
      cases taken
      exact quiet_inv before _ inv rfl rfl rfl rfl (Nat.le_refl _) ⟨inv.asked.1,
        Nat.le_succ_of_le inv.asked.2⟩ inv.reopened inv.reread

end Act

/-- How many steps of the program there are at most before the last SIGHUP has been served. -/
def due (state : State) : Nat :=
  match state.place with
  | .logOpen _ => 7 * state.hupReceived.toNat + 2
  | .readConfig _ => 7 * state.hupReceived.toNat + 1
  | .interval => 7 * state.hupReceived.toNat
  | .sleep => 6 * state.hupReceived.toNat
  | .check => 5 * state.hupReceived.toNat
  | .clear => 4
  | .logClose => 7 * state.hupReceived.toNat + 3
  | .exited => 0
  | .undefined => 0

theorem act_due (opens : Bool) (before after : State) (taken : act opens before = some after) :
    due after ≤ due before - 1 := by
  unfold act at taken
  split at taken
  · next first place =>
      split at taken
      · cases taken
        simp only [due, logMessage, place]
        omega
      · cases taken
        exact Nat.zero_le _
  · next first place =>
      have next (state : State) (here : state.place = .sleep ∨ state.place = .interval)
          (same : state.hupReceived = before.hupReceived) : due state ≤ due before - 1 := by
        rcases here with here | here <;> simp only [due, place, here, same] <;> omega
      dsimp only at taken
      split at taken
      · cases taken
        cases first with
        | true => exact next _ (.inl rfl) rfl
        | false => exact next _ (.inr rfl) rfl
      · cases taken
        cases first with
        | true => exact next _ (.inl rfl) rfl
        | false => exact next _ (.inr rfl) rfl
      · cases taken
        exact Nat.zero_le _
  · next place =>
      cases taken
      simp only [due, place]
      omega
  · next place =>
      cases taken
      simp only [due, place]
      cases before.hupReceived with
      | true => exact Nat.le_refl _
      | false => exact Nat.le_refl _
  · next place =>
      cases taken
      simp only [due, place]
      exact Nat.le_refl _
  · next place =>
      cases taken
      simp only [due, logMessage, place]
      omega
  · next place =>
      split at taken
      · cases taken
        simp only [due, logMessage, place]
        omega
      · cases taken
        simp only [due, place]
        omega
  · cases taken
  · cases taken

theorem acts_due (opens : List Bool) (before after : State)
    (replayed : Transition.replay step (opens.map .act) before = some after) :
    due after ≤ due before - opens.length := by
  induction opens generalizing before with
  | nil =>
      cases replayed
      exact Nat.le_refl _
  | cons answer rest ih =>
      obtain ⟨middle, taken, tail⟩ := Option.bind_eq_some_iff.mp replayed
      have later := ih middle tail
      have now := act_due answer before middle taken
      rw [List.length_cons]
      omega

theorem due_bounded (state : State) : due state ≤ 10 := by
  have one := Bool.toNat_le state.hupReceived
  unfold due
  split <;> omega

theorem due_served (state : State) (inv : Inv state) (none : due state = 0) :
    state.place = .exited ∨
    state.place = .undefined ∨
      (state.askedLog ≤ state.logfp ∧ state.askedVersion ≤ state.loaded) := by
  have reopened := inv.reopened
  have reread := inv.reread
  unfold due at none
  cases place : state.place with
  | exited => exact .inl rfl
  | undefined => exact .inr (.inl rfl)
  | _ =>
      rw [place] at reopened reread
      simp only [place] at none
      cases hup : state.hupReceived <;> simp_all [Place.reopens, Place.rereads]

/-- The log reads as a sequence of sessions whose intervals are counted without a gap, and its
files are written one after the other. Asleep with no SIGHUP noted, the daemon has opened the
log and read the configuration as they were at the last SIGHUP or later; ten of its own steps
after a SIGHUP this is so in every case, unless the log cannot be opened or the configuration
starts with a null byte. -/
theorem hangups_are_served (config : Option (List UInt8)) (state : State)
    (reached : Transition.Reachable (· = start config) step state) :
    scan state.log = some (state.place.writes, state.count) ∧
      (state.log.map Prod.fst).Pairwise (· ≤ ·) ∧
      (state.place = .sleep → state.hupReceived = false →
        state.askedLog ≤ state.logfp ∧ state.askedVersion ≤ state.loaded) ∧
      ∀ (opens : List Bool) after, Transition.replay step (opens.map .act) state = some after →
        10 ≤ opens.length →
        after.place = .exited ∨ after.place = .undefined ∨
          (after.askedLog ≤ after.logfp ∧ after.askedVersion ≤ after.loaded) := by
  have holds (state : State) (reached : Transition.Reachable (· = start config) step state) :
      Inv state :=
    Transition.reachable_invariant (fun _ here => here ▸ start_inv config)
      (fun choice before after inv taken => step_inv before after inv choice taken) reached
  have inv := holds state reached
  refine ⟨inv.scanned, inv.order, fun place quiet => ?_, fun opens after replayed enough => ?_⟩
  · have none : due state = 0 := by rw [due, place, quiet]; rfl
    rcases due_served state inv none with bad | bad | served
    · rw [place] at bad
      cases bad
    · rw [place] at bad
      cases bad
    · exact served
  · have bounded := due_bounded state
    have lowered := acts_due opens state after replayed
    exact due_served after (holds after (Transition.replay_reachable _ reached replayed)) (by omega)

/-- The log is renamed and the configuration changed while the daemon sleeps. -/
def rotated : List Choice :=
  [.act true, .act true, .rotate, .edit (some (literal "new\n")), .sighup 7] ++
    List.replicate 5 (.act true)

theorem rotated_log_is_served :
    ∃ state, Transition.replay step rotated (start none) = some state ∧
    state.place = .interval ∧ state.logfp = 1 ∧
    scan state.log = some (state.place.writes, state.count) := by
  have run : (Transition.replay step rotated (start none)).any
      (fun state => state.place = .interval ∧ state.logfp = 1) = true := by
    decide
  obtain ⟨state, replayed, here⟩ := (Option.any_eq_true _ _).mp run
  obtain ⟨place, logfp⟩ := of_decide_eq_true here
  exact ⟨state, replayed, place, logfp, (hangups_are_served none state
    (Transition.replay_reachable rotated (Transition.Reachable.start rfl) replayed)).1⟩

end Tlpi.Daemons
