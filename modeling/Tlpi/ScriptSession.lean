import Mathlib.Algebra.Order.Ring.Int
import Mathlib.Data.List.Basic
import Tlpi.CStrings
import Tlpi.Descriptors
import Tlpi.TerminalModes
import Tlpi.Transition

/-!
pty/pty_master_open.c, pty/pty_fork.c, pty/script.c and pty/unbuffer.c: a program runs on a
pseudoterminal, and all that passes between it and the user's terminal is relayed by its parent,
which in script.c also records what is shown. The line discipline of the pseudoterminal and the
program on it are one party, which may produce any output at any time.
-/

namespace Tlpi.ScriptSession

open Tlpi.CStrings Tlpi.Descriptors

def MAX_SNAME : Nat := 1000
def BUF_SIZE : Nat := 256

def STDIN_FILENO : Nat := 0
def STDOUT_FILENO : Nat := 1
def STDERR_FILENO : Nat := 2

inductive File where
  | master
  | slave
  | other (number : Nat)
  deriving DecidableEq

/-- What the calls answer: `name` is the result of `ptsname` and `opens` says that the slave can
be opened and set up. -/
structure Answers where
  openpt : Bool
  grantpt : Bool
  unlockpt : Bool
  name : Option Str
  fork : Option Nat
  setsid : Bool
  opens : Bool
  limit : Option Nat

/-- The master and the name of its slave, or nothing but closed descriptors. -/
def ptyMasterOpen (answers : Answers) (snLen : Nat) (table : List (Option File)) :
    Option (Nat × Str) × List (Option File) :=
  match (if answers.openpt then allocate answers.limit .master table else none) with
  | none => (none, table)
  | some (masterFd, opened) =>
      if answers.grantpt = false then (none, close masterFd opened)
      else if answers.unlockpt = false then (none, close masterFd opened)
      else
        match answers.name with
        | none => (none, close masterFd opened)
        | some p =>
            if p.length < snLen then (some (masterFd, p), opened) else (none, close masterFd opened)

/-- The child's descriptors; a child whose calls fail exits. -/
def childOfPty (answers : Answers) (mfd : Nat) (table : List (Option File)) :
    Option (List (Option File)) :=
  if answers.setsid = false then none
  else
    match (if answers.opens then allocate answers.limit .slave (close mfd table) else none) with
    | none => none
    | some (slaveFd, opened) =>
        match dup2 answers.limit slaveFd STDIN_FILENO opened with
        | none => none
        | some (_, input) =>
            match dup2 answers.limit slaveFd STDOUT_FILENO input with
            | none => none
            | some (_, output) =>
                match dup2 answers.limit slaveFd STDERR_FILENO output with
                | none => none
                | some (_, error) =>
                    some (if slaveFd > STDERR_FILENO then close slaveFd error else error)

inductive Forked where
  | failed (table : List (Option File))
  | forked (masterFd childPid : Nat) (parent : List (Option File))
      (child : Option (List (Option File)))

def ptyFork (answers : Answers) (snLen : Option Nat) (table : List (Option File)) : Forked :=
  match ptyMasterOpen answers MAX_SNAME table with
  | (none, opened) => .failed opened
  | (some (mfd, slname), opened) =>
      if ∃ length ∈ snLen, ¬ slname.length < length then .failed (close mfd opened)
      else
        match answers.fork with
        | none => .failed (close mfd opened)
        | some childPid => .forked mfd childPid opened (childOfPty answers mfd opened)

theorem close_allocated (limit : Option Nat) (file : File) (before after : List (Option File))
    (fd other : Nat) (taken : allocate limit file before = some (fd, after)) :
    lookup (close fd after) other = lookup before other := by
  obtain ⟨rfl, rfl⟩ := allocate_some limit file before fd after taken
  rw [lookup_close, lookup_assign]
  by_cases here : other = lowest before
  · rw [if_pos here, here, lowest_unused]
  · rw [if_neg here, if_neg here]

/-- Either nothing is left open or the master has the lowest unused descriptor. -/
theorem master_open_cases (answers : Answers) (snLen : Nat) (table : List (Option File)) :
    ((ptyMasterOpen answers snLen table).1 = none ∧
        ∀ fd, lookup (ptyMasterOpen answers snLen table).2 fd = lookup table fd) ∨
      ∃ p opened, p.length < snLen ∧ allocate answers.limit .master table =
        some (lowest table, opened) ∧
        ptyMasterOpen answers snLen table = (some (lowest table, p), opened) := by
  unfold ptyMasterOpen
  split
  · exact .inl ⟨rfl, fun _ => rfl⟩
  · next masterFd opened found =>
      rw [Option.ite_none_right_eq_some] at found
      obtain ⟨_, found⟩ := found
      have closed (fd : Nat) := close_allocated answers.limit .master table opened masterFd fd found
      obtain ⟨rfl, _⟩ := allocate_some _ _ _ _ _ found
      split
      · exact .inl ⟨rfl, closed⟩
      · split
        · exact .inl ⟨rfl, closed⟩
        · split
          · exact .inl ⟨rfl, closed⟩
          · next p _ =>
              split
              · next short => exact .inr ⟨p, opened, short, found, rfl⟩
              · exact .inl ⟨rfl, closed⟩

theorem dup2_lookup (limit : Option Nat) (oldfd newfd : Nat)
    (before : List (Option File)) (fd : Nat) (after : List (Option File)) (file : File)
    (used : lookup before oldfd = some file)
    (taken : dup2 limit oldfd newfd before = some (fd, after)) (other : Nat) :
    lookup after other = if other = newfd then some file else lookup before other := by
  obtain ⟨_, found, there, rfl⟩ := dup2_some _ _ _ _ _ _ taken
  obtain rfl := Option.some.inj (used.symm.trans there)
  exact lookup_assign _ _ _ _

/-- The slave takes the place of the standard descriptors and no other is left, also where the
slave was opened as one of them. -/
theorem child_lookup (answers : Answers) (mfd : Nat) (table child : List (Option File))
    (forked : childOfPty answers mfd table = some child) (fd : Nat) :
    lookup child fd =
      if fd ≤ STDERR_FILENO then some .slave else lookup (close mfd table) fd := by
  unfold childOfPty at forked
  split at forked
  · cases forked
  · split at forked
    · cases forked
    · next slaveFd opened found =>
        rw [Option.ite_none_right_eq_some] at found
        obtain ⟨_, found⟩ := found
        obtain ⟨lowestFd, rfl⟩ := allocate_some _ _ _ _ _ found
        have unused : lookup (close mfd table) slaveFd = none := lowestFd ▸ lowest_unused _
        have slave := lookup_assign slaveFd slaveFd (some File.slave) (close mfd table)
        rw [if_pos rfl] at slave
        split at forked
        · cases forked
        · next _ input first =>
            have zero := dup2_lookup _ _ _ _ _ _ .slave slave first
            have slave : lookup input slaveFd = some .slave := by rw [zero, slave, ite_self]
            split at forked
            · cases forked
            · next _ output second =>
                have one := dup2_lookup _ _ _ _ _ _ .slave slave second
                have slave : lookup output slaveFd = some .slave := by rw [one, slave, ite_self]
                split at forked
                · cases forked
                · next _ error third =>
                    have two := dup2_lookup _ _ _ _ _ _ .slave slave third
                    have all (other : Nat) : lookup error other =
                        if other ≤ STDERR_FILENO then some .slave
                        else if other = slaveFd then some .slave
                        else lookup (close mfd table) other := by
                      rw [two, one, zero, lookup_assign]
                      by_cases std : other ≤ STDERR_FILENO
                      · have known : other = STDERR_FILENO ∨ other = STDOUT_FILENO ∨
                            other = STDIN_FILENO := by
                          simp only [STDERR_FILENO, STDOUT_FILENO, STDIN_FILENO] at std ⊢
                          omega
                        rw [if_pos std]
                        rcases known with rfl | rfl | rfl
                        · rw [if_pos rfl]
                        · rw [if_neg (by decide), if_pos rfl]
                        · rw [if_neg (by decide), if_neg (by decide), if_pos rfl]
                      · have above (low : Nat) (small : low ≤ STDERR_FILENO) : other ≠ low :=
                          fun same => std (same ▸ small)
                        rw [if_neg std, if_neg (above _ (by decide)), if_neg (above _ (by decide)),
                          if_neg (above _ (by decide))]
                    cases forked
                    split
                    · next high =>
                        rw [lookup_close, all]
                        by_cases here : fd = slaveFd
                        · rw [if_pos here, here, if_neg (Nat.not_le_of_lt high), unused]
                        · rw [if_neg here, if_neg here]
                    · next low =>
                        rw [all]
                        by_cases std : fd ≤ STDERR_FILENO
                        · rw [if_pos std, if_pos std]
                        · have other : fd ≠ slaveFd :=
                            fun same => std (same ▸ Nat.le_of_not_lt low)
                          rw [if_neg std, if_neg std, if_neg other]

/-- A failed call leaves no descriptor behind. Otherwise the parent has the master, at the
lowest free descriptor, and no other new one, and the child the slave as its three standard
descriptors and not the master. -/
def HandedOver (answers : Answers) (table : List (Option File)) : Forked → Prop
  | .failed left => ∀ fd, lookup left fd = lookup table fd
  | .forked masterFd childPid parent child => answers.fork = some childPid ∧
      masterFd = lowest table ∧ lookup table masterFd = none ∧
      (∀ fd, lookup parent fd = if fd = masterFd then some .master else lookup table fd) ∧
      ∀ files ∈ child, ∀ fd, lookup files fd =
        if fd ≤ STDERR_FILENO then some .slave else lookup table fd

theorem pty_is_handed_over (answers : Answers) (snLen : Option Nat) (table : List (Option File)) :
    HandedOver answers table (ptyFork answers snLen table) := by
  unfold ptyFork
  rcases master_open_cases answers MAX_SNAME table with ⟨none, kept⟩ |
    ⟨p, opened, _, found, whole⟩
  · rw [show ptyMasterOpen answers MAX_SNAME table =
        (Option.none, (ptyMasterOpen answers MAX_SNAME table).2) from
      Prod.ext none rfl]
    exact kept
  · have closed (fd : Nat) := close_allocated _ _ _ _ _ fd found
    obtain ⟨_, rfl⟩ := allocate_some _ _ _ _ _ found
    rw [whole]
    dsimp only
    split
    · exact closed
    · cases first : answers.fork with
      | none => exact closed
      | some childPid =>
          refine ⟨first, rfl, lowest_unused table, fun fd => lookup_assign _ _ _ _,
            fun files there fd => ?_⟩
          rw [child_lookup answers _ _ files there fd, closed]

open TerminalModes (Termios ttySetRaw)

inductive Exit where
  | success
  | failure
  | aborted
  | killed
  deriving DecidableEq

/-- The next call of the parent. `master` says that `select` has reported the master too. -/
inductive Place where
  | openScript
  | setRaw
  | atexit
  | select
  | readStdin (master : Bool)
  | writeMaster (master : Bool) (buf : List UInt8)
  | readMaster
  | writeStdout (buf : List UInt8)
  | writeScript (buf : List UInt8)
  | exited (how : Exit)
  deriving DecidableEq

/-- What has been `typed` since the terminal is raw waits in `terminal` until it is read, and what
the other side has `produced` in `pty`. Of what was sent, `unread` bytes are still in the input of
the slave. The terminal may be hung up. -/
structure State where
  place : Place
  tty : Termios
  ttyOrig : Termios
  registered : Bool
  hungUp : Bool
  slaveOpen : Bool
  typed : List UInt8
  terminal : List UInt8
  sent : List UInt8
  unread : Nat
  produced : List UInt8
  pty : List UInt8
  stdout : List UInt8
  script : List UInt8
  deriving DecidableEq

inductive Answer where
  | fails
  | count (number : Nat)
  deriving DecidableEq

inductive Choice where
  | act (answer : Answer)
  | type (text : List UInt8)
  | hangUp
  | produce (text : List UInt8)
  | consume (number : Nat)
  | closeSlave
  | kill
  deriving DecidableEq

/-- `records` tells script.c from unbuffer.c; `dumpCore` is set by the environment variable
EF_DUMPCORE; the input of the slave has `room` for so many bytes. -/
structure Setting where
  records : Bool
  dumpCore : Bool
  room : Nat

/-- `exit` calls `ttyReset` once that is registered, which fails on a terminal that is hung up. -/
def exit (how : Exit) (state : State) : State :=
  if state.registered then
    if state.hungUp then { state with place := .exited .failure }
    else { state with tty := state.ttyOrig, place := .exited how }
  else { state with place := .exited how }

/-- The end of `errExit` and of `fatal`. -/
def terminate (setting : Setting) (state : State) : State :=
  if setting.dumpCore then { state with place := .exited .aborted } else exit .failure state

def State.stdinReady (state : State) : Bool := state.terminal ≠ [] || state.hungUp
def State.masterReady (state : State) : Bool := state.pty ≠ [] || !state.slaveOpen

def fits (number : Nat) (there : List UInt8) : Bool :=
  0 < number && number ≤ BUF_SIZE && number ≤ there.length

/-- A write of `buf`, after which `whole` is the state if all of it was written and `short` if a
part was. -/
def written (setting : Setting) (answer : Answer) (buf : List UInt8) (state whole : State)
    (short : List UInt8 → State) : Option State :=
  match answer with
  | .fails => some (terminate setting state)
  | .count number =>
      if number = buf.length then some whole
      else if number < buf.length then some (terminate setting (short (buf.take number)))
      else none

/-- The write to the master goes on piece by piece and waits while the slave's input is full; it
`fails` when it returns with less than `buf`. Nothing waits for a slave that is closed. -/
def relay (setting : Setting) (answer : Answer) (master : Bool) (buf : List UInt8) (state : State) :
    Option State :=
  match answer with
  | .fails => some (terminate setting state)
  | .count number =>
      if number ≤ buf.length ∧ (number = 0 → buf = []) ∧
          (state.slaveOpen = false ∨ state.unread + number ≤ setting.room) then
        some { state with
          sent := state.sent ++ buf.take number
          unread := state.unread + number
          place :=
            if number < buf.length then .writeMaster master (buf.drop number)
            else if master then .readMaster else .select }
      else none

/-- A read that fails is one at the end of its file. -/
def act (setting : Setting) (answer : Answer) (state : State) : Option State :=
  match state.place with
  | .openScript =>
      match answer with
      | .fails => some (terminate setting state)
      | .count _ => some { state with place := .setRaw }
  | .setRaw =>
      match answer with
      | .fails => some { state with place := .atexit }
      | .count _ =>
          -- TCSAFLUSH throws away what has not been read
          some { state with
            ttyOrig := state.tty, tty := ttySetRaw state.tty, typed := [], terminal := [],
            place := .atexit }
  | .atexit =>
      match answer with
      | .fails => some (terminate setting state)
      | .count _ => some { state with registered := true, place := .select }
  | .select =>
      match answer with
      | .fails => some (terminate setting state)
      | .count _ =>
          if state.stdinReady then some { state with place := .readStdin state.masterReady }
          else if state.masterReady then some { state with place := .readMaster }
          else none
  | .readStdin master =>
      match answer with
      | .fails => none
      | .count number =>
          if state.terminal = [] then if state.hungUp then some (exit .success state) else none
          else if fits number state.terminal then
            some { state with
              terminal := state.terminal.drop number
              place := .writeMaster master (state.terminal.take number) }
          else none
  | .writeMaster master buf => relay setting answer master buf state
  | .readMaster =>
      match answer with
      | .fails => none
      | .count number =>
          if state.pty = [] then if state.slaveOpen then none else some (exit .success state)
          else if fits number state.pty then
            some { state with
              pty := state.pty.drop number, place := .writeStdout (state.pty.take number) }
          else none
  | .writeStdout buf =>
      written setting answer buf state
        { state with
          stdout := state.stdout ++ buf,
          place := if setting.records then .writeScript buf else .select }
        fun part => { state with stdout := state.stdout ++ part }
  | .writeScript buf =>
      written setting answer buf state
        { state with script := state.script ++ buf, place := .select }
        fun part => { state with script := state.script ++ part }
  | .exited _ => none

def step (setting : Setting) (choice : Choice) (state : State) : Option State :=
  match choice with
  | .act answer => act setting answer state
  | .type text =>
      if state.hungUp then none
      else some { state with typed := state.typed ++ text, terminal := state.terminal ++ text }
  | .hangUp => some { state with hungUp := true }
  | .produce text =>
      if state.slaveOpen then
        some { state with produced := state.produced ++ text, pty := state.pty ++ text }
      else none
  | .consume number =>
      if number ≤ state.unread then some { state with unread := state.unread - number } else none
  | .closeSlave => some { state with slaveOpen := false }
  | .kill =>
      match state.place with
      | .exited _ => none
      | _ => some { state with place := .exited .killed }

/-- After `ptyFork`. -/
def start (setting : Setting) (tty : Termios) : State :=
  ⟨if setting.records then .openScript else .setRaw, tty, tty, false, false, true, [], [],
    [], 0, [], [], [], []⟩

/-! What has been read and is still to be written. -/

def Place.toMaster : Place → List UInt8
  | .writeMaster _ buf => buf
  | _ => []

def Place.toStdout : Place → List UInt8
  | .writeStdout buf => buf
  | _ => []

def Place.toScript : Place → List UInt8
  | .writeScript buf => buf
  | _ => []

def Place.running : Place → Bool
  | .exited _ => false
  | _ => true

def Place.relaying : Place → Bool
  | .openScript => false
  | .setRaw => false
  | .atexit => false
  | .exited _ => false
  | _ => true

/-- `select` has reported the terminal, or the master, and it has not been read since. -/
def Place.awaitsStdin : Place → Bool
  | .readStdin _ => true
  | _ => false

def Place.awaitsMaster : Place → Bool
  | .readStdin master => master
  | .writeMaster master _ => master
  | .readMaster => true
  | _ => false

def recording (setting : Setting) (state : State) : List UInt8 :=
  if setting.records then state.stdout else []

structure Running (setting : Setting) (orig : Termios) (state : State) : Prop where
  input : state.sent ++ state.place.toMaster ++ state.terminal = state.typed
  shown : state.stdout ++ state.place.toStdout ++ state.pty = state.produced
  recorded : state.script ++ state.place.toScript = recording setting state
  stdin : state.place.awaitsStdin = true → state.stdinReady = true
  master : state.place.awaitsMaster = true → state.masterReady = true
  registered : state.place.relaying = true → state.registered = true
  cooked : state.place = .openScript ∨ state.place = .setRaw →
    state.tty = orig ∧ state.sent = []

structure Prefixes (setting : Setting) (state : State) : Prop where
  input : state.sent <+: state.typed
  shown : state.stdout <+: state.produced
  recorded : state.script <+: recording setting state

structure Ended (setting : Setting) (orig : Termios) (state : State) : Prop where
  complete : state.place = .exited .success → state.hungUp = false →
    state.slaveOpen = false ∧ state.stdout = state.produced ∧ state.tty = orig
  same : state.place = .exited .success → state.script = recording setting state
  restored : state.place = .exited .failure → state.registered = true → state.hungUp = false →
    state.tty = orig

structure Inv (setting : Setting) (orig : Termios) (state : State) : Prop where
  running : state.place.running = true → Running setting orig state
  stopped : state.place.running = false → Prefixes setting state
  ttyOrig : state.ttyOrig = orig
  ended : Ended setting orig state

section Steps
variable (setting : Setting) (orig : Termios)

theorem running_prefixes (state : State) (running : Running setting orig state) :
    Prefixes setting state := by
  refine ⟨⟨state.place.toMaster ++ state.terminal, ?_⟩,
    ⟨state.place.toStdout ++ state.pty, ?_⟩, ⟨state.place.toScript, running.recorded⟩⟩
  · rw [← List.append_assoc]
    exact running.input
  · rw [← List.append_assoc]
    exact running.shown

theorem running_inv (state : State) (alive : state.place.running = true)
    (running : Running setting orig state) (ttyOrig : state.ttyOrig = orig) :
    Inv setting orig state := by
  refine ⟨fun _ => running, fun bad => absurd (alive.symm.trans bad) Bool.noConfusion,
    ttyOrig, ?_, ?_, ?_⟩
  · intro bad
    rw [bad] at alive
    cases alive
  · intro bad
    rw [bad] at alive
    cases alive
  · intro bad
    rw [bad] at alive
    cases alive

theorem start_inv (tty : Termios) : Inv setting tty (start setting tty) := by
  cases records : setting.records with
  | true =>
      refine running_inv setting tty _ (by simp [start, records, Place.running]) ?_ rfl
      refine ⟨?_, ?_, ?_, ?_, ?_, ?_, fun _ => ⟨rfl, rfl⟩⟩ <;>
        simp [start, records, recording, Place.toMaster, Place.toStdout, Place.toScript,
          Place.awaitsStdin, Place.awaitsMaster, Place.relaying]
  | false =>
      refine running_inv setting tty _ (by simp [start, records, Place.running]) ?_ rfl
      refine ⟨?_, ?_, ?_, ?_, ?_, ?_, fun _ => ⟨rfl, rfl⟩⟩ <;>
        simp [start, records, recording, Place.toMaster, Place.toStdout, Place.toScript,
          Place.awaitsStdin, Place.awaitsMaster, Place.relaying]

theorem stopped_inv (state : State) (how : Exit) (place : state.place = .exited how)
    (prefixes : Prefixes setting state) (ttyOrig : state.ttyOrig = orig)
    (ended : Ended setting orig state) : Inv setting orig state := by
  refine ⟨fun bad => ?_, fun _ => prefixes, ttyOrig, ended⟩
  rw [place] at bad
  cases bad

theorem exit_inv (how : Exit) (state : State) (prefixes : Prefixes setting state)
    (ttyOrig : state.ttyOrig = orig)
    (success : how = .success → state.registered = true ∧
      state.script = recording setting state ∧
      (state.hungUp = false → state.slaveOpen = false ∧ state.stdout = state.produced)) :
    Inv setting orig (exit how state) := by
  unfold exit
  split
  · next registered =>
      split
      · next hungUp =>
          refine stopped_inv setting orig _ .failure rfl ⟨prefixes.input, prefixes.shown,
            prefixes.recorded⟩ ttyOrig ?_
          refine ⟨fun bad => (by cases bad), fun bad => (by cases bad), fun _ _ bad => ?_⟩
          exact absurd (hungUp.symm.trans bad) Bool.noConfusion
      · refine stopped_inv setting orig _ how rfl ⟨prefixes.input, prefixes.shown,
          prefixes.recorded⟩ ttyOrig ?_
        refine ⟨fun place connected => ?_, fun place => ?_, fun _ _ _ => ttyOrig⟩
        · cases place
          obtain ⟨closed, all⟩ := (success rfl).2.2 connected
          exact ⟨closed, all, ttyOrig⟩
        · cases place
          exact (success rfl).2.1
  · next unregistered =>
      refine stopped_inv setting orig _ how rfl ⟨prefixes.input, prefixes.shown,
        prefixes.recorded⟩ ttyOrig ?_
      refine ⟨fun place => ?_, fun place => ?_, fun _ bad => absurd bad unregistered⟩
      · cases place
        exact absurd (success rfl).1 unregistered
      · cases place
        exact absurd (success rfl).1 unregistered

theorem terminate_inv (state : State) (prefixes : Prefixes setting state)
    (ttyOrig : state.ttyOrig = orig) : Inv setting orig (terminate setting state) := by
  unfold terminate
  split
  · refine stopped_inv setting orig _ .aborted rfl ⟨prefixes.input, prefixes.shown,
      prefixes.recorded⟩ ttyOrig ?_
    exact ⟨fun bad => (by cases bad), fun bad => (by cases bad), fun bad => by cases bad⟩
  · exact exit_inv setting orig .failure state prefixes ttyOrig fun bad => by cases bad

variable (before after : State) (inv : Inv setting orig before)
include inv

/-- A step that changes the place only, while nothing is held. -/
theorem moved_inv (place : Place) (alive : before.place.running = true)
    (goesOn : place.running = true) (toMaster : place.toMaster = before.place.toMaster)
    (toStdout : place.toStdout = before.place.toStdout)
    (toScript : place.toScript = before.place.toScript)
    (stdin : place.awaitsStdin = true → before.stdinReady = true)
    (master : place.awaitsMaster = true → before.masterReady = true)
    (registered : place.relaying = true → before.registered = true)
    (cooked : place = .openScript ∨ place = .setRaw → before.tty = orig ∧ before.sent = []) :
    Inv setting orig { before with place := place } := by
  have running := inv.running alive
  refine running_inv setting orig _ goesOn ?_ inv.ttyOrig
  refine ⟨?_, ?_, ?_, stdin, master, registered, cooked⟩
  · rw [toMaster]
    exact running.input
  · rw [toStdout]
    exact running.shown
  · rw [toScript]
    exact running.recorded

theorem setup_inv (answer : Answer) (alive : before.place.running = true)
    (early : before.place.relaying = false) (taken : act setting answer before = some after) :
    Inv setting orig after := by
  have running := inv.running alive
  have fails :=
    terminate_inv setting orig before (running_prefixes setting orig before running) inv.ttyOrig
  cases place : before.place with
  | openScript =>
      cases answer with
      | fails =>
          simp only [act, place, Option.some.injEq] at taken
          exact taken ▸ fails
      | count number =>
          simp only [act, place, Option.some.injEq] at taken
          subst taken
          refine moved_inv setting orig before inv .setRaw alive rfl ?_ ?_ ?_
            (fun bad => (by cases bad))
            (fun bad => (by cases bad)) (fun bad => (by cases bad)) fun _ =>
              running.cooked (.inl place)
          all_goals rw [place]; rfl
  | setRaw =>
      obtain ⟨cooked, none⟩ := running.cooked (.inr place)
      cases answer with
      | fails =>
          simp only [act, place, Option.some.injEq] at taken
          subst taken
          refine moved_inv setting orig before inv .atexit alive rfl ?_ ?_ ?_
            (fun bad => (by cases bad)) (fun bad => (by cases bad)) (fun bad => (by cases bad))
            fun bad => (by rcases bad with bad | bad <;> cases bad)
          all_goals rw [place]; rfl
      | count number =>
          simp only [act, place, Option.some.injEq] at taken
          subst taken
          have shown := running.shown
          have recorded := running.recorded
          rw [place] at shown recorded
          refine running_inv setting orig _ rfl ?_ cooked
          refine ⟨?_, shown, recorded, fun bad => (by cases bad), fun bad => (by cases bad),
            fun bad => (by cases bad), fun bad => by rcases bad with bad | bad <;> cases bad⟩
          dsimp only
          rw [none]
          rfl
  | atexit =>
      cases answer with
      | fails =>
          simp only [act, place, Option.some.injEq] at taken
          exact taken ▸ fails
      | count number =>
          simp only [act, place, Option.some.injEq] at taken
          subst taken
          have input := running.input
          have shown := running.shown
          have recorded := running.recorded
          rw [place] at input shown recorded
          exact running_inv setting orig _ rfl ⟨input, shown, recorded, fun bad => (by cases bad),
            fun bad => (by cases bad), fun _ => rfl,
            fun bad => by rcases bad with bad | bad <;> cases bad⟩ inv.ttyOrig
  | exited how =>
      rw [place] at alive
      cases alive
  | _ =>
      rw [place] at early
      cases early

theorem select_inv (answer : Answer) (place : before.place = .select)
    (taken : act setting answer before = some after) : Inv setting orig after := by
  have alive : before.place.running = true := by rw [place]; rfl
  have running := inv.running alive
  have registered := running.registered (by rw [place]; rfl)
  cases answer with
  | fails =>
      simp only [act, place, Option.some.injEq] at taken
      exact taken ▸ terminate_inv setting orig before
        (running_prefixes setting orig before running) inv.ttyOrig
  | count number =>
      simp only [act, place] at taken
      split at taken
      · next ready =>
          cases taken
          refine moved_inv setting orig before inv _ alive rfl ?_ ?_ ?_ (fun _ => ready)
            (fun both => both)
            (fun _ => registered) fun bad => (by rcases bad with bad | bad <;> cases bad)
          all_goals rw [place]; rfl
      · split at taken
        · next ready =>
            cases taken
            refine moved_inv setting orig before inv _ alive rfl ?_ ?_ ?_
              (fun bad => (by cases bad)) (fun _ => ready)
              (fun _ => registered) fun bad => (by rcases bad with bad | bad <;> cases bad)
            all_goals rw [place]; rfl
        · cases taken

theorem read_stdin_inv (answer : Answer) (master : Bool) (place : before.place = .readStdin master)
    (taken : act setting answer before = some after) : Inv setting orig after := by
  have running := inv.running (by rw [place]; rfl)
  have registered := running.registered (by rw [place]; rfl)
  have input := running.input
  have shown := running.shown
  have recorded := running.recorded
  rw [place] at input shown recorded
  cases answer with
  | fails =>
      simp only [act, place] at taken
      cases taken
  | count number =>
      simp only [act, place] at taken
      split at taken
      · split at taken
        · next hungUp =>
            cases taken
            refine exit_inv setting orig .success before
              (running_prefixes setting orig before running) inv.ttyOrig ?_
            refine fun _ => ⟨registered, ?_,
              fun bad => absurd (hungUp.symm.trans bad) Bool.noConfusion⟩
            exact (List.append_nil _).symm.trans recorded
        · cases taken
      · split at taken
        · cases taken
          refine running_inv setting orig _ rfl ?_ inv.ttyOrig
          refine ⟨?_, shown, recorded, fun bad => (by cases bad), fun both => ?_,
            fun _ => registered, fun bad => by rcases bad with bad | bad <;> cases bad⟩
          · dsimp only [Place.toMaster]
            rw [List.append_assoc, List.take_append_drop]
            exact (List.append_nil before.sent ▸ input :)
          · exact running.master (by rw [place]; exact both)
        · cases taken

theorem write_master_inv (answer : Answer) (master : Bool) (buf : List UInt8)
    (place : before.place = .writeMaster master buf)
    (taken : act setting answer before = some after) : Inv setting orig after := by
  have running := inv.running (by rw [place]; rfl)
  have registered := running.registered (by rw [place]; rfl)
  have prefixes := running_prefixes setting orig before running
  have input := running.input
  have shown := running.shown
  have recorded := running.recorded
  rw [place] at input shown recorded
  cases answer with
  | fails =>
      simp only [act, place, relay, Option.some.injEq] at taken
      exact taken ▸ terminate_inv setting orig before prefixes inv.ttyOrig
  | count number =>
      simp only [act, place, relay] at taken
      split at taken
      · cases taken
        have both : master = true → before.masterReady = true :=
          fun both => running.master (by rw [place]; exact both)
        have moved (rest : Place) (held : buf.drop number = rest.toMaster)
          (alive : rest.running = true)
            (toStdout : rest.toStdout = []) (toScript : rest.toScript = [])
            (stdin : rest.awaitsStdin = false)
            (awaits : rest.awaitsMaster = true → master = true)
            (late : rest ≠ .openScript ∧ rest ≠ .setRaw) :
            Inv setting orig { before with
              sent := before.sent ++ buf.take number, unread := before.unread + number,
              place := rest } := by
          refine running_inv setting orig _ alive ⟨?_, ?_, ?_, fun bad => ?_,
            fun waits => both (awaits waits), fun _ => registered, fun bad => ?_⟩ inv.ttyOrig
          · dsimp only
            rw [← held, List.append_assoc before.sent, List.take_append_drop]
            exact input
          · rw [toStdout]
            exact shown
          · rw [toScript]
            exact recorded
          · exact absurd (stdin.symm.trans bad) Bool.noConfusion
          · exact absurd bad (not_or.mpr late)
        split
        · exact moved _ rfl rfl rfl rfl rfl id ⟨Place.noConfusion, Place.noConfusion⟩
        · next all =>
            have nothing : buf.drop number = [] := List.drop_eq_nil_of_le (Nat.not_lt.mp all)
            cases master with
            | true =>
                exact moved _ nothing rfl rfl rfl rfl (fun _ => rfl) ⟨Place.noConfusion,
                  Place.noConfusion⟩
            | false =>
                exact moved _ nothing rfl rfl rfl rfl id ⟨Place.noConfusion, Place.noConfusion⟩
      · cases taken

theorem read_master_inv (answer : Answer) (place : before.place = .readMaster)
    (taken : act setting answer before = some after) : Inv setting orig after := by
  have running := inv.running (by rw [place]; rfl)
  have registered := running.registered (by rw [place]; rfl)
  have input := running.input
  have shown := running.shown
  have recorded := running.recorded
  rw [place] at input shown recorded
  cases answer with
  | fails =>
      simp only [act, place] at taken
      cases taken
  | count number =>
      simp only [act, place] at taken
      split at taken
      · next empty =>
          split at taken
          · cases taken
          · next closed =>
              cases taken
              refine exit_inv setting orig .success before
                (running_prefixes setting orig before running) inv.ttyOrig ?_
              refine fun _ => ⟨registered, (List.append_nil _).symm.trans recorded,
                fun _ => ⟨?_, ?_⟩⟩
              · exact Bool.eq_false_iff.mpr closed
              · rw [empty] at shown
                simpa [Place.toStdout] using shown
      · split at taken
        · cases taken
          refine running_inv setting orig _ rfl ?_ inv.ttyOrig
          refine ⟨input, ?_, recorded, fun bad => (by cases bad), fun bad => (by cases bad),
            fun _ => registered, fun bad => by rcases bad with bad | bad <;> cases bad⟩
          dsimp only [Place.toStdout]
          rw [List.append_assoc, List.take_append_drop]
          exact (List.append_nil before.stdout ▸ shown :)
        · cases taken

theorem write_stdout_inv (answer : Answer) (buf : List UInt8)
    (place : before.place = .writeStdout buf) (taken : act setting answer before = some after) :
    Inv setting orig after := by
  have running := inv.running (by rw [place]; rfl)
  have registered := running.registered (by rw [place]; rfl)
  have prefixes := running_prefixes setting orig before running
  have input := running.input
  have shown := running.shown
  have recorded := running.recorded
  rw [place] at input shown recorded
  have recorded : before.script = recording setting before :=
    (List.append_nil _).symm.trans recorded
  cases answer with
  | fails =>
      simp only [act, place, written, Option.some.injEq] at taken
      exact taken ▸ terminate_inv setting orig before prefixes inv.ttyOrig
  | count number =>
      simp only [act, place, written] at taken
      split at taken
      · cases taken
        cases records : setting.records with
        | true =>
            rw [recording, records] at recorded
            refine running_inv setting orig _ rfl ⟨input, ?_, ?_, fun bad => (by cases bad),
              fun bad => (by cases bad), fun _ => registered,
              fun bad => by rcases bad with bad | bad <;> cases bad⟩ inv.ttyOrig
            · rw [← shown]
              simp [Place.toStdout]
            · simp [recording, records, recorded, Place.toScript]
        | false =>
            rw [recording, records] at recorded
            refine running_inv setting orig _ rfl ⟨input, ?_, ?_, fun bad => (by cases bad),
              fun bad => (by cases bad), fun _ => registered,
              fun bad => by rcases bad with bad | bad <;> cases bad⟩ inv.ttyOrig
            · rw [← shown]
              simp [Place.toStdout]
            · simp [recording, records, recorded, Place.toScript]
      · split at taken
        · cases taken
          refine terminate_inv setting orig _ ⟨prefixes.input, ?_, ?_⟩ inv.ttyOrig
          · refine ⟨buf.drop number ++ before.pty, ?_⟩
            dsimp only
            rw [List.append_assoc, ← List.append_assoc (buf.take number), List.take_append_drop,
                ← List.append_assoc]
            exact shown
          · dsimp only [recording]
            rw [recorded, recording]
            cases setting.records with
            | true => exact List.prefix_append _ _
            | false => exact List.prefix_refl _
        · cases taken

theorem write_script_inv (answer : Answer) (buf : List UInt8)
    (place : before.place = .writeScript buf) (taken : act setting answer before = some after) :
    Inv setting orig after := by
  have running := inv.running (by rw [place]; rfl)
  have registered := running.registered (by rw [place]; rfl)
  have prefixes := running_prefixes setting orig before running
  have input := running.input
  have shown := running.shown
  have recorded := running.recorded
  rw [place] at input shown recorded
  cases answer with
  | fails =>
      simp only [act, place, written, Option.some.injEq] at taken
      exact taken ▸ terminate_inv setting orig before prefixes inv.ttyOrig
  | count number =>
      simp only [act, place, written] at taken
      split at taken
      · cases taken
        refine running_inv setting orig _ rfl ⟨input, shown, ?_, fun bad => (by cases bad),
          fun bad => (by cases bad), fun _ => registered,
          fun bad => by rcases bad with bad | bad <;> cases bad⟩ inv.ttyOrig
        exact (List.append_nil _).trans recorded
      · split at taken
        · cases taken
          refine terminate_inv setting orig _ ⟨prefixes.input, prefixes.shown,
            buf.drop number, ?_⟩ inv.ttyOrig
          dsimp only
          rw [List.append_assoc, List.take_append_drop]
          exact recorded
        · cases taken

theorem act_inv (answer : Answer) (taken : act setting answer before = some after) :
    Inv setting orig after := by
  have setup (alive : before.place.running = true) (early : before.place.relaying = false) :=
    setup_inv setting orig before after inv answer alive early taken
  cases place : before.place with
  | openScript => exact setup (by rw [place]; rfl) (by rw [place]; rfl)
  | setRaw => exact setup (by rw [place]; rfl) (by rw [place]; rfl)
  | atexit => exact setup (by rw [place]; rfl) (by rw [place]; rfl)
  | select => exact select_inv setting orig before after inv answer place taken
  | readStdin master => exact read_stdin_inv setting orig before after inv answer master place taken
  | writeMaster master buf =>
      exact write_master_inv setting orig before after inv answer master buf place taken
  | readMaster => exact read_master_inv setting orig before after inv answer place taken
  | writeStdout buf => exact write_stdout_inv setting orig before after inv answer buf place taken
  | writeScript buf => exact write_script_inv setting orig before after inv answer buf place taken
  | exited how =>
      simp only [act, place] at taken
      cases taken

theorem typed_inv (text : List UInt8) :
    Inv setting orig
      { before with typed := before.typed ++ text, terminal := before.terminal ++ text } := by
  refine ⟨fun alive => ?_, fun stopped => ?_, inv.ttyOrig, ?_⟩
  · have running := inv.running alive
    refine ⟨?_, running.shown, running.recorded, fun waits => ?_, running.master,
      running.registered, running.cooked⟩
    · rw [← running.input]
      simp
    · have ready := running.stdin waits
      simp only [State.stdinReady, Bool.or_eq_true, decide_eq_true_eq] at ready ⊢
      exact ready.imp_left fun some_ => List.append_ne_nil_of_left_ne_nil some_ _
  · have prefixes := inv.stopped stopped
    exact ⟨prefixes.input.trans (List.prefix_append _ _), prefixes.shown, prefixes.recorded⟩
  · exact ⟨inv.ended.complete, inv.ended.same, inv.ended.restored⟩

theorem produced_inv (text : List UInt8) (slave : before.slaveOpen = true) :
    Inv setting orig
      { before with produced := before.produced ++ text, pty := before.pty ++ text } := by
  refine ⟨fun alive => ?_, fun stopped => ?_, inv.ttyOrig, ?_⟩
  · have running := inv.running alive
    refine ⟨running.input, ?_, running.recorded, running.stdin, fun waits => ?_,
      running.registered, running.cooked⟩
    · rw [← running.shown]
      simp
    · have ready := running.master waits
      simp only [State.masterReady, Bool.or_eq_true, decide_eq_true_eq] at ready ⊢
      exact ready.imp_left fun some_ => List.append_ne_nil_of_left_ne_nil some_ _
  · have prefixes := inv.stopped stopped
    exact ⟨prefixes.input, prefixes.shown.trans (List.prefix_append _ _), prefixes.recorded⟩
  · refine ⟨fun success connected => ?_, inv.ended.same, inv.ended.restored⟩
    have closed := (inv.ended.complete success connected).1
    exact absurd (slave.symm.trans closed) Bool.noConfusion

theorem hung_up_inv : Inv setting orig { before with hungUp := true } := by
  refine ⟨fun alive => ?_, fun stopped => ?_, inv.ttyOrig, ?_⟩
  · have running := inv.running alive
    refine ⟨running.input, running.shown, running.recorded, fun _ => ?_, running.master,
      running.registered, running.cooked⟩
    exact Bool.or_true _
  · have prefixes := inv.stopped stopped
    exact ⟨prefixes.input, prefixes.shown, prefixes.recorded⟩
  · exact ⟨fun _ bad => (by cases bad), inv.ended.same, fun _ _ bad => by cases bad⟩

theorem consumed_inv (unread : Nat) : Inv setting orig { before with unread := unread } := by
  refine ⟨fun alive => ?_, fun stopped => ?_, inv.ttyOrig,
    ⟨inv.ended.complete, inv.ended.same, inv.ended.restored⟩⟩
  · have running := inv.running alive
    exact ⟨running.input, running.shown, running.recorded, running.stdin, running.master,
      running.registered, running.cooked⟩
  · have prefixes := inv.stopped stopped
    exact ⟨prefixes.input, prefixes.shown, prefixes.recorded⟩

theorem slave_closed_inv : Inv setting orig { before with slaveOpen := false } := by
  refine ⟨fun alive => ?_, fun stopped => ?_, inv.ttyOrig, ?_⟩
  · have running := inv.running alive
    refine ⟨running.input, running.shown, running.recorded, running.stdin, fun _ => ?_,
      running.registered, running.cooked⟩
    exact Bool.or_true _
  · have prefixes := inv.stopped stopped
    exact ⟨prefixes.input, prefixes.shown, prefixes.recorded⟩
  · refine ⟨fun success connected => ?_, inv.ended.same, inv.ended.restored⟩
    obtain ⟨_, all, tty⟩ := inv.ended.complete success connected
    exact ⟨rfl, all, tty⟩

theorem step_inv (choice : Choice) (taken : step setting choice before = some after) :
    Inv setting orig after := by
  cases choice with
  | act answer => exact act_inv setting orig before after inv answer taken
  | type text =>
      rw [step, Option.ite_none_left_eq_some, Option.some.injEq] at taken
      exact taken.2 ▸ typed_inv setting orig before inv text
  | hangUp =>
      cases taken
      exact hung_up_inv setting orig before inv
  | produce text =>
      rw [step, Option.ite_none_right_eq_some, Option.some.injEq] at taken
      exact taken.2 ▸ produced_inv setting orig before inv text taken.1
  | consume number =>
      rw [step, Option.ite_none_right_eq_some, Option.some.injEq] at taken
      exact taken.2 ▸ consumed_inv setting orig before inv _
  | closeSlave =>
      cases taken
      exact slave_closed_inv setting orig before inv
  | kill =>
      have alive : before.place.running = true := by
        cases place : before.place with
        | exited how =>
            simp only [step, place] at taken
            cases taken
        | _ => rfl
      have prefixes := running_prefixes setting orig before (inv.running alive)
      have killed : after = { before with place := .exited .killed } := by
        simp only [step] at taken
        split at taken
        · cases taken
        · exact (Option.some.inj taken).symm
      subst killed
      refine stopped_inv setting orig _ .killed rfl ⟨prefixes.input, prefixes.shown,
        prefixes.recorded⟩ inv.ttyOrig ?_
      exact ⟨fun bad => (by cases bad), fun bad => (by cases bad), fun bad => by cases bad⟩

end Steps

/-! Every round of the loop takes something from the terminal or from the pseudoterminal. -/

def Place.weight : Place → Nat
  | .openScript => 10
  | .setRaw => 9
  | .atexit => 8
  | .select => 7
  | .readStdin _ => 6
  | .writeMaster _ buf => 8 + buf.length
  | .readMaster => 4
  | .writeStdout _ => 9
  | .writeScript _ => 8
  | .exited _ => 0

def rank (state : State) : Nat :=
  8 * (state.terminal.length + state.pty.length) + state.place.weight

theorem exit_rank (how : Exit) (state : State) :
    rank (exit how state) = 8 * (state.terminal.length + state.pty.length) := by
  unfold exit
  split
  · split <;> rfl
  · rfl

theorem terminate_rank (setting : Setting) (state : State) :
    rank (terminate setting state) = 8 * (state.terminal.length + state.pty.length) := by
  unfold terminate
  split
  · rfl
  · exact exit_rank .failure state

theorem fits_positive (number : Nat) (there : List UInt8) (fine : fits number there = true) :
    0 < number ∧ number ≤ there.length := by
  simp only [fits, Bool.and_eq_true, decide_eq_true_eq] at fine
  exact ⟨fine.1.1, fine.2⟩

theorem terminate_lowers (setting : Setting) (before state : State)
    (terminal : state.terminal = before.terminal) (pty : state.pty = before.pty)
    (alive : 0 < before.place.weight) : rank (terminate setting state) < rank before := by
  rw [terminate_rank, terminal, pty, rank]
  omega

theorem written_lowers (setting : Setting) (answer : Answer) (buf : List UInt8)
    (before whole after : State) (short : List UInt8 → State) (less : rank whole < rank before)
    (alive : 0 < before.place.weight)
    (same : ∀ part, (short part).terminal = before.terminal ∧ (short part).pty = before.pty)
    (taken : written setting answer buf before whole short = some after) :
    rank after < rank before := by
  unfold written at taken
  split at taken
  · exact Option.some.inj taken ▸ terminate_lowers setting before before rfl rfl alive
  · split at taken
    · exact Option.some.inj taken ▸ less
    · split at taken
      · exact Option.some.inj taken ▸
          terminate_lowers setting before _ (same _).1 (same _).2 alive
      · cases taken

theorem act_lowers (setting : Setting) (answer : Answer) (before after : State)
    (taken : act setting answer before = some after) : rank after < rank before := by
  have terminated (alive : 0 < before.place.weight) : rank (terminate setting before) <
      rank before :=
    terminate_lowers setting before before rfl rfl alive
  cases place : before.place with
  | openScript =>
      simp only [act, place] at taken
      split at taken
      · exact Option.some.inj taken ▸ terminated (by rw [place]; decide)
      · cases taken
        simp only [rank, place, Place.weight]
        omega
  | setRaw =>
      simp only [act, place] at taken
      split at taken
      · cases taken
        simp only [rank, place, Place.weight]
        omega
      · cases taken
        simp only [rank, place, Place.weight, List.length_nil]
        omega
  | atexit =>
      simp only [act, place] at taken
      split at taken
      · exact Option.some.inj taken ▸ terminated (by rw [place]; decide)
      · cases taken
        simp only [rank, place, Place.weight]
        omega
  | select =>
      simp only [act, place] at taken
      split at taken
      · exact Option.some.inj taken ▸ terminated (by rw [place]; decide)
      · split at taken
        · cases taken
          simp only [rank, place, Place.weight]
          omega
        · split at taken
          · cases taken
            simp only [rank, place, Place.weight]
            omega
          · cases taken
  | readStdin master =>
      simp only [act, place] at taken
      split at taken
      · cases taken
      · split at taken
        · split at taken
          · cases taken
            rw [exit_rank, rank, place]
            simp only [Place.weight]
            omega
          · cases taken
        · split at taken
          · next fine =>
              cases taken
              have less := fits_positive _ _ fine
              simp only [rank, place, Place.weight, List.length_drop, List.length_take]
              omega
          · cases taken
  | writeMaster master buf =>
      simp only [act, place, relay] at taken
      split at taken
      · exact Option.some.inj taken ▸
          terminated (by rw [place]; exact Nat.lt_of_lt_of_le (by decide) (Nat.le_add_right 8 _))
      · split at taken
        · next number goes =>
            cases taken
            simp only [rank, place]
            split
            · next short =>
                have some_ : number ≠ 0 := by
                  intro zero
                  simp [goes.2.1 zero] at short
                simp only [Place.weight, List.length_drop]
                omega
            · cases master <;> simp only [Place.weight, ↓reduceIte, Bool.false_eq_true] <;> omega
        · cases taken
  | readMaster =>
      simp only [act, place] at taken
      split at taken
      · cases taken
      · split at taken
        · split at taken
          · cases taken
          · cases taken
            rw [exit_rank, rank, place]
            simp only [Place.weight]
            omega
        · split at taken
          · next fine =>
              cases taken
              have less := fits_positive _ _ fine
              simp only [rank, place, Place.weight, List.length_drop]
              omega
          · cases taken
  | writeStdout buf =>
      simp only [act, place] at taken
      refine written_lowers setting answer buf before _ after _ ?_ ?_ ?_ taken
      · cases records : setting.records with
        | true =>
            simp only [rank, place, Place.weight, ↓reduceIte]
            omega
        | false =>
            simp only [rank, place, Place.weight, Bool.false_eq_true, ↓reduceIte]
            omega
      · rw [place]
        exact Nat.succ_pos 8
      · exact fun _ => ⟨rfl, rfl⟩
  | writeScript buf =>
      simp only [act, place] at taken
      refine written_lowers setting answer buf before _ after _ ?_ ?_ ?_ taken
      · simp only [rank, place, Place.weight]
        omega
      · rw [place]
        exact Nat.succ_pos 7
      · exact fun _ => ⟨rfl, rfl⟩
  | exited how =>
      simp only [act, place] at taken
      cases taken

/-- The write to the master waits for the other side, which has left its input full. -/
def Blocked (setting : Setting) (state : State) : Prop :=
  state.slaveOpen = true ∧ setting.room ≤ state.unread ∧ ∃ master buf,
    state.place = .writeMaster master buf

/-- The program rests only in `select`, when there is nothing to read on either side, or in the
write to the master. -/
theorem stuck_rests (setting : Setting) (orig : Termios) (state : State)
    (inv : Inv setting orig state) (stuck : ∀ number, act setting (.count number) state = none) :
    state.place.running = false ∨
      Blocked setting state ∨
      (state.place = .select ∧ state.terminal = [] ∧ state.hungUp = false ∧ state.pty = [] ∧
        state.slaveOpen = true) := by
  have one (there : List UInt8) (some_ : there ≠ []) : fits 1 there = true := by
    have positive := List.length_pos_iff.mpr some_
    simp only [fits, Bool.and_eq_true, decide_eq_true_eq]
    exact ⟨⟨by decide, by decide⟩, positive⟩
  cases place : state.place with
  | exited how => exact .inl rfl
  | openScript =>
      have goes := stuck 0
      simp only [act, place] at goes
      cases goes
  | setRaw =>
      have goes := stuck 0
      simp only [act, place] at goes
      cases goes
  | atexit =>
      have goes := stuck 0
      simp only [act, place] at goes
      cases goes
  | select =>
      have goes := stuck 0
      simp only [act, place] at goes
      split at goes
      · cases goes
      · next stdin =>
          split at goes
          · cases goes
          · next master =>
              simp only [State.stdinReady, State.masterReady, Bool.or_eq_true, decide_eq_true_eq,
                not_or, not_not, Bool.not_eq_true', Bool.not_eq_false,
                Bool.not_eq_true] at stdin master
              exact .inr (.inr ⟨rfl, stdin.1, stdin.2, master.1, master.2⟩)
  | readStdin master =>
      have ready := (inv.running (by rw [place]; rfl)).stdin (by rw [place]; rfl)
      have goes := stuck 1
      simp only [act, place] at goes
      split at goes
      · next empty =>
          simp only [State.stdinReady, empty, ne_eq, not_true_eq_false, decide_false,
            Bool.false_or] at ready
          rw [if_pos ready] at goes
          cases goes
      · next some_ =>
          rw [if_pos (one _ some_)] at goes
          cases goes
  | writeMaster master buf =>
      have goes := stuck (min 1 buf.length)
      simp only [act, place, relay] at goes
      split at goes
      · cases goes
      · next waits =>
          refine .inr (.inl ⟨?_, ?_, master, buf, place⟩)
          · by_contra closed
            refine waits ⟨Nat.min_le_right _ _, fun none => ?_,
              .inl (Bool.eq_false_iff.mpr closed)⟩
            exact List.length_eq_zero_iff.mp (by omega)
          · by_contra free
            refine waits ⟨Nat.min_le_right _ _, fun none => ?_, .inr (by omega)⟩
            exact List.length_eq_zero_iff.mp (by omega)
  | readMaster =>
      have ready := (inv.running (by rw [place]; rfl)).master (by rw [place]; rfl)
      have goes := stuck 1
      simp only [act, place] at goes
      split at goes
      · next empty =>
          simp only [State.masterReady, empty, ne_eq, not_true_eq_false,
            decide_false, Bool.false_or, Bool.not_eq_true'] at ready
          rw [if_neg (by rw [ready]; exact Bool.false_ne_true)] at goes
          cases goes
      · next some_ =>
          rw [if_pos (one _ some_)] at goes
          cases goes
  | writeStdout buf =>
      have goes := stuck buf.length
      simp only [act, place, written, ↓reduceIte] at goes
      cases goes
  | writeScript buf =>
      have goes := stuck buf.length
      simp only [act, place, written, ↓reduceIte] at goes
      cases goes

/-- In every run the other side gets what is typed, the terminal shows what the other side
produces and the typescript holds what is shown, each in order and never more. A session that
ends because the slave was closed has shown and recorded everything. Unless the terminal is hung
up, `exit` gives it its settings back. Left alone, the parent soon ends, has relayed everything or
waits for the other side to read what was typed. -/
theorem session_is_relayed (setting : Setting) (tty : Termios) (state : State)
    (reached : Transition.Reachable (· = start setting tty) (step setting) state) :
    state.sent <+: state.typed ∧ state.stdout <+: state.produced ∧
      state.script <+: recording setting state ∧
      (state.place = .exited .success → state.script = recording setting state ∧
        (state.hungUp = false → state.slaveOpen = false ∧ state.stdout = state.produced ∧
          state.tty = tty)) ∧
      (state.place = .exited .failure → state.registered = true → state.hungUp = false →
        state.tty = tty) ∧
      (∀ answers after, Transition.replay (act setting) answers state = some after →
        answers.length ≤ rank state) ∧
      ((∀ number, act setting (.count number) state = none) → state.place.running = false ∨
        Blocked setting state ∨
        (state.slaveOpen = true ∧ state.hungUp = false ∧ state.sent = state.typed ∧
          state.stdout = state.produced ∧ state.script = recording setting state)) := by
  have inv : Inv setting tty state :=
    Transition.reachable_invariant (fun _ here => here ▸ start_inv setting tty)
      (fun choice before after inv taken => step_inv setting tty before after inv choice taken)
        reached
  have prefixes : Prefixes setting state := by
    cases alive : state.place.running with
    | true => exact running_prefixes setting tty state (inv.running alive)
    | false => exact inv.stopped alive
  refine ⟨prefixes.input, prefixes.shown, prefixes.recorded, fun success => ?_,
    inv.ended.restored, fun answers after replayed => ?_, fun stuck => ?_⟩
  · exact ⟨inv.ended.same success, inv.ended.complete success⟩
  · exact Transition.choices_bounded (act setting) rank (act_lowers setting) answers replayed
  · rcases stuck_rests setting tty state inv stuck with
      stopped | blocked | ⟨place, terminal, connected, pty, slave⟩
    · exact .inl stopped
    · exact .inr (.inl blocked)
    · have running := inv.running (by rw [place]; rfl)
      have input := running.input
      have shown := running.shown
      have recorded := running.recorded
      rw [place] at input shown recorded
      rw [terminal] at input
      rw [pty] at shown
      refine .inr (.inr ⟨slave, connected, ?_, ?_, (List.append_nil _).symm.trans recorded⟩)
      · simpa [Place.toMaster] using input
      · simpa [Place.toStdout] using shown

/-- A user types `w` and sees it echoed before the shell ends. -/
def echoed : List Choice :=
  List.replicate 3 (.act (.count 0)) ++
    [.type [119], .act (.count 0), .act (.count 1), .produce [119], .act (.count 1),
      .act (.count 0), .act (.count 1), .act (.count 1), .act (.count 1),
      .closeSlave, .act (.count 0),
    .act (.count 0)]

def cooked : Termios :=
  ⟨TerminalModes.ICRNL, TerminalModes.OPOST, 0, TerminalModes.ICANON, 0, 0⟩

theorem echoed_is_recorded : ∃ state,
    Transition.replay (step ⟨true, false, 4096⟩) echoed (start ⟨true, false, 4096⟩ cooked) =
      some state ∧
      state.place = .exited .success ∧ state.script = [119] ∧ state.tty = cooked := by
  have run : (Transition.replay (step ⟨true, false, 4096⟩) echoed
    (start ⟨true, false, 4096⟩ cooked)).any
      (fun state => state.place = .exited .success ∧ state.script = [119] ∧
        state.hungUp = false) = true := by
    decide
  obtain ⟨state, replayed, here⟩ := (Option.any_eq_true _ _).mp run
  obtain ⟨place, script, connected⟩ := of_decide_eq_true here
  have relayed := session_is_relayed ⟨true, false, 4096⟩ cooked state
    (Transition.replay_reachable echoed (Transition.Reachable.start rfl) replayed)
  exact ⟨state, replayed, place, script, ((relayed.2.2.2.1 place).2 connected).2.2⟩

end Tlpi.ScriptSession
