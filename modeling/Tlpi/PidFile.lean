import Mathlib.Data.List.Basic
import Tlpi.Transition
import Tlpi.Indexed

/-!
filelock/create_pid_file.c, with the `lockRegion` of filelock/region_locking.c:
instances of a program that open or create one PID file and lock it. The name and
the file are two things here: a lock belongs to the file that was opened, whatever
the name refers to by then. A process is known by its PID, an index into
`processes`; a file is an index into `files`.
-/

namespace Tlpi.PidFile

/-- What a process does next. `createPidFile` ends with the write; the caller deletes the
file by its name and then terminates. -/
inductive Place where
  | open
  | lock (file : Nat)
  | truncate (file : Nat)
  | write (file : Nat)
  | running (file : Nat)
  | deleted (file : Nat)
  | terminated
  deriving DecidableEq

structure File where
  text : List Char
  lock : Option Nat
  deriving DecidableEq

/-- `name` is the file that `pidFile` refers to, if there is one. -/
structure State where
  processes : List Place
  files : List File
  name : Option Nat
  deriving DecidableEq

/-- A process takes its next step, or the system call it makes fails and it exits. -/
structure Choice where
  pid : Nat
  fails : Bool
  deriving DecidableEq

def State.place (state : State) (pid : Nat) (place : Place) : State :=
  { state with processes := state.processes.set pid place }

def State.update (state : State) (file : Nat) (change : File → File) : State :=
  { state with files := state.files.modify file change }

/-- A process that terminates releases its locks. -/
def release (pid : Nat) (file : File) : File :=
  if file.lock = some pid then { file with lock := none } else file

def exit (state : State) (pid : Nat) : State :=
  { state with
    processes := state.processes.set pid .terminated, files := state.files.map (release pid) }

def openFile (state : State) (pid : Nat) : State :=
  match state.name with
  | some file => state.place pid (.lock file)
  | none =>
      { state with
        processes := state.processes.set pid (.lock state.files.length)
        files := state.files ++ [⟨[], none⟩]
        name := some state.files.length }

/-- `lockRegion(fd, F_WRLCK, SEEK_SET, 0, 0)` does not wait for a lock of another process. -/
def lockable (state : State) (pid file : Nat) : Bool :=
  match state.files[file]? with
  | some held => held.lock = none || held.lock = some pid
  | none => false

def getpid (pid : Nat) : List Char := Nat.toDigits 10 pid ++ ['\n']

def stepProcess (state : State) (pid : Nat) : Place → Option State
  | .open => some (openFile state pid)
  | .lock file =>
      if lockable state pid file then
        some ((state.update file fun held => { held with lock := some pid }).place pid
          (.truncate file))
      else some (exit state pid)
  | .truncate file =>
      some ((state.update file fun held => { held with text := [] }).place pid (.write file))
  | .write file => some ((state.update file fun held => { held with text := getpid pid }).place pid
      (.running file))
  | .running file => some { state.place pid (.deleted file) with name := none }
  | .deleted _ => some (exit state pid)
  | .terminated => none

def step (choice : Choice) (state : State) : Option State :=
  match state.processes[choice.pid]? with
  | none => none
  | some .terminated => none
  | some place =>
      if choice.fails then some (exit state choice.pid) else stepProcess state choice.pid place

def start (count : Nat) : State := ⟨List.replicate count .open, [], none⟩

/-- Past a successful `createPidFile` and not yet terminated. -/
def live : Place → Bool
  | .running _ => true
  | .deleted _ => true
  | _ => false

def SingleInstance (state : State) : Prop := ∀ (one other : Nat) first second,
  state.processes[one]? = some first → state.processes[other]? = some second →
    live first = true → live second = true → one = other

def isDeleted : Place → Bool
  | .deleted _ => true
  | _ => false

/-- Whoever gets the lock gets it on the file that the name refers to, and at a time when
no instance has deleted the name without having terminated. -/
def timely (choice : Choice) (state : State) : Bool :=
  match state.processes[choice.pid]? with
  | some (.lock file) =>
      choice.fails || !lockable state choice.pid file ||
        (state.name = some file && !state.processes.any isDeleted)
  | _ => true

/-! The one process with a lock. -/

def held : Place → Option Nat
  | .truncate file => some file
  | .write file => some file
  | .running file => some file
  | .deleted file => some file
  | _ => none

structure Exclusive (state : State) : Prop where
  locked : ∀ (pid : Nat) place file, state.processes[pid]? = some place →
    held place = some file →
    ∃ text, state.files[file]? = some ⟨text, some pid⟩
  named : ∀ (pid : Nat) place file, state.processes[pid]? = some place →
    held place = some file →
    isDeleted place = true ∨ state.name = some file
  one : ∀ (pid other : Nat) first second, state.processes[pid]? = some first →
    state.processes[other]? = some second → (held first).isSome →
      (held second).isSome → pid = other

theorem live_held (place : Place) (lives : live place = true) : (held place).isSome := by
  cases place <;> first | rfl | cases lives

theorem exclusive_single (state : State) (sound : Exclusive state) : SingleInstance state :=
  fun one other first second left right alive living =>
    sound.one one other first second left right (live_held first alive) (live_held second living)

/-- A step that takes no lock: the process keeps what it holds or drops it. -/
theorem exclusive_moved (before after : State) (sound : Exclusive before) (pid : Nat)
    (old new : Place) (there : before.processes[pid]? = some old)
    (moved : after.processes = before.processes.set pid new)
    (keeps : ∀ file, held new = some file → held old = some file)
    (locked : ∀ (file : Nat) text owner, before.files[file]? = some ⟨text, some owner⟩ →
      owner ≠ pid ∨ (held new).isSome → ∃ text,
      after.files[file]? = some ⟨text, some owner⟩)
    (named : ∀ file, held new = some file → isDeleted new = true ∨
      after.name = before.name ∧ isDeleted old = false)
    (others : after.name = before.name ∨ (held old).isSome ∨
      before.name = none) : Exclusive after := by
  have source : ∀ (other : Nat) place file, after.processes[other]? = some place →
    held place = some file →
      ∃ earlier, before.processes[other]? = some earlier ∧ held earlier = some file ∧
        (other = pid ∧ place = new ∨ other ≠ pid ∧ place = earlier) := by
    intro other place file found holds
    rw [moved] at found
    rcases Indexed.set_cases _ _ _ _ _ found with ⟨rfl, rfl⟩ | ⟨different, same⟩
    · exact ⟨old, there, keeps file holds, Or.inl ⟨rfl, rfl⟩⟩
    · exact ⟨place, same, holds, Or.inr ⟨different, rfl⟩⟩
  constructor
  · intro other place file found holds
    obtain ⟨earlier, before_, held_, cases⟩ := source other place file found holds
    obtain ⟨text, lock⟩ := sound.locked other earlier file before_ held_
    refine locked file text other lock ?_
    rcases cases with ⟨_, rfl⟩ | ⟨different, _⟩
    · exact Or.inr (by rw [holds]; rfl)
    · exact Or.inl different
  · intro other place file found holds
    obtain ⟨earlier, before_, held_, cases⟩ := source other place file found holds
    rcases cases with ⟨rfl, rfl⟩ | ⟨different, rfl⟩
    · rcases named file holds with deleted | ⟨same, present⟩
      · exact Or.inl deleted
      · obtain rfl := Option.some.inj (there.symm.trans before_)
        rcases sound.named other old file there held_ with bad | name
        · rw [present] at bad
          cases bad
        · exact Or.inr (same.trans name)
    · rcases sound.named other place file before_ held_ with deleted | name
      · exact Or.inl deleted
      · rcases others with same | holder | missing
        · exact Or.inr (same.trans name)
        · exact absurd (sound.one other pid place old before_ there
            (by rw [held_]; rfl) holder) different
        · rw [missing] at name
          cases name
  · intro one other first second left right holds having
    obtain ⟨file, holding⟩ := Option.isSome_iff_exists.mp holds
    obtain ⟨last, owning⟩ := Option.isSome_iff_exists.mp having
    obtain ⟨early, here, had, _⟩ := source one first file left holding
    obtain ⟨late, home, owned, _⟩ := source other second last right owning
    exact sound.one one other early late here home (by rw [had]; rfl) (by rw [owned]; rfl)

theorem exit_exclusive (state : State) (sound : Exclusive state) (pid : Nat) (old : Place)
    (there : state.processes[pid]? = some old) : Exclusive (exit state pid) := by
  refine exclusive_moved state _ sound pid old .terminated there rfl (fun _ bad => ?_) ?_
    (fun _ bad => ?_) (Or.inl rfl)
  · cases bad
  · rintro file text owner found (different | bad)
    · refine ⟨text, ?_⟩
      change (state.files.map (release pid))[file]? = _
      rw [List.getElem?_map, found]
      exact congrArg some (if_neg fun same => different (Option.some.inj same))
    · cases bad
  · cases bad

theorem open_exclusive (state : State) (sound : Exclusive state) (pid : Nat)
    (there : state.processes[pid]? = some .open) : Exclusive (openFile state pid) := by
  unfold openFile
  cases name : state.name with
  | some file =>
      refine exclusive_moved state _ sound pid .open (.lock file) there rfl (fun _ bad => ?_)
        (fun _ text _ found _ => ⟨text, found⟩) (fun _ bad => ?_) (Or.inl rfl)
      · cases bad
      · cases bad
  | none =>
      refine exclusive_moved state _ sound pid .open (.lock state.files.length) there rfl
        (fun _ bad => ?_) ?_ (fun _ bad => ?_) (Or.inr (Or.inr name))
      · cases bad
      · intro file text owner found _
        refine ⟨text, ?_⟩
        change (state.files ++ _)[file]? = _
        rw [List.getElem?_append_left (List.getElem?_eq_some_iff.mp found).1, found]
      · cases bad

/-- A change of the text leaves the locks. -/
theorem modified_lock (files : List File) (index : Nat) (change : File → File)
    (same : ∀ file, (change file).lock = file.lock) (file : Nat) (text : List Char) (owner : Nat)
    (found : files[file]? = some ⟨text, some owner⟩) :
    ∃ text, (files.modify index change)[file]? = some ⟨text, some owner⟩ := by
  by_cases here : index = file
  · subst here
    have kept := same ⟨text, some owner⟩
    refine ⟨(change ⟨text, some owner⟩).text, ?_⟩
    rw [List.getElem?_modify_eq, found, Option.map_eq_map, Option.map_some]
    generalize change ⟨text, some owner⟩ = new at kept
    obtain ⟨words, lock⟩ := new
    cases kept
    rfl
  · exact ⟨text, by simp [here, found]⟩

theorem lock_exclusive (state : State) (sound : Exclusive state) (pid file : Nat)
    (there : state.processes[pid]? = some (.lock file)) (free : lockable state pid file = true)
    (name : state.name = some file) (kept : state.processes.any isDeleted = false) :
    Exclusive ((state.update file fun held => { held with lock := some pid }).place pid
      (.truncate file)) := by
  obtain ⟨target, found, open_⟩ : ∃ target, state.files[file]? = some target ∧
      (target.lock = none ∨ target.lock = some pid) := by
    unfold lockable at free
    split at free
    · next target found => exact ⟨target, found, by simpa using free⟩
    · cases free
  -- a holder would hold the file of this name
  have nobody : ∀ (other : Nat) place, state.processes[other]? = some place →
      held place = none := by
    intro other place here
    cases holds : held place with
    | none => rfl
    | some last =>
        exfalso
        have present : isDeleted place = false := by
          have each := List.any_eq_false.mp kept place (List.mem_of_getElem? here)
          exact Bool.eq_false_iff.mpr each
        rcases sound.named other place last here holds with bad | named
        · rw [present] at bad
          cases bad
        · obtain rfl := Option.some.inj (named.symm.trans name)
          obtain ⟨text, locked⟩ := sound.locked other place last here holds
          obtain rfl := Option.some.inj (found.symm.trans locked)
          rcases open_ with bad | mine
          · cases bad
          · obtain rfl := Option.some.inj mine
            obtain rfl := Option.some.inj (there.symm.trans here)
            cases holds
  have only : ∀ (other : Nat) place,
    (state.processes.set pid (.truncate file))[other]? = some place →
      (held place).isSome → other = pid ∧ place = .truncate file := by
    intro other place here holds
    rcases Indexed.set_cases _ _ _ _ _ here with same | ⟨_, old⟩
    · exact same
    · rw [nobody other place old] at holds
      cases holds
  constructor
  · intro other place last here holds
    obtain ⟨rfl, rfl⟩ := only other place here (by rw [holds]; rfl)
    obtain rfl := Option.some.inj holds
    refine ⟨target.text, ?_⟩
    change (state.files.modify file _)[file]? = _
    rw [List.getElem?_modify_eq, found]
    rfl
  · intro other place last here holds
    obtain ⟨rfl, rfl⟩ := only other place here (by rw [holds]; rfl)
    obtain rfl := Option.some.inj holds
    exact Or.inr name
  · intro one other first second left right holds having
    rw [(only one first left holds).1, (only other second right having).1]

theorem step_exclusive (choice : Choice) (before after : State) (sound : Exclusive before)
    (taken : Transition.restrict timely step choice before = some after) : Exclusive after := by
  obtain ⟨allowed, taken⟩ := Transition.restrict_some taken
  obtain ⟨pid, fails⟩ := choice
  unfold step at taken
  cases there : before.processes[pid]? with
  | none =>
      simp only [there] at taken
      cases taken
  | some place =>
      have ends : Exclusive (exit before pid) := exit_exclusive before sound pid place there
      cases fails with
      | true =>
          cases place <;> simp only [there, if_true] at taken <;> cases taken <;> exact ends
      | false =>
          cases place with
          | «open» =>
              simp only [there, Bool.false_eq_true, if_false, stepProcess] at taken
              cases taken
              exact open_exclusive before sound pid there
          | lock file =>
              simp only [there, Bool.false_eq_true, if_false, stepProcess] at taken
              split at taken
              · next free =>
                  cases taken
                  simp only [timely, there, free, Bool.false_or, Bool.not_true, Bool.and_eq_true,
                    decide_eq_true_eq, Bool.not_eq_true'] at allowed
                  exact lock_exclusive before sound pid file there free allowed.1 allowed.2
              · cases taken
                exact ends
          | truncate file =>
              simp only [there, Bool.false_eq_true, if_false, stepProcess] at taken
              cases taken
              exact exclusive_moved before _ sound pid (.truncate file)
                (.write file) there rfl (fun _ => id)
                (fun other text owner found _ => modified_lock before.files file
                  (fun held => { held with text := [] }) (fun _ => rfl) other text owner found)
                (fun _ _ => Or.inr ⟨rfl, rfl⟩) (Or.inl rfl)
          | write file =>
              simp only [there, Bool.false_eq_true, if_false, stepProcess] at taken
              cases taken
              exact exclusive_moved before _ sound pid (.write file)
                (.running file) there rfl (fun _ => id)
                (fun other text owner found _ => modified_lock before.files file
                  (fun held => { held with text := getpid pid })
                    (fun _ => rfl) other text owner found)
                (fun _ _ => Or.inr ⟨rfl, rfl⟩) (Or.inl rfl)
          | running file =>
              simp only [there, Bool.false_eq_true, if_false, stepProcess] at taken
              cases taken
              exact exclusive_moved before _ sound pid (.running file)
                (.deleted file) there rfl (fun _ => id)
                (fun _ text _ found _ => ⟨text, found⟩) (fun _ _ => Or.inl rfl)
                  (Or.inr (Or.inl rfl))
          | deleted file =>
              simp only [there, Bool.false_eq_true, if_false, stepProcess] at taken
              cases taken
              exact ends
          | terminated =>
              simp only [there] at taken
              cases taken

theorem start_exclusive (count : Nat) : Exclusive (start count) := by
  have nobody : ∀ (pid : Nat) place, (start count).processes[pid]? = some place →
      held place = none := by
    intro pid place found
    rw [List.eq_of_mem_replicate (List.mem_of_getElem? found)]
    rfl
  constructor
  · intro pid place file found holds
    rw [nobody pid place found] at holds
    cases holds
  · intro pid place file found holds
    rw [nobody pid place found] at holds
    cases holds
  · intro pid other first second left _ holds
    rw [nobody pid first left] at holds
    cases holds

/-- If every lock is taken on the file that still has the name, and not while an instance
is between deleting the name and terminating, then there is one instance at a time. -/
theorem timely_locks_keep_one_instance (count : Nat) (state : State)
    (reached : Transition.Reachable (· = start count) (Transition.restrict timely step) state) :
    SingleInstance state := by
  refine exclusive_single state (Transition.reachable_invariant ?_ step_exclusive reached)
  rintro state rfl
  exact start_exclusive count

def steps (pids : List Nat) : List Choice := pids.map (⟨·, false⟩)

-- The second process opens the file only after the first has gone.
theorem successor_is_alone :
    ∃ state, Transition.replay (Transition.restrict timely step) (steps [0, 0, 0, 0, 0, 0, 1,
      1, 1, 1]) (start 2) =
        some state ∧
      state.processes = [.terminated, .running 1] ∧ SingleInstance state := by
  obtain ⟨state, replayed, processes⟩ : ∃ state,
    Transition.replay (Transition.restrict timely step)
      (steps [0, 0, 0, 0, 0, 0, 1, 1, 1, 1]) (start 2) = some state ∧
      state.processes = [.terminated, .running 1] := ⟨_, rfl, rfl⟩
  have reached : Transition.Reachable (· = start 2) (Transition.restrict timely step) state :=
    Transition.replay_reachable _ (.start rfl) replayed
  exact ⟨state, replayed, processes, timely_locks_keep_one_instance 2 state reached⟩

-- Process 1 opens the file of process 0 and locks it after that one is gone; process 2
-- finds no file of this name and makes its own.
theorem deleted_file_admits_two_instances :
    ∃ state, Transition.replay step (steps [0, 0, 0, 0, 1, 0, 0, 1, 1, 1, 2, 2, 2, 2]) (start 3) =
      some state ∧
      state.processes = [.terminated, .running 0, .running 1] ∧ ¬ SingleInstance state := by
  refine ⟨_, rfl, rfl, fun single => ?_⟩
  have same := single 1 2 (.running 0) (.running 1) rfl rfl rfl rfl
  cases same

end Tlpi.PidFile
