import Mathlib.Logic.Function.Basic
import Tlpi.CStrings

/-!
procexec/system.c: `system` and the signal state of its caller and of the shell. The calls that
change this state may also leave another errno, for unblocking SIGCHLD can run a handler;
`noise` says which. A `World` answers `fork`, `execl` and `waitpid`.
-/

namespace Tlpi.SystemCommand

open CStrings

def SIGINT : Nat := 2
def SIGQUIT : Nat := 3
def SIGKILL : Nat := 9
def SIGCHLD : Nat := 17
def SIGSTOP : Nat := 19
def EINTR : Int := 4

abbrev Sigset := Nat → Bool

/-- Two signals are never blocked. -/
abbrev Mask := { set : Sigset // set SIGKILL = false ∧ set SIGSTOP = false }

/-- What the kernel makes of a set. -/
def effective (set : Sigset) : Mask :=
  ⟨fun signal => set signal && signal != SIGKILL && signal != SIGSTOP, by simp, by simp⟩

def sigemptyset : Sigset := fun _ => false

def sigaddset (set : Sigset) (signum : Nat) : Sigset := Function.update set signum true

inductive Handler where
  | SIG_DFL
  | SIG_IGN
  | function (address : Nat)
  deriving DecidableEq

structure Action where
  sa_handler : Handler
  sa_flags : Nat
  sa_mask : Mask

structure Process where
  mask : Mask
  actions : Nat → Action
  errno : Int

inductive How where
  | SIG_BLOCK
  | SIG_SETMASK

section Calls

variable (noise : Int → Int)

def sigprocmask (how : How) (set : Sigset) (process : Process) : Sigset × Process :=
  let set := match how with
    | .SIG_BLOCK => fun signal => process.mask.1 signal || set signal
    | .SIG_SETMASK => set
  (process.mask.1, { process with mask := effective set, errno := noise process.errno })

def sigaction (signum : Nat) (act : Action) (process : Process) : Action × Process :=
  (process.actions signum,
    { process with
      actions := Function.update process.actions signum act, errno := noise process.errno })

end Calls

inductive Disposition where
  | default
  | ignored
  deriving DecidableEq

structure Program where
  path : Str
  argv : List Str
  mask : Mask
  dispositions : Nat → Disposition

/-- Handlers do not outlive the program; what is ignored and what is blocked does. -/
def execve (path : Str) (argv : List Str) (process : Process) : Program :=
  ⟨path, argv, process.mask, fun signum =>
    if (process.actions signum).sa_handler = .SIG_IGN then .ignored else .default⟩

inductive Child where
  | runs (program : Program)
  | exits (status : Int)

structure World where
  fork : Except Int Nat
  execl : Bool
  interruptions : Nat
  last : Except Int Int
  other : last ≠ .error EINTR

def World.waitpid (world : World) : List (Except Int Int) :=
  List.replicate world.interruptions (.error EINTR) ++ [world.last]

/-- The `while` loop; `none` if it still waits. -/
def waitLoop : List (Except Int Int) → Process → Option (Int × Process)
  | [], _ => none
  | .ok status :: _, process => some (status, process)
  | .error errno :: rest, process =>
      if errno ≠ EINTR then some (-1, { process with errno := errno })
      else waitLoop rest { process with errno := errno }

def sh : Str := literal "/bin/sh"

def shell (command : Str) : List Str := [literal "sh", literal "-c", command]

section System

variable (noise : Int → Int)

/-- The child undoes what its parent has done to a signal that was not ignored. -/
def defaulted (orig : Action) (signum : Nat) (process : Process) : Process :=
  let saDefault : Action := ⟨.SIG_DFL, 0, effective sigemptyset⟩
  if orig.sa_handler ≠ .SIG_IGN then (sigaction noise signum saDefault process).2 else process

def inChild (world : World) (command : Str) (saOrigInt saOrigQuit : Action) (origMask : Sigset)
    (process : Process) : Child :=
  let process := defaulted noise saOrigInt SIGINT process
  let process := defaulted noise saOrigQuit SIGQUIT process
  let (_, process) := sigprocmask noise .SIG_SETMASK origMask process
  if world.execl then .runs (execve sh (shell command) process) else .exits 127

/-- "Unblock SIGCHLD, restore dispositions of SIGINT and SIGQUIT". -/
def restored (saOrigInt saOrigQuit : Action) (origMask : Sigset) (process : Process) : Process :=
  let savedErrno := process.errno
  let (_, process) := sigprocmask noise .SIG_SETMASK origMask process
  let (_, process) := sigaction noise SIGINT saOrigInt process
  let (_, process) := sigaction noise SIGQUIT saOrigQuit process
  { process with errno := savedErrno }

structure Outcome where
  child : Option Child
  status : Int
  process : Process

def systemCommand (world : World) (command : Str) (process : Process) : Option Outcome := do
  let blockMask := sigaddset sigemptyset SIGCHLD
  let (origMask, process) := sigprocmask noise .SIG_BLOCK blockMask process
  let saIgnore : Action := ⟨.SIG_IGN, 0, effective sigemptyset⟩
  let (saOrigInt, process) := sigaction noise SIGINT saIgnore process
  let (saOrigQuit, process) := sigaction noise SIGQUIT saIgnore process
  let (child, status, process) ← match world.fork with
    | .error errno => some (none, -1, { process with errno := errno })
    | .ok _ => do
        let child := inChild noise world command saOrigInt saOrigQuit origMask process
        let (status, process) ← waitLoop world.waitpid process
        some (some child, status, process)
  some ⟨child, status, restored noise saOrigInt saOrigQuit origMask process⟩

/-- Without a command it tells whether there is a shell. -/
def system (world : World) (command : Option Str) (process : Process) : Option Outcome :=
  match command with
  | some command => systemCommand noise world command process
  | none => (systemCommand noise world (literal ":") process).map fun outcome =>
      { outcome with status := if outcome.status = 0 then 1 else 0 }

end System

/-! What the caller may rely on. -/

/-- The child's status, if there is a child and it can be waited for. -/
def World.status (world : World) : Int :=
  match world.fork, world.last with
  | .ok _, .ok status => status
  | _, _ => -1

/-- The errno of the last call that fails. -/
def World.failure (world : World) : Option Int :=
  match world.fork, world.last with
  | .error errno, _ => some errno
  | .ok _, .error errno => some errno
  | .ok _, .ok _ => if world.interruptions = 0 then none else some EINTR

/-- The child that runs the command as if the caller itself had executed the shell. -/
def World.child (world : World) (command : Str) (process : Process) : Option Child :=
  match world.fork with
  | .error _ => none
  | .ok _ => some (if world.execl then .runs (execve sh (shell command) process) else .exits 127)

structure Transparent (world : World) (command : Str) (before : Process)
    (outcome : Outcome) : Prop where
  mask : outcome.process.mask = before.mask
  actions : outcome.process.actions = before.actions
  errno : ∀ errno, world.failure = some errno → outcome.process.errno = errno
  status : outcome.status = world.status
  child : outcome.child = world.child command before

theorem effective_mask (mask : Mask) : effective mask.1 = mask := by
  obtain ⟨set, kill, stop⟩ := mask
  apply Subtype.ext
  funext signal
  by_cases first : signal = SIGKILL
  · simp [effective, first, kill]
  · by_cases second : signal = SIGSTOP
    · simp [effective, second, stop]
    · simp [effective, bne_iff_ne.mpr first, bne_iff_ne.mpr second]

/-- The loop changes errno only. -/
theorem wait_loop (world : World) (process : Process) :
    ∃ status errno, waitLoop world.waitpid process =
      some (status, { process with errno := errno }) ∧
      ((world.last = .ok status ∧
        errno = if world.interruptions = 0 then process.errno else EINTR) ∨
        (world.last = .error errno ∧ status = -1)) := by
  obtain ⟨fork, execl, interruptions, last, other⟩ := world
  unfold World.waitpid
  induction interruptions generalizing process with
  | zero =>
      cases last with
      | ok status => exact ⟨status, process.errno, rfl, .inl ⟨rfl, rfl⟩⟩
      | error errno =>
          refine ⟨-1, errno, ?_, .inr ⟨rfl, rfl⟩⟩
          have apart : errno ≠ EINTR := fun same => other (congrArg Except.error same)
          exact if_pos apart
  | succ count ih =>
      have onward : waitLoop (List.replicate (count + 1) (.error EINTR) ++ [last]) process =
          waitLoop (List.replicate count (.error EINTR) ++ [last]) { process with
            errno := EINTR } := by
        rw [List.replicate_succ, List.cons_append, waitLoop, if_neg (by simp)]
      obtain ⟨status, errno, same, ending⟩ := ih { process with errno := EINTR }
      refine ⟨status, errno, onward.trans same, ending.imp_left ?_⟩
      rintro ⟨success, kept⟩
      exact ⟨success, kept.trans (ite_self EINTR)⟩

section Restored

variable (noise : Int → Int)

/-- While SIGINT and SIGQUIT are ignored. -/
def ignoring (process : Process) : Process :=
  let (_, process) := sigprocmask noise .SIG_BLOCK (sigaddset sigemptyset SIGCHLD) process
  let (_, process) := sigaction noise SIGINT ⟨.SIG_IGN, 0, effective sigemptyset⟩ process
  (sigaction noise SIGQUIT ⟨.SIG_IGN, 0, effective sigemptyset⟩ process).2

theorem ignoring_actions (process : Process) (signum : Nat) :
    (ignoring noise process).actions signum =
      if signum = SIGINT ∨ signum = SIGQUIT then ⟨.SIG_IGN, 0, effective sigemptyset⟩
      else process.actions signum := by
  simp only [ignoring, sigprocmask, sigaction, Function.update_apply]
  by_cases first : signum = SIGINT <;> by_cases second : signum = SIGQUIT <;> simp [first, second]

theorem defaulted_actions (orig : Action) (signum : Nat) (process : Process) (asked : Nat) :
    (defaulted noise orig signum process).actions asked =
      if orig.sa_handler ≠ .SIG_IGN ∧ asked = signum then
        ⟨.SIG_DFL, 0, effective sigemptyset⟩
      else process.actions asked := by
  unfold defaulted
  split
  · next handled => simp [sigaction, Function.update_apply, handled]
  · next ignored => rw [if_neg fun both => ignored both.1]

theorem in_child (world : World) (command : Str) (process : Process) :
    inChild noise world command (process.actions SIGINT) (process.actions SIGQUIT) process.mask.1
        (ignoring noise process) =
      if world.execl then .runs (execve sh (shell command) process) else .exits 127 := by
  have same : execve sh (shell command) (sigprocmask noise .SIG_SETMASK process.mask.1
      (defaulted noise (process.actions SIGQUIT) SIGQUIT
        (defaulted noise (process.actions SIGINT) SIGINT (ignoring noise process)))).2 =
      execve sh (shell command) process := by
    simp only [execve, sigprocmask, effective_mask]
    congr 1
    funext signum
    simp only [defaulted_actions, ignoring_actions]
    have apart : SIGINT ≠ SIGQUIT := by decide
    by_cases first : signum = SIGINT
    · subst first
      by_cases ignored : (process.actions SIGINT).sa_handler = .SIG_IGN <;> simp [ignored, apart]
    · by_cases second : signum = SIGQUIT
      · subst second
        by_cases ignored : (process.actions SIGQUIT).sa_handler = .SIG_IGN <;>
          simp [ignored, apart.symm]
      · simp [first, second]
  exact congrArg (fun program => if world.execl then Child.runs program else .exits 127) same

theorem restored_ignoring (process : Process) (errno : Int) :
    restored noise (process.actions SIGINT) (process.actions SIGQUIT) process.mask.1
        { ignoring noise process with errno := errno } = { process with errno := errno } := by
  have actions : Function.update (Function.update (ignoring noise process).actions SIGINT
    (process.actions SIGINT))
      SIGQUIT (process.actions SIGQUIT) = process.actions := by
    funext signum
    rw [Function.update_apply, Function.update_apply, ignoring_actions]
    by_cases second : signum = SIGQUIT
    · rw [if_pos second, second]
    · by_cases first : signum = SIGINT
      · rw [if_neg second, if_pos first, first]
      · rw [if_neg second, if_neg first, if_neg (not_or.mpr ⟨first, second⟩)]
  simp only [restored, sigprocmask, sigaction, effective_mask, actions]

theorem fork_fails (world : World) (command : Str) (process : Process) (errno : Int)
    (failed : world.fork = .error errno) :
    systemCommand noise world command process = some ⟨none, -1,
      { process with errno := errno }⟩ := by
  rw [systemCommand, failed, ← restored_ignoring noise process errno]
  rfl

theorem child_waited (world : World) (command : Str) (process : Process) (pid : Nat)
    (status errno : Int) (forked : world.fork = .ok pid)
    (waited : waitLoop world.waitpid (ignoring noise process) =
      some (status, { ignoring noise process with errno := errno })) :
    systemCommand noise world command process =
      some ⟨world.child command process, status, { process with errno := errno }⟩ := by
  have child : world.child command process =
    some (inChild noise world command (process.actions SIGINT)
      (process.actions SIGQUIT) process.mask.1 (ignoring noise process)) := by
    rw [in_child, World.child, forked]
  rw [systemCommand, forked, child, ← restored_ignoring noise process errno]
  change waitLoop world.waitpid (ignoring noise process) >>= _ = _
  rw [waited]
  rfl

end Restored

theorem system_transparent (noise : Int → Int) (world : World) (command : Str)
    (process : Process) :
    ∃ outcome, system noise world (some command) process = some outcome ∧
      Transparent world command process outcome := by
  cases forked : world.fork with
  | error bad =>
      refine ⟨_, fork_fails noise world command process bad forked, rfl, rfl, ?_, ?_, ?_⟩
      · intro errno failure
        simpa [World.failure, forked] using failure
      · simp [World.status, forked]
      · simp [World.child, forked]
  | ok pid =>
      obtain ⟨status, errno, waited, ending⟩ := wait_loop world (ignoring noise process)
      refine ⟨_, child_waited noise world command process pid status errno forked waited,
        rfl, rfl, ?_, ?_, rfl⟩
      · intro found failure
        rcases ending with ⟨success, kept⟩ | ⟨failed, _⟩
        · have retried : ¬ world.interruptions = 0 ∧ EINTR = found := by
            simpa [World.failure, forked, success] using failure
          exact (kept.trans (if_neg retried.1)).trans retried.2
        · simpa [World.failure, forked, failed] using failure
      · rcases ending with ⟨success, _⟩ | ⟨failed, given⟩
        · simp [World.status, forked, success]
        · simp [World.status, forked, failed, given]

end Tlpi.SystemCommand
