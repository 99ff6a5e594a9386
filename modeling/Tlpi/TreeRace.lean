import Mathlib.Data.List.TakeWhile
import Tlpi.Transition
import Tlpi.FileTree

/-!
inotify/inotify_dtree.c running next to other processes that change the trees.
What `processNextInotifyEvent` or `executeCommand` leaves to do is a list of
tasks, each of them one system call: `nftw` calls `traverseTree` on a directory
and lists the directory afterwards, `zapSubtree` goes through the slots. Between
any two tasks the other processes may do anything. At a directory that is gone
when its turn comes, `nftw` either reports it to `traverseTree`, which skips it,
or returns -1, which `watchDir` only logs. Commands that only print or set
options are left out.
-/

namespace Tlpi.TreeRace

open PathName WatchCache TreeMonitor FileTree

/-- Between the walks of two roots stands `next`. -/
inductive Task where
  | visit (path : Path)
  | list (path : Path)
  | zap (path : Path) (index : Nat) (strict : Bool)
  | reinit (counted : Bool)
  | next
  deriving DecidableEq

/-- `buffer` holds the events that were read and not yet handled; `hanging` asks
for the read under the alarm. -/
structure State where
  world : World System
  tasks : List Task
  buffer : List Event
  firstTry : Bool
  hanging : Bool
  reinitCnt : Nat
  exited : Bool

inductive Command where
  | add (arg : Path)
  | zap (arg : Path)
  | rebuild
  deriving DecidableEq

inductive Choice where
  | happen (op : Op)
  | begin (op : Op)
  | notify (index : Nat)
  | read (amount : Nat)
  | reread (amount : Nat)
  | process
  | work (refuse : Bool)
  | giveUp
  | command (command : Command)
  deriving DecidableEq

/-- With `refuse`, the next `inotify_rm_watch` fails. The walk is made of tasks. -/
def kernel (refuse : Bool) : Kernel System :=
  ⟨addWatch, fun sys wd => if refuse then (false, sys) else rmWatch sys wd, fun _ _ => [], init⟩

/-- `nftw` strips the slashes at the end of its argument. -/
def stripSlashes (path : Path) : Path :=
  match (path.reverse.dropWhile (· = slash)).reverse with
  | [] => path.take 1
  | stripped => stripped

/-- The calls of `watchSubtree` for one root after the other. -/
def walks : List Path → List Task
  | [] => []
  | [root] => [.visit (stripSlashes root)]
  | root :: others => .visit (stripSlashes root) :: .next :: walks others

def subdirectories (files : List File) (path : Path) : List Path :=
  (files.filter fun file => file.isDir && (split slash file.path).map Prod.fst == some path).map
    File.path

def idle (state : State) : Bool :=
  state.tasks.isEmpty && state.buffer.isEmpty && !state.hanging && !state.exited

abbrev State.sys (state : State) : System := state.world.state

def State.withSys (state : State) (sys : System) : State :=
  { state with world := { state.world with state := sys } }

/-- The first `read` of `processInotifyEvents`. -/
def read (state : State) (amount : Nat) : Option State :=
  if idle state ∧ state.sys.queue ≠ [] then
    some { state.withSys { state.sys with queue := state.sys.queue.drop (amount + 1) } with
      buffer := state.sys.queue.take (amount + 1)
      firstTry := true }
  else none

/-- The `read` under the alarm, which is interrupted if nothing is queued. -/
def reread (state : State) (amount : Nat) : Option State :=
  if state.hanging ∧ state.exited = false then
    some { state.withSys { state.sys with queue := state.sys.queue.drop (amount + 1) } with
      buffer := state.buffer ++ state.sys.queue.take (amount + 1)
      firstTry := false
      hanging := false }
  else none

def tasksOf : Job → List Task
  | .nothing => []
  | .watchSubtree path => [.visit (stripSlashes path)]
  | .zapSubtree path => [.zap path 0 true]
  | Job.reinitialize => [.reinit true]

def bufferAfter (ev : Event) (rest : List Event) : Consumed → List Event
  | .one => rest
  | .pair => rest.tail
  | .again => ev :: rest
  | .discard => []

/-- The part of `processNextInotifyEvent` before its system calls. -/
def follow (state : State) (ev : Event) (rest : List Event) (plan : Plan) : State :=
  { state with
    world := { state.world with cache := plan.cache, roots := plan.roots }
    tasks := tasksOf plan.job
    buffer := bufferAfter ev rest plan.consumed
    firstTry := true
    hanging := decide (plan.consumed = .again) }

def process (state : State) : Option State :=
  match state.tasks, state.buffer with
  | [], ev :: rest =>
      if state.hanging ∨ state.exited then none
      else
        match processNextInotifyEvent state.world.cache state.world.roots ev rest.head?
          state.firstTry with
        | none => some { state with exited := true }
        | some plan => some (follow state ev rest plan)
  | _, _ => none

def visit (refuse : Bool) (state : State) (path : Path) (rest : List Task) : State :=
  if isDirectory state.sys.files path then
    match traverseTree (kernel refuse) state.world path with
    | none => { state with exited := true }
    | some world => { state with world := world, tasks := .list path :: rest }
  else { state with tasks := rest }

def zap (refuse : Bool) (state : State) (path : Path) (index : Nat) (strict : Bool)
    (rest : List Task) : State :=
  if index < state.world.cache.length then
    match zapSlot (kernel refuse) path state.world index with
    | (true, world) => { state with world := world, tasks := .zap path (index + 1) strict :: rest }
    | (false, world) =>
        { state with world := world, tasks := if strict then [.reinit true] else rest }
  else { state with tasks := rest }

def reinit (state : State) (counted : Bool) : State :=
  { state with
    world := { state.world with cache := [], state := init state.sys }
    tasks := walks state.world.roots.reduceOption
    buffer := []
    reinitCnt := if counted then state.reinitCnt + 1 else 0 }

def work (refuse : Bool) (state : State) : Option State :=
  if state.exited then none
  else
    match state.tasks with
    | [] => none
    | .visit path :: rest => some (visit refuse state path rest)
    | .list path :: rest =>
        some { state with tasks := (subdirectories state.sys.files path).map .visit ++ rest }
    | .zap path index strict :: rest => some (zap refuse state path index strict rest)
    | .reinit counted :: _ => some (reinit state counted)
    | .next :: rest => some { state with tasks := rest }

def ofWalk : Task → Bool
  | .visit _ | .list _ => true
  | _ => false

/-- What `nftw` has still to do when it looks at a directory that is gone. -/
def abandoned (state : State) : List Task :=
  match state.tasks with
  | .visit path :: _ | .list path :: _ =>
      if isDirectory state.sys.files path then [] else state.tasks.takeWhile ofWalk
  | _ => []

/-- `nftw` returns -1, and `watchDir` goes on as after a complete walk. -/
def giveUp (state : State) : Option State :=
  if state.exited ∨ abandoned state = [] then none
  else some { state with tasks := state.tasks.dropWhile ofWalk }

/-- Commands are read between two calls of `processInotifyEvents`. -/
def execute (state : State) (command : Command) : Option State :=
  if idle state then
    match command with
    | .add arg => some { state with tasks := [.zap arg 0 false, .visit (stripSlashes arg)] }
    | .zap arg => some { state with tasks := [.zap arg 0 false] }
    | .rebuild => some { state with tasks := [.reinit false] }
  else none

def step : Choice → State → Option State
  | .happen op, state => (effect state.sys op).map fun effect => state.withSys (happen effect)
  | .begin op, state => (effect state.sys op).map fun effect => state.withSys (begin effect)
  | .notify index, state => some (state.withSys (deliverLate state.sys index))
  | .read amount, state => read state amount
  | .reread amount, state => reread state amount
  | .process, state => process state
  | .work refuse, state => work refuse state
  | .giveUp, state => giveUp state
  | .command command, state => execute state command

/-- `main` before its loop, right after the first `inotify_init`. -/
def start (roots : List Path) (sys : System) : State :=
  { world := ⟨[], roots.map some, init sys, []⟩
    tasks := walks roots
    buffer := []
    firstTry := true
    hanging := false
    reinitCnt := 0
    exited := false }

def pending (state : State) : List Event := state.buffer ++ state.sys.queue

theorem mem_walks (roots : List Path) (task : Task) (member : task ∈ walks roots) :
    task = .next ∨ ∃ root ∈ roots, task = .visit (stripSlashes root) := by
  fun_induction walks roots with
  | case1 => cases member
  | case2 root => exact Or.inr ⟨root, List.mem_cons_self, List.mem_singleton.mp member⟩
  | case3 root others _ ih =>
      rcases List.mem_cons.mp member with first | later
      · exact Or.inr ⟨root, List.mem_cons_self, first⟩
      rcases List.mem_cons.mp later with between | later
      · exact Or.inl between
      · refine (ih later).imp_right ?_
        rintro ⟨other, listed, same⟩
        exact ⟨other, List.mem_cons_of_mem _ listed, same⟩

theorem visit_mem_walks (roots : List Path) (root : Path) (listed : root ∈ roots) :
    Task.visit (stripSlashes root) ∈ walks roots := by
  fun_induction walks roots with
  | case1 => cases listed
  | case2 only => rw [List.mem_singleton.mp listed, List.mem_singleton]
  | case3 first others _ ih =>
      rcases List.mem_cons.mp listed with rfl | later
      · exact List.mem_cons_self
      · exact List.mem_cons_of_mem _ (List.mem_cons_of_mem _ (ih later))

theorem abandoned_walk (state : State) (some : abandoned state ≠ []) :
    abandoned state = state.tasks.takeWhile ofWalk := by
  unfold abandoned at some ⊢
  generalize state.tasks = tasks at some ⊢
  cases tasks with
  | nil => exact absurd rfl some
  | cons task rest =>
      cases task with
      | visit path => exact if_neg fun present => some (if_pos present)
      | list path => exact if_neg fun present => some (if_pos present)
      | zap path index strict => exact absurd rfl some
      | reinit counted => exact absurd rfl some
      | next => exact absurd rfl some

/-- Only the walk under way is given up. -/
theorem give_up_cases (state after : State) (taken : giveUp state = some after) :
    state.exited = false ∧ after = { state with tasks := state.tasks.dropWhile ofWalk } ∧
      state.tasks = abandoned state ++ state.tasks.dropWhile ofWalk ∧
      (∀ task ∈ abandoned state, ofWalk task = true) ∧ abandoned state ≠ [] := by
  unfold giveUp at taken
  split at taken
  · cases taken
  next going =>
  obtain ⟨running, some⟩ := not_or.mp going
  have dropped := abandoned_walk state some
  cases taken
  refine ⟨Bool.eq_false_iff.mpr running, rfl, ?_, ?_, some⟩
  · rw [dropped, List.takeWhile_append_dropWhile]
  · rw [dropped]
    exact fun task member => List.mem_takeWhile_imp member

/-- The monitor handles an event only between two walks; it exits where
`processNextInotifyEvent` does. -/
theorem process_cases (state after : State) (taken : process state = some after) :
    ∃ ev rest, state.tasks = [] ∧ state.buffer = ev :: rest ∧ state.hanging = false ∧
      ∃ plan, processNextInotifyEvent state.world.cache state.world.roots ev rest.head?
        state.firstTry = plan ∧
        after = plan.elim { state with exited := true } (follow state ev rest) := by
  unfold process at taken
  split at taken
  · next ev rest still buffer =>
      split at taken
      · cases taken
      next quiet =>
      have reading : state.hanging = false :=
        Bool.eq_false_iff.mpr fun hanging => quiet (Or.inl hanging)
      refine ⟨ev, rest, still, buffer, reading, _, rfl, ?_⟩
      split at taken
      · next none => rw [none, Option.elim_none, Option.some.inj taken]
      · next plan planned => rw [planned, Option.elim_some, Option.some.inj taken]
  · cases taken

end Tlpi.TreeRace
