import Mathlib.Data.List.Basic
import Mathlib.Tactic.Ring
import Tlpi.Indexed
import Tlpi.Transition

/-!
threads/thread_incr.c with its versions thread_incr_mutex.c, thread_incr_spinlock.c,
thread_incr_rwlock.c and psem/thread_incr_psem.c, and threads/thread_lock_speed.c: threads that
increase `glob` in a loop, with a load and a store for each increment. The programs differ in
what guards the increments; in all but the last the threads take it once for each of them.
-/

namespace Tlpi.CounterRaces

/-- No lock, one that knows its holder (a mutex, a spin lock or a lock for writing), or a
semaphore. -/
inductive Lock where
  | unguarded
  | owned (owner : Option Nat)
  | semaphore (value : Nat)
  deriving DecidableEq

def Lock.acquire : Lock → Nat → Option Lock
  | .unguarded, _ => some .unguarded
  | .owned none, who => some (.owned (some who))
  | .owned (some _), _ => none
  | .semaphore 0, _ => none
  | .semaphore (value + 1), _ => some (.semaphore value)

def Lock.release : Lock → Lock
  | .unguarded => .unguarded
  | .owned _ => .owned none
  | .semaphore value => .semaphore (value + 1)

/-- At `acquire` a thread also tests `j`, and at `inner` it tests `k`. -/
inductive Place where
  | acquire
  | inner
  | store
  | done
  deriving DecidableEq

structure Thread where
  j : Nat
  k : Nat
  loc : Int
  place : Place
  deriving DecidableEq

inductive MainPlace where
  | create
  | join (index : Nat)
  | printed (glob : Int)
  deriving DecidableEq

structure Program where
  numThreads : Nat
  numInnerLoops : Int
  numOuterLoops : Int
  lock : Lock
  deriving DecidableEq

/-- thread_incr.c and the versions of it, by their lock. -/
def twoThreads (lock : Lock) (loops : Int) : Program := ⟨2, 1, loops, lock⟩

def threadIncr : Int → Program := twoThreads .unguarded
def threadIncrMutex : Int → Program := twoThreads (.owned none)
def threadIncrSpinlock : Int → Program := twoThreads (.owned none)
def threadIncrRwlock : Int → Program := twoThreads (.owned none)
def threadIncrPsem : Int → Program := twoThreads (.semaphore 1)

def threadLockSpeed (numThreads : Nat) (numInnerLoops numOuterLoops : Int) : Program :=
  ⟨numThreads, numInnerLoops, numOuterLoops, .owned none⟩

structure State where
  glob : Int
  lock : Lock
  threads : List Thread
  main : MainPlace
  deriving DecidableEq

inductive Choice where
  | main
  | thread (index : Nat)
  deriving DecidableEq

/-- An `int` of 32 bits. -/
def wrapped (number : Int) : Int := number.bmod (2 ^ 32)

def stepThread (program : Program) (index : Nat) (thread : Thread) (state : State) : Option State :=
  let put (lock : Lock) (glob : Int) (thread : Thread) : State :=
    { state with lock := lock, glob := glob, threads := state.threads.set index thread }
  match thread.place with
  | .acquire =>
      if thread.j < program.numOuterLoops then
        (state.lock.acquire index).map fun lock =>
          put lock state.glob { thread with k := 0, place := .inner }
      else some (put state.lock state.glob { thread with place := .done })
  | .inner =>
      if thread.k < program.numInnerLoops then
        some (put state.lock state.glob { thread with loc := state.glob, place := .store })
      else some (put state.lock.release state.glob
        { thread with j := thread.j + 1, k := 0, place := .acquire })
  | .store => some (put state.lock (wrapped (thread.loc + 1))
      { thread with k := thread.k + 1, place := .inner })
  | .done => none

/-- `pthread_join` waits until the thread has ended. -/
def stepMain (program : Program) (state : State) : Option State :=
  match state.main with
  | .create =>
      if state.threads.length < program.numThreads then
        some { state with threads := state.threads ++ [⟨0, 0, 0, .acquire⟩] }
      else some { state with main := .join 0 }
  | .join index =>
      if index < program.numThreads then
        match state.threads[index]? with
        | some thread =>
            if thread.place = .done then some { state with main := .join (index + 1) } else none
        | none => none
      else some { state with main := .printed state.glob }
  | .printed _ => none

def step (program : Program) : Choice → State → Option State
  | .main, state => stepMain program state
  | .thread index, state =>
      match state.threads[index]? with
      | none => none
      | some thread => stepThread program index thread state

def start (program : Program) : State := ⟨0, program.lock, [], .create⟩

/-- What a step of a thread makes of it, of the lock and of `glob`. -/
inductive Moved (program : Program) (index : Nat) (thread : Thread) (before after : State) :
    Thread → Prop where
  | acquires (place : thread.place = .acquire) (less : thread.j < program.numOuterLoops)
      (lock : before.lock.acquire index = some after.lock) (glob : after.glob = before.glob) :
      Moved program index thread before after { thread with k := 0, place := .inner }
  | ends (place : thread.place = .acquire) (more : program.numOuterLoops ≤ thread.j)
      (lock : after.lock = before.lock)
      (glob : after.glob = before.glob) :
      Moved program index thread before after { thread with place := .done }
  | loads (place : thread.place = .inner) (less : thread.k < program.numInnerLoops)
      (lock : after.lock = before.lock)
      (glob : after.glob = before.glob) :
      Moved program index thread before after { thread with loc := before.glob, place := .store }
  | releases (place : thread.place = .inner) (more : program.numInnerLoops ≤ thread.k)
      (lock : after.lock = before.lock.release) (glob : after.glob = before.glob) :
      Moved program index thread before after
        { thread with j := thread.j + 1, k := 0, place := .acquire }
  | stores (place : thread.place = .store) (lock : after.lock = before.lock)
      (glob : after.glob = wrapped (thread.loc + 1)) :
      Moved program index thread before after { thread with k := thread.k + 1, place := .inner }

theorem thread_moved (program : Program) (index : Nat) (thread : Thread) (before after : State)
    (taken : stepThread program index thread before = some after) :
    after.main = before.main ∧
      ∃ new, after.threads = before.threads.set index new ∧
        Moved program index thread before after new := by
  unfold stepThread at taken
  dsimp only at taken
  split at taken
  · next place =>
      split at taken
      · next less =>
          obtain ⟨lock, got, rfl⟩ := Option.map_eq_some_iff.mp taken
          exact ⟨rfl, _, rfl, .acquires place less got rfl⟩
      · next more =>
          cases taken
          exact ⟨rfl, _, rfl, .ends place (Int.not_lt.mp more) rfl rfl⟩
  · next place =>
      split at taken
      · next less =>
          cases taken
          exact ⟨rfl, _, rfl, .loads place less rfl rfl⟩
      · next more =>
          cases taken
          exact ⟨rfl, _, rfl, .releases place (Int.not_lt.mp more) rfl rfl⟩
  · next place =>
      cases taken
      exact ⟨rfl, _, rfl, .stores place rfl rfl⟩
  · cases taken

theorem moved_going (program : Program) (index : Nat) (thread new : Thread) (before after : State)
    (moved : Moved program index thread before after new) : thread.place ≠ .done := by
  cases moved with
  | acquires place | ends place | loads place | releases place | stores place =>
      rw [place]
      decide

theorem main_cases (program : Program) (before after : State)
    (taken : stepMain program before = some after) :
    after.glob = before.glob ∧ after.lock = before.lock ∧
      (before.main = .create ∧ before.threads.length < program.numThreads ∧
          after.threads = before.threads ++ [⟨0, 0, 0, .acquire⟩] ∧ after.main = .create ∨
        before.main = .create ∧ program.numThreads ≤ before.threads.length ∧
        after.threads = before.threads ∧
          after.main = .join 0 ∨
        (∃ index thread, before.main = .join index ∧ index < program.numThreads ∧
          before.threads[index]? = some thread ∧ thread.place = .done ∧
          after.threads = before.threads ∧
          after.main = .join (index + 1)) ∨
        ∃ index, before.main = .join index ∧ program.numThreads ≤ index ∧
        after.threads = before.threads ∧
          after.main = .printed before.glob) := by
  unfold stepMain at taken
  split at taken
  · next place =>
      split at taken
      · next less =>
          cases taken
          exact ⟨rfl, rfl, Or.inl ⟨place, less, rfl, place⟩⟩
      · next more =>
          cases taken
          exact ⟨rfl, rfl, Or.inr (Or.inl ⟨place, Nat.not_lt.mp more, rfl, rfl⟩)⟩
  · next index place =>
      split at taken
      · next less =>
          split at taken
          · next thread there =>
              rw [Option.ite_none_right_eq_some, Option.some.injEq] at taken
              obtain ⟨ended, rfl⟩ := taken
              exact ⟨rfl, rfl,
                Or.inr (Or.inr (Or.inl ⟨index, thread, place, less, there, ended, rfl, rfl⟩))⟩
          · cases taken
      · next more =>
          cases taken
          exact ⟨rfl, rfl,
            Or.inr (Or.inr (Or.inr ⟨index, place, Nat.not_lt.mp more, rfl, rfl⟩))⟩
  · cases taken

/-! Loops and joins, whatever the lock. -/

def Program.outer (program : Program) : Nat := program.numOuterLoops.toNat
def Program.inner (program : Program) : Nat := program.numInnerLoops.toNat

def Thread.inside (thread : Thread) : Prop := thread.place = .inner ∨ thread.place = .store

structure Fits (program : Program) (thread : Thread) : Prop where
  outer : thread.j ≤ program.outer
  inner : thread.k ≤ program.inner
  idle : ¬ thread.inside → thread.k = 0
  busy : thread.inside → thread.j < program.outer
  storing : thread.place = .store → thread.k < program.inner
  ended : thread.place = .done → thread.j = program.outer

structure Shape (program : Program) (state : State) : Prop where
  few : state.threads.length ≤ program.numThreads
  fits : ∀ thread ∈ state.threads, Fits program thread
  joined : ∀ index, state.main = .join index → state.threads.length = program.numThreads ∧
    ∀ earlier thread, earlier < index → state.threads[earlier]? = some thread →
      thread.place = .done
  printed : ∀ glob, state.main = .printed glob → state.threads.length = program.numThreads ∧
    (∀ thread ∈ state.threads, thread.place = .done) ∧ state.glob = glob

theorem start_shape (program : Program) : Shape program (start program) :=
  ⟨Nat.zero_le _, fun _ bad => absurd bad List.not_mem_nil, fun _ bad => (by cases bad),
    fun _ bad => by cases bad⟩

theorem moved_fits (program : Program) (index : Nat) (thread new : Thread) (before after : State)
    (fits : Fits program thread) (moved : Moved program index thread before after new) :
    Fits program new := by
  obtain ⟨outer, inner, idle, busy, storing, ended⟩ := fits
  cases moved with
  | acquires place less =>
      refine ⟨outer, Nat.zero_le _, fun _ => rfl, fun _ => ?_, fun bad => (by cases bad),
        fun bad => by cases bad⟩
      simp only [Program.outer]
      omega
  | ends place more =>
      refine ⟨outer, inner, fun _ => idle (by simp [Thread.inside, place]),
        fun bad => (by simp [Thread.inside] at bad), fun bad => (by cases bad), fun _ => ?_⟩
      simp only [Program.outer] at outer ⊢
      omega
  | loads place less =>
      refine ⟨outer, inner, fun bad => absurd (Or.inr rfl) bad, fun _ => busy (Or.inl place),
        fun _ => ?_, fun bad => by cases bad⟩
      simp only [Program.inner]
      omega
  | releases place =>
      exact ⟨busy (Or.inl place), Nat.zero_le _, fun _ => rfl,
        fun bad => (by simp [Thread.inside] at bad), fun bad => (by cases bad),
        fun bad => by cases bad⟩
  | stores place =>
      exact ⟨outer, storing place, fun bad => absurd (Or.inl rfl) bad,
        fun _ => busy (Or.inr place), fun bad => (by cases bad), fun bad => by cases bad⟩

theorem thread_shape (program : Program) (index : Nat) (thread : Thread) (before after : State)
    (shape : Shape program before) (there : before.threads[index]? = some thread)
    (taken : stepThread program index thread before = some after) : Shape program after := by
  obtain ⟨main, new, threads, moved⟩ := thread_moved program index thread before after taken
  have fits := moved_fits program index thread new before after
    (shape.fits thread (List.mem_of_getElem? there)) moved
  have moving := moved_going program index thread new before after moved
  refine ⟨by rw [threads, List.length_set]; exact shape.few, fun other member => ?_,
    fun place joining => ?_, fun glob ended => ?_⟩
  · rw [threads] at member
    rcases List.mem_or_eq_of_mem_set member with earlier | rfl
    · exact shape.fits other earlier
    · exact fits
  · rw [main] at joining
    obtain ⟨all, done⟩ := shape.joined place joining
    refine ⟨by rw [threads, List.length_set]; exact all, fun earlier other less found => ?_⟩
    rw [threads] at found
    rcases Indexed.set_cases _ _ _ _ _ found with ⟨rfl, _⟩ | ⟨_, old⟩
    · exact absurd (done earlier thread less there) moving
    · exact done earlier other less old
  · rw [main] at ended
    exact absurd ((shape.printed glob ended).2.1 thread (List.mem_of_getElem? there)) moving

theorem main_shape (program : Program) (before after : State) (shape : Shape program before)
    (taken : stepMain program before = some after) : Shape program after := by
  obtain ⟨glob, _, moved⟩ := main_cases program before after taken
  rcases moved with ⟨_, less, threads, main⟩ | ⟨_, more, threads, main⟩ |
    ⟨index, thread, place, less, there, ended, threads, main⟩ |
      ⟨index, place, more, threads, main⟩
  · refine ⟨by rw [threads, List.length_append]; exact less, fun other member => ?_,
      fun _ bad => ?_, fun _ bad => ?_⟩
    · rw [threads] at member
      rcases List.mem_append.mp member with earlier | own
      · exact shape.fits other earlier
      · obtain rfl := List.mem_singleton.mp own
        refine ⟨Nat.zero_le _, Nat.zero_le _, fun _ => rfl, fun bad => ?_,
          fun bad => (by cases bad), fun bad => by cases bad⟩
        simp [Thread.inside] at bad
    · rw [main] at bad
      cases bad
    · rw [main] at bad
      cases bad
  · refine ⟨threads ▸ shape.few, threads ▸ shape.fits, fun index joining => ?_,
      fun _ bad => ?_⟩
    · rw [main] at joining
      cases joining
      exact ⟨threads ▸ Nat.le_antisymm shape.few more,
        fun _ _ bad => absurd bad (Nat.not_lt_zero _)⟩
    · rw [main] at bad
      cases bad
  · obtain ⟨all, done⟩ := shape.joined index place
    refine ⟨threads ▸ shape.few, threads ▸ shape.fits, fun later joining => ?_,
      fun _ bad => ?_⟩
    · rw [main] at joining
      cases joining
      rw [threads]
      refine ⟨all, fun earlier other less found => ?_⟩
      rcases Nat.lt_succ_iff_lt_or_eq.mp less with old | rfl
      · exact done earlier other old found
      · obtain rfl := Option.some.inj (there.symm.trans found)
        exact ended
    · rw [main] at bad
      cases bad
  · obtain ⟨all, done⟩ := shape.joined index place
    refine ⟨threads ▸ shape.few, threads ▸ shape.fits, fun _ bad => ?_, fun _ told => ?_⟩
    · rw [main] at bad
      cases bad
    · rw [main] at told
      cases told
      rw [threads]
      refine ⟨all, fun other member => ?_, glob⟩
      obtain ⟨place, found⟩ := List.getElem?_of_mem member
      have inside := (List.getElem?_eq_some_iff.mp found).1
      exact done place other (by omega) found

theorem step_shape (program : Program) (choice : Choice) (before after : State)
    (shape : Shape program before) (taken : step program choice before = some after) :
    Shape program after := by
  cases choice with
  | main => exact main_shape program before after shape taken
  | thread index =>
      simp only [step] at taken
      split at taken
      · cases taken
      · next thread there => exact thread_shape program index thread before after shape there taken

/-! With a lock. -/

/-- A lock that at most one thread holds. -/
def Lock.binary : Lock → Bool
  | .unguarded => false
  | .owned _ => true
  | .semaphore value => value ≤ 1

def Lock.free : Lock → Bool
  | .unguarded => false
  | .owned owner => owner.isNone
  | .semaphore value => 0 < value

theorem acquire_binary (lock after : Lock) (who : Nat) (binary : lock.binary = true)
    (got : lock.acquire who = some after) :
    lock.free = true ∧ after.free = false ∧ after.binary = true := by
  cases lock with
  | unguarded => cases binary
  | owned owner =>
      cases owner with
      | none =>
          cases got
          exact ⟨rfl, rfl, rfl⟩
      | some other => cases got
  | semaphore value =>
      cases value with
      | zero => cases got
      | succ less =>
          cases got
          have none : less = 0 := by simpa [Lock.binary] using binary
          subst none
          exact ⟨rfl, rfl, rfl⟩

theorem release_binary (lock : Lock) (binary : lock.binary = true) (held : lock.free = false) :
    lock.release.free = true ∧ lock.release.binary = true := by
  cases lock with
  | unguarded => cases binary
  | owned owner => exact ⟨rfl, rfl⟩
  | semaphore value =>
      have none : value = 0 := by simpa [Lock.free] using held
      subst none
      exact ⟨rfl, rfl⟩

theorem acquire_free (lock : Lock) (who : Nat) (open_ : lock.free = true) :
    ∃ after, lock.acquire who = some after := by
  cases lock with
  | unguarded => cases open_
  | owned owner =>
      cases owner with
      | none => exact ⟨_, rfl⟩
      | some other => cases open_
  | semaphore value =>
      cases value with
      | zero => cases open_
      | succ less => exact ⟨_, rfl⟩

/-- The increments that a thread has made. -/
def Thread.count (program : Program) (thread : Thread) : Nat := thread.j * program.inner + thread.k

structure Guarded (program : Program) (state : State) : Prop where
  binary : state.lock.binary = true
  free : state.lock.free = true → ∀ thread ∈ state.threads, ¬ thread.inside
  held : state.lock.free = false → ∃ thread ∈ state.threads, thread.inside
  alone : ∀ (one two : Nat) first second, state.threads[one]? = some first →
    state.threads[two]? = some second →
    first.inside → second.inside → one = two
  loaded : ∀ thread ∈ state.threads, thread.place = .store → thread.loc = state.glob
  glob : state.glob = wrapped ((state.threads.map (Thread.count program)).sum : Nat)

theorem wrapped_add (number : Int) : wrapped (wrapped number + 1) = wrapped (number + 1) :=
  Int.bmod_add_bmod

section Thread
variable (program : Program) (index : Nat) (thread new : Thread) (before after : State)
  (guarded : Guarded program before) (there : before.threads[index]? = some thread)
  (threads : after.threads = before.threads.set index new)
include guarded there threads

/-- Nobody else is inside with `thread`. -/
theorem others_outside (inside : thread.inside) (place : Nat) (other : Thread)
    (found : after.threads[place]? = some other) :
    place = index ∧ other = new ∨ ¬ other.inside := by
  rw [threads] at found
  rcases Indexed.set_cases _ _ _ _ _ found with ⟨rfl, rfl⟩ | ⟨different, old⟩
  · exact Or.inl ⟨rfl, rfl⟩
  · exact Or.inr fun bad => different (guarded.alone place index other thread old there bad inside)

/-- A step inside the critical section. -/
theorem inside_guarded (inside : thread.inside) (still : new.inside)
    (lock : after.lock = before.lock) (loaded : new.place = .store → new.loc = after.glob)
    (glob : after.glob = wrapped ((after.threads.map (Thread.count program)).sum : Nat)) :
    Guarded program after := by
  have member : new ∈ after.threads := by
    rw [threads]
    exact List.mem_of_getElem? (Indexed.set_self _ _ _ _ there)
  have others := others_outside program index thread new before after guarded there threads inside
  refine ⟨lock ▸ guarded.binary, fun open_ => ?_, fun _ => ⟨new, member, still⟩,
    fun one two first second here now in_ into => ?_, fun other listed storing => ?_, glob⟩
  · exact absurd inside (guarded.free (lock ▸ open_) thread (List.mem_of_getElem? there))
  · rcases others one first here with ⟨rfl, _⟩ | out
    · rcases others two second now with ⟨rfl, _⟩ | out
      · rfl
      · exact absurd into out
    · exact absurd in_ out
  · obtain ⟨place, found⟩ := List.getElem?_of_mem listed
    rcases others place other found with ⟨_, rfl⟩ | out
    · exact loaded storing
    · exact absurd (Or.inr storing) out

theorem moved_guarded (fits : Fits program thread)
    (moved : Moved program index thread before after new) : Guarded program after := by
  have counts := Indexed.sum_set (Thread.count program) before.threads index thread new there
  rw [← threads] at counts
  have member := List.mem_of_getElem? there
  have kept : after.glob = before.glob → new.count program = thread.count program →
      after.glob = wrapped ((after.threads.map (Thread.count program)).sum : Nat) := by
    intro same equal
    rw [equal] at counts
    rw [same, guarded.glob, Nat.add_right_cancel counts]
  have split {place : Nat} {other : Thread} (found : after.threads[place]? = some other) :
      place = index ∧ other = new ∨ place ≠ index ∧ before.threads[place]? = some other :=
    Indexed.set_cases _ _ _ _ _ (threads ▸ found)
  cases moved with
  | acquires place less lock glob =>
      obtain ⟨open_, taken, binary⟩ :=
        acquire_binary before.lock after.lock index guarded.binary lock
      have nobody := guarded.free open_
      refine ⟨binary, fun bad => ?_, fun _ =>
        ⟨_, threads ▸ List.mem_of_getElem? (Indexed.set_self _ _ _ _ there), Or.inl rfl⟩,
          fun one two first second here now in_ into => ?_, fun other listed storing => ?_,
          kept glob ?_⟩
      · rw [taken] at bad
        cases bad
      · rcases split here with ⟨rfl, _⟩ | ⟨_, old⟩
        · rcases split now with ⟨rfl, _⟩ | ⟨_, old⟩
          · rfl
          · exact absurd into (nobody second (List.mem_of_getElem? old))
        · exact absurd in_ (nobody first (List.mem_of_getElem? old))
      · obtain ⟨position, found⟩ := List.getElem?_of_mem listed
        rcases split found with ⟨_, rfl⟩ | ⟨_, old⟩
        · cases storing
        · exact absurd (Or.inr storing) (nobody other (List.mem_of_getElem? old))
      · rw [Thread.count, Thread.count, fits.idle (by simp [Thread.inside, place])]
  | ends place more lock glob =>
      have outside : ¬ thread.inside := by simp [Thread.inside, place]
      have apart {position : Nat} {other : Thread} (found : after.threads[position]? = some other)
        (in_ : other.inside) :
          before.threads[position]? = some other := by
        rcases split found with ⟨_, rfl⟩ | ⟨_, old⟩
        · simp [Thread.inside] at in_
        · exact old
      refine ⟨lock ▸ guarded.binary, fun open_ other listed in_ => ?_, fun taken => ?_,
        fun one two first second here now in_ into => ?_, fun other listed storing => ?_,
        kept glob rfl⟩
      · obtain ⟨position, found⟩ := List.getElem?_of_mem listed
        exact guarded.free (lock ▸ open_) other (List.mem_of_getElem? (apart found in_)) in_
      · obtain ⟨other, listed, in_⟩ := guarded.held (lock ▸ taken)
        obtain ⟨position, found⟩ := List.getElem?_of_mem listed
        have different : index ≠ position := by
          rintro rfl
          obtain rfl := Option.some.inj (there.symm.trans found)
          exact outside in_
        refine ⟨other, List.mem_of_getElem? (i := position) ?_, in_⟩
        rw [threads, List.getElem?_set_ne different]
        exact found
      · exact guarded.alone one two first second (apart here in_) (apart now into) in_ into
      · obtain ⟨position, found⟩ := List.getElem?_of_mem listed
        rw [glob]
        exact guarded.loaded other (List.mem_of_getElem? (apart found (Or.inr storing))) storing
  | loads place less lock glob =>
      exact inside_guarded program index thread _ before after guarded there threads (Or.inl place)
        (Or.inr rfl) lock (fun _ => glob.symm) (kept glob rfl)
  | releases place more lock glob =>
      have inside : thread.inside := Or.inl place
      have others := others_outside program index thread _ before after guarded there threads inside
      have taken : before.lock.free = false := by
        by_contra open_
        exact guarded.free (Bool.of_not_eq_false open_) thread member inside
      obtain ⟨open_, binary⟩ := release_binary before.lock guarded.binary taken
      have nobody : ∀ other ∈ after.threads, ¬ other.inside := by
        intro other listed
        obtain ⟨position, found⟩ := List.getElem?_of_mem listed
        rcases others position other found with ⟨_, rfl⟩ | out
        · simp [Thread.inside]
        · exact out
      refine ⟨lock ▸ binary, fun _ => nobody, fun bad => ?_,
        fun one two first second here now in_ into => ?_, fun other listed storing =>
          absurd (Or.inr storing) (nobody other listed), kept glob ?_⟩
      · rw [lock, open_] at bad
        cases bad
      · exact absurd in_ (nobody first (List.mem_of_getElem? here))
      · have whole : thread.k = program.inner := by
          have most := fits.inner
          simp only [Program.inner] at most ⊢
          omega
        simp only [Thread.count, whole]
        ring
  | stores place lock glob =>
      refine inside_guarded program index thread _ before after guarded there threads
        (Or.inr place) (Or.inl rfl) lock (fun bad => by cases bad) ?_
      have one : (after.threads.map (Thread.count program)).sum =
          (before.threads.map (Thread.count program)).sum + 1 := by
        simp only [Thread.count] at counts ⊢
        omega
      rw [glob, guarded.loaded thread member place, guarded.glob, wrapped_add, one]
      rfl

end Thread

theorem main_guarded (program : Program) (before after : State) (guarded : Guarded program before)
    (taken : stepMain program before = some after) : Guarded program after := by
  obtain ⟨glob, lock, moved⟩ := main_cases program before after taken
  have same : after.threads = before.threads → Guarded program after := by
    intro threads
    obtain ⟨binary, free, held, alone, loaded, counted⟩ := guarded
    exact ⟨lock ▸ binary,
      by rw [lock, threads]; exact free, by rw [lock, threads]; exact held,
      by rw [threads]; exact alone, by rw [glob, threads]; exact loaded, by
        rw [glob, threads]; exact counted⟩
  rcases moved with ⟨_, _, threads, _⟩ | ⟨_, _, threads, _⟩ |
    ⟨_, _, _, _, _, _, threads, _⟩ | ⟨_, _, _, threads, _⟩
  · have outside {place : Nat} {other : Thread} (found : after.threads[place]? = some other)
      (in_ : other.inside) :
        before.threads[place]? = some other := by
      rw [threads] at found
      rcases Nat.lt_or_ge place before.threads.length with old | beyond
      · rwa [List.getElem?_append_left old] at found
      · rw [List.getElem?_append_right beyond] at found
        obtain rfl := List.mem_singleton.mp (List.mem_of_getElem? found)
        simp [Thread.inside] at in_
    refine ⟨lock ▸ guarded.binary, fun open_ other listed in_ => ?_, fun held => ?_,
      fun one two first second here now in_ into => ?_, fun other listed storing => ?_, ?_⟩
    · obtain ⟨place, found⟩ := List.getElem?_of_mem listed
      exact guarded.free (lock ▸ open_) other (List.mem_of_getElem? (outside found in_)) in_
    · obtain ⟨other, listed, in_⟩ := guarded.held (lock ▸ held)
      exact ⟨other, threads ▸ List.mem_append_left _ listed, in_⟩
    · exact guarded.alone one two first second (outside here in_) (outside now into) in_ into
    · obtain ⟨place, found⟩ := List.getElem?_of_mem listed
      rw [glob]
      exact guarded.loaded other (List.mem_of_getElem? (outside found (Or.inr storing))) storing
    · rw [glob, guarded.glob, threads, List.map_append, List.sum_append]
      simp [Thread.count]
  · exact same threads
  · exact same threads
  · exact same threads

/-! Every run comes to an end. -/

def Program.turn (program : Program) : Nat := 2 * program.inner + 2

def Thread.work (program : Program) (thread : Thread) : Nat :=
  match thread.place with
  | .acquire => (program.outer - thread.j) * program.turn + 1
  | .inner => (program.outer - (thread.j + 1)) * program.turn + 2 * (program.inner - thread.k) + 2
  | .store =>
      (program.outer - (thread.j + 1)) * program.turn + 2 * (program.inner - (thread.k + 1)) + 3
  | .done => 0

def mainWork (program : Program) (created : Nat) : MainPlace → Nat
  | .create =>
      (program.numThreads - created) * (program.outer * program.turn + 2) + program.numThreads + 2
  | .join index => program.numThreads - index + 1
  | .printed _ => 0

def work (program : Program) (state : State) : Nat :=
  (state.threads.map (Thread.work program)).sum + mainWork program state.threads.length state.main

theorem moved_work (program : Program) (index : Nat) (thread new : Thread) (before after : State)
    (moved : Moved program index thread before after new) :
    new.work program < thread.work program := by
  cases moved with
  | acquires place less =>
      have turn : (program.outer - thread.j) * program.turn = (program.outer - (thread.j + 1)) *
          program.turn + program.turn := by
        have step : program.outer - thread.j = program.outer - (thread.j + 1) + 1 := by
          simp only [Program.outer]
          omega
        rw [step, Nat.succ_mul]
      simp only [Thread.work, place, turn, Nat.sub_zero]
      simp only [Program.turn]
      omega
  | ends place more =>
      simp only [Thread.work, place]
      omega
  | loads place less =>
      simp only [Thread.work, place]
      simp only [Program.inner]
      omega
  | releases place more =>
      simp only [Thread.work, place]
      omega
  | stores place =>
      simp only [Thread.work, place]
      omega

theorem step_work (program : Program) (choice : Choice) (before after : State)
    (taken : step program choice before = some after) :
    work program after < work program before := by
  unfold work
  cases choice with
  | main =>
      obtain ⟨_, _, moved⟩ := main_cases program before after taken
      rcases moved with ⟨place, less, threads, main⟩ | ⟨place, _, threads, main⟩ |
        ⟨_, _, place, less, _, _, threads, main⟩ |
        ⟨_, place, _, threads, main⟩
      · have turn : (program.numThreads - before.threads.length) *
          (program.outer * program.turn + 2) =
            (program.numThreads - (before.threads.length + 1)) *
              (program.outer * program.turn + 2) +
              (program.outer * program.turn + 2) := by
          have step : program.numThreads - before.threads.length = program.numThreads -
              (before.threads.length + 1) + 1 := by
            omega
          rw [step, Nat.succ_mul]
        simp only [threads, main, place, mainWork, List.map_append, List.sum_append,
          List.length_append, List.map_cons, List.map_nil, List.sum_cons, List.sum_nil,
          List.length_cons, List.length_nil, Thread.work, Nat.sub_zero, turn, Nat.zero_add]
        omega
      · simp only [threads, main, place, mainWork]
        omega
      · simp only [threads, main, place, mainWork]
        omega
      · simp only [threads, main, place, mainWork]
        omega
  | thread index =>
      simp only [step] at taken
      split at taken
      · cases taken
      · next thread there =>
          obtain ⟨main, new, threads, moved⟩ :=
            thread_moved program index thread before after taken
          have less := moved_work program index thread new before after moved
          have sum := Indexed.sum_set (Thread.work program) before.threads index thread new there
          rw [threads, main, List.length_set]
          omega

/-- A thread that has not ended can go on, unless it waits for the lock. -/
theorem thread_goes_on (program : Program) (state : State) (index : Nat) (thread : Thread)
    (there : state.threads[index]? = some thread) (going : thread.place ≠ .done)
    (stuck : step program (.thread index) state = none) :
    thread.place = .acquire ∧ state.lock.acquire index = none := by
  simp only [step, there] at stuck
  unfold stepThread at stuck
  dsimp only at stuck
  split at stuck
  · next place =>
      split at stuck
      · exact ⟨place, Option.map_eq_none_iff.mp stuck⟩
      · cases stuck
  · split at stuck
    · cases stuck
    · cases stuck
  · cases stuck
  · next place => exact absurd place going

/-- With a lock, nothing stops before the value has been printed. -/
theorem stuck_printed (program : Program) (state : State) (shape : Shape program state)
    (guarded : Guarded program state) (stuck : ∀ choice, step program choice state = none) :
    ∃ glob, state.main = .printed glob := by
  have all_done : ∀ thread ∈ state.threads, thread.place = .done := by
    intro thread member
    by_contra going
    obtain ⟨index, there⟩ := List.getElem?_of_mem member
    obtain ⟨_, waits⟩ :=
      thread_goes_on program state index thread there going (stuck (.thread index))
    -- whoever holds the lock could go on
    have held : state.lock.free = false := by
      by_contra open_
      obtain ⟨after, got⟩ := acquire_free state.lock index (Bool.of_not_eq_false open_)
      rw [waits] at got
      cases got
    obtain ⟨holder, listed, inside⟩ := guarded.held held
    obtain ⟨place, found⟩ := List.getElem?_of_mem listed
    have moving : holder.place ≠ .done := by
      rcases inside with here | here <;> rw [here] <;> decide
    obtain ⟨bad, _⟩ :=
      thread_goes_on program state place holder found moving (stuck (.thread place))
    rcases inside with here | here <;> rw [here] at bad <;> cases bad
  have blocked := stuck .main
  simp only [step] at blocked
  unfold stepMain at blocked
  split at blocked
  · split at blocked
    · cases blocked
    · cases blocked
  · next index place =>
      split at blocked
      · next less =>
          have inside : index < state.threads.length := by
            rw [(shape.joined index place).1]
            exact less
          rw [List.getElem?_eq_getElem inside] at blocked
          dsimp only at blocked
          rw [if_pos (all_done _ (List.getElem_mem inside))] at blocked
          cases blocked
      · cases blocked
  · next glob place => exact ⟨glob, place⟩

/-- What all the increments add up to. -/
theorem all_counted (program : Program) (threads : List Thread)
    (length : threads.length = program.numThreads)
    (fits : ∀ thread ∈ threads, Fits program thread)
    (done : ∀ thread ∈ threads, thread.place = .done) :
    (threads.map (Thread.count program)).sum = program.numThreads *
      (program.outer * program.inner) := by
  have each : threads.map (Thread.count program) =
      List.replicate program.numThreads (program.outer * program.inner) := by
    rw [← length, ← List.map_const']
    refine List.map_congr_left fun thread member => ?_
    have ended := done thread member
    rw [Thread.count, (fits thread member).ended ended,
      (fits thread member).idle (by simp [Thread.inside, ended]), Nat.add_zero]
  rw [each, List.sum_replicate]
  rfl

structure Exact (program : Program) (state : State) : Prop where
  shape : Shape program state
  guarded : Guarded program state

theorem step_exact (program : Program) (choice : Choice) (before after : State)
    (exact_ : Exact program before) (taken : step program choice before = some after) :
    Exact program after := by
  refine ⟨step_shape program choice before after exact_.shape taken, ?_⟩
  cases choice with
  | main => exact main_guarded program before after exact_.guarded taken
  | thread index =>
      simp only [step] at taken
      split at taken
      · cases taken
      · next thread there =>
          obtain ⟨_, new, threads, moved⟩ :=
            thread_moved program index thread before after taken
          exact moved_guarded program index thread new before after exact_.guarded there threads
            (exact_.shape.fits thread (List.mem_of_getElem? there)) moved

/-- The programs that guard their increments. -/
inductive Guards : Program → Prop where
  | mutex (loops : Int) : Guards (threadIncrMutex loops)
  | spinlock (loops : Int) : Guards (threadIncrSpinlock loops)
  | rwlock (loops : Int) : Guards (threadIncrRwlock loops)
  | psem (loops : Int) : Guards (threadIncrPsem loops)
  | speed (numThreads : Nat) (numInnerLoops numOuterLoops : Int) :
      Guards (threadLockSpeed numThreads numInnerLoops numOuterLoops)

theorem guards_lock (program : Program) (guards : Guards program) :
    program.lock = .owned none ∨ program.lock = .semaphore 1 := by
  cases guards with
  | psem loops => exact Or.inr rfl
  | _ => exact Or.inl rfl

/-- With any of the locks, at most one thread is between taking and releasing it, every run comes
to an end, and the value that is then printed counts every increment of every thread. -/
theorem locked_increments_are_kept (program : Program)
    (lock : program.lock = .owned none ∨ program.lock = .semaphore 1) :
    (∀ state, Transition.Reachable (· = start program) (step program) state →
      (∀ (one two : Nat) first second, state.threads[one]? = some first →
        state.threads[two]? = some second →
        first.inside → second.inside → one = two) ∧
      (∀ glob, state.main = .printed glob →
        glob = wrapped (program.numThreads * (program.outer * program.inner) : Nat)) ∧
      ((∀ choice, step program choice state = none) → ∃ glob, state.main = .printed glob)) ∧
      ∀ choices state, Transition.replay (step program) choices (start program) = some state →
        choices.length ≤ work program (start program) := by
  constructor
  · intro state reached
    have exact_ : Exact program state := by
      refine Transition.reachable_invariant ?_ (step_exact program) reached
      rintro _ rfl
      have kind : program.lock.binary = true ∧ program.lock.free = true := by
        rcases lock with same | same <;> rw [same] <;> decide
      refine ⟨start_shape program, kind.1, fun _ _ bad => absurd bad List.not_mem_nil,
        fun held => ?_, fun _ _ _ _ bad => (by cases bad), fun _ bad => absurd bad List.not_mem_nil,
        by simp [start, wrapped]⟩
      exact absurd (kind.2.symm.trans held) (by decide)
    refine ⟨exact_.guarded.alone, fun glob told => ?_,
      stuck_printed program state exact_.shape exact_.guarded⟩
    obtain ⟨length, done, same⟩ := exact_.shape.printed glob told
    rw [← same, exact_.guarded.glob,
        all_counted program state.threads length exact_.shape.fits done]
  · intro choices state replayed
    exact Transition.choices_bounded _ (work program) (step_work program) choices replayed

/-- Two threads with a semaphore. -/
theorem four_increments_are_kept :
    ∃ state, Transition.replay (step (threadIncrPsem 2))
        ([.main, .main, .main] ++ (List.replicate 9 (Choice.thread 1)) ++
          (List.replicate 9 (Choice.thread 0)) ++
          [.main, .main, .main]) (start (threadIncrPsem 2)) = some state ∧
          state.main = .printed 4 := by
  have ended : (Transition.replay (step (threadIncrPsem 2))
        ([.main, .main, .main] ++ (List.replicate 9 (Choice.thread 1)) ++
          (List.replicate 9 (Choice.thread 0)) ++
          [.main, .main, .main]) (start (threadIncrPsem 2))).any
      (fun state => match state.main with | .printed _ => true | _ => false) = true := by
        decide +kernel
  obtain ⟨state, run, past⟩ := (Option.any_eq_true _ _).mp ended
  obtain ⟨_, told, _⟩ :=
    (locked_increments_are_kept (threadIncrPsem 2) (guards_lock _ (.psem 2))).1 state
      (Transition.replay_reachable _ (.start rfl) run)
  split at past
  · next glob printed =>
      have four : glob = 4 := (told glob printed).trans (by decide +kernel)
      exact ⟨state, run, four ▸ printed⟩
  · cases past

/-! Without a lock. -/

/-- The bounds of `glob` and of what the threads have loaded; a thread that has stored before
loads at least one. -/
structure Raced (program : Program) (state : State) : Prop where
  lock : state.lock = .unguarded
  least : 0 ≤ state.glob
  most : state.glob ≤ ((state.threads.map (Thread.count program)).sum : Nat)
  begun : (∃ thread ∈ state.threads, 1 ≤ thread.count program) → 1 ≤ state.glob
  loaded : ∀ thread ∈ state.threads, thread.place = .store →
    0 ≤ thread.loc ∧ thread.loc ≤ ((state.threads.map (Thread.count program)).sum : Nat) ∧
      (1 ≤ thread.count program → 1 ≤ thread.loc)
  final : state.threads ≠ [] →
    (∀ thread ∈ state.threads, thread.count program = program.outer) →
    (min 2 program.outer : Nat) ≤ state.glob

section Race
variable (program : Program) (single : program.numInnerLoops = 1)
  (small : program.numThreads * program.outer < 2 ^ 31)

include single in
theorem count_single (thread : Thread) : thread.count program = thread.j + thread.k := by
  simp [Thread.count, Program.inner, single]

include single in
theorem count_bounded (thread : Thread) (fits : Fits program thread) :
    thread.count program ≤ program.outer := by
  rw [count_single program single]
  have one : program.inner = 1 := by simp [Program.inner, single]
  have inner := fits.inner
  by_cases inside : thread.inside
  · have busy := fits.busy inside
    omega
  · have idle := fits.idle inside
    have outer := fits.outer
    omega

include single in
theorem sum_bounded (threads : List Thread) (fits : ∀ thread ∈ threads, Fits program thread) :
    (threads.map (Thread.count program)).sum ≤ threads.length * program.outer := by
  have bound := List.sum_le_card_nsmul (threads.map (Thread.count program)) program.outer ?_
  · rwa [List.length_map] at bound
  · intro count member
    obtain ⟨thread, listed, rfl⟩ := List.mem_map.mp member
    exact count_bounded program single thread (fits thread listed)

theorem wrapped_small (number : Int) (least : 0 ≤ number) (less : number < 2 ^ 31) :
    wrapped number = number := by
  rw [wrapped, Int.bmod_eq_of_le]
  · omega
  · omega

section Thread
variable (index : Nat) (thread new : Thread) (before after : State) (raced : Raced program before)
  (there : before.threads[index]? = some thread)
  (threads : after.threads = before.threads.set index new)
include raced there threads

/-- A step that stores nothing. -/
theorem counted_raced (lock : after.lock = .unguarded) (glob : after.glob = before.glob)
    (same : new.count program = thread.count program)
    (loaded : new.place = .store → new.loc = before.glob) : Raced program after := by
  have member := List.mem_of_getElem? there
  have counts : after.threads.map (Thread.count program) =
      before.threads.map (Thread.count program) := by
    rw [threads]
    exact Indexed.map_set_same _ _ _ _ _ there same
  refine ⟨lock, glob ▸ raced.least, ?_, ?_, fun other listed storing => ?_, fun _ all => ?_⟩
  · rw [glob, counts]
    exact raced.most
  · rintro ⟨other, listed, some_⟩
    rw [glob]
    refine raced.begun ?_
    rw [threads] at listed
    rcases List.mem_or_eq_of_mem_set listed with old | rfl
    · exact ⟨other, old, some_⟩
    · exact ⟨thread, member, same ▸ some_⟩
  · rw [counts]
    rw [threads] at listed
    rcases List.mem_or_eq_of_mem_set listed with old | rfl
    · exact raced.loaded other old storing
    · rw [loaded storing, same]
      exact ⟨raced.least, raced.most, fun some_ => raced.begun ⟨thread, member, some_⟩⟩
  · rw [glob]
    refine raced.final (List.ne_nil_of_mem member) fun other listed => ?_
    have inside : other.count program ∈ after.threads.map (Thread.count program) := by
      rw [counts]
      exact List.mem_map_of_mem listed
    obtain ⟨later, found, equal⟩ := List.mem_map.mp inside
    rw [← equal]
    exact all later found

include single small in
theorem moved_raced (shape : Shape program before) (later : Shape program after)
    (moved : Moved program index thread before after new) : Raced program after := by
  have member := List.mem_of_getElem? there
  have fits := shape.fits thread member
  have sum := Indexed.sum_set (Thread.count program) before.threads index thread new there
  rw [← threads] at sum
  cases moved with
  | acquires place less lock glob =>
      rw [raced.lock] at lock
      cases lock' : after.lock with
      | unguarded =>
          refine counted_raced program index thread _ before after raced there threads lock' glob ?_
            fun bad => by cases bad
          rw [Thread.count, Thread.count, fits.idle (by simp [Thread.inside, place])]
      | owned owner =>
          rw [lock'] at lock
          cases lock
      | semaphore value =>
          rw [lock'] at lock
          cases lock
  | ends place more lock glob =>
      exact counted_raced program index thread _ before after raced there threads
        (lock.trans raced.lock) glob rfl fun bad => by cases bad
  | loads place less lock glob =>
      exact counted_raced program index thread _ before after raced there threads
        (lock.trans raced.lock) glob rfl fun _ => rfl
  | releases place more lock glob =>
      refine counted_raced program index thread _ before after raced there threads ?_ glob ?_
        fun bad => by cases bad
      · rw [lock, raced.lock]
        rfl
      · have most := fits.inner
        rw [count_single program single, count_single program single]
        simp only [Program.inner, single] at most more ⊢
        omega
  | stores place lock glob =>
      obtain ⟨least, most, again⟩ := raced.loaded thread member place
      have one : (after.threads.map (Thread.count program)).sum =
          (before.threads.map (Thread.count program)).sum + 1 := by
        simp only [Thread.count] at sum ⊢
        omega
      have bound := sum_bounded program single after.threads later.fits
      have few := Nat.mul_le_mul_right program.outer later.few
      have stored : after.glob = thread.loc + 1 := by
        rw [glob, wrapped_small _ (by omega) (by omega)]
      refine ⟨lock.trans raced.lock,
        by omega, ?_, fun _ => by omega, fun other listed storing => ?_, fun _ all => ?_⟩
      · rw [stored, one]
        omega
      · rw [threads] at listed
        rcases List.mem_or_eq_of_mem_set listed with old | rfl
        · obtain ⟨low, high, own⟩ := raced.loaded other old storing
          rw [one]
          exact ⟨low, by omega, own⟩
        · cases storing
      · have whole := all _ (threads ▸ List.mem_of_getElem? (Indexed.set_self _ _ _ _ there))
        rw [count_single program single] at whole again
        simp only at whole
        rw [stored]
        rcases Nat.lt_or_ge program.outer 2 with few | many
        · omega
        · have low := again (by omega)
          omega

end Thread

theorem main_raced (before after : State) (raced : Raced program before)
    (taken : stepMain program before = some after) : Raced program after := by
  obtain ⟨glob, lock, moved⟩ := main_cases program before after taken
  have same : after.threads = before.threads → Raced program after := by
    intro threads
    obtain ⟨open_, least, most, begun, loaded, final⟩ := raced
    exact ⟨lock.trans open_, glob ▸ least,
      by rw [glob, threads]; exact most, by rw [glob, threads]; exact begun,
      by rw [threads]; exact loaded, by rw [glob, threads]; exact final⟩
  rcases moved with ⟨_, _, threads, _⟩ | ⟨_, _, threads, _⟩ |
    ⟨_, _, _, _, _, _, threads, _⟩ | ⟨_, _, _, threads, _⟩
  · have none : Thread.count program ⟨0, 0, 0, .acquire⟩ = 0 := by simp [Thread.count]
    have sum : (after.threads.map (Thread.count program)).sum =
        (before.threads.map (Thread.count program)).sum := by
      rw [threads, List.map_append, List.sum_append, List.map_singleton, List.sum_singleton,
          none, Nat.add_zero]
    refine ⟨lock.trans raced.lock, glob ▸ raced.least,
      by rw [glob, sum]; exact raced.most, ?_, fun other listed storing => ?_, fun _ all => ?_⟩
    · rintro ⟨other, listed, some_⟩
      rw [glob]
      rw [threads] at listed
      rcases List.mem_append.mp listed with old | own
      · exact raced.begun ⟨other, old, some_⟩
      · obtain rfl := List.mem_singleton.mp own
        rw [none] at some_
        exact absurd some_ (by decide)
    · rw [sum]
      rw [threads] at listed
      rcases List.mem_append.mp listed with old | own
      · exact raced.loaded other old storing
      · obtain rfl := List.mem_singleton.mp own
        cases storing
    · have zero := all _ (threads ▸ List.mem_append_right _ List.mem_cons_self)
      rw [none] at zero
      have least := raced.least
      rw [glob, ← zero]
      simpa using least
  · exact same threads
  · exact same threads
  · exact same threads

end Race

/-! Which values two threads without a lock can print. -/

section Runs
variable (loops : Nat)

def Runs (before after : State) : Prop :=
  ∃ choices, Transition.replay (step (threadIncr loops)) choices before = some after

theorem runs_trans (before middle after : State) (first : Runs loops before middle)
    (second : Runs loops middle after) : Runs loops before after := by
  obtain ⟨front, one⟩ := first
  obtain ⟨back, two⟩ := second
  exact ⟨front ++ back, Transition.replay_append front back one two⟩

variable (glob : Int) (threads : List Thread) (main : MainPlace) (index j : Nat) (loc : Int)

theorem runs_load (found : threads[index]? = some ⟨j, 0, loc, .acquire⟩) (less : j < loops) :
    Runs loops ⟨glob, .unguarded, threads, main⟩
      ⟨glob, .unguarded, threads.set index ⟨j, 0, glob, .store⟩, main⟩ := by
  have goes : (j : Int) < (threadIncr loops).numOuterLoops := Int.ofNat_lt.mpr less
  have again := Indexed.set_self threads index _ ⟨j, 0, loc, .inner⟩ found
  have first : step (threadIncr loops) (.thread index) ⟨glob, .unguarded, threads, main⟩ =
      some ⟨glob, .unguarded, threads.set index ⟨j, 0, loc, .inner⟩, main⟩ := by
    simp only [step, found, stepThread, if_pos goes]
    rfl
  have second : step (threadIncr loops) (.thread index)
      ⟨glob, .unguarded, threads.set index ⟨j, 0, loc, .inner⟩, main⟩ =
      some ⟨glob, .unguarded, threads.set index ⟨j, 0, glob, .store⟩, main⟩ := by
    have within : ((0 : Nat) : Int) < (threadIncr loops).numInnerLoops := Int.zero_lt_one
    simp only [step, again, stepThread, if_pos within, List.set_set]
  exact ⟨_, Transition.replay_cons _ _ first (Transition.replay_cons _ [] second rfl)⟩

theorem runs_store (found : threads[index]? = some ⟨j, 0, loc, .store⟩) (least : 0 ≤ loc)
    (small : loc + 1 < 2 ^ 31) :
    Runs loops ⟨glob, .unguarded, threads, main⟩
      ⟨loc + 1, .unguarded, threads.set index ⟨j + 1, 0, loc, .acquire⟩, main⟩ := by
  have again := Indexed.set_self threads index _ ⟨j, 1, loc, .inner⟩ found
  have first : step (threadIncr loops) (.thread index) ⟨glob, .unguarded, threads, main⟩ =
      some ⟨loc + 1, .unguarded, threads.set index ⟨j, 1, loc, .inner⟩, main⟩ := by
    simp only [step, found, stepThread, wrapped_small (loc + 1) (by omega) small]
  have second : step (threadIncr loops) (.thread index)
      ⟨loc + 1, .unguarded, threads.set index ⟨j, 1, loc, .inner⟩, main⟩ =
      some ⟨loc + 1, .unguarded, threads.set index ⟨j + 1, 0, loc, .acquire⟩, main⟩ := by
    have beyond : ¬ ((1 : Nat) : Int) < (threadIncr loops).numInnerLoops := Int.lt_irrefl 1
    simp only [step, again, stepThread, if_neg beyond, List.set_set]
    rfl
  exact ⟨_, Transition.replay_cons _ _ first (Transition.replay_cons _ [] second rfl)⟩

/-- One thread alone makes some increments. -/
theorem runs_alone (found : threads[index]? = some ⟨j, 0, loc, .acquire⟩) (count : Nat)
    (enough : j + count ≤ loops) (least : 0 ≤ glob) (small : glob + count < 2 ^ 31) :
    ∃ last, Runs loops ⟨glob, .unguarded, threads, main⟩
      ⟨glob + count, .unguarded, threads.set index ⟨j + count, 0, last, .acquire⟩,
        main⟩ := by
  induction count generalizing glob threads j loc with
  | zero =>
      refine ⟨loc, [], ?_⟩
      obtain ⟨inside, here⟩ := List.getElem?_eq_some_iff.mp found
      have same : threads.set index ⟨j, 0, loc, .acquire⟩ = threads := by
        rw [← here, List.set_getElem_self]
      simp only [Nat.add_zero, Nat.cast_zero, Int.add_zero, same]
      rfl
  | succ count ih =>
      have loaded := Indexed.set_self threads index _ ⟨j, 0, glob, .store⟩ found
      have stored := Indexed.set_self threads index _ ⟨j + 1, 0, glob, .acquire⟩ found
      have load := runs_load loops glob threads main index j loc found (by omega)
      have store := runs_store loops glob _ main index j glob loaded least (by omega)
      rw [List.set_set] at store
      obtain ⟨last, rest⟩ :=
        ih (glob + 1) _ (j + 1) glob stored (by omega) (by omega) (by omega)
      rw [List.set_set] at rest
      refine ⟨last, runs_trans loops _ _ _ (runs_trans loops _ _ _ load store) ?_⟩
      have sums : glob + 1 + count = glob + (count + 1 : Nat) ∧
          j + 1 + count = j + (count + 1) := by omega
      rw [sums.1, sums.2] at rest
      exact rest

end Runs

section Pair
variable (loops : Nat)

def idle (j : Nat) (loc : Int) : Thread := ⟨j, 0, loc, .acquire⟩

def pair (glob : Int) (first second : Thread) : State :=
  ⟨glob, .unguarded, [first, second], .join 0⟩

/-- Both load before either stores, and the increments of one are lost. -/
theorem runs_collide (count : Nat) (enough : count ≤ loops) (small : (count : Int) < 2 ^ 31) :
    ∃ one two, Runs loops (pair 0 (idle 0 0) (idle 0 0)) (pair count (idle count one)
      (idle count two)) := by
  induction count with
  | zero => exact ⟨0, 0, [], rfl⟩
  | succ count ih =>
      obtain ⟨one, two, earlier⟩ := ih (by omega) (by omega)
      have first :=
        runs_load loops count [idle count one, idle count two] (.join 0) 0 count one rfl (by omega)
      have second := runs_load loops count [⟨count, 0, count, .store⟩, idle count two]
        (.join 0) 1 count two rfl (by omega)
      have third := runs_store loops count [⟨count, 0, count, .store⟩,
        ⟨count, 0, count, .store⟩] (.join 0) 0 count count rfl
        (by omega) (by omega)
      have fourth := runs_store loops (count + 1) [idle (count + 1) count,
        ⟨count, 0, count, .store⟩] (.join 0) 1 count count
        rfl (by omega) (by omega)
      exact ⟨count, count, runs_trans loops _ _ _ earlier (runs_trans loops _ _ _
        (runs_trans loops _ _ _ first second) (runs_trans loops _ _ _ third fourth))⟩

theorem runs_ends (glob one two : Int) :
    ∃ after, Runs loops (pair glob (idle loops one) (idle loops two)) after ∧
      after.main = .printed glob := by
  have past : ¬ (loops : Int) < (threadIncr loops).numOuterLoops := Int.lt_irrefl _
  have ends (index : Nat) (threads : List Thread) (loc : Int) (found : threads[index]? =
    some (idle loops loc)) :
      step (threadIncr loops) (.thread index) ⟨glob, .unguarded, threads, .join 0⟩ =
        some ⟨glob, .unguarded, threads.set index ⟨loops, 0, loc, .done⟩, .join 0⟩ := by
    simp only [step, found, stepThread, idle, if_neg past]
  refine ⟨⟨glob, .unguarded, [⟨loops, 0, one, .done⟩, ⟨loops, 0, two, .done⟩],
    .printed glob⟩, ⟨[.thread 0, .thread 1, .main, .main, .main], ?_⟩, rfl⟩
  exact Transition.replay_cons _ _ (ends 0 _ one rfl) (Transition.replay_cons _ _
    (ends 1 _ two rfl) rfl)

theorem runs_start : Runs loops (start (threadIncr loops)) (pair 0 (idle 0 0) (idle 0 0)) :=
  ⟨[.main, .main, .main], rfl⟩

/-- A thread that loads early and stores late takes back all that the other has done. -/
theorem runs_stale (glob : Nat) (two : 2 ≤ glob) (most : glob ≤ loops)
    (small : (2 * loops : Int) < 2 ^ 31) :
    ∃ one other, Runs loops (pair 0 (idle 0 0) (idle 0 0)) (pair glob (idle loops one)
      (idle loops other)) := by
  obtain ⟨low, rfl⟩ := Nat.exists_eq_add_of_le two
  obtain ⟨rest, rfl⟩ := Nat.exists_eq_add_of_le most
  -- the first thread counts up to `low` and loads
  obtain ⟨one, counted⟩ :=
    runs_alone (2 + low + rest) 0 [idle 0 0, idle 0 0] (.join 0) 0 0 0 rfl low (by omega) (by omega)
      (by omega)
  have loaded :=
    runs_load (2 + low + rest) low [idle low one, idle 0 0] (.join 0) 0 low one rfl (by omega)
  -- the second one does all but its last increment, after which the first one stores
  obtain ⟨other, behind⟩ :=
    runs_alone (2 + low + rest) low [⟨low, 0, low, .store⟩, idle 0 0] (.join 0) 1 0 0 rfl
      (1 + low + rest) (by omega) (by omega) (by omega)
  have stored := runs_store (2 + low + rest) (low + (1 + low + rest : Nat))
    [⟨low, 0, low, .store⟩, idle (1 + low + rest) other]
    (.join 0) 0 low low rfl (by omega) (by omega)
  -- and the other way round
  have again := runs_load (2 + low + rest) (low + 1) [idle (low + 1) low,
    idle (1 + low + rest) other] (.join 0) 1 (1 + low + rest) other rfl (by omega)
  obtain ⟨last, ahead⟩ := runs_alone (2 + low + rest) (low + 1)
    [idle (low + 1) low, ⟨1 + low + rest, 0, low + 1, .store⟩] (.join 0) 0 (low + 1) low rfl
      (1 + rest) (by omega) (by omega)
    (by omega)
  have final := runs_store (2 + low + rest) (low + 1 + (1 + rest : Nat))
    [idle (low + 1 + (1 + rest)) last, ⟨1 + low + rest, 0, low + 1, .store⟩] (.join 0) 1
      (1 + low + rest) (low + 1) rfl
    (by omega) (by omega)
  rw [Int.zero_add, Nat.zero_add] at counted
  rw [Nat.zero_add] at behind
  have sums : (low + 1 + 1 : Int) = (2 + low : Nat) ∧ 1 + low + rest + 1 = 2 + low + rest ∧
      low + 1 + (1 + rest) = 2 + low + rest := by omega
  rw [sums.1, sums.2.1, sums.2.2] at final
  rw [sums.2.2] at ahead
  refine ⟨last, low + 1, ?_⟩
  exact runs_trans _ _ _ _ (runs_trans _ _ _ _ (runs_trans _ _ _ _ counted loaded)
    (runs_trans _ _ _ _ behind stored)) (runs_trans _ _ _ _ again (runs_trans _ _ _ _ ahead final))

/-- After some collisions each thread goes on alone. -/
theorem runs_lost (lost : Nat) (fewer : lost ≤ loops) (small : (2 * loops : Int) < 2 ^ 31) :
    ∃ one other, Runs loops (pair 0 (idle 0 0) (idle 0 0)) (pair (2 * loops - lost : Int)
      (idle loops one) (idle loops other)) := by
  obtain ⟨more, rfl⟩ := Nat.exists_eq_add_of_le fewer
  obtain ⟨one, two, collided⟩ := runs_collide (lost + more) lost (by omega) (by omega)
  obtain ⟨last, first⟩ := runs_alone (lost + more) lost [idle lost one, idle lost two]
    (.join 0) 0 lost one rfl more (by omega) (by omega) (by omega)
  obtain ⟨latest, second⟩ := runs_alone (lost + more) (lost + more) [idle (lost + more) last,
    idle lost two] (.join 0) 1 lost two
    rfl more (by omega) (by omega) (by omega)
  have sum : (lost + more + more : Int) = 2 * (lost + more : Nat) - lost := by omega
  rw [sum] at second
  exact ⟨last, latest, runs_trans _ _ _ _ collided (runs_trans _ _ _ _ first second)⟩

end Pair

structure Lossy (program : Program) (state : State) : Prop where
  shape : Shape program state
  raced : Raced program state

/-- Without a lock, the values that two threads of `loops` increments can print are exactly those
from two, or one if there is one increment each, to the number of all increments. -/
theorem unlocked_increments_are_lost (loops : Nat) (positive : 0 < loops)
    (small : 2 * loops < 2 ^ 31) (glob : Int) :
    (∃ choices state, Transition.replay (step (threadIncr loops)) choices
        (start (threadIncr loops)) = some state ∧ state.main = .printed glob) ↔
      (min 2 loops : Nat) ≤ glob ∧ glob ≤ 2 * loops := by
  have outer : (threadIncr loops).outer = loops := Int.toNat_natCast loops
  constructor
  · rintro ⟨choices, state, replayed, told⟩
    have reached := Transition.replay_reachable choices (Transition.Reachable.start rfl :
      Transition.Reachable (· = start (threadIncr loops)) (step (threadIncr loops)) _) replayed
    have lossy : Lossy (threadIncr loops) state := by
      refine Transition.reachable_invariant ?_ (fun choice before after lossy taken => ?_) reached
      · rintro _ rfl
        refine ⟨start_shape _, rfl, Int.le_refl _, Int.le_refl _, ?_,
          fun _ bad => absurd bad List.not_mem_nil, fun bad => absurd rfl bad⟩
        rintro ⟨_, bad, _⟩
        cases bad
      · have later := step_shape _ choice before after lossy.shape taken
        refine ⟨later, ?_⟩
        cases choice with
        | main => exact main_raced _ before after lossy.raced taken
        | thread index =>
            simp only [step] at taken
            split at taken
            · cases taken
            · next thread there =>
                obtain ⟨_, new, threads, moved⟩ :=
                  thread_moved _ index thread before after taken
                refine moved_raced _ rfl ?_ index thread new before after lossy.raced there threads
                  lossy.shape later moved
                rw [outer]
                exact small
    obtain ⟨shape, raced⟩ := lossy
    obtain ⟨length, done, rfl⟩ := shape.printed glob told
    have counts := all_counted _ state.threads length shape.fits done
    have most := raced.most
    rw [counts, outer] at most
    have inner : (threadIncr loops).inner = 1 := rfl
    have two : (threadIncr loops).numThreads = 2 := rfl
    rw [inner, two] at most
    refine ⟨?_, by omega⟩
    have least := raced.final (by
      intro none
      rw [none] at length
      cases length) fun thread member => ?_
    · rwa [outer] at least
    · have ended := done thread member
      have fits := shape.fits thread member
      rw [count_single _ rfl, fits.ended ended, fits.idle (by simp [Thread.inside, ended]),
          Nat.add_zero]
  · rintro ⟨least, most⟩
    have finish (one other : Int)
        (run : Runs loops (pair 0 (idle 0 0) (idle 0 0)) (pair glob (idle loops one)
          (idle loops other))) :
        ∃ choices state, Transition.replay (step (threadIncr loops)) choices
          (start (threadIncr loops)) = some state ∧ state.main = .printed glob := by
      obtain ⟨after, ended, told⟩ := runs_ends loops glob one other
      obtain ⟨choices, replayed⟩ :=
        runs_trans _ _ _ _ (runs_start loops) (runs_trans _ _ _ _ run ended)
      exact ⟨choices, after, replayed, told⟩
    obtain ⟨value, rfl⟩ := Int.eq_ofNat_of_zero_le (Int.le_trans (Int.natCast_nonneg _) least)
    rcases Nat.lt_or_ge value loops with below | above
    · obtain ⟨one, other, run⟩ := runs_stale loops value (by omega) (by omega) (by omega)
      exact finish one other run
    · obtain ⟨one, other, run⟩ := runs_lost loops (2 * loops - value) (by omega) (by omega)
      have same : (2 * loops - (2 * loops - value : Nat) : Int) = value := by omega
      rw [same] at run
      exact finish one other run

/-- Ten million increments each, the default, can end as two. -/
theorem millions_are_lost :
    ∃ choices state, Transition.replay (step (threadIncr (10000000 : Nat))) choices
    (start (threadIncr (10000000 : Nat))) = some state ∧ state.main = .printed 2 :=
  (unlocked_increments_are_lost 10000000 (by decide) (by decide) 2).mpr (by decide)

end Tlpi.CounterRaces
