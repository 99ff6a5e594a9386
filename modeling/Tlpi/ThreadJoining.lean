import Mathlib.Algebra.Order.Ring.Int
import Mathlib.Data.List.Basic
import Tlpi.Indexed
import Tlpi.Monitors
import Tlpi.Transition

/-!
threads/thread_multijoin.c: a main thread that joins any of its threads as they
terminate. Every statement that reads or writes a shared variable is a step of its
own; `pthread_join` waits for the start function to return. How long a thread sleeps
is left to the interleaving. `log` is the history of the threads joined.
-/

namespace Tlpi.ThreadJoining

open Monitors

inductive TState where
  | alive
  | terminated
  | joined
  deriving DecidableEq

/-- What a thread does next; `lock` covers its sleep. -/
inductive ThreadPlace where
  | unborn
  | lock
  | count
  | mark
  | unlock
  | signal
  | finished
  deriving DecidableEq

structure Thread where
  place : ThreadPlace
  state : TState
  deriving DecidableEq

inductive MainPlace where
  | create (idx : Nat)
  | assign
  | test
  | lock
  | check
  | wait
  | scan (idx : Nat)
  | join (idx : Nat)
  | mark (idx : Nat)
  | live (idx : Nat)
  | count (idx : Nat)
  | unlock
  | exited
  deriving DecidableEq

structure State where
  main : MainPlace
  threads : List Thread
  totThreads : Nat
  numLive : Int
  numUnjoined : Int
  monitor : Monitor Member
  log : List Nat
  deriving DecidableEq

/-- `wakeUp` is a return from `pthread_cond_wait` that nobody asked for. -/
inductive Choice where
  | main
  | thread (idx : Nat)
  | wakeUp
  deriving DecidableEq

/-- `threadFunc`. -/
def stepThread (state : State) (idx : Nat) (thread : Thread) : Option State :=
  match thread.place with
  | .unborn => none
  | .lock => (lock state.monitor (.thread idx)).map fun monitor =>
      { state with
        monitor := monitor, threads := state.threads.set idx { thread with place := .count } }
  | .count => some { state with
      numUnjoined := state.numUnjoined + 1
      threads := state.threads.set idx { thread with place := .mark } }
  | .mark => some { state with threads := state.threads.set idx ⟨.unlock, .terminated⟩ }
  | .unlock => some { state with
      monitor := unlock state.monitor
      threads := state.threads.set idx { thread with place := .signal } }
  | .signal => some { state with
      monitor := signal state.monitor
      threads := state.threads.set idx { thread with place := .finished } }
  | .finished => none

/-- `main` with an array of `argc - 1` threads. -/
def stepMain (state : State) : Option State :=
  match state.main with
  | .create idx =>
      if idx < state.threads.length then
        some { state with
          main := .create (idx + 1), threads := state.threads.set idx ⟨.lock, .alive⟩ }
      else some { state with main := .assign }
  | .assign => some { state with
      main := .test
      totThreads := state.threads.length
      numLive := state.threads.length }
  | .test => some { state with main := if state.numLive > 0 then .lock else .exited }
  | .lock => (lock state.monitor .main).map fun monitor =>
      { state with monitor := monitor, main := .check }
  | .check =>
      if state.numUnjoined = 0 then some { state with monitor := wait state.monitor, main := .wait }
      else some { state with main := .scan 0 }
  | .wait => (relock state.monitor .main).map fun monitor =>
      { state with monitor := monitor, main := .check }
  | .scan idx =>
      if idx < state.totThreads then
        if (state.threads[idx]?).map Thread.state = some .terminated then
          some { state with main := .join idx }
        else some { state with main := .scan (idx + 1) }
      else some { state with main := .unlock }
  | .join idx =>
      if (state.threads[idx]?).map Thread.place = some .finished then
        some { state with main := .mark idx, log := state.log ++ [idx] }
      else none
  | .mark idx => some { state with
      main := .live idx
      threads := state.threads.modify idx fun thread => { thread with state := .joined } }
  | .live idx => some { state with main := .count idx, numLive := state.numLive - 1 }
  | .count idx => some { state with main := .scan (idx + 1), numUnjoined := state.numUnjoined - 1 }
  | .unlock => some { state with main := .test, monitor := unlock state.monitor }
  | .exited => none

def step (choice : Choice) (state : State) : Option State :=
  match choice with
  | .main => stepMain state
  | .thread idx => (state.threads[idx]?).bind (stepThread state idx)
  | .wakeUp =>
      if state.monitor.waiting then some { state with monitor := signal state.monitor } else none

def start (count : Nat) : State :=
  ⟨.create 0, List.replicate count ⟨.unborn, .alive⟩, 0, 0, 0, idle, []⟩

/-! The invariant counts what the statements between two others have left undone. -/

def ThreadPlace.inside : ThreadPlace → Bool
  | .count | .mark | .unlock => true
  | _ => false

/-- Counted and still to call `pthread_cond_signal`. -/
def ThreadPlace.unsignalled : ThreadPlace → Bool
  | .mark | .unlock | .signal => true
  | _ => false

def MainPlace.inside : MainPlace → Bool
  | .check | .scan _ | .join _ | .mark _ | .live _ | .count _ | .unlock => true
  | _ => false

def MainPlace.created : MainPlace → Bool
  | .create _ | .assign => false
  | _ => true

def Thread.inside (thread : Thread) : Bool := thread.place.inside

/-- Which states go with which places. -/
def Thread.Fits (thread : Thread) : Prop :=
  match thread.place with
  | .unborn | .lock | .count | .mark => thread.state = .alive
  | .unlock | .signal => thread.state = .terminated
  | .finished => thread.state ≠ .alive

def Thread.unjoined (thread : Thread) : Int :=
  (if thread.state = .terminated then 1 else 0) + if thread.place = .mark then 1 else 0

def Thread.unreaped (thread : Thread) : Int := if thread.state = .joined then 0 else 1

def Thread.owed (thread : Thread) : Int := if thread.place.unsignalled then 1 else 0

def MainPlace.unjoined : MainPlace → Int
  | .live _ | .count _ => 1
  | _ => 0

def MainPlace.unreaped : MainPlace → Int
  | .live _ => 1
  | _ => 0

structure Counted (count : Nat) (state : State) : Prop where
  size : state.threads.length = count
  guarded : Guarded state.monitor (Inside state.main.inside Thread.inside state.threads)
  fits : ∀ thread ∈ state.threads, thread.Fits
  unborn : ∀ (idx other : Nat) thread, state.main = .create idx → idx ≤ other →
    state.threads[other]? = some thread →
    thread = ⟨.unborn, .alive⟩
  unjoined : state.numUnjoined = (state.threads.map Thread.unjoined).sum + state.main.unjoined
  fresh : state.main.created = false → ∀ thread ∈ state.threads, thread.state ≠ .joined
  live : state.main.created = true → state.totThreads = count ∧
    state.numLive = (state.threads.map Thread.unreaped).sum + state.main.unreaped
  once : state.log.Nodup
  logged : ∀ idx, idx ∈ state.log ↔
    (∃ thread, state.threads[idx]? = some thread ∧ thread.state = .joined) ∨
      state.main = .mark idx
  joining : ∀ idx, state.main = .join idx → ∃ thread, state.threads[idx]? = some thread ∧
    thread.state = .terminated
  marking : ∀ idx, state.main = .mark idx →
    state.threads[idx]? = some ⟨.finished, .terminated⟩
  waits : state.monitor.waiting = true → state.main = .wait ∧
    state.numUnjoined ≤ (state.threads.map Thread.owed).sum
  finished : state.main = .exited → state.numLive ≤ 0

theorem start_counted (count : Nat) : Counted count (start count) := by
  have only : ∀ thread ∈ (start count).threads, thread = ⟨.unborn, .alive⟩ :=
    fun _ => List.eq_of_mem_replicate
  refine ⟨List.length_replicate, ?_, ?_, ?_, ?_, ?_, (fun bad => by cases bad),
    List.nodup_nil, ?_, (fun _ bad => by cases bad),
    (fun _ bad => by cases bad), (fun bad => by cases bad), (fun bad => by cases bad)⟩
  · rintro (_ | idx) inside
    · cases inside
    · obtain ⟨thread, there, held⟩ := inside
      rw [only thread (List.mem_of_getElem? there)] at held
      cases held
  · intro thread member
    rw [only thread member]
    rfl
  · intro idx other thread _ _ there
    exact only thread (List.mem_of_getElem? there)
  · simp [start, Thread.unjoined, MainPlace.unjoined]
  · intro _ thread member
    rw [only thread member]
    exact fun bad => by cases bad
  · intro idx
    constructor
    · intro bad
      cases bad
    · rintro (⟨thread, there, bad⟩ | bad)
      · rw [only thread (List.mem_of_getElem? there)] at bad
        cases bad
      · cases bad

/-! One thread moves. -/

section Threads
variable (count : Nat) (state : State) (sound : Counted count state) (idx : Nat)
  (thread new : Thread) (there : state.threads[idx]? = some thread)

include sound there in
theorem thread_counted (numUnjoined : Int) (monitor : Monitor Member)
    (guarded : Guarded monitor (Inside state.main.inside Thread.inside (state.threads.set idx new)))
    (fits : new.Fits) (born : thread.place ≠ .unborn) (moving : thread.place ≠ .finished)
    (unjoined : thread.state ≠ .joined)
    (kept : new.state = thread.state ∨ thread.state = .alive ∧ new.state = .terminated)
    (counts : numUnjoined + thread.unjoined = state.numUnjoined + new.unjoined)
    (waits : monitor.waiting = true → state.monitor.waiting = true ∧
      numUnjoined + thread.owed ≤ state.numUnjoined + new.owed) :
    Counted count { state with numUnjoined, monitor, threads := state.threads.set idx new } := by
  have open_ : new.state ≠ .joined := by
    rcases kept with same | ⟨_, same⟩
    · rw [same]
      exact unjoined
    · rw [same]
      exact fun bad => by cases bad
  have members : ∀ one ∈ state.threads.set idx new, one ∈ state.threads ∨ one = new :=
    fun one member =>
      List.mem_or_eq_of_mem_set member
  refine ⟨by rw [List.length_set]; exact sound.size, guarded, ?_, ?_, ?_, ?_, ?_,
    sound.once, ?_, ?_, ?_, ?_, sound.finished⟩
  · intro one member
    rcases members one member with old | rfl
    · exact sound.fits one old
    · exact fits
  · intro at_ other one creating later found
    rcases Indexed.set_cases _ _ _ _ _ found with ⟨rfl, rfl⟩ | ⟨_, old⟩
    · have fresh := sound.unborn at_ other thread creating later there
      rw [fresh] at born
      exact absurd rfl born
    · exact sound.unborn at_ other one creating later old
  · have sums := Indexed.sum_set Thread.unjoined state.threads idx thread new there
    have whole := sound.unjoined
    dsimp only
    omega
  · intro early one member
    rcases members one member with old | rfl
    · exact sound.fresh early one old
    · exact open_
  · intro made
    obtain ⟨total, live⟩ := sound.live made
    have sums := Indexed.sum_set Thread.unreaped state.threads idx thread new there
    simp only [Thread.unreaped, if_neg unjoined, if_neg open_] at sums live ⊢
    exact ⟨total, by omega⟩
  · intro other
    rw [sound.logged]
    refine or_congr_left ⟨?_, ?_⟩
    · rintro ⟨one, found, joined⟩
      refine ⟨one, ?_, joined⟩
      dsimp only
      rw [List.getElem?_set_ne]
      · exact found
      · rintro rfl
        rw [there] at found
        cases found
        exact unjoined joined
    · rintro ⟨one, found, joined⟩
      rcases Indexed.set_cases _ _ _ _ _ found with ⟨_, rfl⟩ | ⟨_, old⟩
      · exact absurd joined open_
      · exact ⟨one, old, joined⟩
  · intro other joining
    obtain ⟨one, found, terminated⟩ := sound.joining other joining
    by_cases same : idx = other
    · subst same
      rw [there] at found
      cases found
      refine ⟨new, Indexed.set_self _ _ _ _ there, ?_⟩
      rcases kept with still | ⟨alive, _⟩
      · rw [still]
        exact terminated
      · rw [alive] at terminated
        cases terminated
    · exact ⟨one, by dsimp only; rw [List.getElem?_set_ne same]; exact found, terminated⟩
  · intro other marking
    have found := sound.marking other marking
    dsimp only
    rw [List.getElem?_set_ne]
    · exact found
    · rintro rfl
      rw [there] at found
      cases found
      exact moving rfl
  · intro waiting
    obtain ⟨before, fewer⟩ := waits waiting
    obtain ⟨place, owed⟩ := sound.waits before
    have sums := Indexed.sum_set Thread.owed state.threads idx thread new there
    refine ⟨place, ?_⟩
    dsimp only
    omega

include sound there in
theorem thread_step_counted (after : State) (taken : stepThread state idx thread = some after) :
    Counted count after := by
  have fits := sound.fits thread (List.mem_of_getElem? there)
  obtain ⟨place, tstate⟩ := thread
  cases place with
  | unborn => cases taken
  | lock =>
      cases fits
      obtain ⟨monitor, locked, rfl⟩ := Option.map_eq_some_iff.mp taken
      obtain ⟨free, rfl⟩ := lock_some _ _ _ locked
      exact thread_counted count state sound idx _ _ there _ _
        (thread_locks _ _ _ _ sound.guarded free idx _ _) rfl
        (by decide) (by decide) (by decide) (Or.inl rfl) rfl fun waiting =>
          ⟨waiting, Int.le_refl _⟩
  | count =>
      cases fits
      cases taken
      refine thread_counted count state sound idx _ _ there _ _
        (thread_moves _ _ _ _ sound.guarded idx _ _ there fun _ => rfl) rfl
        (by decide) (by decide) (by decide) (Or.inl rfl) ?_ fun waiting => ⟨waiting, ?_⟩
      · simp [Thread.unjoined]
      · simp [Thread.owed, ThreadPlace.unsignalled]
  | mark =>
      cases fits
      cases taken
      exact thread_counted count state sound idx _ _ there _ _
        (thread_moves _ _ _ _ sound.guarded idx _ _ there fun _ => rfl) rfl
        (by decide) (by decide) (by decide) (Or.inr ⟨rfl, rfl⟩) rfl fun waiting =>
          ⟨waiting, Int.le_refl _⟩
  | unlock =>
      cases fits
      cases taken
      exact thread_counted count state sound idx _ _ there _ _
        (thread_unlocks _ _ _ _ sound.guarded idx _ _ there rfl rfl _) rfl
        (by decide) (by decide) (by decide) (Or.inl rfl) rfl fun waiting =>
          ⟨waiting, Int.le_refl _⟩
  | signal =>
      cases fits
      cases taken
      refine thread_counted count state sound idx _ _ there _ _ ?_ (fun bad => by cases bad)
        (by decide) (by decide) (by decide)
        (Or.inl rfl) rfl fun waiting => by cases waiting
      exact thread_moves _ _ _ _ sound.guarded idx _ _ there fun held => held
  | finished => cases taken

end Threads

/-! The main thread moves. -/

section Main
variable (count : Nat) (state : State) (sound : Counted count state)
include sound

theorem awake (elsewhere : state.main ≠ .wait) : state.monitor.waiting = false := by
  cases waiting : state.monitor.waiting with
  | false => rfl
  | true => exact absurd (sound.waits waiting).1 elsewhere

/-- Every move of the main thread that leaves the threads and the log alone. -/
theorem main_counted (main : MainPlace) (monitor : Monitor Member) (totThreads : Nat)
    (numLive numUnjoined : Int)
    (guarded : Guarded monitor (Inside main.inside Thread.inside state.threads))
    (made : ∀ idx, main ≠ .create idx) (unmarked : ∀ idx, main ≠ .mark idx)
    (before : ∀ idx, state.main ≠ .mark idx)
    (unjoined : numUnjoined + state.main.unjoined = state.numUnjoined + main.unjoined)
    (fresh : main.created = false → state.main.created = false)
    (live : main.created = true → totThreads = count ∧
      numLive = (state.threads.map Thread.unreaped).sum + main.unreaped)
    (joining : ∀ idx, main = .join idx → ∃ thread, state.threads[idx]? = some thread ∧
      thread.state = .terminated)
    (waits : monitor.waiting = true →
      main = .wait ∧ numUnjoined ≤ (state.threads.map Thread.owed).sum)
    (finished : main = .exited → numLive ≤ 0) :
    Counted count { state with main, monitor, totThreads, numLive, numUnjoined } := by
  refine ⟨sound.size, guarded, sound.fits, ?_, ?_, ?_, live, sound.once, ?_, joining,
    ?_, waits, finished⟩
  · intro idx other thread creating
    exact absurd creating (made idx)
  · have whole := sound.unjoined
    dsimp only
    omega
  · intro early
    exact sound.fresh (fresh early)
  · intro idx
    rw [sound.logged]
    exact or_congr_right ⟨fun bad => absurd bad (before idx),
      fun bad => absurd bad (unmarked idx)⟩
  · intro idx marking
    exact absurd marking (unmarked idx)

theorem create_counted (idx : Nat) (at_ : state.main = .create idx)
    (room : idx < state.threads.length) :
    Counted count { state with
      main := .create (idx + 1), threads := state.threads.set idx ⟨.lock, .alive⟩ } := by
  have there := List.getElem?_eq_getElem room
  rw [sound.unborn idx idx _ at_ (Nat.le_refl _) there] at there
  have early : state.main.created = false := by rw [at_]; rfl
  have nowhere : state.main.unjoined = 0 := by rw [at_]; rfl
  have asleep := awake count state sound (by rw [at_]; exact fun bad => by cases bad)
  refine ⟨by rw [List.length_set]; exact sound.size, ?_, ?_, ?_, ?_, ?_,
    (fun bad => by cases bad), sound.once, ?_, (fun _ bad => by cases bad),
    (fun _ bad => by cases bad), (fun bad => ?_), (fun bad => by cases bad)⟩
  · have still :=
      thread_moves _ _ _ _ sound.guarded idx _ ⟨.lock, .alive⟩ there (fun bad => by cases bad)
    rw [at_] at still
    exact still
  · intro thread member
    rcases List.mem_or_eq_of_mem_set member with old | rfl
    · exact sound.fits thread old
    · rfl
  · intro next other thread place later found
    cases place
    rcases Indexed.set_cases _ _ _ _ _ found with ⟨rfl, _⟩ | ⟨_, old⟩
    · exact absurd later (Nat.not_succ_le_self _)
    · exact sound.unborn idx other thread at_ (Nat.le_of_succ_le later) old
  · have sums := Indexed.sum_set Thread.unjoined state.threads idx _ ⟨.lock, .alive⟩ there
    have none : Thread.unjoined ⟨.unborn, .alive⟩ = 0 := rfl
    have still : Thread.unjoined ⟨.lock, .alive⟩ = 0 := rfl
    have whole := sound.unjoined
    rw [nowhere] at whole
    simp only [MainPlace.unjoined]
    omega
  · intro _ thread member
    rcases List.mem_or_eq_of_mem_set member with old | rfl
    · exact sound.fresh early thread old
    · exact fun bad => by cases bad
  · intro other
    rw [sound.logged]
    constructor
    · rintro (⟨thread, found, joined⟩ | bad)
      · exact absurd joined (sound.fresh early thread (List.mem_of_getElem? found))
      · rw [at_] at bad
        cases bad
    · rintro (⟨thread, found, joined⟩ | bad)
      · rcases Indexed.set_cases _ _ _ _ _ found with ⟨_, rfl⟩ | ⟨_, old⟩
        · cases joined
        · exact Or.inl ⟨thread, old, joined⟩
      · cases bad
  · rw [asleep] at bad
    cases bad

theorem join_counted (idx : Nat) (at_ : state.main = .join idx)
    (returned : (state.threads[idx]?).map Thread.place = some .finished) :
    Counted count { state with main := .mark idx, log := state.log ++ [idx] } := by
  obtain ⟨thread, there, terminated⟩ := sound.joining idx at_
  have asleep := awake count state sound (by rw [at_]; exact fun bad => by cases bad)
  have marked : state.threads[idx]? = some ⟨.finished, .terminated⟩ := by
    rw [there, Option.map_some, Option.some.injEq] at returned
    rw [there, ← returned, ← terminated]
  have absent : idx ∉ state.log := by
    rw [sound.logged]
    rintro (⟨other, found, joined⟩ | bad)
    · rw [marked] at found
      cases found
      cases joined
    · rw [at_] at bad
      cases bad
  have live := sound.live (by rw [at_]; rfl)
  have unjoined := sound.unjoined
  rw [at_] at live unjoined
  refine ⟨sound.size, main_moves _ _ _ _ sound.guarded _ (fun _ => by rw [at_]; rfl), sound.fits,
    (fun _ _ _ bad => by cases bad),
    unjoined, (fun bad => by cases bad), (fun _ => live), ?_, ?_, (fun _ bad => by cases bad),
    ?_, (fun bad => ?_), (fun bad => by cases bad)⟩
  · exact List.nodup_append.mpr ⟨sound.once, List.nodup_singleton idx,
      fun a member b last same => by
      rw [List.mem_singleton.mp last] at same
      rw [same] at member
      exact absent member⟩
  · intro other
    rw [List.mem_append, sound.logged, List.mem_singleton]
    constructor
    · rintro ((old | bad) | rfl)
      · exact Or.inl old
      · rw [at_] at bad
        cases bad
      · exact Or.inr rfl
    · rintro (old | here)
      · exact Or.inl (Or.inl old)
      · cases here
        exact Or.inr rfl
  · intro other here
    cases here
    exact marked
  · rw [asleep] at bad
    cases bad

theorem mark_counted (idx : Nat) (at_ : state.main = .mark idx) :
    Counted count { state with
      main := .live idx
      threads := state.threads.modify idx fun thread => { thread with state := .joined } } := by
  have there := sound.marking idx at_
  have changed : (state.threads.modify idx fun thread => { thread with state := .joined }) =
      state.threads.set idx ⟨.finished, .joined⟩ := by
    rw [List.modify_eq_set_getElem?, there]
    rfl
  have asleep := awake count state sound (by rw [at_]; exact fun bad => by cases bad)
  have live := sound.live (by rw [at_]; rfl)
  have unjoined := sound.unjoined
  rw [at_] at live unjoined
  rw [changed]
  refine ⟨by rw [List.length_set]; exact sound.size, ?_, ?_, (fun _ _ _ bad => by cases bad), ?_,
    (fun bad => by cases bad),
    (fun _ => ⟨live.1, ?_⟩), sound.once, ?_, (fun _ bad => by cases bad),
    (fun _ bad => by cases bad), (fun bad => ?_), (fun bad => by cases bad)⟩
  · have still := thread_moves _ _ _ _ sound.guarded idx _ ⟨.finished, .joined⟩ there
      (fun bad => by cases bad)
    rw [at_] at still
    exact still
  · intro thread member
    rcases List.mem_or_eq_of_mem_set member with old | rfl
    · exact sound.fits thread old
    · exact fun bad => by cases bad
  · have sums := Indexed.sum_set Thread.unjoined state.threads idx _ ⟨.finished, .joined⟩ there
    have gone : Thread.unjoined ⟨.finished, .joined⟩ = 0 := rfl
    have one : Thread.unjoined ⟨.finished, .terminated⟩ = 1 := rfl
    simp only [MainPlace.unjoined] at unjoined ⊢
    omega
  · have sums := Indexed.sum_set Thread.unreaped state.threads idx _ ⟨.finished, .joined⟩ there
    have gone : Thread.unreaped ⟨.finished, .joined⟩ = 0 := rfl
    have one : Thread.unreaped ⟨.finished, .terminated⟩ = 1 := rfl
    simp only [MainPlace.unreaped] at live ⊢
    omega
  · intro other
    rw [sound.logged, at_]
    constructor
    · rintro (⟨thread, found, joined⟩ | same)
      · refine Or.inl ⟨thread, ?_, joined⟩
        dsimp only
        rw [List.getElem?_set_ne]
        · exact found
        · rintro rfl
          rw [there] at found
          cases found
          cases joined
      · cases same
        exact Or.inl ⟨_, Indexed.set_self _ _ _ _ there, rfl⟩
    · rintro (⟨thread, found, joined⟩ | bad)
      · rcases Indexed.set_cases _ _ _ _ _ found with ⟨rfl, _⟩ | ⟨_, old⟩
        · exact Or.inr rfl
        · exact Or.inl ⟨thread, old, joined⟩
      · cases bad
  · rw [asleep] at bad
    cases bad

/-- Between the loop's statements that count. -/
theorem moved_counted (place main : MainPlace) (at_ : state.main = place) (monitor : Monitor Member)
    (guarded : Guarded monitor (Inside main.inside Thread.inside state.threads))
    (made : place.created = true ∧ main.created = true)
    (unmarked : ∀ idx, place ≠ .mark idx ∧ main ≠ .mark idx)
    (same : main.unjoined = place.unjoined ∧ main.unreaped = place.unreaped)
    (joining : ∀ idx, main = .join idx → ∃ thread, state.threads[idx]? = some thread ∧
      thread.state = .terminated)
    (waits : monitor.waiting = true →
      main = .wait ∧ state.numUnjoined ≤ (state.threads.map Thread.owed).sum)
    (finished : main = .exited → state.numLive ≤ 0) :
    Counted count { state with main, monitor } := by
  subst at_
  refine main_counted count state sound main monitor _ _ _ guarded ?_ (fun idx => (unmarked idx).2)
    (fun idx => (unmarked idx).1) ?_ ?_ ?_ joining waits finished
  · rintro idx rfl
    cases made.2
  · rw [same.1]
  · intro bad
    rw [made.2] at bad
    cases bad
  · intro _
    rw [same.2]
    exact sound.live made.1

/-- Nobody is woken by a main thread that does not wait. -/
theorem silent (elsewhere : state.main ≠ .wait) (main : MainPlace) (numUnjoined : Int)
    (waiting : state.monitor.waiting = true) :
    main = .wait ∧ numUnjoined ≤ (state.threads.map Thread.owed).sum := by
  rw [awake count state sound elsewhere] at waiting
  cases waiting

theorem created_counted (idx : Nat) (at_ : state.main = .create idx) :
    Counted count { state with main := .assign } :=
  main_counted count state sound _ _ _ _ _ (main_moves _ _ _ _ sound.guarded _
    (fun bad => by cases bad)) (by simp) (by simp)
    (by simp [at_]) (by rw [at_]; rfl) (fun _ => by rw [at_]; rfl)
      (fun bad => by cases bad) (by simp)
    (silent count state sound (by simp [at_]) _ _) (by simp)

theorem assign_counted (at_ : state.main = .assign) :
    Counted count { state with
      main := .test
      totThreads := state.threads.length
      numLive := state.threads.length } := by
  have every : state.threads.map Thread.unreaped = List.replicate state.threads.length 1 := by
    rw [List.eq_replicate_iff]
    refine ⟨List.length_map _, fun amount member => ?_⟩
    obtain ⟨thread, present, rfl⟩ := List.mem_map.mp member
    exact if_neg (sound.fresh (by rw [at_]; rfl) thread present)
  refine main_counted count state sound _ _ _ _ _ (main_moves _ _ _ _ sound.guarded _
    (fun bad => by cases bad)) (by simp)
    (by simp) (by simp [at_]) (by rw [at_]; rfl) (fun bad => by cases bad)
      (fun _ => ⟨sound.size, ?_⟩) (by simp)
    (silent count state sound (by simp [at_]) _ _) (by simp)
  rw [every]
  simp [MainPlace.unreaped]

theorem test_counted (at_ : state.main = .test) :
    Counted count { state with main := if state.numLive > 0 then .lock else .exited } := by
  split
  · exact moved_counted count state sound _ _ at_ _ (main_moves _ _ _ _ sound.guarded _
      (fun bad => by cases bad)) ⟨rfl, rfl⟩
      (by simp) ⟨rfl, rfl⟩ (by simp) (silent count state sound (by simp [at_]) _ _) (by simp)
  · next none =>
      exact moved_counted count state sound _ _ at_ _ (main_moves _ _ _ _ sound.guarded _
        (fun bad => by cases bad)) ⟨rfl, rfl⟩
        (by simp) ⟨rfl, rfl⟩ (by simp) (silent count state sound (by simp [at_]) _ _)
          (fun _ => Int.not_lt.mp none)

/-- From `lock`, and back from `pthread_cond_wait`. -/
theorem entered_counted (place : MainPlace) (at_ : state.main = place)
    (from_ : place = .lock ∨ place = .wait) (free : state.monitor.owner = none)
    (asleep : state.monitor.waiting = false) :
    Counted count
      { state with monitor := { state.monitor with owner := some .main }, main := .check } := by
  rcases from_ with rfl | rfl
  · exact moved_counted count state sound _ _ at_ _ (main_locks _ _ _ _ sound.guarded free _ _)
      ⟨rfl, rfl⟩ (by simp) ⟨rfl, rfl⟩
      (by simp) (by simp [asleep]) (by simp)
  · exact moved_counted count state sound _ _ at_ _ (main_locks _ _ _ _ sound.guarded free _ _)
      ⟨rfl, rfl⟩ (by simp) ⟨rfl, rfl⟩
      (by simp) (by simp [asleep]) (by simp)

theorem wait_counted (at_ : state.main = .check) (none : state.numUnjoined = 0) :
    Counted count { state with monitor := wait state.monitor, main := .wait } := by
  refine moved_counted count state sound _ _ at_ _ (main_unlocks _ _ _ _ sound.guarded
    (by rw [at_]; rfl) _) ⟨rfl, rfl⟩
    (by simp) ⟨rfl, rfl⟩ (by simp) (fun _ => ⟨rfl, ?_⟩) (by simp)
  rw [none, Indexed.sum_indicator (fun thread => thread.place.unsignalled) Thread.owed state.threads
      fun _ _ => rfl]
  exact Int.natCast_nonneg _

/-- On through the section, to a place of the scan or to its end. -/
theorem scan_counted (place main : MainPlace) (at_ : state.main = place)
    (from_ : place = .check ∨ ∃ idx, place = .scan idx)
    (onto : (∃ idx, main = .scan idx) ∨ main = .unlock ∨ ∃ idx, main = .join idx ∧
      ∃ thread, state.threads[idx]? = some thread ∧ thread.state = .terminated) : Counted count
        { state with main } := by
  have inside : state.main.inside = true := by
    rw [at_]
    rcases from_ with rfl | ⟨_, rfl⟩ <;> rfl
  have first : place.created = true ∧ place.unjoined = 0 ∧ place.unreaped = 0 := by
    rcases from_ with rfl | ⟨_, rfl⟩ <;> exact ⟨rfl, rfl, rfl⟩
  have last : main.created = true ∧ main.unjoined = 0 ∧ main.unreaped = 0 := by
    rcases onto with ⟨_, rfl⟩ | rfl | ⟨_, rfl, _⟩ <;> exact ⟨rfl, rfl, rfl⟩
  refine moved_counted count state sound place main at_ _ (main_moves _ _ _ _ sound.guarded _
    fun _ => inside)
    ⟨first.1, last.1⟩ ?_ ⟨last.2.1.trans first.2.1.symm,
      last.2.2.trans first.2.2.symm⟩ ?_ ?_ ?_
  · intro idx
    constructor
    · rcases from_ with rfl | ⟨_, rfl⟩ <;> simp
    · rcases onto with ⟨_, rfl⟩ | rfl | ⟨_, rfl, _⟩ <;> simp
  · rintro idx rfl
    rcases onto with ⟨_, bad⟩ | bad | ⟨_, same, found⟩
    · cases bad
    · cases bad
    · cases same
      exact found
  · exact silent count state sound (by rcases from_ with rfl | ⟨_, rfl⟩ <;> simp [at_]) _ _
  · rcases onto with ⟨_, rfl⟩ | rfl | ⟨_, rfl, _⟩ <;> simp

theorem live_counted (idx : Nat) (at_ : state.main = .live idx) :
    Counted count { state with main := .count idx, numLive := state.numLive - 1 } := by
  have live := sound.live (by rw [at_]; rfl)
  refine main_counted count state sound _ _ _ _ _ (main_moves _ _ _ _ sound.guarded _
    (fun _ => by rw [at_]; rfl)) (by simp)
    (by simp) (by simp [at_]) (by rw [at_]; rfl) (fun bad => by cases bad)
      (fun _ => ⟨live.1, ?_⟩) (by simp)
    (silent count state sound (by simp [at_]) _ _) (by simp)
  rw [live.2, at_]
  simp [MainPlace.unreaped]

theorem count_counted (idx : Nat) (at_ : state.main = .count idx) :
    Counted count { state with main := .scan (idx + 1), numUnjoined := state.numUnjoined - 1 } := by
  have live := sound.live (by rw [at_]; rfl)
  rw [at_] at live
  exact main_counted count state sound _ _ _ _ _ (main_moves _ _ _ _ sound.guarded _
    (fun _ => by rw [at_]; rfl)) (by simp)
    (by simp) (by simp [at_]) (by rw [at_]; simp [MainPlace.unjoined]) (fun bad => by cases bad)
      (fun _ => live)
    (by simp)
    (silent count state sound (by simp [at_]) _ _) (by simp)

theorem unlock_counted (at_ : state.main = .unlock) :
    Counted count { state with main := .test, monitor := unlock state.monitor } :=
  moved_counted count state sound _ _ at_ _ (main_unlocks _ _ _ _ sound.guarded
    (by rw [at_]; rfl) _) ⟨rfl, rfl⟩
    (by simp) ⟨rfl, rfl⟩ (by simp) (silent count state sound (by simp [at_]) _ _) (by simp)

theorem main_step_counted (after : State) (taken : stepMain state = some after) :
    Counted count after := by
  unfold stepMain at taken
  split at taken
  · next idx at_ =>
      split at taken
      · next room =>
          cases taken
          exact create_counted count state sound idx at_ room
      · cases taken
        exact created_counted count state sound idx at_
  · next at_ =>
      cases taken
      exact assign_counted count state sound at_
  · next at_ =>
      cases taken
      exact test_counted count state sound at_
  · next at_ =>
      obtain ⟨monitor, locked, rfl⟩ := Option.map_eq_some_iff.mp taken
      obtain ⟨free, rfl⟩ := lock_some _ _ _ locked
      exact entered_counted count state sound .lock at_ (Or.inl rfl) free
        (awake count state sound (by simp [at_]))
  · next at_ =>
      split at taken
      · next none =>
          cases taken
          exact wait_counted count state sound at_ none
      · cases taken
        exact scan_counted count state sound .check _ at_ (Or.inl rfl) (Or.inl ⟨0, rfl⟩)
  · next at_ =>
      obtain ⟨monitor, locked, rfl⟩ := Option.map_eq_some_iff.mp taken
      obtain ⟨asleep, free, rfl⟩ := relock_some _ _ _ locked
      exact entered_counted count state sound .wait at_ (Or.inr rfl) free asleep
  · next idx at_ =>
      split at taken
      · split at taken
        · next found =>
            cases taken
            exact scan_counted count state sound (.scan idx) _ at_ (Or.inr ⟨idx, rfl⟩)
              (Or.inr (Or.inr ⟨idx, rfl, Option.map_eq_some_iff.mp found⟩))
        · cases taken
          exact scan_counted count state sound (.scan idx) _ at_ (Or.inr ⟨idx, rfl⟩)
            (Or.inl ⟨idx + 1, rfl⟩)
      · cases taken
        exact scan_counted count state sound (.scan idx) _ at_ (Or.inr ⟨idx, rfl⟩)
          (Or.inr (Or.inl rfl))
  · next idx at_ =>
      split at taken
      · next returned =>
          cases taken
          exact join_counted count state sound idx at_ returned
      · cases taken
  · next idx at_ =>
      cases taken
      exact mark_counted count state sound idx at_
  · next idx at_ =>
      cases taken
      exact live_counted count state sound idx at_
  · next idx at_ =>
      cases taken
      exact count_counted count state sound idx at_
  · next at_ =>
      cases taken
      exact unlock_counted count state sound at_
  · cases taken

end Main

theorem step_counted (count : Nat) (choice : Choice) (before after : State)
    (sound : Counted count before) (taken : step choice before = some after) :
    Counted count after := by
  cases choice with
  | main => exact main_step_counted count before sound after taken
  | thread idx =>
      obtain ⟨thread, there, moved⟩ := Option.bind_eq_some_iff.mp taken
      exact thread_step_counted count before sound idx thread there after moved
  | wakeUp =>
      simp only [step] at taken
      split at taken
      · next waiting =>
          cases taken
          exact ⟨sound.size, sound.guarded, sound.fits, sound.unborn, sound.unjoined,
            sound.fresh, sound.live, sound.once,
            sound.logged, sound.joining, sound.marking, (fun bad => by cases bad), sound.finished⟩
      · cases taken

theorem reachable_counted (count : Nat) (state : State)
    (reached : Transition.Reachable (fun state => state = start count) step state) :
    Counted count state :=
  Transition.reachable_invariant (fun _ here => here ▸ start_counted count)
    (step_counted count) reached

/-! What the counts say outside the critical sections. -/

section Outside
variable (count : Nat) (state : State) (sound : Counted count state)
include sound

theorem free_unjoined (free : state.monitor.owner = none) :
    state.numUnjoined = state.threads.countP fun thread => thread.state = .terminated := by
  have nowhere : state.main.unjoined = 0 := by
    have outside := guarded_free _ _ sound.guarded free .main
    cases place : state.main <;> simp_all [Inside, MainPlace.inside, MainPlace.unjoined]
  rw [sound.unjoined, nowhere, Int.add_zero]
  apply Indexed.sum_indicator
  intro thread member
  obtain ⟨idx, there⟩ := List.getElem?_of_mem member
  have outside := guarded_free _ _ sound.guarded free (.thread idx)
  have unmarked : thread.place ≠ .mark := by
    intro here
    exact outside ⟨thread, there, by rw [Thread.inside, here]; rfl⟩
  simp [Thread.unjoined, unmarked]

theorem outside_live (made : state.main.created = true) (outside : state.main.inside = false) :
    state.numLive = state.threads.countP fun thread => thread.state ≠ .joined := by
  have nowhere : state.main.unreaped = 0 := by
    cases place : state.main <;> simp_all [MainPlace.inside, MainPlace.unreaped]
  rw [(sound.live made).2, nowhere, Int.add_zero]
  apply Indexed.sum_indicator
  intro thread _
  by_cases joined : thread.state = .joined <;> simp [Thread.unreaped, joined]

theorem finished_of_joined (thread : Thread) (member : thread ∈ state.threads)
    (joined : thread.state = .joined) : thread.place = .finished := by
  have fits := sound.fits thread member
  cases place : thread.place <;> simp_all [Thread.Fits]

theorem logged_finished (idx : Nat) (logged : idx ∈ state.log) :
    (state.threads[idx]?).map Thread.place = some .finished := by
  rcases (sound.logged idx).mp logged with ⟨thread, there, joined⟩ | marking
  · rw [there, Option.map_some,
        finished_of_joined count state sound thread (List.mem_of_getElem? there) joined]
  · rw [sound.marking idx marking]
    rfl

theorem joining_outside (idx : Nat) (at_ : state.main = .join idx) :
    ∃ thread, state.threads[idx]? = some thread ∧
    thread.state = .terminated ∧ (thread.place = .signal ∨ thread.place = .finished) := by
  obtain ⟨thread, there, terminated⟩ := sound.joining idx at_
  refine ⟨thread, there, terminated, ?_⟩
  have fits := sound.fits thread (List.mem_of_getElem? there)
  have outside : thread.place.inside ≠ true := by
    intro inside
    have same := guarded_alone _ _ sound.guarded .main (.thread idx) (by rw [Inside, at_]; rfl)
      ⟨thread, there, inside⟩
    cases same
  cases place : thread.place <;> simp_all [Thread.Fits, ThreadPlace.inside]

theorem exited_joined (at_ : state.main = .exited) (thread : Thread)
    (member : thread ∈ state.threads) : thread.state = .joined := by
  have fewer := sound.finished at_
  rw [outside_live count state sound (by rw [at_]; rfl) (by rw [at_]; rfl)] at fewer
  have none := List.countP_eq_zero.mp (Nat.le_zero.mp (Int.ofNat_le.mp fewer)) thread member
  simpa using none

theorem exited_log (at_ : state.main = .exited) : state.log.Perm (List.range count) := by
  rw [List.perm_ext_iff_of_nodup sound.once List.nodup_range]
  intro idx
  rw [sound.logged, at_, List.mem_range, ← sound.size]
  constructor
  · rintro (⟨thread, there, _⟩ | bad)
    · exact (List.getElem?_eq_some_iff.mp there).1
    · cases bad
  · intro room
    have there := List.getElem?_eq_getElem room
    exact Or.inl ⟨_, there, exited_joined count state sound at_ _ (List.mem_of_getElem? there)⟩

theorem waiting_owed (waiting : state.monitor.waiting = true) (some_ : 0 < state.numUnjoined) :
    ∃ thread ∈ state.threads, thread.place.unsignalled = true := by
  have owed := (sound.waits waiting).2
  rw [Indexed.sum_indicator (fun thread => thread.place.unsignalled) Thread.owed state.threads
      fun _ _ => rfl] at owed
  exact List.countP_pos_iff.mp (by omega)

end Outside

theorem threads_are_joined (count : Nat) (state : State)
    (reached : Transition.Reachable (fun state => state = start count) step state) :
    (state.monitor.owner = none → state.numUnjoined = state.threads.countP fun thread =>
      thread.state = .terminated) ∧
    (state.main.created = true → state.main.inside = false →
      state.numLive = state.threads.countP fun thread => thread.state ≠ .joined) ∧
    (∀ idx, state.main = .join idx → ∃ thread, state.threads[idx]? = some thread ∧
      thread.state = .terminated ∧
      (thread.place = .signal ∨ thread.place = .finished)) ∧
    (state.log.Nodup ∧ ∀ idx ∈ state.log,
      (state.threads[idx]?).map Thread.place = some .finished) ∧
    (state.main = .exited → (∀ thread ∈ state.threads, thread.state = .joined) ∧
      state.log.Perm (List.range count)) ∧
    (state.monitor.waiting = true → 0 < state.numUnjoined →
      state.main = .wait ∧ ∃ thread ∈ state.threads, thread.place.unsignalled = true) := by
  have sound := reachable_counted count state reached
  refine ⟨free_unjoined count state sound, outside_live count state sound,
    joining_outside count state sound, ⟨sound.once, logged_finished count state sound⟩,
    ?_, ?_⟩
  · intro at_
    exact ⟨exited_joined count state sound at_, exited_log count state sound at_⟩
  · intro waiting some_
    exact ⟨(sound.waits waiting).1, waiting_owed count state sound waiting some_⟩

-- The first thread ends before the second exists; the main thread is woken once for nothing.
theorem two_threads_are_joined :
    ∃ state, Transition.replay step [.main, .thread 0, .thread 0, .thread 0, .thread 0,
      .thread 0, .main, .main, .main, .main,
        .main, .main, .main, .main, .main, .main, .main, .main, .main, .main, .main, .main,
        .main, .wakeUp, .main,
          .main,
        .thread 1, .thread 1, .thread 1, .thread 1, .thread 1, .main, .main, .main, .main, .main,
        .main, .main, .main,
          .main,
        .main, .main] (start 2) = some state ∧
      state.numLive = 0 ∧ state.log.Perm (List.range 2) := by
  obtain ⟨state, replayed, none, place⟩ : ∃ state,
    Transition.replay step [.main, .thread 0, .thread 0, .thread 0, .thread 0,
      .thread 0, .main, .main, .main, .main, .main, .main, .main, .main, .main, .main, .main,
      .main, .main, .main,
        .main, .main,
      .main, .wakeUp, .main, .main, .thread 1, .thread 1, .thread 1, .thread 1, .thread 1, .main,
      .main, .main, .main,
        .main,
      .main, .main, .main, .main, .main, .main] (start 2) = some state ∧ state.numLive = 0 ∧
      state.main = .exited :=
    ⟨_, rfl, rfl, rfl⟩
  have reached : Transition.Reachable (fun state => state = start 2) step state :=
    Transition.replay_reachable _ (.start rfl) replayed
  exact ⟨state, replayed, none, ((threads_are_joined 2 state reached).2.2.2.2.1 place).2⟩

end Tlpi.ThreadJoining
