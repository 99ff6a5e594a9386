import Mathlib.Data.List.Basic
import Tlpi.Indexed
import Tlpi.Transition

/-!
threads/one_time_init.c: threads that call `one_time_init` on one `once_struct`, each as
often as it likes. The functions of the pthreads library return a positive error number
when they fail. A mutex may or may not be released by a thread that does not hold it.
-/

namespace Tlpi.OneTimeInit

/-- What a thread does next: nothing of a call yet, or a statement of it. `locked` tells
whether the call holds the mutex. -/
inductive Place where
  | lock
  | test (locked : Bool)
  | init
  | set
  | unlock
  deriving DecidableEq

structure Thread where
  calls : Nat
  place : Place
  deriving DecidableEq

/-- `started` and `completed` count executions of `init`, `returned` calls. -/
structure State where
  threads : List Thread
  called : Bool
  owner : Option Nat
  exited : Bool
  started : Nat
  completed : Nat
  returned : Nat
  deriving DecidableEq

inductive Choice where
  | step (idx : Nat)
  | lockFails (idx : Nat) (error : Nat)
  | strayRelease (idx : Nat)
  deriving DecidableEq

def State.move (state : State) (idx : Nat) (thread : Thread) (place : Place) : State :=
  { state with threads := state.threads.set idx { thread with place := place } }

/-- `errExitEN` is reached when the library's answer is -1. -/
def checked (s : Int) (exit next : State) : State := if s = -1 then exit else next

def stepThread (state : State) (idx : Nat) (thread : Thread) : Option State :=
  match thread.place with
  | .lock =>
      if thread.calls = 0 then none
      else
        match state.owner with
        | some _ => none
        | none => some (checked 0 { state with exited := true } { state.move idx thread
          (.test true) with owner := some idx })
  | .test _ =>
      if state.called then some (state.move idx thread .unlock)
      else some { state.move idx thread .init with started := state.started + 1 }
  | .init => some { state.move idx thread .set with completed := state.completed + 1 }
  | .set => some { state.move idx thread .unlock with called := true }
  | .unlock => some { state with
      threads := state.threads.set idx ⟨thread.calls - 1, .lock⟩
      owner := if state.owner = some idx then none else state.owner
      returned := state.returned + 1 }

def step (choice : Choice) (state : State) : Option State :=
  if state.exited then none
  else
    match choice with
    | .step idx => (state.threads[idx]?).bind (stepThread state idx)
    | .lockFails idx error =>
        (state.threads[idx]?).bind fun thread =>
          if thread.place = .lock ∧ thread.calls ≠ 0 ∧ 0 < error then
            some (checked error { state with exited := true } (state.move idx thread (.test false)))
          else none
    | .strayRelease idx =>
        (state.threads[idx]?).bind fun thread =>
          if thread.place = .unlock ∧ state.owner ≠ some idx then
            (stepThread state idx thread).map fun after => { after with owner := none }
          else none

def start (calls : List Nat) : State :=
  ⟨calls.map fun count => ⟨count, .lock⟩, false, none, false, 0, 0, 0⟩

/-- A call whose lock failed does not find `called` still 0. -/
def covered (choice : Choice) (state : State) : Bool :=
  match choice with
  | .step idx =>
      (state.threads[idx]?).all fun thread => thread.place ≠ .test false || state.called
  | _ => true

def Once (state : State) : Prop :=
  state.started ≤ 1 ∧ (0 < state.returned → 0 < state.completed)

/-! Until `called` is set, the mutex excludes all but one call. -/

def Place.inside : Place → Bool
  | .test true | .init | .set => true
  | _ => false

def Place.running : Place → Bool
  | .init | .set => true
  | _ => false

structure Sound (state : State) : Prop where
  alone : state.called = false → ∀ (idx : Nat) thread, state.threads[idx]? = some thread →
    thread.place.inside = true →
    state.owner = some idx
  early : state.called = false → state.returned = 0 ∧ ∀ thread ∈ state.threads,
    thread.place ≠ .unlock
  begun : state.called = false →
    state.started = 0 ∧ (∀ thread ∈ state.threads, thread.place.running = false) ∨
    state.started = 1 ∧ ∃ (idx : Nat) (thread : Thread), state.threads[idx]? = some thread ∧
      thread.place.running = true
  completing : ∀ thread ∈ state.threads, thread.place = .set → 0 < state.completed
  over_ : state.called = true → state.started = 1 ∧ 0 < state.completed ∧
    ∀ thread ∈ state.threads, thread.place.running = false

theorem start_sound (calls : List Nat) : Sound (start calls) := by
  have only : ∀ thread ∈ (start calls).threads, thread.place = .lock := by
    intro thread member
    obtain ⟨count, _, rfl⟩ := List.mem_map.mp member
    rfl
  refine ⟨fun _ idx thread there inside => ?_, fun _ => ⟨rfl, fun thread member bad => ?_⟩,
    fun _ => Or.inl ⟨rfl, fun thread member => ?_⟩,
    fun thread member bad => ?_, fun bad => by cases bad⟩
  · rw [only thread (List.mem_of_getElem? there)] at inside
    cases inside
  · rw [only thread member] at bad
    cases bad
  · rw [only thread member]
    rfl
  · rw [only thread member] at bad
    cases bad

theorem sound_once (state : State) (sound : Sound state) : Once state := by
  cases called : state.called with
  | false =>
      constructor
      · rcases sound.begun called with ⟨none, _⟩ | ⟨one, _⟩ <;> omega
      · intro some_
        rw [(sound.early called).1] at some_
        cases some_
  | true =>
      obtain ⟨one, completed, _⟩ := sound.over_ called
      exact ⟨by omega, fun _ => completed⟩

theorem running_inside (place : Place) (running : place.running = true) : place.inside = true := by
  cases place <;> first | rfl | cases running

section Steps
variable (state : State) (sound : Sound state) (idx : Nat) (thread : Thread)
  (there : state.threads[idx]? = some thread)
include sound there

/-- Moves outside `init`. -/
theorem moved_sound (new : Thread) (owner : Option Nat) (returned : Nat)
    (before : thread.place.running = false) (after : new.place.running = false)
    (inside : state.called = false → new.place.inside = true → owner = some idx)
    (others : state.called = false → owner = state.owner ∨ state.owner = none)
    (early : state.called = false → returned = state.returned ∧ new.place ≠ .unlock) :
    Sound { state with threads := state.threads.set idx new, owner, returned } := by
  constructor
  · intro called other one found held
    rcases Indexed.set_cases _ _ _ _ _ found with ⟨rfl, rfl⟩ | ⟨_, old⟩
    · exact inside called held
    · have owned := sound.alone called other one old held
      rcases others called with same | free
      · exact same.trans owned
      · rw [free] at owned
        cases owned
  · intro called
    obtain ⟨same, outside⟩ := early called
    obtain ⟨none, elsewhere⟩ := sound.early called
    refine ⟨same.trans none, fun one member => ?_⟩
    rcases List.mem_or_eq_of_mem_set member with old | rfl
    · exact elsewhere one old
    · exact outside
  · intro called
    rcases sound.begun called with ⟨none, quiet⟩ | ⟨once, other, one, found, running⟩
    · refine Or.inl ⟨none, fun one member => ?_⟩
      rcases List.mem_or_eq_of_mem_set member with old | rfl
      · exact quiet one old
      · exact after
    · refine Or.inr ⟨once, other, one, ?_, running⟩
      dsimp only
      rw [List.getElem?_set_ne]
      · exact found
      · rintro rfl
        rw [there] at found
        cases found
        rw [before] at running
        cases running
  · intro one member place
    rcases List.mem_or_eq_of_mem_set member with old | rfl
    · exact sound.completing one old place
    · rw [place] at after
      cases after
  · intro called
    obtain ⟨once, completed, quiet⟩ := sound.over_ called
    refine ⟨once, completed, fun one member => ?_⟩
    rcases List.mem_or_eq_of_mem_set member with old | rfl
    · exact quiet one old
    · exact after

/-- The owner of the mutex is the only one to find `called` unset. -/
theorem init_sound (place : thread.place = .test true) (called : state.called = false) :
    Sound { state.move idx thread .init with started := state.started + 1 } := by
  have owned := sound.alone called idx thread there (by rw [place]; rfl)
  have none : state.started = 0 := by
    rcases sound.begun called with ⟨none, _⟩ | ⟨_, other, one, found, running⟩
    · exact none
    · have same := sound.alone called other one found (running_inside one.place running)
      rw [owned] at same
      cases same
      rw [there] at found
      cases found
      rw [place] at running
      cases running
  constructor
  · intro _ other one found held
    rcases Indexed.set_cases _ _ _ _ _ found with ⟨rfl, _⟩ | ⟨_, old⟩
    · exact owned
    · exact sound.alone called other one old held
  · intro _
    refine ⟨(sound.early called).1, fun one member => ?_⟩
    rcases List.mem_or_eq_of_mem_set member with old | rfl
    · exact (sound.early called).2 one old
    · exact fun bad => by cases bad
  · intro _
    exact Or.inr ⟨congrArg (· + 1) none, idx, _, Indexed.set_self _ _ _ _ there, rfl⟩
  · intro one member here
    rcases List.mem_or_eq_of_mem_set member with old | rfl
    · exact sound.completing one old here
    · cases here
  · intro set
    rw [State.move, called] at set
    cases set

theorem completed_sound (place : thread.place = .init) :
    Sound { state.move idx thread .set with completed := state.completed + 1 } := by
  have open_ : state.called = false := by
    by_contra set
    have quiet :=
      (sound.over_ (Bool.eq_true_of_not_eq_false set)).2.2 thread (List.mem_of_getElem? there)
    rw [place] at quiet
    cases quiet
  constructor
  · intro called other one found held
    rcases Indexed.set_cases _ _ _ _ _ found with ⟨rfl, _⟩ | ⟨_, old⟩
    · exact sound.alone called other thread there (by rw [place]; rfl)
    · exact sound.alone called other one old held
  · intro called
    refine ⟨(sound.early called).1, fun one member => ?_⟩
    rcases List.mem_or_eq_of_mem_set member with old | rfl
    · exact (sound.early called).2 one old
    · exact fun bad => by cases bad
  · intro called
    rcases sound.begun called with ⟨_, quiet⟩ | ⟨once, _⟩
    · have bad := quiet thread (List.mem_of_getElem? there)
      rw [place] at bad
      cases bad
    · exact Or.inr ⟨once, idx, _, Indexed.set_self _ _ _ _ there, rfl⟩
  · intro _ _ _
    exact Nat.succ_pos _
  · intro set
    rw [State.move, open_] at set
    cases set

theorem set_sound (place : thread.place = .set) :
    Sound { state.move idx thread .unlock with called := true } := by
  have open_ : state.called = false := by
    by_contra set
    have quiet :=
      (sound.over_ (Bool.eq_true_of_not_eq_false set)).2.2 thread (List.mem_of_getElem? there)
    rw [place] at quiet
    cases quiet
  have owned := sound.alone open_ idx thread there (by rw [place]; rfl)
  constructor
  · intro bad
    cases bad
  · intro bad
    cases bad
  · intro bad
    cases bad
  · intro one member here
    rcases List.mem_or_eq_of_mem_set member with old | rfl
    · exact sound.completing one old here
    · cases here
  · intro _
    refine ⟨?_, sound.completing thread (List.mem_of_getElem? there) place,
      fun one member => ?_⟩
    · rcases sound.begun open_ with ⟨_, quiet⟩ | ⟨once, _⟩
      · have bad := quiet thread (List.mem_of_getElem? there)
        rw [place] at bad
        cases bad
      · exact once
    · obtain ⟨other, found⟩ := List.getElem?_of_mem member
      rcases Indexed.set_cases _ _ _ _ _ found with ⟨_, rfl⟩ | ⟨different, old⟩
      · rfl
      · by_contra running
        have same := sound.alone open_ other one old (running_inside one.place
          (Bool.eq_true_of_not_eq_false running))
        rw [owned] at same
        cases same
        exact different rfl

end Steps

section Calls
variable (state : State) (sound : Sound state) (idx : Nat) (thread : Thread)
  (there : state.threads[idx]? = some thread)
include sound there

theorem returned_sound (place : thread.place = .unlock) (owner : Option Nat) (returned : Nat) :
    Sound { state with
      threads := state.threads.set idx ⟨thread.calls - 1, .lock⟩, owner, returned } := by
  have set : state.called ≠ false := by
    intro open_
    exact (sound.early open_).2 thread (List.mem_of_getElem? there) place
  exact moved_sound state sound idx thread there _ owner returned (by rw [place]; rfl) rfl
    (fun open_ => absurd open_ set)
    (fun open_ => absurd open_ set) (fun open_ => absurd open_ set)

theorem thread_step_sound (fine : thread.place ≠ .test false ∨ state.called = true)
    (after : State) (taken : stepThread state idx thread = some after) : Sound after := by
  unfold stepThread at taken
  split at taken
  · next place =>
      split at taken
      · cases taken
      · split at taken
        · cases taken
        · next free =>
            cases taken
            exact moved_sound state sound idx thread there _ _ _ (by rw [place]; rfl) rfl
              (fun _ _ => rfl) (fun _ => Or.inr free) (fun _ => ⟨rfl, fun bad => by cases bad⟩)
  · next locked place =>
      split at taken
      · next set =>
          cases taken
          exact moved_sound state sound idx thread there _ _ _ (by rw [place]; rfl) rfl
            (fun _ bad => by cases bad)
            (fun _ => Or.inl rfl) (fun open_ => by rw [set] at open_; cases open_)
      · next unset =>
          cases taken
          have open_ := Bool.eq_false_iff.mpr unset
          refine init_sound state sound idx thread there ?_ open_
          cases locked with
          | true => exact place
          | false => exact absurd (fine.resolve_left (fun different => different place)) unset
  · next place =>
      cases taken
      exact completed_sound state sound idx thread there place
  · next place =>
      cases taken
      exact set_sound state sound idx thread there place
  · next place =>
      cases taken
      exact returned_sound state sound idx thread there place _ _

end Calls

theorem step_sound (choice : Choice) (before after : State) (sound : Sound before)
    (taken : Transition.restrict covered step choice before = some after) : Sound after := by
  obtain ⟨fine, taken⟩ := Transition.restrict_some taken
  unfold step at taken
  split at taken
  · cases taken
  · cases choice with
    | step idx =>
        obtain ⟨thread, there, moved⟩ := Option.bind_eq_some_iff.mp taken
        have allowed : thread.place ≠ .test false ∨ before.called = true := by
          simpa [covered, there] using fine
        exact thread_step_sound before sound idx thread there allowed after moved
    | lockFails idx error =>
        obtain ⟨thread, there, moved⟩ := Option.bind_eq_some_iff.mp taken
        split at moved
        · next lawful =>
            -- an error number is positive, so the code takes the lock for granted
            have positive : (error : Int) ≠ -1 := by omega
            rw [checked, if_neg positive] at moved
            cases moved
            exact moved_sound before sound idx thread there _ _ _ (by rw [lawful.1]; rfl) rfl
              (fun _ bad => by cases bad)
              (fun _ => Or.inl rfl) (fun _ => ⟨rfl, fun bad => by cases bad⟩)
        · cases moved
    | strayRelease idx =>
        obtain ⟨thread, there, moved⟩ := Option.bind_eq_some_iff.mp taken
        split at moved
        · next lawful =>
            rw [stepThread, lawful.1] at moved
            cases moved
            exact returned_sound before sound idx thread there lawful.1 _ _
        · cases moved

theorem init_runs_once (calls : List Nat) (state : State)
    (reached : Transition.Reachable (fun state => state = start calls)
    (Transition.restrict covered step) state) : Once state :=
  sound_once state (Transition.reachable_invariant (fun _ here => here ▸ start_sound calls)
    step_sound reached)

-- The second call waits for the first, and the third is let through without the mutex.
theorem three_calls_run_init_once :
    ∃ state, Transition.replay (Transition.restrict covered step) [.step 0, .step 0, .step 0,
        .step 0, .step 0, .step 1, .lockFails 0 22, .step 0, .strayRelease 0, .step 1,
        .step 1] (start [2, 1]) = some state ∧
      state.returned = 3 ∧ Once state := by
  obtain ⟨state, replayed, returned⟩ : ∃ state, Transition.replay
    (Transition.restrict covered step) [.step 0, .step 0, .step 0,
      .step 0, .step 0, .step 1, .lockFails 0 22, .step 0, .strayRelease 0, .step 1, .step 1]
        (start [2, 1]) = some state ∧
      state.returned = 3 := ⟨_, rfl, rfl⟩
  have reached : Transition.Reachable (fun state => state = start [2, 1])
      (Transition.restrict covered step) state :=
    Transition.replay_reachable _ (.start rfl) replayed
  exact ⟨state, replayed, returned, init_runs_once [2, 1] state reached⟩

-- While one call is in `init`, the lock of another fails with EINVAL.
theorem failed_lock_runs_init_again :
    ¬ ∀ (calls : List Nat) (state : State),
      Transition.Reachable (fun state => state = start calls) step state → Once state := by
  intro claimed
  obtain ⟨state, replayed, twice⟩ : ∃ state,
      Transition.replay step [.step 0, .step 0, .lockFails 1 22, .step 1] (start [1, 1]) =
        some state ∧ state.started = 2 :=
    ⟨_, rfl, rfl⟩
  have reached : Transition.Reachable (fun state => state = start [1, 1]) step state :=
    Transition.replay_reachable _ (.start rfl) replayed
  have once := (claimed [1, 1] state reached).1
  omega

end Tlpi.OneTimeInit
