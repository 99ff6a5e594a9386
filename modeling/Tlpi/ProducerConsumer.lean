import Mathlib.Algebra.Order.Ring.Int
import Mathlib.Data.List.Basic
import Tlpi.Indexed
import Tlpi.Monitors
import Tlpi.Transition

/-!
threads/prod_condvar.c: threads that produce units and a main thread that consumes
them. The counts are what `atoi` makes of the arguments. Every statement that reads or
writes `avail` is a step of its own, and all arithmetic is that of a 32-bit int.
-/

namespace Tlpi.ProducerConsumer

open Monitors

/-- What a thread does next; `lock` covers its sleep. -/
inductive ThreadPlace where
  | unborn
  | test
  | lock
  | produce
  | unlock
  | signal
  | finished
  deriving DecidableEq

structure Thread where
  place : ThreadPlace
  cnt : Int
  j : Int
  deriving DecidableEq

inductive MainPlace where
  | add (j : Nat)
  | create (j : Nat)
  | reset
  | lock
  | check
  | wait
  | drain
  | consume
  | take
  | finish
  | unlock
  | leave
  | exited
  deriving DecidableEq

structure State where
  main : MainPlace
  threads : List Thread
  totRequired : Int
  numConsumed : Int
  done : Bool
  avail : Int
  monitor : Monitor Member
  deriving DecidableEq

/-- `wakeUp` is a return from `pthread_cond_wait` that nobody asked for. -/
inductive Choice where
  | main
  | thread (idx : Nat)
  | wakeUp
  deriving DecidableEq

def int (value : Int) : Int := value.bmod (2 ^ 32)

/-- `threadFunc`. -/
def stepThread (state : State) (idx : Nat) (thread : Thread) : Option State :=
  match thread.place with
  | .unborn => none
  | .test => some { state with
      threads := state.threads.set idx
        { thread with place := if thread.j < thread.cnt then .lock else .finished } }
  | .lock => (lock state.monitor (.thread idx)).map fun monitor =>
      { state with
        monitor := monitor, threads := state.threads.set idx { thread with place := .produce } }
  | .produce => some { state with
      avail := int (state.avail + 1)
      threads := state.threads.set idx { thread with place := .unlock } }
  | .unlock => some { state with
      monitor := unlock state.monitor
      threads := state.threads.set idx { thread with place := .signal } }
  | .signal => some { state with
      monitor := signal state.monitor
      threads := state.threads.set idx { thread with place := .test, j := int (thread.j + 1) } }
  | .finished => none

/-- `main`, whose argument number `j + 1` is the count of the thread `j`. -/
def stepMain (state : State) : Option State :=
  match state.main with
  | .add j =>
      match state.threads[j]? with
      | some thread =>
          some { state with main := .create j, totRequired := int (state.totRequired + thread.cnt) }
      | none => some { state with main := .reset }
  | .create j => some { state with
      main := .add (j + 1)
      threads := state.threads.modify j fun thread => { thread with place := .test, j := 0 } }
  | .reset => some { state with main := .lock, numConsumed := 0, done := false }
  | .lock => (lock state.monitor .main).map fun monitor =>
      { state with monitor := monitor, main := .check }
  | .check =>
      if state.avail = 0 then some { state with monitor := wait state.monitor, main := .wait }
      else some { state with main := .drain }
  | .wait => (relock state.monitor .main).map fun monitor =>
      { state with monitor := monitor, main := .check }
  | .drain => some { state with main := if state.avail > 0 then .consume else .unlock }
  | .consume => some { state with main := .take, numConsumed := int (state.numConsumed + 1) }
  | .take => some { state with main := .finish, avail := int (state.avail - 1) }
  | .finish =>
      some { state with main := .drain, done := decide (state.numConsumed ≥ state.totRequired) }
  | .unlock => some { state with main := .leave, monitor := unlock state.monitor }
  | .leave => some { state with main := if state.done then .exited else .lock }
  | .exited => none

def step (choice : Choice) (state : State) : Option State :=
  match choice with
  | .main => stepMain state
  | .thread idx => (state.threads[idx]?).bind (stepThread state idx)
  | .wakeUp =>
      if state.monitor.waiting then some { state with monitor := signal state.monitor } else none

/-- What `numConsumed` and `done` hold before `main` sets them is arbitrary. -/
def start (counts : List Int) (numConsumed : Int) (done : Bool) : State :=
  ⟨.add 0, counts.map fun cnt => ⟨.unborn, cnt, 0⟩, 0, numConsumed, done, 0, idle⟩

/-! What has been produced, consumed and announced. -/

def ThreadPlace.inside : ThreadPlace → Bool
  | .produce | .unlock => true
  | _ => false

def Thread.inside (thread : Thread) : Bool := thread.place.inside

/-- Between `avail++` and the end of `pthread_cond_signal`. -/
def ThreadPlace.unsignalled : ThreadPlace → Bool
  | .unlock | .signal => true
  | _ => false

/-- How often a thread has run `avail++`. -/
def Thread.produced (thread : Thread) : Int := thread.j + if thread.place.unsignalled then 1 else 0

def Thread.owed (thread : Thread) : Int := if thread.place.unsignalled then 1 else 0

def MainPlace.inside : MainPlace → Bool
  | .check | .drain | .consume | .take | .finish | .unlock => true
  | _ => false

/-- `numConsumed` has been set. -/
def MainPlace.started : MainPlace → Bool
  | .add _ | .create _ | .reset => false
  | _ => true

/-- How many counts are in `totRequired`. -/
def MainPlace.summed (all : Nat) : MainPlace → Nat
  | .add j => j
  | .create j => j + 1
  | _ => all

/-- A unit counted as consumed that is still in `avail`. -/
def MainPlace.pending : MainPlace → Int
  | .take => 1
  | _ => 0

/-- How many threads have been created. -/
def MainPlace.created (all : Nat) : MainPlace → Nat
  | .add j | .create j => j
  | _ => all

/-- `done` tells whether enough has been consumed. -/
def MainPlace.judged : MainPlace → Bool
  | .add _ | .create _ | .reset | .take | .finish => false
  | _ => true

/-- There is more to consume. -/
def MainPlace.looping : MainPlace → Bool
  | .lock | .check | .wait => true
  | _ => false

/-- How far a thread has come in its loop. -/
def Thread.Fits (thread : Thread) : Prop :=
  match thread.place with
  | .unborn => thread.j = 0 ∧ 0 ≤ thread.cnt
  | .test => 0 ≤ thread.j ∧ thread.j ≤ thread.cnt
  | .lock | .produce | .unlock | .signal => 0 ≤ thread.j ∧ thread.j < thread.cnt
  | .finished => 0 ≤ thread.j ∧ thread.j = thread.cnt

def State.produced (state : State) : Int := (state.threads.map Thread.produced).sum

def State.consumed (state : State) : Int := if state.main.started then state.numConsumed else 0

structure Conserved (counts : List Int) (state : State) : Prop where
  counted : state.threads.map Thread.cnt = counts
  guarded : Guarded state.monitor (Inside state.main.inside Thread.inside state.threads)
  fits : ∀ thread ∈ state.threads, thread.Fits
  unborn : ∀ idx thread, state.main.created counts.length ≤ idx →
    state.threads[idx]? = some thread →
    thread.place = .unborn
  total : state.totRequired = (counts.take (state.main.summed counts.length)).sum
  kept : state.consumed + state.avail = state.produced + state.main.pending
  consumed : 0 ≤ state.consumed
  avail : 0 ≤ state.avail
  some_ : state.main = .consume ∨ state.main = .take → 0 < state.avail
  judged : state.main.judged = true → state.done = decide (counts.sum ≤ state.numConsumed)
  looping : state.main.looping = true → state.numConsumed < counts.sum
  waits : state.monitor.waiting = true →
    state.main = .wait ∧ state.avail ≤ (state.threads.map Thread.owed).sum
  left_ : state.main = .exited → counts.sum ≤ state.numConsumed

theorem int_exact (value : Int) (positive : 0 ≤ value) (fitting : value < 2 ^ 31) :
    int value = value := by
  apply Int.bmod_eq_of_le <;> omega

theorem produced_le (threads : List Thread) (fits : ∀ thread ∈ threads, thread.Fits) :
    (threads.map Thread.produced).sum ≤ (threads.map Thread.cnt).sum := by
  apply List.sum_le_sum
  intro thread member
  have fit := fits thread member
  obtain ⟨place, cnt, j⟩ := thread
  cases place <;> simp only [Thread.Fits, Thread.produced, ThreadPlace.unsignalled] at fit ⊢ <;>
    simp <;> omega

theorem started_created (all : Nat) (place : MainPlace) (started : place.started = true) :
    place.created all = all ∧ place.summed all = all := by
  cases place <;> first | exact ⟨rfl, rfl⟩ | cases started

section Steps
variable (counts : List Int) (nonneg : ∀ cnt ∈ counts, 0 ≤ cnt)
  (fitting : counts.sum < 2 ^ 31) (state : State) (sound : Conserved counts state)

include sound in
theorem thread_conserved (idx : Nat) (thread new : Thread)
    (there : state.threads[idx]? = some thread) (avail : Int) (monitor : Monitor Member)
    (guarded : Guarded monitor (Inside state.main.inside Thread.inside (state.threads.set idx new)))
    (same : new.cnt = thread.cnt) (fits : new.Fits) (born : thread.place ≠ .unborn)
    (produced : avail + thread.produced = state.avail + new.produced) (more : state.avail ≤ avail)
    (waits : monitor.waiting = true → state.monitor.waiting = true ∧ avail + thread.owed ≤
      state.avail + new.owed) :
    Conserved counts { state with avail, monitor, threads := state.threads.set idx new } := by
  refine { sound with
    counted := ?_
    guarded := guarded
    fits := ?_
    unborn := ?_
    kept := ?_
    avail := ?_
    some_ := ?_
    waits := ?_ }
  · exact (Indexed.map_set_same Thread.cnt state.threads idx thread new there same).trans
      sound.counted
  · intro one member
    rcases List.mem_or_eq_of_mem_set member with old | rfl
    · exact sound.fits one old
    · exact fits
  · intro other one later found
    rcases Indexed.set_cases _ _ _ _ _ found with ⟨rfl, _⟩ | ⟨_, old⟩
    · exact absurd (sound.unborn other thread later there) born
    · exact sound.unborn other one later old
  · have sums := Indexed.sum_set Thread.produced state.threads idx thread new there
    have whole := sound.kept
    simp only [State.consumed, State.produced] at whole ⊢
    omega
  · exact Int.le_trans sound.avail more
  · intro place
    exact Int.lt_of_lt_of_le (sound.some_ place) more
  · intro waiting
    obtain ⟨before, fewer⟩ := waits waiting
    obtain ⟨place, owed⟩ := sound.waits before
    have sums := Indexed.sum_set Thread.owed state.threads idx thread new there
    refine ⟨place, ?_⟩
    dsimp only
    omega

include sound in
theorem produced_fits : state.produced ≤ counts.sum := by
  have bound := produced_le state.threads sound.fits
  rw [sound.counted] at bound
  exact bound

include nonneg sound in
theorem cnt_fits (thread : Thread) (member : thread ∈ state.threads) :
    thread.cnt ≤ counts.sum := by
  have present : thread.cnt ∈ counts := by
    rw [← sound.counted]
    exact List.mem_map_of_mem member
  exact List.single_le_sum nonneg thread.cnt present

include sound in
/-- A unit that a thread is about to produce is one of those counted. -/
theorem produce_fits (idx : Nat) (cnt j : Int)
    (there : state.threads[idx]? = some ⟨.produce, cnt, j⟩)
    (fits : Thread.Fits ⟨.produce, cnt, j⟩) : state.avail + 1 ≤ counts.sum := by
  -- the mutex is this thread's, so the main thread is not between its two updates
  have outside : state.main.inside = false := by
    by_contra held
    have same := guarded_alone _ _ sound.guarded (.thread idx) .main ⟨_, there, rfl⟩
      (Bool.eq_true_of_not_eq_false held)
    cases same
  have nothing : state.main.pending = 0 := by
    cases place : state.main <;> simp_all [MainPlace.inside, MainPlace.pending]
  have sums := Indexed.sum_set Thread.produced state.threads idx _ ⟨.unlock, cnt, j⟩ there
  have more := produced_le (state.threads.set idx ⟨.unlock, cnt, j⟩) (fun one member => by
    rcases List.mem_or_eq_of_mem_set member with old | rfl
    · exact sound.fits one old
    · exact fits)
  rw [Indexed.map_set_same Thread.cnt state.threads idx _ ⟨.unlock, cnt, j⟩ there rfl,
      sound.counted] at more
  have before : Thread.produced ⟨.produce, cnt, j⟩ = j := Int.add_zero j
  have after : Thread.produced ⟨.unlock, cnt, j⟩ = j + 1 := rfl
  have whole := sound.kept
  have consumed := sound.consumed
  simp only [State.produced] at whole
  omega

include nonneg fitting sound in
theorem thread_step_conserved (idx : Nat) (thread : Thread)
    (there : state.threads[idx]? = some thread) (after : State)
    (taken : stepThread state idx thread = some after) : Conserved counts after := by
  have fits := sound.fits thread (List.mem_of_getElem? there)
  have bound := cnt_fits counts nonneg state sound thread (List.mem_of_getElem? there)
  obtain ⟨place, cnt, j⟩ := thread
  dsimp only at bound
  cases place with
  | unborn => cases taken
  | test =>
      cases taken
      by_cases more : j < cnt
      · simp only [if_pos more]
        exact thread_conserved counts state sound idx _ _ there _ _
          (thread_moves _ _ _ _ sound.guarded idx _ _ there fun bad => by cases bad) rfl
            ⟨fits.1, more⟩ (by simp) rfl
          (Int.le_refl _) fun waiting => ⟨waiting, Int.le_refl _⟩
      · simp only [if_neg more]
        have all : j = cnt := Int.le_antisymm fits.2 (Int.not_lt.mp more)
        exact thread_conserved counts state sound idx _ _ there _ _
          (thread_moves _ _ _ _ sound.guarded idx _ _ there fun bad => by cases bad) rfl
            ⟨fits.1, all⟩ (by simp) rfl
          (Int.le_refl _) fun waiting => ⟨waiting, Int.le_refl _⟩
  | lock =>
      obtain ⟨monitor, locked, rfl⟩ := Option.map_eq_some_iff.mp taken
      obtain ⟨free, rfl⟩ := lock_some _ _ _ locked
      exact thread_conserved counts state sound idx _ _ there _ _
        (thread_locks _ _ _ _ sound.guarded free idx _ _) rfl fits
        (by simp) rfl (Int.le_refl _) fun waiting => ⟨waiting, Int.le_refl _⟩
  | produce =>
      cases taken
      have room := produce_fits counts state sound idx cnt j there fits
      have avail := sound.avail
      rw [int_exact (state.avail + 1) (by omega) (by omega)]
      refine thread_conserved counts state sound idx _ _ there _ _
        (thread_moves _ _ _ _ sound.guarded idx _ _ there fun _ => rfl) rfl fits (by simp) ?_
          (by omega) fun waiting => ⟨waiting, ?_⟩
      · simp only [Thread.produced, ThreadPlace.unsignalled]
        simp
        omega
      · simp [Thread.owed, ThreadPlace.unsignalled]
  | unlock =>
      cases taken
      exact thread_conserved counts state sound idx _ _ there _ _
        (thread_unlocks _ _ _ _ sound.guarded idx _ _ there rfl rfl _)
        rfl fits (by simp) rfl (Int.le_refl _) fun waiting => ⟨waiting, Int.le_refl _⟩
  | signal =>
      cases taken
      obtain ⟨least, most⟩ : 0 ≤ j ∧ j < cnt := fits
      dsimp only
      rw [int_exact (j + 1) (by omega) (by omega)]
      refine thread_conserved counts state sound idx _ _ there _ _
        (thread_moves state.monitor _ _ _ sound.guarded idx _ _ there fun bad => by cases bad) rfl
        ⟨Int.le_trans least (Int.le_add_one (Int.le_refl j)), most⟩ (by simp) ?_
          (Int.le_refl _) fun waiting => by cases waiting
      simp [Thread.produced, ThreadPlace.unsignalled]
  | finished => cases taken

include sound in
theorem awake (elsewhere : state.main ≠ .wait) : state.monitor.waiting = false := by
  cases waiting : state.monitor.waiting with
  | false => rfl
  | true => exact absurd (sound.waits waiting).1 elsewhere

include nonneg fitting sound in
theorem add_conserved (j : Nat) (at_ : state.main = .add j) (thread : Thread)
    (there : state.threads[j]? = some thread) :
    Conserved counts
      { state with main := .create j, totRequired := int (state.totRequired + thread.cnt) } := by
  have asleep := awake counts state sound (by simp [at_])
  have found : counts[j]? = some thread.cnt := by
    rw [← sound.counted, List.getElem?_map, there, Option.map_some]
  have total : state.totRequired + thread.cnt = (counts.take (j + 1)).sum := by
    rw [List.take_add_one, List.sum_append, found, sound.total, at_]
    simp [MainPlace.summed]
  have least : 0 ≤ (counts.take (j + 1)).sum :=
    List.sum_nonneg fun cnt member => nonneg cnt (List.mem_of_mem_take member)
  have most : (counts.take (j + 1)).sum ≤ counts.sum := by
    have rest : 0 ≤ (counts.drop (j + 1)).sum :=
      List.sum_nonneg fun cnt member => nonneg cnt (List.mem_of_mem_drop member)
    have whole := List.sum_take_add_sum_drop counts (j + 1)
    omega
  rw [total, int_exact _ least (by omega)]
  have kept := sound.kept
  have consumed := sound.consumed
  have unborn := sound.unborn
  simp only [State.consumed, at_, MainPlace.started, MainPlace.pending,
    MainPlace.created] at kept consumed unborn
  exact { sound with
    guarded := main_moves _ _ _ _ sound.guarded _ (fun bad => by cases bad)
    unborn := unborn
    total := rfl
    kept := kept
    consumed := consumed
    some_ := by simp
    judged := by simp [MainPlace.judged]
    looping := by simp [MainPlace.looping]
    waits := by simp [asleep]
    left_ := by simp }

include sound in
theorem create_conserved (j : Nat) (at_ : state.main = .create j) :
    Conserved counts { state with
      main := .add (j + 1)
      threads := state.threads.modify j fun thread => { thread with place := .test, j := 0 } } := by
  have asleep := awake counts state sound (by simp [at_])
  have kept := sound.kept
  have consumed := sound.consumed
  have unborn := sound.unborn
  have total := sound.total
  simp only [State.consumed, State.produced, at_, MainPlace.started, MainPlace.pending,
    MainPlace.created, MainPlace.summed, Bool.false_eq_true, if_false] at kept consumed unborn total
  cases there : state.threads[j]? with
  | none =>
      rw [List.modify_eq_set_getElem?, there]
      exact { sound with
        guarded := main_moves _ _ _ _ sound.guarded _ (fun bad => by cases bad)
        unborn := fun idx thread later => unborn idx thread (Nat.le_of_succ_le later)
        total := total
        kept := kept
        consumed := consumed
        some_ := by simp
        judged := by simp [MainPlace.judged]
        looping := by simp [MainPlace.looping]
        waits := by simp [asleep]
        left_ := by simp }
  | some thread =>
      rw [List.modify_eq_set_getElem?, there]
      dsimp only [Option.map_eq_map, Option.map_some, Option.getD_some]
      have fits := sound.fits thread (List.mem_of_getElem? there)
      have fresh := unborn j thread (Nat.le_refl j) there
      obtain ⟨place, cnt, begun⟩ := thread
      cases fresh
      obtain ⟨rfl, positive⟩ : begun = 0 ∧ 0 ≤ cnt := fits
      have sums := Indexed.sum_set Thread.produced state.threads j _ ⟨.test, cnt, 0⟩ there
      have same : Thread.produced ⟨.unborn, cnt, 0⟩ = Thread.produced ⟨.test, cnt, 0⟩ := rfl
      refine { sound with
        counted := (Indexed.map_set_same Thread.cnt state.threads j _ ⟨.test, cnt,
          0⟩ there rfl).trans sound.counted
        guarded := ?_
        fits := ?_
        unborn := ?_
        total := total
        kept := ?_
        consumed := consumed
        some_ := by simp
        judged := by simp [MainPlace.judged]
        looping := by simp [MainPlace.looping]
        waits := by simp [asleep]
        left_ := by simp }
      · have moved :=
          thread_moves _ _ _ _ sound.guarded j _ ⟨.test, cnt, 0⟩ there (fun bad => by cases bad)
        exact main_moves _ _ _ _ moved _ (fun bad => by cases bad)
      · intro one member
        rcases List.mem_or_eq_of_mem_set member with old | rfl
        · exact sound.fits one old
        · exact ⟨Int.le_refl 0, positive⟩
      · intro idx one later found
        rcases Indexed.set_cases _ _ _ _ _ found with ⟨rfl, _⟩ | ⟨_, old⟩
        · exact absurd later (Nat.not_succ_le_self _)
        · exact unborn idx one (Nat.le_of_succ_le later) old
      · simp only [State.consumed, State.produced, MainPlace.started, MainPlace.pending,
          Bool.false_eq_true, if_false]
        omega

include sound in
/-- Every move of the main thread in its loop. -/
theorem main_conserved (place main : MainPlace) (at_ : state.main = place)
    (started : place.started = true ∧ main.started = true)
    (numConsumed avail : Int) (done : Bool) (monitor : Monitor Member)
    (guarded : Guarded monitor (Inside main.inside Thread.inside state.threads))
    (kept : numConsumed + avail + place.pending = state.numConsumed + state.avail + main.pending)
    (consumed : 0 ≤ numConsumed) (positive : 0 ≤ avail)
    (some_ : main = .consume ∨ main = .take → 0 < avail)
    (judged : main.judged = true → done = decide (counts.sum ≤ numConsumed))
    (looping : main.looping = true → numConsumed < counts.sum)
    (waits : monitor.waiting = true → main = .wait ∧ avail ≤
      (state.threads.map Thread.owed).sum) (left_ : main = .exited → counts.sum ≤ numConsumed) :
    Conserved counts { state with main, numConsumed, avail, done, monitor } := by
  subst at_
  have whole := sound.kept
  have created := started_created counts.length
  simp only [State.consumed, started.1, if_true] at whole
  refine { sound with
    guarded := guarded
    unborn := ?_
    total := ?_
    kept := ?_
    consumed := ?_
    avail := positive
    some_ := some_
    judged := judged
    looping := looping
    waits := waits
    left_ := left_ }
  · have unborn := sound.unborn
    rw [(created _ started.1).1] at unborn
    dsimp only
    rw [(created _ started.2).1]
    exact unborn
  · have total := sound.total
    rw [(created _ started.1).2] at total
    dsimp only
    rw [(created _ started.2).2]
    exact total
  · simp only [State.consumed, State.produced, started.2, if_true] at whole ⊢
    omega
  · simp only [State.consumed, started.2, if_true]
    exact consumed

include sound in
theorem begun_conserved (j : Nat) (at_ : state.main = .add j) (beyond : state.threads[j]? = none) :
    Conserved counts { state with main := .reset } := by
  have asleep := awake counts state sound (by simp [at_])
  have kept := sound.kept
  have consumed := sound.consumed
  have total := sound.total
  have size : counts.length = state.threads.length := by rw [← sound.counted, List.length_map]
  have all : counts.length ≤ j := size ▸ List.getElem?_eq_none_iff.mp beyond
  simp only [State.consumed, State.produced, at_, MainPlace.started, MainPlace.pending,
    MainPlace.summed, List.take_of_length_le all, Bool.false_eq_true,
    if_false] at kept consumed total
  refine { sound with
    guarded := main_moves _ _ _ _ sound.guarded _ (fun bad => by cases bad)
    unborn := ?_
    total := ?_
    kept := kept
    consumed := consumed
    some_ := by simp
    judged := by simp [MainPlace.judged]
    looping := by simp [MainPlace.looping]
    waits := by simp [asleep]
    left_ := by simp }
  · intro idx thread later found
    have inside := (List.getElem?_eq_some_iff.mp found).1
    exact absurd later (Nat.not_le.mpr (size ▸ inside))
  · simp only [MainPlace.summed, List.take_length]
    exact total

include sound in
theorem reset_conserved (positive : 0 < counts.sum) (at_ : state.main = .reset) :
    Conserved counts { state with main := .lock, numConsumed := 0, done := false } := by
  have asleep := awake counts state sound (by simp [at_])
  have kept := sound.kept
  have unborn := sound.unborn
  have total := sound.total
  simp only [State.consumed, State.produced, at_, MainPlace.started, MainPlace.pending,
    MainPlace.created, MainPlace.summed, Bool.false_eq_true, if_false] at kept unborn total
  exact { sound with
    guarded := main_moves _ _ _ _ sound.guarded _ (fun bad => by cases bad)
    unborn := unborn
    total := total
    kept := kept
    consumed := Int.le_refl 0
    some_ := by simp
    judged := fun _ => (decide_eq_false (Int.not_le.mpr positive)).symm
    looping := fun _ => positive
    waits := by simp [asleep]
    left_ := by simp }

section Loop
include sound

/-- Nobody is woken by a main thread that does not wait. -/
theorem silent (elsewhere : state.main ≠ .wait) (main : MainPlace) (avail : Int)
    (waiting : state.monitor.waiting = true) :
    main = .wait ∧ avail ≤ (state.threads.map Thread.owed).sum := by
  rw [awake counts state sound elsewhere] at waiting
  cases waiting

theorem numbers (place : MainPlace) (at_ : state.main = place) (started : place.started = true) :
    0 ≤ state.numConsumed ∧ state.numConsumed + state.avail =
      state.produced + place.pending := by
  subst at_
  have consumed := sound.consumed
  have kept := sound.kept
  rw [State.consumed, if_pos started] at consumed kept
  exact ⟨consumed, kept⟩

/-- From `lock`, and back from `pthread_cond_wait`. -/
theorem entered_conserved (place : MainPlace) (at_ : state.main = place)
    (from_ : place = .lock ∨ place = .wait) (free : state.monitor.owner = none)
    (asleep : state.monitor.waiting = false) :
    Conserved counts
      { state with monitor := { state.monitor with owner := some .main }, main := .check } := by
  have judged := sound.judged
  have looping := sound.looping
  rw [at_] at judged looping
  rcases from_ with rfl | rfl
  · exact main_conserved counts state sound _ _ at_ ⟨rfl, rfl⟩ _ _ _ _
      (main_locks _ _ _ _ sound.guarded free _ _) rfl
      (numbers counts state sound _ at_ rfl).1 sound.avail (by simp) (fun _ => judged rfl)
        (fun _ => looping rfl)
      (by simp [asleep]) (by simp)
  · exact main_conserved counts state sound _ _ at_ ⟨rfl, rfl⟩ _ _ _ _
      (main_locks _ _ _ _ sound.guarded free _ _) rfl
      (numbers counts state sound _ at_ rfl).1 sound.avail (by simp) (fun _ => judged rfl)
        (fun _ => looping rfl)
      (by simp [asleep]) (by simp)

theorem wait_conserved (at_ : state.main = .check) (none : state.avail = 0) :
    Conserved counts { state with monitor := wait state.monitor, main := .wait } := by
  have judged := sound.judged
  have looping := sound.looping
  rw [at_] at judged looping
  refine main_conserved counts state sound _ _ at_ ⟨rfl, rfl⟩ _ _ _ _
    (main_unlocks _ _ _ _ sound.guarded (by rw [at_]; rfl) _) rfl
      (numbers counts state sound _ at_ rfl).1 sound.avail
      (by simp)
    (fun _ => judged rfl) (fun _ => looping rfl) (fun _ => ⟨rfl, ?_⟩) (by simp)
  rw [none, Indexed.sum_indicator (fun thread => thread.place.unsignalled) Thread.owed state.threads
      fun _ _ => rfl]
  exact Int.natCast_nonneg _

/-- On to the inner loop, into it and out of it. -/
theorem drain_conserved (place main : MainPlace) (at_ : state.main = place)
    (moves : place = .check ∧ main = .drain ∨ place = .drain ∧ main = .consume ∧
      0 < state.avail ∨ place = .drain ∧ main = .unlock) :
    Conserved counts { state with main } := by
  have judged := sound.judged
  rw [at_] at judged
  have still : ∀ after : Bool, place.inside = true →
      Guarded state.monitor (Inside after Thread.inside state.threads) :=
    fun after inside => main_moves _ _ _ _ sound.guarded after (fun _ => by rw [at_]; exact inside)
  rcases moves with ⟨rfl, rfl⟩ | ⟨rfl, rfl, more⟩ | ⟨rfl, rfl⟩
  · exact main_conserved counts state sound _ _ at_ ⟨rfl, rfl⟩ _ _ _ _ (still _ rfl) rfl
      (numbers counts state sound _ at_ rfl).1
      sound.avail (by simp) (fun _ => judged rfl) (fun bad => by cases bad)
        (silent counts state sound (by simp [at_]) _ _) (by simp)
  · exact main_conserved counts state sound _ _ at_ ⟨rfl, rfl⟩ _ _ _ _ (still _ rfl) rfl
      (numbers counts state sound _ at_ rfl).1
      sound.avail (fun _ => more) (fun _ => judged rfl) (fun bad => by cases bad)
        (silent counts state sound (by simp [at_]) _ _)
      (by simp)
  · exact main_conserved counts state sound _ _ at_ ⟨rfl, rfl⟩ _ _ _ _ (still _ rfl) rfl
      (numbers counts state sound _ at_ rfl).1
      sound.avail (by simp) (fun _ => judged rfl) (fun bad => by cases bad)
        (silent counts state sound (by simp [at_]) _ _) (by simp)

include fitting in
theorem consume_conserved (at_ : state.main = .consume) :
    Conserved counts { state with main := .take, numConsumed := int (state.numConsumed + 1) } := by
  obtain ⟨consumed, kept⟩ := numbers counts state sound _ at_ rfl
  have bound := produced_fits counts state sound
  have more := sound.some_ (Or.inl at_)
  simp only [MainPlace.pending] at kept
  rw [int_exact (state.numConsumed + 1) (by omega) (by omega)]
  exact main_conserved counts state sound _ _ at_ ⟨rfl, rfl⟩ _ _ _ _
    (main_moves _ _ _ _ sound.guarded _ (fun _ => by rw [at_]; rfl))
      (by simp only [MainPlace.pending]; omega) (by omega)
    sound.avail (fun _ => more) (fun bad => by cases bad) (fun bad => by cases bad)
      (silent counts state sound (by simp [at_]) _ _)
    (by simp)

include fitting in
theorem take_conserved (at_ : state.main = .take) :
    Conserved counts { state with main := .finish, avail := int (state.avail - 1) } := by
  obtain ⟨consumed, kept⟩ := numbers counts state sound _ at_ rfl
  have bound := produced_fits counts state sound
  have more := sound.some_ (Or.inr at_)
  simp only [MainPlace.pending] at kept
  rw [int_exact (state.avail - 1) (by omega) (by omega)]
  exact main_conserved counts state sound _ _ at_ ⟨rfl, rfl⟩ _ _ _ _
    (main_moves _ _ _ _ sound.guarded _ (fun _ => by rw [at_]; rfl))
      (by simp only [MainPlace.pending]; omega) consumed (by omega)
    (by simp) (fun bad => by cases bad) (fun bad => by cases bad) (silent counts state sound
      (by simp [at_]) _ _)
    (by simp)

theorem finish_conserved (at_ : state.main = .finish) :
    Conserved counts
      { state with main := .drain, done := decide (state.numConsumed ≥ state.totRequired) } := by
  have total := sound.total
  rw [at_] at total
  simp only [MainPlace.summed, List.take_length] at total
  exact main_conserved counts state sound _ _ at_ ⟨rfl, rfl⟩ _ _ _ _
    (main_moves _ _ _ _ sound.guarded _ (fun _ => by rw [at_]; rfl)) rfl
      (numbers counts state sound _ at_ rfl).1 sound.avail
    (by simp) (fun _ => by rw [total]) (fun bad => by cases bad) (silent counts state sound
      (by simp [at_]) _ _)
    (by simp)

theorem unlock_conserved (at_ : state.main = .unlock) :
    Conserved counts { state with main := .leave, monitor := unlock state.monitor } := by
  have judged := sound.judged
  rw [at_] at judged
  exact main_conserved counts state sound _ _ at_ ⟨rfl, rfl⟩ _ _ _ _
    (main_unlocks _ _ _ _ sound.guarded (by rw [at_]; rfl) _) rfl
      (numbers counts state sound _ at_ rfl).1 sound.avail
      (by simp)
    (fun _ => judged rfl) (fun bad => by cases bad) (silent counts state sound
      (by simp [at_]) _ _) (by simp)

theorem leave_conserved (at_ : state.main = .leave) :
    Conserved counts { state with main := if state.done then .exited else .lock } := by
  have judged := sound.judged
  rw [at_] at judged
  have same := judged rfl
  split
  · next enough =>
      rw [enough] at same
      exact main_conserved counts state sound _ _ at_ ⟨rfl, rfl⟩ _ _ _ _
        (main_moves _ _ _ _ sound.guarded _ (fun bad => by cases bad)) rfl
          (numbers counts state sound _ at_ rfl).1 sound.avail
        (by simp) (fun _ => judged rfl) (fun bad => by cases bad) (silent counts state sound
          (by simp [at_]) _ _)
        (fun _ => of_decide_eq_true same.symm)
  · next short =>
      rw [Bool.eq_false_iff.mpr short] at same
      exact main_conserved counts state sound _ _ at_ ⟨rfl, rfl⟩ _ _ _ _
        (main_moves _ _ _ _ sound.guarded _ (fun bad => by cases bad)) rfl
          (numbers counts state sound _ at_ rfl).1 sound.avail
        (by simp) (fun _ => judged rfl) (fun _ => Int.not_le.mp (of_decide_eq_false same.symm))
        (silent counts state sound (by simp [at_]) _ _) (by simp)

end Loop

include nonneg fitting sound in
theorem main_step_conserved (positive : 0 < counts.sum) (after : State)
    (taken : stepMain state = some after) : Conserved counts after := by
  unfold stepMain at taken
  split at taken
  · next j at_ =>
      split at taken
      · next thread there =>
          cases taken
          exact add_conserved counts nonneg fitting state sound j at_ thread there
      · next beyond =>
          cases taken
          exact begun_conserved counts state sound j at_ beyond
  · next j at_ =>
      cases taken
      exact create_conserved counts state sound j at_
  · next at_ =>
      cases taken
      exact reset_conserved counts state sound positive at_
  · next at_ =>
      obtain ⟨monitor, locked, rfl⟩ := Option.map_eq_some_iff.mp taken
      obtain ⟨free, rfl⟩ := lock_some _ _ _ locked
      exact entered_conserved counts state sound .lock at_ (Or.inl rfl) free
        (awake counts state sound (by simp [at_]))
  · next at_ =>
      split at taken
      · next none =>
          cases taken
          exact wait_conserved counts state sound at_ none
      · cases taken
        exact drain_conserved counts state sound .check _ at_ (Or.inl ⟨rfl, rfl⟩)
  · next at_ =>
      obtain ⟨monitor, locked, rfl⟩ := Option.map_eq_some_iff.mp taken
      obtain ⟨asleep, free, rfl⟩ := relock_some _ _ _ locked
      exact entered_conserved counts state sound .wait at_ (Or.inr rfl) free asleep
  · next at_ =>
      cases taken
      split
      · next more =>
          exact drain_conserved counts state sound .drain _ at_
            (Or.inr (Or.inl ⟨rfl, rfl, more⟩))
      · exact drain_conserved counts state sound .drain _ at_ (Or.inr (Or.inr ⟨rfl, rfl⟩))
  · next at_ =>
      cases taken
      exact consume_conserved counts fitting state sound at_
  · next at_ =>
      cases taken
      exact take_conserved counts fitting state sound at_
  · next at_ =>
      cases taken
      exact finish_conserved counts state sound at_
  · next at_ =>
      cases taken
      exact unlock_conserved counts state sound at_
  · next at_ =>
      cases taken
      exact leave_conserved counts state sound at_
  · cases taken

include nonneg fitting sound in
theorem step_conserved (positive : 0 < counts.sum) (choice : Choice) (after : State)
    (taken : step choice state = some after) : Conserved counts after := by
  cases choice with
  | main => exact main_step_conserved counts nonneg fitting state sound positive after taken
  | thread idx =>
      obtain ⟨thread, there, moved⟩ := Option.bind_eq_some_iff.mp taken
      exact thread_step_conserved counts nonneg fitting state sound idx thread there after moved
  | wakeUp =>
      simp only [step] at taken
      split at taken
      · cases taken
        exact { sound with guarded := sound.guarded, waits := fun bad => by cases bad }
      · cases taken

end Steps

theorem start_conserved (counts : List Int) (nonneg : ∀ cnt ∈ counts, 0 ≤ cnt)
    (numConsumed : Int) (done : Bool) : Conserved counts (start counts numConsumed done) := by
  have only : ∀ thread ∈ (start counts numConsumed done).threads,
    thread.place = .unborn ∧ thread.j = 0 ∧ 0 ≤ thread.cnt := by
    intro thread member
    obtain ⟨cnt, present, rfl⟩ := List.mem_map.mp member
    exact ⟨rfl, rfl, nonneg cnt present⟩
  refine ⟨?_, ?_, ?_, ?_, rfl, ?_, Int.le_refl 0, Int.le_refl 0, ?_, (fun bad => by cases bad),
    (fun bad => by cases bad),
    (fun bad => by cases bad), (fun bad => by cases bad)⟩
  · simp [start, Function.comp_def]
  · rintro (_ | idx) inside
    · cases inside
    · obtain ⟨thread, there, held⟩ := inside
      rw [Thread.inside, (only thread (List.mem_of_getElem? there)).1] at held
      cases held
  · intro thread member
    obtain ⟨place, rest⟩ := only thread member
    rw [Thread.Fits, place]
    exact rest
  · intro idx thread _ there
    exact (only thread (List.mem_of_getElem? there)).1
  · have none : (start counts numConsumed done).produced = 0 := by
      apply List.sum_eq_zero
      intro amount member
      obtain ⟨thread, present, rfl⟩ := List.mem_map.mp member
      obtain ⟨place, begun, _⟩ := only thread present
      rw [Thread.produced, place, begun]
      rfl
    rw [none]
    rfl
  · rintro (bad | bad) <;> cases bad

/-! What follows outside the critical sections. -/

section Outside
variable (counts : List Int) (state : State) (sound : Conserved counts state)
include sound

theorem free_conserved (free : state.monitor.owner = none) :
    state.consumed + state.avail = state.produced := by
  have outside := guarded_free _ _ sound.guarded free .main
  have nothing : state.main.pending = 0 := by
    cases place : state.main <;> simp_all [Inside, MainPlace.inside, MainPlace.pending]
  rw [sound.kept, nothing, Int.add_zero]

/-- In the loop, outside the critical section, `numConsumed` is at most the sum. -/
theorem consumed_le (started : state.main.started = true) (nothing : state.main.pending = 0) :
    state.numConsumed + state.avail ≤ counts.sum := by
  have kept := sound.kept
  have bound := produced_fits counts state sound
  rw [State.consumed, if_pos started, nothing] at kept
  omega

theorem leave_done (at_ : state.main = .leave) :
    state.done = true ↔ state.numConsumed = counts.sum := by
  have bound := consumed_le counts state sound (by rw [at_]; rfl) (by rw [at_]; rfl)
  have avail := sound.avail
  rw [sound.judged (by rw [at_]; rfl), decide_eq_true_iff]
  omega

theorem exited_consumed (at_ : state.main = .exited) :
    state.numConsumed = counts.sum ∧ state.avail = 0 ∧ state.produced = counts.sum := by
  have kept := sound.kept
  have bound := produced_fits counts state sound
  have avail := sound.avail
  have enough := sound.left_ at_
  simp only [State.consumed, at_, MainPlace.started, MainPlace.pending, if_true] at kept
  omega

theorem waiting_owed (waiting : state.monitor.waiting = true) (some_ : 0 < state.avail) :
    ∃ thread ∈ state.threads, thread.place.unsignalled = true := by
  have owed := (sound.waits waiting).2
  rw [Indexed.sum_indicator (fun thread => thread.place.unsignalled) Thread.owed state.threads
      fun _ _ => rfl] at owed
  exact List.countP_pos_iff.mp (by omega)

end Outside

theorem units_are_conserved (counts : List Int) (nonneg : ∀ cnt ∈ counts, 0 ≤ cnt)
    (some_ : ∃ cnt ∈ counts, 0 < cnt) (fitting : counts.sum < 2 ^ 31) (numConsumed : Int)
    (done : Bool) (state : State)
    (reached : Transition.Reachable (fun state => state = start counts numConsumed done) step
      state) :
    (state.monitor.owner = none → state.consumed + state.avail = state.produced) ∧
    (state.main = .leave → (state.done = true ↔ state.numConsumed = counts.sum)) ∧
    (state.main.looping = true → state.numConsumed < counts.sum) ∧
    (state.main = .exited → state.numConsumed = counts.sum ∧ state.avail = 0 ∧
      state.produced = counts.sum) ∧
    (state.monitor.waiting = true → 0 < state.avail →
      state.main = .wait ∧ ∃ thread ∈ state.threads, thread.place.unsignalled = true) := by
  have positive : 0 < counts.sum := by
    obtain ⟨cnt, member, more⟩ := some_
    exact Int.lt_of_lt_of_le more (List.single_le_sum nonneg cnt member)
  have sound : Conserved counts state :=
    Transition.reachable_invariant
      (fun _ here => here ▸ start_conserved counts nonneg numConsumed done)
      (fun choice before after sound taken =>
        step_conserved counts nonneg fitting before sound positive choice after taken) reached
  refine ⟨free_conserved counts state sound, leave_done counts state sound, sound.looping,
    exited_consumed counts state sound, ?_⟩
  intro waiting more
  exact ⟨(sound.waits waiting).1, waiting_owed counts state sound waiting more⟩

-- One unit is there before the second producer exists, and the wait for the other is
-- interrupted once.
theorem two_units_are_consumed :
    ∃ state, Transition.replay step [.main, .main, .thread 0, .thread 0, .thread 0,
        .thread 0, .thread 0, .main, .main, .main, .main, .main, .main, .main, .main, .main, .main,
        .main, .main, .main, .main, .main, .wakeUp, .main, .main, .thread 1, .thread 1, .thread 1,
        .thread 1, .thread 1, .main, .main, .main, .main, .main, .main, .main, .main,
        .main] (start [1, 1] 7 true) = some state ∧
      state.numConsumed = 2 ∧ state.avail = 0 := by
  obtain ⟨state, replayed, place⟩ : ∃ state,
    Transition.replay step [.main, .main, .thread 0, .thread 0, .thread 0,
      .thread 0, .thread 0, .main, .main, .main, .main, .main, .main, .main, .main, .main, .main,
      .main, .main, .main, .main, .main, .wakeUp, .main, .main, .thread 1, .thread 1, .thread 1,
      .thread 1, .thread 1, .main, .main, .main, .main, .main, .main, .main, .main,
      .main] (start [1, 1] 7 true) = some state ∧ state.main = .exited :=
    ⟨_, rfl, rfl⟩
  have reached : Transition.Reachable (fun state => state = start [1, 1] 7 true) step state :=
    Transition.replay_reachable _ (.start rfl) replayed
  obtain ⟨consumed, none, _⟩ :=
    (units_are_conserved [1, 1] (by decide) (by decide) (by decide) 7 true state
      reached).2.2.2.1 place
  exact ⟨state, replayed, consumed, none⟩

end Tlpi.ProducerConsumer
