import Mathlib.Algebra.Order.Ring.Int
import Mathlib.Data.List.Basic
import Tlpi.Indexed
import Tlpi.Transition

/-!
threads/pthread_barrier_demo.c: threads that meet at one barrier again and again. A call of
`pthread_barrier_wait` that completes a round lets all its threads go, each in its own time, and
the barrier may be used for the next round before all of them have left. Which thread is told
that it is the serial one is open.
-/

namespace Tlpi.BarrierRounds

def PTHREAD_BARRIER_SERIAL_THREAD : Int := -1

/-- `blocked` has the round of the barrier that the call belongs to. -/
inductive Place where
  | unborn
  | loop
  | wait
  | blocked (round : Nat)
  | terminated
  deriving DecidableEq

/-- `results` is what the calls have returned. -/
structure Thread where
  place : Place
  j : Nat
  results : List Int
  deriving DecidableEq

inductive Main where
  | create (threadNum : Nat)
  | join (threadNum : Nat)
  | exited (success : Bool)
  deriving DecidableEq

/-- `arrived` calls of the present round are blocked, and `serials` are the serial threads of the
rounds that have been completed. -/
structure State where
  threads : List Thread
  main : Main
  arrived : Nat
  serials : List Nat
  deriving DecidableEq

def State.round (state : State) : Nat := state.serials.length

inductive Choice where
  | main
  | createFails
  | thread (threadNum serial : Nat)
  deriving DecidableEq

def stepMain (state : State) : Option State :=
  match state.main with
  | .create threadNum =>
      match state.threads[threadNum]? with
      | some thread => some { state with
          threads := state.threads.set threadNum { thread with place := .loop },
          main := .create (threadNum + 1) }
      | none => some { state with main := .join 0 }
  | .join threadNum =>
      match state.threads[threadNum]? with
      | some thread =>
          if thread.place = .terminated then some { state with main := .join (threadNum + 1) }
          else none
      | none => some { state with main := .exited true }
  | .exited _ => none

/-- The value that thread `threadNum` gets from a round with this serial thread. -/
def result (threadNum serial : Nat) : Int :=
  if threadNum = serial then PTHREAD_BARRIER_SERIAL_THREAD else 0

/-- The call of a thread, which is blocked at least until its round is complete. -/
def arrive (threadNum serial : Nat) (thread : Thread) (state : State) : Option State :=
  let threads := state.threads.set threadNum { thread with place := .blocked state.round }
  if state.arrived + 1 = state.threads.length then
    if serial < state.threads.length then
      some { state with threads := threads, arrived := 0, serials := state.serials ++ [serial] }
    else none
  else some { state with threads := threads, arrived := state.arrived + 1 }

def stepThread (numBarriers : Int) (threadNum serial : Nat) (state : State) : Option State :=
  match state.threads[threadNum]? with
  | none => none
  | some thread =>
      let goOn (thread : Thread) :=
        some { state with threads := state.threads.set threadNum thread }
      match thread.place with
      | .unborn => none
      | .loop => goOn
          { thread with place := if (thread.j : Int) < numBarriers then .wait else .terminated }
      | .wait => arrive threadNum serial thread state
      | .blocked round =>
          match state.serials[round]? with
          | none => none
          | some serial =>
              goOn { thread with
                place := .loop, j := thread.j + 1,
                results := thread.results ++ [result threadNum serial] }
      | .terminated => none

/-- When `main` exits, the threads are gone. -/
def step (numBarriers : Int) (choice : Choice) (state : State) : Option State :=
  match state.main, choice with
  | .exited _, _ => none
  | _, .main => stepMain state
  | .create threadNum, .createFails =>
      if threadNum < state.threads.length then some { state with main := .exited false } else none
  | _, .createFails => none
  | _, .thread threadNum serial => stepThread numBarriers threadNum serial state

/-- With a barrier for `numThreads` threads. -/
def start (numThreads : Nat) : State :=
  ⟨List.replicate numThreads ⟨.unborn, 0, []⟩, .create 0, 0, []⟩

/-- How often a thread has called `pthread_barrier_wait`. -/
def Thread.calls (thread : Thread) : Nat :=
  match thread.place with
  | .blocked _ => thread.j + 1
  | _ => thread.j

def Thread.arrived (round : Nat) (thread : Thread) : Bool := thread.place = .blocked round

/-- Where a thread can be while `round` is not complete. -/
def Thread.Sound (numBarriers : Int) (round : Nat) (thread : Thread) : Prop :=
  match thread.place with
  | .unborn => thread.j = 0 ∧ round = 0
  | .loop => thread.j = round ∧ thread.j ≤ numBarriers.toNat
  | .wait => thread.j = round ∧ (thread.j : Int) < numBarriers
  | .blocked own => own = thread.j ∧ (round = thread.j ∨ round = thread.j + 1) ∧
      (thread.j : Int) < numBarriers
  | .terminated => thread.j = round ∧ thread.j = numBarriers.toNat

structure Inv (numBarriers : Int) (numThreads : Nat) (state : State) : Prop where
  length : state.threads.length = numThreads
  sound : ∀ (t : Nat) thread, state.threads[t]? = some thread →
    thread.Sound numBarriers state.round
  results : ∀ (t : Nat) thread, state.threads[t]? = some thread →
    thread.results = (state.serials.take thread.j).map (result t)
  counted : state.arrived = state.threads.countP (Thread.arrived state.round)
  partial_ : state.arrived < numThreads
  serials : ∀ serial ∈ state.serials, serial < numThreads
  created : ∀ threadNum, state.main = .create threadNum →
    threadNum ≤ numThreads ∧
      ∀ (t : Nat) thread, state.threads[t]? = some thread →
        (thread.place = .unborn ↔ threadNum ≤ t)
  all : ∀ threadNum, state.main = .join threadNum →
    ∀ (t : Nat) thread, state.threads[t]? = some thread → thread.place ≠ .unborn
  joined : ∀ threadNum, state.main = .join threadNum →
    ∀ (t : Nat) thread, state.threads[t]? = some thread → t < threadNum →
      thread.place = .terminated
  ended : state.main = .exited true → ∀ (t : Nat) thread, state.threads[t]? = some thread →
    thread.place = .terminated

theorem start_inv (numBarriers : Int) (numThreads : Nat) (some_ : 0 < numThreads) :
    Inv numBarriers numThreads (start numThreads) := by
  have each (t : Nat) (thread : Thread) (there : (start numThreads).threads[t]? = some thread) :
      thread = ⟨.unborn, 0, []⟩ := (List.mem_replicate.mp (List.mem_of_getElem? there)).2
  refine ⟨List.length_replicate, ?_, ?_, ?_, some_, fun _ bad => absurd bad List.not_mem_nil, ?_,
    fun _ bad => (by cases bad), fun _ bad => (by cases bad), fun bad => by cases bad⟩
  · intro t thread there
    rw [each t thread there]
    exact ⟨rfl, rfl⟩
  · intro t thread there
    rw [each t thread there]
    rfl
  · refine (List.countP_eq_zero.mpr fun thread member => ?_).symm
    rw [(List.mem_replicate.mp member).2]
    simp [Thread.arrived]
  · rintro threadNum ⟨⟩
    exact ⟨Nat.zero_le _, fun t thread there => by simp [each t thread there]⟩

theorem counted_set (threads : List Thread) (round t : Nat) (old new : Thread)
    (there : threads[t]? = some old) :
    (threads.set t new).countP (Thread.arrived round) + (old.arrived round).toNat =
      threads.countP (Thread.arrived round) + (new.arrived round).toNat := by
  obtain ⟨inside, rfl⟩ := List.getElem?_eq_some_iff.mp there
  rw [List.countP_set inside]
  have least : (threads[t].arrived round).toNat ≤ threads.countP (Thread.arrived round) := by
    cases here : threads[t].arrived round with
    | false => exact Nat.zero_le _
    | true => exact List.countP_pos_iff.mpr ⟨threads[t], List.getElem_mem inside, here⟩
  cases one : threads[t].arrived round <;> cases two : new.arrived round <;>
    simp only [one, Bool.toNat_true, Bool.toNat_false, Bool.false_eq_true,
      ↓reduceIte] at least ⊢ <;> omega

section Steps
variable (numBarriers : Int) (numThreads : Nat) (before after : State)
  (inv : Inv numBarriers numThreads before)
include inv

/-- A thread that goes on while the round stays the same. -/
theorem moved_inv (t : Nat) (old new : Thread) (arrived : Nat)
    (there : before.threads[t]? = some old) (alive : old.place ≠ .unborn)
    (going : old.place ≠ .terminated) (still : new.place ≠ .unborn)
    (sound : new.Sound numBarriers before.round)
    (results : new.results = (before.serials.take new.j).map (result t))
    (counted : arrived + (old.arrived before.round).toNat = before.arrived +
      (new.arrived before.round).toNat) (small : arrived < numThreads) :
    Inv numBarriers numThreads
      { before with threads := before.threads.set t new, arrived := arrived } := by
  have terminated (position : Nat) (thread : Thread) (now : (before.threads.set t new)[position]? =
    some thread)
      (kept : ∀ other, before.threads[position]? = some other → other.place = .terminated) :
      thread.place = .terminated := by
    rcases Indexed.set_cases _ _ _ _ _ now with ⟨rfl, rfl⟩ | ⟨_, earlier⟩
    · exact absurd (kept old there) going
    · exact kept thread earlier
  refine ⟨by rw [List.length_set]; exact inv.length, ?_, ?_, ?_, small,
    inv.serials, ?_, ?_, ?_, ?_⟩
  · intro position thread now
    rcases Indexed.set_cases _ _ _ _ _ now with ⟨rfl, rfl⟩ | ⟨_, earlier⟩
    · exact sound
    · exact inv.sound position thread earlier
  · intro position thread now
    rcases Indexed.set_cases _ _ _ _ _ now with ⟨rfl, rfl⟩ | ⟨_, earlier⟩
    · exact results
    · exact inv.results position thread earlier
  · have sum := counted_set before.threads before.round t old new there
    have count := inv.counted
    dsimp only [State.round] at sum counted count ⊢
    omega
  · intro threadNum creating
    obtain ⟨most, unborn⟩ := inv.created threadNum creating
    refine ⟨most, fun position thread now => ?_⟩
    rcases Indexed.set_cases _ _ _ _ _ now with ⟨rfl, rfl⟩ | ⟨_, earlier⟩
    · exact ⟨fun bad => absurd bad still,
        fun later => absurd ((unborn position old there).mpr later) alive⟩
    · exact unborn position thread earlier
  · intro threadNum joining position thread now
    rcases Indexed.set_cases _ _ _ _ _ now with ⟨rfl, rfl⟩ | ⟨_, earlier⟩
    · exact still
    · exact inv.all threadNum joining position thread earlier
  · intro threadNum joining position thread now early
    exact terminated position thread now fun other was =>
      inv.joined threadNum joining position other was early
  · intro exited position thread now
    exact terminated position thread now fun other was => inv.ended exited position other was

/-- The call that completes a round finds all other threads in theirs. -/
theorem completed_inv (t serial : Nat) (old : Thread) (there : before.threads[t]? = some old)
    (waits : old.place = .wait) (last : before.arrived + 1 = before.threads.length)
    (valid : serial < before.threads.length) :
    Inv numBarriers numThreads { before with
      threads := before.threads.set t { old with place := .blocked before.round }
      arrived := 0, serials := before.serials ++ [serial] } := by
  have own := inv.sound t old there
  rw [Thread.Sound, waits] at own
  have full : ∀ thread ∈ before.threads.set t { old with place := .blocked before.round },
      thread.place = .blocked before.round := by
    have sum := counted_set before.threads before.round t old
        { old with place := .blocked before.round } there
    have fresh : old.arrived before.round = false := by simp [Thread.arrived, waits]
    have now : ({ old with place := .blocked before.round } : Thread).arrived before.round = true :=
      decide_eq_true rfl
    rw [fresh, now, ← inv.counted, Bool.toNat_false, Bool.toNat_true, last,
      ← List.length_set (i := t) (a := { old with place := .blocked before.round })] at sum
    exact fun thread member => of_decide_eq_true (List.countP_eq_length.mp sum thread member)
  have blocked (position : Nat) (thread : Thread)
      (now : (before.threads.set t { old with place := .blocked before.round })[position]? =
        some thread) :
      thread.place = .blocked before.round := full thread (List.mem_of_getElem? now)
  have known (position : Nat) (thread : Thread)
      (now : (before.threads.set t { old with place := .blocked before.round })[position]? =
        some thread) :
      thread.j = before.round ∧ (thread.j : Int) < numBarriers ∧
        thread.results = (before.serials.take thread.j).map (result position) := by
    rcases Indexed.set_cases _ _ _ _ _ now with ⟨rfl, rfl⟩ | ⟨_, earlier⟩
    · exact ⟨own.1, own.2, inv.results position old there⟩
    · have sound := inv.sound position thread earlier
      rw [Thread.Sound, blocked position thread now] at sound
      exact ⟨sound.1.symm, sound.2.2, inv.results position thread earlier⟩
  have size : (before.serials ++ [serial]).length = before.round + 1 := List.length_append
  refine ⟨by rw [List.length_set]; exact inv.length, ?_, ?_, ?_, ?_, ?_, ?_, ?_, ?_, ?_⟩
  · intro position thread now
    obtain ⟨same, less, _⟩ := known position thread now
    rw [Thread.Sound, blocked position thread now]
    refine ⟨same.symm, .inr ?_, less⟩
    rw [same]
    exact size
  · intro position thread now
    obtain ⟨same, _, results⟩ := known position thread now
    rw [results]
    dsimp only
    rw [List.take_append_of_le_length (Nat.le_of_eq same)]
  · refine (List.countP_eq_zero.mpr fun thread member => ?_).symm
    rw [Thread.arrived, full thread member, decide_eq_true_eq, Place.blocked.injEq]
    dsimp only [State.round] at size ⊢
    omega
  · exact Nat.lt_of_le_of_lt (Nat.zero_le _) inv.partial_
  · intro other member
    rcases List.mem_append.mp member with earlier | single
    · exact inv.serials other earlier
    · rw [List.mem_singleton.mp single, ← inv.length]
      exact valid
  · intro threadNum creating
    obtain ⟨most, unborn⟩ := inv.created threadNum creating
    refine ⟨most, fun position thread now => ?_⟩
    rw [blocked position thread now]
    refine ⟨fun bad => (by cases bad), fun later => ?_⟩
    rcases Indexed.set_cases _ _ _ _ _ now with ⟨rfl, rfl⟩ | ⟨_, earlier⟩
    · have bad := (unborn position old there).mpr later
      rw [waits] at bad
      cases bad
    · have bad := (unborn position thread earlier).mpr later
      rw [blocked position thread now] at bad
      cases bad
  · intro threadNum joining position thread now bad
    rw [blocked position thread now] at bad
    cases bad
  · intro threadNum joining position thread now early
    rcases Indexed.set_cases _ _ _ _ _ now with ⟨rfl, rfl⟩ | ⟨_, earlier⟩
    · have bad := inv.joined threadNum joining position old there early
      rw [waits] at bad
      cases bad
    · have bad := inv.joined threadNum joining position thread earlier early
      rw [blocked position thread now] at bad
      cases bad
  · intro exited
    have bad := inv.ended exited t old there
    rw [waits] at bad
    cases bad

theorem arrive_inv (t serial : Nat) (thread : Thread) (there : before.threads[t]? = some thread)
    (waits : thread.place = .wait) (taken : arrive t serial thread before = some after) :
    Inv numBarriers numThreads after := by
  unfold arrive at taken
  dsimp only at taken
  split at taken
  · next last =>
      rw [Option.ite_none_right_eq_some, Option.some.injEq] at taken
      obtain ⟨valid, rfl⟩ := taken
      exact completed_inv numBarriers numThreads before inv t serial thread there waits last valid
  · next more =>
      cases taken
      have own := inv.sound t thread there
      rw [Thread.Sound, waits] at own
      refine moved_inv numBarriers numThreads before inv t thread _ _ there (by rw [waits]; decide)
        (by rw [waits]; decide) (by simp) ⟨own.1.symm, .inl own.1.symm, own.2⟩
          (inv.results t thread there) ?_ ?_
      · simp [Thread.arrived, waits]
      · have few := inv.partial_
        rw [inv.length] at more
        omega

theorem thread_inv (t serial : Nat) (taken : stepThread numBarriers t serial before = some after) :
    Inv numBarriers numThreads after := by
  unfold stepThread at taken
  split at taken
  · cases taken
  · next thread there =>
      have own := inv.sound t thread there
      dsimp only at taken
      split at taken
      · cases taken
      · next place =>
          rw [Thread.Sound, place] at own
          cases taken
          by_cases more : (thread.j : Int) < numBarriers
          · simp only [more, ↓reduceIte]
            exact moved_inv numBarriers numThreads before inv t thread _ _ there
              (by rw [place]; decide)
              (by rw [place]; decide) (by simp) ⟨own.1, more⟩ (inv.results t thread there)
              (by simp [Thread.arrived, place]) inv.partial_
          · simp only [more, ↓reduceIte]
            exact moved_inv numBarriers numThreads before inv t thread _ _ there
              (by rw [place]; decide)
              (by rw [place]; decide) (by simp) ⟨own.1, by dsimp only; omega⟩
                (inv.results t thread there)
              (by simp [Thread.arrived, place]) inv.partial_
      · next place =>
          exact arrive_inv numBarriers numThreads before after inv t serial thread there place taken
      · next round place =>
          rw [Thread.Sound, place] at own
          split at taken
          · cases taken
          · next told found =>
              cases taken
              have inside : round < before.serials.length := (List.getElem?_eq_some_iff.mp found).1
              have next : before.round = thread.j + 1 := by
                have rounds := own.2.1
                dsimp only [State.round] at rounds ⊢
                omega
              refine moved_inv numBarriers numThreads before inv t thread _ _ there
                (by rw [place]; simp)
                (by rw [place]; simp) (by simp) ⟨next.symm, by dsimp only; omega⟩
                  ?_ ?_ inv.partial_
              · dsimp only
                rw [inv.results t thread there, ← own.1, List.take_add_one,
                    found, List.map_append]
                rfl
              · have other : round ≠ before.round := by omega
                simp [Thread.arrived, place, other]
      · cases taken

theorem main_inv (taken : stepMain before = some after) : Inv numBarriers numThreads after := by
  unfold stepMain at taken
  split at taken
  · next threadNum main =>
      obtain ⟨most, unborn⟩ := inv.created threadNum main
      split at taken
      · next thread there =>
          cases taken
          have own := inv.sound threadNum thread there
          have place := (unborn threadNum thread there).mpr (Nat.le_refl _)
          rw [Thread.Sound, place] at own
          have inside := (List.getElem?_eq_some_iff.mp there).1
          refine ⟨by rw [List.length_set]; exact inv.length, ?_, ?_, ?_,
            inv.partial_, inv.serials, ?_, fun _ bad => (by cases bad), fun _ bad => (by cases bad),
            fun bad => by cases bad⟩
          · intro position other now
            rcases Indexed.set_cases _ _ _ _ _ now with ⟨rfl, rfl⟩ | ⟨_, earlier⟩
            · exact ⟨own.1.trans own.2.symm, by dsimp only; omega⟩
            · exact inv.sound position other earlier
          · intro position other now
            rcases Indexed.set_cases _ _ _ _ _ now with ⟨rfl, rfl⟩ | ⟨_, earlier⟩
            · exact inv.results position thread there
            · exact inv.results position other earlier
          · have sum := counted_set before.threads before.round threadNum thread
                { thread with place := .loop } there
            have count := inv.counted
            simp only [Thread.arrived, place, reduceCtorEq, decide_false, Bool.toNat_false] at sum
            dsimp only [State.round] at sum count ⊢
            exact count.trans sum.symm
          · rintro _ ⟨⟩
            refine ⟨inv.length ▸ inside, fun position other now => ?_⟩
            rcases Indexed.set_cases _ _ _ _ _ now with ⟨rfl, rfl⟩ | ⟨different, earlier⟩
            · exact ⟨fun bad => (by cases bad), fun bad => absurd bad (Nat.not_succ_le_self _)⟩
            · rw [unborn position other earlier]
              omega
      · next none =>
          cases taken
          have past : numThreads ≤ threadNum := inv.length ▸ List.getElem?_eq_none_iff.mp none
          refine ⟨inv.length, inv.sound, inv.results, inv.counted, inv.partial_, inv.serials,
            fun _ bad => (by cases bad), ?_, ?_, fun bad => by cases bad⟩
          · intro _ _ position other now bad
            have late := (unborn position other now).mp bad
            have inside := (List.getElem?_eq_some_iff.mp now).1
            rw [inv.length] at inside
            omega
          · rintro _ ⟨⟩ position other now early
            cases early
  · next threadNum main =>
      split at taken
      · next thread there =>
          rw [Option.ite_none_right_eq_some, Option.some.injEq] at taken
          obtain ⟨place, rfl⟩ := taken
          refine ⟨inv.length, inv.sound, inv.results, inv.counted, inv.partial_, inv.serials,
            fun _ bad => (by cases bad), fun _ _ => inv.all threadNum main, ?_,
            fun bad => by cases bad⟩
          rintro _ ⟨⟩ position other now early
          rcases Nat.lt_succ_iff_lt_or_eq.mp early with less | rfl
          · exact inv.joined threadNum main position other now less
          · obtain rfl := Option.some.inj (there.symm.trans now)
            exact place
      · next none =>
          cases taken
          refine ⟨inv.length, inv.sound, inv.results, inv.counted, inv.partial_, inv.serials,
            fun _ bad => (by cases bad), fun _ bad => (by cases bad), fun _ bad => (by cases bad),
            fun _ position other now => ?_⟩
          refine inv.joined threadNum main position other now ?_
          exact Nat.lt_of_lt_of_le (List.getElem?_eq_some_iff.mp now).1
            (List.getElem?_eq_none_iff.mp none)
  · cases taken

theorem step_inv (choice : Choice) (taken : step numBarriers choice before = some after) :
    Inv numBarriers numThreads after := by
  unfold step at taken
  split at taken
  · cases taken
  · exact main_inv numBarriers numThreads before after inv taken
  · rw [Option.ite_none_right_eq_some, Option.some.injEq] at taken
    obtain ⟨_, rfl⟩ := taken
    exact ⟨inv.length, inv.sound, inv.results, inv.counted, inv.partial_, inv.serials,
      fun _ bad => (by cases bad), fun _ bad => (by cases bad), fun _ bad => (by cases bad),
      fun bad => by cases bad⟩
  · cases taken
  · exact thread_inv numBarriers numThreads before after inv _ _ taken

end Steps

/-! Every thread takes three steps for each round. -/

def Thread.weight (numBarriers : Int) (thread : Thread) : Nat :=
  match thread.place with
  | .unborn => 4 * numBarriers.toNat + 2
  | .loop => 4 * (numBarriers.toNat - thread.j) + 1
  | .wait => 4 * (numBarriers.toNat - thread.j)
  | .blocked _ => 4 * (numBarriers.toNat - thread.j) - 1
  | .terminated => 0

def Main.weight (numThreads : Nat) : Main → Nat
  | .create threadNum => (numThreads - threadNum) + numThreads + 2
  | .join threadNum => (numThreads - threadNum) + 1
  | .exited _ => 0

def rank (numBarriers : Int) (numThreads : Nat) (state : State) : Nat :=
  (state.threads.map (Thread.weight numBarriers)).sum + state.main.weight numThreads

section Rank
variable (numBarriers : Int) (numThreads : Nat) (before after : State)
  (inv : Inv numBarriers numThreads before)
include inv

theorem thread_lowers (t serial : Nat)
    (taken : stepThread numBarriers t serial before = some after) :
    rank numBarriers numThreads after < rank numBarriers numThreads before := by
  have lowers (old new : Thread) (there : before.threads[t]? = some old)
      (less : new.weight numBarriers < old.weight numBarriers) (state : State)
      (threads : state.threads = before.threads.set t new) (main : state.main = before.main) :
      rank numBarriers numThreads state < rank numBarriers numThreads before := by
    have sum := Indexed.sum_set (Thread.weight numBarriers) before.threads t old new there
    unfold rank
    rw [threads, main]
    omega
  unfold stepThread at taken
  split at taken
  · cases taken
  · next thread there =>
      have own := inv.sound t thread there
      dsimp only at taken
      split at taken
      · cases taken
      · next place =>
          cases taken
          refine lowers thread _ there ?_ _ rfl rfl
          by_cases more : (thread.j : Int) < numBarriers
          · simp only [Thread.weight, more, ↓reduceIte, place]
            omega
          · simp only [Thread.weight, more, ↓reduceIte, place]
            omega
      · next place =>
          rw [Thread.Sound, place] at own
          have less : ({ thread with place := .blocked before.round } : Thread).weight numBarriers <
              thread.weight numBarriers := by
            simp only [Thread.weight, place]
            omega
          unfold arrive at taken
          dsimp only at taken
          split at taken
          · rw [Option.ite_none_right_eq_some, Option.some.injEq] at taken
            obtain ⟨_, rfl⟩ := taken
            exact lowers thread _ there less _ rfl rfl
          · cases taken
            exact lowers thread _ there less _ rfl rfl
      · next round place =>
          rw [Thread.Sound, place] at own
          split at taken
          · cases taken
          · cases taken
            refine lowers thread _ there ?_ _ rfl rfl
            simp only [Thread.weight, place]
            omega
      · cases taken

theorem main_lowers (taken : stepMain before = some after) :
    rank numBarriers numThreads after < rank numBarriers numThreads before := by
  unfold stepMain at taken
  split at taken
  · next threadNum main =>
      obtain ⟨most, unborn⟩ := inv.created threadNum main
      split at taken
      · next thread there =>
          cases taken
          have place := (unborn threadNum thread there).mpr (Nat.le_refl _)
          have sum := Indexed.sum_set (Thread.weight numBarriers) before.threads threadNum thread
            { thread with place := .loop } there
          simp only [Thread.weight, place] at sum
          simp only [rank, main, Main.weight]
          omega
      · cases taken
        simp only [rank, main, Main.weight]
        omega
  · next threadNum main =>
      split at taken
      · next thread there =>
          rw [Option.ite_none_right_eq_some, Option.some.injEq] at taken
          obtain ⟨_, rfl⟩ := taken
          have inside := (List.getElem?_eq_some_iff.mp there).1
          rw [inv.length] at inside
          simp only [rank, main, Main.weight]
          omega
      · cases taken
        simp only [rank, main, Main.weight]
        omega
  · cases taken

theorem step_lowers (choice : Choice) (taken : step numBarriers choice before = some after) :
    rank numBarriers numThreads after < rank numBarriers numThreads before := by
  unfold step at taken
  split at taken
  · cases taken
  · exact main_lowers numBarriers numThreads before after inv taken
  · next threadNum main =>
      rw [Option.ite_none_right_eq_some, Option.some.injEq] at taken
      obtain ⟨_, rfl⟩ := taken
      simp only [rank, main, Main.weight]
      omega
  · cases taken
  · exact thread_lowers numBarriers numThreads before after inv _ _ taken

/-- Blocked threads alone cannot be left: the last one of them would have completed their round. -/
theorem stuck_exited (stuck : ∀ choice, step numBarriers choice before = none) :
    ∃ success, before.main = .exited success := by
  cases main : before.main with
  | exited success => exact ⟨success, rfl⟩
  | create threadNum =>
      have goes := stuck .main
      simp only [step, main, stepMain] at goes
      split at goes <;> cases goes
  | join threadNum =>
      have goes := stuck .main
      simp only [step, main, stepMain] at goes
      split at goes
      · next first there =>
          rw [ite_eq_right_iff] at goes
          have living : first.place ≠ .terminated := fun bad => by cases goes bad
          have acts (t : Nat) : stepThread numBarriers t 0 before = none := by
            have none := stuck (.thread t 0)
            simp only [step, main] at none
            exact none
          have each (t : Nat) (thread : Thread) (here : before.threads[t]? = some thread) :
              thread.place = .terminated ∨ thread.place = .blocked before.round := by
            have own := inv.sound t thread here
            have none := acts t
            simp only [stepThread, here] at none
            cases place : thread.place with
            | unborn => exact absurd place (inv.all threadNum main t thread here)
            | terminated => exact .inl rfl
            | loop =>
                simp only [place] at none
                cases none
            | wait =>
                have room : 0 < before.threads.length :=
                  Nat.lt_of_le_of_lt (Nat.zero_le t) (List.getElem?_eq_some_iff.mp here).1
                simp only [place, arrive, if_pos room] at none
                split at none <;> cases none
            | blocked round =>
                simp only [place] at none
                rw [Thread.Sound, place] at own
                split at none
                · next beyond =>
                    have least := List.getElem?_eq_none_iff.mp beyond
                    refine .inr (congrArg Place.blocked ?_)
                    have rounds := own.2.1
                    dsimp only [State.round] at rounds ⊢
                    omega
                · cases none
          have unfinished : before.round < numBarriers.toNat := by
            have own := inv.sound threadNum first there
            rcases each threadNum first there with bad | place
            · exact absurd bad living
            · rw [Thread.Sound, place] at own
              omega
          have all : before.threads.countP (Thread.arrived before.round) =
              before.threads.length := by
            refine List.countP_eq_length.mpr fun thread member => decide_eq_true ?_
            obtain ⟨t, here⟩ := List.mem_iff_getElem?.mp member
            rcases each t thread here with place | place
            · have own := inv.sound t thread here
              rw [Thread.Sound, place] at own
              omega
            · exact place
          have few := inv.partial_
          rw [inv.counted, all, inv.length] at few
          exact absurd few (Nat.lt_irrefl _)
      · cases goes

end Rank

theorem start_rank (numBarriers : Int) (numThreads : Nat) :
    rank numBarriers numThreads (start numThreads) =
    numThreads * (4 * numBarriers.toNat + 2) + (2 * numThreads + 2) := by
  simp only [rank, start, List.map_replicate, List.sum_replicate_nat, Thread.weight, Main.weight]
  omega

/-- No thread passes a barrier before every thread has called for it, and in each round one thread
and no other is told that it is the serial one. Every run ends: unless a thread cannot be
created, all threads have then passed all barriers. -/
theorem threads_meet_at_barriers (numBarriers : Int) (numThreads : Nat) (some_ : 0 < numThreads)
    (choices : List Choice) (state : State)
    (replayed : Transition.replay (step numBarriers) choices (start numThreads) = some state) :
    choices.length ≤ numThreads * (4 * numBarriers.toNat + 2) + (2 * numThreads + 2) ∧
      (∀ (t u : Nat) thread other, state.threads[t]? = some thread →
        state.threads[u]? = some other →
        thread.results.length ≤ other.calls) ∧
      (∀ round, round < state.round → ∃ serial, serial < numThreads ∧
        ∀ (t : Nat) thread, state.threads[t]? = some thread → round < thread.results.length →
          (thread.results[round]? = some PTHREAD_BARRIER_SERIAL_THREAD ↔ t = serial) ∧
            (thread.results[round]? = some 0 ↔ t ≠ serial)) ∧
      ((∀ choice, step numBarriers choice state = none) → state.main = .exited false ∨
        (state.main = .exited true ∧ ∀ (t : Nat) thread, state.threads[t]? = some thread →
          thread.place = .terminated ∧ thread.results.length = numBarriers.toNat)) := by
  have first := start_inv numBarriers numThreads some_
  have inv : Inv numBarriers numThreads state := by
    refine Transition.reachable_invariant (fun _ here => here ▸ first)
      (fun choice before after inv taken =>
        step_inv numBarriers numThreads before after inv choice taken)
      (Transition.replay_reachable choices (Transition.Reachable.start rfl) replayed)
  have passed (t : Nat) (thread : Thread) (there : state.threads[t]? = some thread) :
      thread.j ≤ state.round ∧ state.round ≤ thread.calls := by
    have own := inv.sound t thread there
    cases place : thread.place <;>
      (simp only [Thread.Sound, place] at own; simp only [Thread.calls, place]; omega)
  have size (t : Nat) (thread : Thread) (there : state.threads[t]? = some thread) :
      thread.results.length = thread.j := by
    rw [inv.results t thread there, List.length_map, List.length_take]
    exact Nat.min_eq_left (passed t thread there).1
  refine ⟨?_, ?_, ?_, ?_⟩
  · rw [← start_rank]
    exact Transition.choices_bounded_within (step numBarriers) (rank numBarriers numThreads)
      (Inv numBarriers numThreads)
      (fun choice before after inv taken =>
        step_inv numBarriers numThreads before after inv choice taken)
      (fun choice before after inv taken =>
        step_lowers numBarriers numThreads before after inv choice taken)
      choices first replayed
  · intro t u thread other there here
    rw [size t thread there]
    exact Nat.le_trans (passed t thread there).1 (passed u other here).2
  · intro round complete
    refine ⟨state.serials[round], inv.serials _ (List.getElem_mem complete),
      fun t thread there returned => ?_⟩
    have value : thread.results[round]? = some (result t state.serials[round]) := by
      rw [size t thread there] at returned
      rw [inv.results t thread there, List.getElem?_map, List.getElem?_take_of_lt returned,
        List.getElem?_eq_getElem complete]
      rfl
    rw [value, result]
    by_cases same : t = state.serials[round]
    · simp [same, PTHREAD_BARRIER_SERIAL_THREAD]
    · simp [same, PTHREAD_BARRIER_SERIAL_THREAD]
  · intro stuck
    obtain ⟨success, exited⟩ := stuck_exited numBarriers numThreads state inv stuck
    cases success with
    | false => exact .inl exited
    | true =>
        refine .inr ⟨exited, fun t thread there => ?_⟩
        have place := inv.ended exited t thread there
        have own := inv.sound t thread there
        rw [Thread.Sound, place] at own
        exact ⟨place, (size t thread there).trans own.2⟩

/-- Two threads and two barriers; thread 0 is at the second barrier before thread 1 has left the
first. -/
def twice : List Choice :=
  [.main, .main, .main, .thread 0 0, .thread 0 0, .thread 1 0, .thread 1 1, .thread 0 0,
    .thread 0 0, .thread 0 0, .thread 1 0, .thread 1 0, .thread 1 0, .thread 1 0, .thread 0 0,
    .thread 1 0, .thread 0 0, .main, .main, .main]

theorem twice_is_passed : ∃ state, Transition.replay (step 2) twice (start 2) = some state ∧
    state.main = .exited true ∧ twice.length ≤ 26 := by
  have run : (Transition.replay (step 2) twice (start 2)).any
      (fun state => state.main = .exited true) = true := by
    decide
  obtain ⟨state, replayed, exited⟩ := (Option.any_eq_true _ _).mp run
  exact ⟨state, replayed, of_decide_eq_true exited,
    (threads_meet_at_barriers 2 2 (by decide) twice state replayed).1⟩

end Tlpi.BarrierRounds
