import Mathlib.Algebra.Order.Ring.Int
import Tlpi.Transition
import Tlpi.Indexed

/-!
namespaces/simple_init.c: the command loop of a process that is PID 1 of its
namespace. It forks a child for a command and then calls `pause`, which returns
after a signal handler has run; SIGCHLD is never blocked outside the handler, so
it is delivered at any point of the loop. Orphans of the namespace become children
too. What the child does before it terminates does not matter here.
-/

namespace Tlpi.ShellLoop

/-- `changed`: stopped or continued, and not yet reported by `waitpid`. -/
inductive Child where
  | running (changed : Bool)
  | zombie
  | reaped
  deriving DecidableEq

/-- `waitpid(-1, &wstatus, WNOHANG | WUNTRACED | WCONTINUED)` returns this child. -/
def waitable : Child → Bool
  | .running changed => changed
  | .zombie => true
  | .reaped => false

def waitedFor : Child → Child
  | .running _ => .running false
  | .zombie => .reaped
  | .reaped => .reaped

/-- `forked` is the stretch between `fork` and `pause`. -/
inductive Place where
  | reading
  | forking
  | forked
  | paused
  | resumed
  | exited
  deriving DecidableEq

/-- `current` is the child of this iteration, `handler` is set while `child_handler` runs. -/
structure State where
  place : Place
  handler : Bool
  current : Nat
  children : List Child
  pending : Bool
  deriving DecidableEq

inductive Choice where
  | read (line : Option (List UInt8))
  | fork (fails : Bool)
  | pause
  | tcsetpgrp (fails : Bool)
  | deliver
  | waitpid (child : Nat)
  | terminate (child : Nat)
  | change (child : Nat)
  | adopt (terminated : Bool)
  deriving DecidableEq

/-- A step of `child_handler`; its loop ends when `waitpid` returns 0 or fails with ECHILD. -/
def childHandler (waited : Nat) (state : State) : Option State :=
  if state.children.any waitable then
    match state.children[waited]? with
    | some child =>
        if waitable child then
          some { state with children := state.children.set waited (waitedFor child) }
        else none
    | none => none
  else
    -- a handler that interrupts `pause` makes it return
    some { state with
      handler := false, place := if state.place = .paused then .resumed else state.place }

def main (choice : Choice) (state : State) : Option State :=
  match state.place, choice with
  | .reading, .read none => some { state with place := .exited }
  | .reading, .read (some cmd) =>
      some { state with place := if cmd = [] then .reading else .forking }
  | .forking, .fork true => some { state with place := .exited }
  | .forking, .fork false =>
      some { state with
        place := .forked
        current := state.children.length
        children := state.children ++ [.running false] }
  | .forked, .pause => some { state with place := .paused }
  | .resumed, .tcsetpgrp fails => some { state with place := if fails then .exited else .reading }
  | _, _ => none

def step (choice : Choice) (state : State) : Option State :=
  match choice with
  | .deliver =>
      if state.pending ∧ state.handler = false ∧ state.place ≠ .exited then
        some { state with pending := false, handler := true }
      else none
  | .waitpid child => if state.handler then childHandler child state else none
  | .terminate child =>
      match state.children[child]? with
      | some (.running _) =>
          some { state with children := state.children.set child .zombie, pending := true }
      | _ => none
  | .change child =>
      -- SA_NOCLDSTOP: no signal
      match state.children[child]? with
      | some (.running _) =>
          some { state with children := state.children.set child (.running true) }
      | _ => none
  | .adopt terminated =>
      some { state with
        children := state.children ++ [if terminated then .zombie else .running false]
        pending := state.pending || terminated }
  | choice => if state.handler then none else main choice state

def start : State := ⟨.reading, false, 0, [], false⟩

/-- Blocked in `pause` over a child that is gone, with no signal to come. -/
def Asleep (state : State) : Prop :=
  state.place = .paused ∧ state.handler = false ∧
    state.children[state.current]? = some .reaped ∧
    state.pending = false

instance (state : State) : Decidable (Asleep state) := by
  unfold Asleep
  infer_instance

def isRunning : Option Child → Bool
  | some (.running _) => true
  | _ => false

/-- SIGCHLD is not delivered between `fork` and `pause` once the new child has terminated. -/
def undisturbed (choice : Choice) (state : State) : Bool :=
  choice ≠ .deliver || state.place ≠ .forked || isRunning state.children[state.current]?

/-- Until the shell sleeps, its child runs or its SIGCHLD is still pending. -/
def Awake (state : State) : Prop :=
  state.place = .forked ∨ state.place = .paused ∧ state.handler = false →
    isRunning state.children[state.current]? = true ∨ state.pending = true

theorem awake_not_asleep (state : State) (awake : Awake state) : ¬ Asleep state := by
  rintro ⟨place, handler, reaped, quiet⟩
  rcases awake (Or.inr ⟨place, handler⟩) with running | pending
  · rw [reaped] at running
    cases running
  · rw [quiet] at pending
    cases pending

theorem running_set (children : List Child) (index current : Nat) (old new : Child)
    (there : children[index]? = some old) (same : isRunning (some new) = isRunning (some old)) :
    isRunning (children.set index new)[current]? = isRunning children[current]? := by
  by_cases here : index = current
  · subst here
    rw [Indexed.set_self children index old new there, there, same]
  · rw [List.getElem?_set_ne here]

theorem running_append (children : List Child) (new : Child) (current : Nat)
    (running : isRunning children[current]? = true) :
    isRunning (children ++ [new])[current]? = true := by
  cases found : children[current]? with
  | none =>
      rw [found] at running
      cases running
  | some child =>
      rw [List.getElem?_append_left (List.getElem?_eq_some_iff.mp found).1, found]
      rw [found] at running
      exact running

theorem handler_awake (waited : Nat) (before after : State) (awake : Awake before)
    (taken : childHandler waited before = some after) : Awake after := by
  unfold childHandler at taken
  split at taken
  · split at taken
    · next child there =>
        split at taken
        · cases taken
          have same : isRunning (some (waitedFor child)) = isRunning (some child) := by
            cases child <;> rfl
          intro place
          dsimp only
          rw [running_set before.children waited before.current child _ there same]
          exact awake place
        · cases taken
    · cases taken
  · cases taken
    rintro (place | ⟨place, _⟩)
    · refine awake (Or.inl ?_)
      dsimp only at place
      split at place
      · cases place
      · exact place
    · exfalso
      dsimp only at place
      split at place
      · cases place
      · next other => exact other place

theorem main_awake (choice : Choice) (before after : State) (awake : Awake before)
    (taken : main choice before = some after) : Awake after := by
  unfold main at taken
  split at taken
  · cases taken
    rintro (bad | ⟨bad, _⟩) <;> cases bad
  · cases taken
    rintro (bad | ⟨bad, _⟩)
    · dsimp only at bad
      split at bad <;> cases bad
    · dsimp only at bad
      split at bad <;> cases bad
  · cases taken
    rintro (bad | ⟨bad, _⟩) <;> cases bad
  · cases taken
    intro _
    refine Or.inl ?_
    simp [isRunning]
  · next place =>
      cases taken
      exact fun _ => awake (Or.inl place)
  · cases taken
    rintro (bad | ⟨bad, _⟩)
    · dsimp only at bad
      split at bad <;> cases bad
    · dsimp only at bad
      split at bad <;> cases bad
  · cases taken

theorem step_awake (choice : Choice) (before after : State) (awake : Awake before)
    (taken : Transition.restrict undisturbed step choice before = some after) : Awake after := by
  obtain ⟨calm, taken⟩ := Transition.restrict_some taken
  cases choice with
  | deliver =>
      simp only [step] at taken
      split at taken
      · cases taken
        rintro (place | ⟨_, bad⟩)
        · -- the signal of the child itself has to wait for `pause`
          refine Or.inl ?_
          have window : before.place = .forked := place
          simpa [undisturbed, window] using calm
        · cases bad
      · cases taken
  | waitpid child =>
      simp only [step] at taken
      split at taken
      · exact handler_awake child before after awake taken
      · cases taken
  | terminate child =>
      simp only [step] at taken
      split at taken
      · cases taken
        exact fun _ => Or.inr rfl
      · cases taken
  | change child =>
      simp only [step] at taken
      split at taken
      · next changed there =>
          cases taken
          intro place
          dsimp only
          rw [running_set before.children child before.current (.running changed)
              (.running true) there rfl]
          exact awake place
      · cases taken
  | adopt terminated =>
      cases taken
      intro place
      rcases awake place with running | pending
      · exact Or.inl (running_append before.children _ before.current running)
      · exact Or.inr (by rw [pending]; rfl)
  | read line =>
      simp only [step] at taken
      split at taken
      · cases taken
      · exact main_awake _ before after awake taken
  | fork fails =>
      simp only [step] at taken
      split at taken
      · cases taken
      · exact main_awake _ before after awake taken
  | pause =>
      simp only [step] at taken
      split at taken
      · cases taken
      · exact main_awake _ before after awake taken
  | tcsetpgrp fails =>
      simp only [step] at taken
      split at taken
      · cases taken
      · exact main_awake _ before after awake taken

theorem start_awake : Awake start := by
  rintro (bad | ⟨bad, _⟩) <;> cases bad

/-! The condition leaves nothing out: one such delivery, and the shell can fall asleep. -/

def Sized (state : State) : Prop := state.place = .forked → state.current < state.children.length

theorem handler_sized (waited : Nat) (before after : State) (sized : Sized before)
    (taken : childHandler waited before = some after) : Sized after := by
  unfold childHandler at taken
  split at taken
  · split at taken
    · split at taken
      · cases taken
        intro place
        have inside := sized place
        dsimp only
        rw [List.length_set]
        exact inside
      · cases taken
    · cases taken
  · cases taken
    intro place
    refine sized ?_
    dsimp only at place
    split at place
    · cases place
    · exact place

theorem main_sized (choice : Choice) (before after : State)
    (taken : main choice before = some after) : Sized after := by
  unfold main at taken
  split at taken <;> cases taken
  · intro bad
    cases bad
  · intro bad
    dsimp only at bad
    split at bad <;> cases bad
  · intro bad
    cases bad
  · intro _
    simp
  · intro bad
    cases bad
  · intro bad
    dsimp only at bad
    split at bad <;> cases bad

theorem step_sized (choice : Choice) (before after : State) (sized : Sized before)
    (taken : step choice before = some after) : Sized after := by
  have own : (if before.handler then none else main choice before) = some after →
      Sized after := by
    intro moved
    split at moved
    · cases moved
    · exact main_sized choice before after moved
  have changed : ∀ child new pending, Sized
      { before with children := before.children.set child new, pending := pending } := by
    intro child new pending place
    have inside := sized place
    dsimp only
    rw [List.length_set]
    exact inside
  cases choice with
  | read line => exact own taken
  | fork fails => exact own taken
  | pause => exact own taken
  | tcsetpgrp fails => exact own taken
  | deliver =>
      simp only [step] at taken
      split at taken
      · cases taken
        exact sized
      · cases taken
  | waitpid child =>
      simp only [step] at taken
      split at taken
      · exact handler_sized child before after sized taken
      · cases taken
  | terminate child =>
      simp only [step] at taken
      split at taken
      · cases taken
        exact changed child .zombie true
      · cases taken
  | change child =>
      simp only [step] at taken
      split at taken
      · cases taken
        exact changed child (.running true) before.pending
      · cases taken
  | adopt terminated =>
      cases taken
      intro place
      have inside := sized place
      dsimp only
      rw [List.length_append]
      omega

def waiting (child : Child) : Nat := if waitable child then 1 else 0

/-- The handler reaps whatever there is and returns. -/
theorem handler_returns (count : Nat) (state : State)
    (few : (state.children.map waiting).sum ≤ count) (running : state.handler = true)
    (window : state.place = .forked) (dead : state.children[state.current]? = some .zombie ∨
      state.children[state.current]? = some .reaped) :
    ∃ choices after, Transition.replay step choices state = some after ∧
      after.place = .forked ∧
      after.handler = false ∧ after.children[after.current]? = some .reaped ∧
        after.pending = state.pending := by
  induction count generalizing state with
  | zero =>
      have nobody : state.children.any waitable = false := by
        rw [List.any_eq_false]
        intro child member
        have none_ := List.sum_eq_zero_iff_forall_eq_nat.mp (Nat.le_zero.mp few) _
          (List.mem_map.mpr ⟨child, member, rfl⟩)
        cases held : waitable child with
        | false => exact Bool.false_ne_true
        | true => simp [waiting, held] at none_
      have gone : state.children[state.current]? = some .reaped := by
        rcases dead with zombie | reaped
        · have bad := List.any_eq_false.mp nobody _ (List.mem_of_getElem? zombie)
          exact absurd rfl bad
        · exact reaped
      refine ⟨[.waitpid 0], { state with handler := false }, ?_, window, rfl, gone, rfl⟩
      refine Transition.replay_cons _ _ ?_ rfl
      simp only [step, running, if_true, childHandler, nobody, window, Bool.false_eq_true, if_false]
      rfl
  | succ count ih =>
      by_cases somebody : state.children.any waitable = true
      · obtain ⟨child, member, hit⟩ := List.any_eq_true.mp somebody
        obtain ⟨index, there⟩ := List.getElem?_of_mem member
        have calm : waiting (waitedFor child) = 0 := by cases child <;> rfl
        have one : waiting child = 1 := by simp [waiting, hit]
        have sum := Indexed.sum_set waiting state.children index child (waitedFor child) there
        have still : (state.children.set index (waitedFor child))[state.current]? = some .zombie ∨
            (state.children.set index (waitedFor child))[state.current]? = some .reaped := by
          by_cases here : index = state.current
          · subst here
            rw [Indexed.set_self _ _ child _ there]
            rw [there] at dead
            rcases dead with zombie | reaped
            · cases zombie
              exact Or.inr rfl
            · cases reaped
              exact Or.inr rfl
          · rw [List.getElem?_set_ne here]
            exact dead
        obtain ⟨choices, after, replayed, facts⟩ := ih
          { state with children := state.children.set index (waitedFor child) }
            (by dsimp only; omega) running
          window still
        refine ⟨.waitpid index :: choices, after, Transition.replay_cons _ _ ?_ replayed, facts⟩
        simp only [step, running, if_true, childHandler, somebody, there, hit]
      · have none_ : (state.children.map waiting).sum ≤ count := by
          have zero : ∀ weight ∈ state.children.map waiting, weight = 0 := by
            intro weight listed
            obtain ⟨child, member, rfl⟩ := List.mem_map.mp listed
            have idle := List.any_eq_false.mp (Bool.eq_false_iff.mpr somebody) child member
            simp [waiting, idle]
          rw [List.sum_eq_zero_iff_forall_eq_nat.mpr zero]
          exact Nat.zero_le count
        exact ih state none_ running window dead

theorem disturbed_shell_sleeps (state middle : State) (sized : Sized state)
    (disturbed : undisturbed .deliver state = false)
    (delivered : step .deliver state = some middle) :
    ∃ choices after, Transition.replay step choices middle = some after ∧ Asleep after := by
  simp only [undisturbed, ne_eq, not_true_eq_false, decide_false, Bool.false_or,
    Bool.or_eq_false_iff, decide_eq_false_iff_not, Decidable.not_not] at disturbed
  obtain ⟨window, stopped⟩ := disturbed
  simp only [step] at delivered
  split at delivered
  · cases delivered
    have inside := sized window
    have dead : state.children[state.current]? = some .zombie ∨
        state.children[state.current]? = some .reaped := by
      rw [List.getElem?_eq_getElem inside] at stopped ⊢
      cases child : state.children[state.current] with
      | running changed =>
          rw [child] at stopped
          cases stopped
      | zombie => exact Or.inl rfl
      | reaped => exact Or.inr rfl
    obtain ⟨choices, after, replayed, place, handler, reaped, quiet⟩ := handler_returns _
      { state with pending := false, handler := true } (Nat.le_refl _) rfl window dead
    have paused : step .pause after = some { after with place := .paused } := by
      simp [step, handler, main, place]
    refine ⟨choices ++ [.pause], { after with place := .paused }, ?_, rfl,
      handler, reaped, quiet⟩
    exact Transition.replay_append choices _ replayed (Transition.replay_cons _ _ paused rfl)
  · cases delivered

/-- As long as no SIGCHLD comes between `fork` and `pause` with the new child already
terminated, the shell never sleeps over a finished command; after any SIGCHLD that does,
it may. -/
theorem undisturbed_shell_never_sleeps (state : State) :
    (Transition.Reachable (· = start) (Transition.restrict undisturbed step) state →
      ¬ Asleep state) ∧
    (Transition.Reachable (· = start) step state → undisturbed .deliver state = false →
      ∀ middle, step .deliver state = some middle →
        ∃ choices after, Transition.replay step choices middle = some after ∧
        Asleep after) := by
  constructor
  · intro reached
    refine awake_not_asleep state (Transition.reachable_invariant ?_ step_awake reached)
    rintro state rfl
    exact start_awake
  · intro reached disturbed middle delivered
    have sized : Sized state := by
      refine Transition.reachable_invariant ?_ step_sized reached
      rintro state rfl
      intro bad
      cases bad
    exact disturbed_shell_sleeps state middle sized disturbed delivered

-- The command ends before `pause`, and its signal interrupts `pause`.
theorem pending_signal_wakes_the_shell :
    ∃ state, Transition.replay (Transition.restrict undisturbed step)
        [.read (some [108, 115]), .fork false, .terminate 0, .pause] start = some state ∧
      state.place = .paused ∧ state.pending = true ∧ ¬ Asleep state := by
  obtain ⟨state, replayed, place, pending⟩ : ∃ state,
    Transition.replay (Transition.restrict undisturbed step)
      [.read (some [108, 115]), .fork false, .terminate 0, .pause] start = some state ∧
      state.place = .paused ∧ state.pending = true := ⟨_, rfl, rfl, rfl⟩
  have reached : Transition.Reachable (· = start) (Transition.restrict undisturbed step) state :=
    Transition.replay_reachable _ (.start rfl) replayed
  exact ⟨state, replayed, place, pending, (undisturbed_shell_never_sleeps state).1 reached⟩

-- The command ends and is reaped before the shell has called `pause`.
theorem quick_command_hangs_the_shell :
    ∃ state, Transition.replay step [.read (some [108, 115]), .fork false, .terminate 0,
        .deliver, .waitpid 0, .waitpid 0, .pause] start = some state ∧ Asleep state :=
  ⟨_, rfl, by decide⟩

end Tlpi.ShellLoop
