import Mathlib.Data.List.Basic
import Mathlib.Data.List.Nodup
import Mathlib.Data.List.Perm.Subperm
import Tlpi.Transition
import Tlpi.Indexed

/-!
procexec/multi_SIGCHLD.c: a parent that forks its children with SIGCHLD blocked
and reaps them from the handler. SIGCHLD is one flag, however many children have
terminated; it is delivered only inside `sigsuspend` and stays blocked while the
handler runs. The handler prints the children it reaps, in order: `log`.
-/

namespace Tlpi.ChildReaping

inductive Child where
  | unborn
  | running
  | zombie
  | reaped
  deriving DecidableEq

/-- What the parent does next. -/
inductive Place where
  | fork (j : Nat)
  | test
  | sigsuspend
  | waitpid
  | handlerEnd
  | exited
  | failed
  deriving DecidableEq

structure State where
  place : Place
  children : List Child
  pending : Bool
  numLiveChildren : Int
  sigCnt : Nat
  log : List Nat
  deriving DecidableEq

/-- `waitpid` names the child that it would return, if several have terminated. -/
inductive Choice where
  | parent (waited : Nat)
  | forkFails
  | terminate (child : Nat)
  deriving DecidableEq

/-- No successor while the parent is blocked or gone. -/
def stepParent (waited : Nat) (state : State) : Option State :=
  match state.place with
  | .fork j =>
      if j < state.children.length then
        some { state with place := .fork (j + 1), children := state.children.set j .running }
      else some { state with place := .test }
  | .test => some { state with place := if state.numLiveChildren > 0 then .sigsuspend else .exited }
  | .sigsuspend =>
      if state.pending then some { state with place := .waitpid, pending := false } else none
  | .waitpid =>
      if .zombie ∈ state.children then
        if state.children[waited]? = some .zombie then
          some { state with
            children := state.children.set waited .reaped
            numLiveChildren := state.numLiveChildren - 1
            log := state.log ++ [waited] }
        else none
      else some { state with place := .handlerEnd }
  | .handlerEnd => some { state with place := .test, sigCnt := state.sigCnt + 1 }
  | .exited => none
  | .failed => none

def step : Choice → State → Option State
  | .parent waited, state => stepParent waited state
  | .forkFails, state =>
      match state.place with
      | .fork _ => some { state with place := .failed }
      | _ => none
  | .terminate child, state =>
      if state.children[child]? = some .running then
        some { state with children := state.children.set child .zombie, pending := true }
      else none

/-- After SIGCHLD has been blocked; `count` is argc - 1. -/
def start (count : Nat) : State := ⟨.fork 0, List.replicate count .unborn, false, count, 0, []⟩

/-- The children that are still to be forked. -/
def Unborn (count : Nat) (place : Place) (children : List Child) : Prop :=
  match place with
  | .fork j => ∀ child, children[child]? = some .unborn ↔ j ≤ child ∧ child < count
  | .failed => True
  | _ => .unborn ∉ children

/-- A terminated child is reaped by the handler that is running or by one to come. -/
structure Counted (count : Nat) (state : State) : Prop where
  size : state.children.length = count
  live : state.numLiveChildren + state.log.length = count
  once : state.log.Nodup
  logged : ∀ child, child ∈ state.log ↔ state.children[child]? = some .reaped
  waking : .zombie ∈ state.children → state.pending = true ∨ state.place = .waitpid
  unborn : Unborn count state.place state.children
  sleeping : state.place = .sigsuspend → 0 < state.numLiveChildren
  finished : state.place = .exited → state.numLiveChildren ≤ 0

theorem start_counted (count : Nat) : Counted count (start count) := by
  refine ⟨List.length_replicate, by simp [start], List.nodup_nil, ?_, ?_, ?_, ?_, ?_⟩
  · intro child
    simp [start, List.getElem?_replicate]
  · intro bad
    have member := List.eq_of_mem_replicate bad
    cases member
  · intro child
    simp [start, List.getElem?_replicate]
  · intro bad
    cases bad
  · intro bad
    cases bad

/-- Every logged child is one of the children, so there are no more of them. -/
theorem log_bounded (count : Nat) (state : State) (sound : Counted count state) :
    state.log.length ≤ count := by
  have inside : state.log ⊆ List.range count := by
    intro child member
    have there := (List.getElem?_eq_some_iff.mp ((sound.logged child).mp member)).1
    rw [sound.size] at there
    exact List.mem_range.mpr there
  have fewer := (sound.once.subperm inside).length_le
  rwa [List.length_range] at fewer

/-- With a live child left to count, some child has not been reaped. -/
theorem unreaped_child (count : Nat) (state : State) (sound : Counted count state)
    (alive : 0 < state.numLiveChildren) : ∃ other ∈ state.children, other ≠ Child.reaped := by
  by_contra none_
  have inside : List.range count ⊆ state.log := by
    intro child member
    rw [List.mem_range, ← sound.size] at member
    rw [sound.logged, List.getElem?_eq_getElem member]
    by_contra different
    exact none_ ⟨_, List.getElem_mem member, fun same => different (congrArg some same)⟩
  have fewer := (List.nodup_range.subperm inside).length_le
  rw [List.length_range] at fewer
  have live := sound.live
  omega

theorem mem_set_other (children : List Child) (child : Nat) (new other : Child)
    (different : other ≠ new) (member : other ∈ children.set child new) : other ∈ children :=
  (List.mem_or_eq_of_mem_set member).resolve_right different

/-- A child that changes, but is not reaped, and was not reaped. -/
theorem logged_set (children : List Child) (log : List Nat) (index : Nat) (old new : Child)
    (logged : ∀ child, child ∈ log ↔ children[child]? = some .reaped)
    (there : children[index]? = some old) (unreaped : old ≠ .reaped) (living : new ≠ .reaped) :
    ∀ child, child ∈ log ↔ (children.set index new)[child]? = some .reaped := by
  intro child
  rw [logged]
  by_cases here : index = child
  · subst here
    rw [Indexed.set_self children index old new there, there]
    simp [unreaped, living]
  · rw [List.getElem?_set_ne here]

theorem fork_counted (count j : Nat) (state : State) (sound : Counted count state)
    (place : state.place = .fork j) (inside : j < state.children.length) :
    Counted count
      { state with place := .fork (j + 1), children := state.children.set j .running } := by
  have unborn := sound.unborn
  simp only [place, Unborn] at unborn
  rw [sound.size] at inside
  have here := (unborn j).mpr ⟨Nat.le_refl j, inside⟩
  refine ⟨by rw [List.length_set]; exact sound.size, sound.live, sound.once,
    logged_set _ _ j .unborn .running sound.logged here (by decide) (by decide), ?_, ?_, ?_, ?_⟩
  · intro zombie
    refine (sound.waking (mem_set_other _ _ _ _ (by decide) zombie)).imp_right fun bad => ?_
    rw [place] at bad
    cases bad
  · intro child
    dsimp only
    by_cases same : j = child
    · subst same
      rw [Indexed.set_self state.children j .unborn .running here]
      simp only [Option.some.injEq, reduceCtorEq, false_iff]
      omega
    · rw [List.getElem?_set_ne same, unborn]
      omega
  · intro bad
    cases bad
  · intro bad
    cases bad

/-- Steps of the parent that leave the children alone. -/
theorem moved_counted (count : Nat) (state : State) (place : Place) (pending : Bool) (sigCnt : Nat)
    (sound : Counted count state)
    (waking : .zombie ∈ state.children → pending = true ∨ place = .waitpid)
    (unborn : Unborn count place state.children)
    (sleeping : place = .sigsuspend → 0 < state.numLiveChildren)
    (finished : place = .exited → state.numLiveChildren ≤ 0) :
    Counted count { state with place := place, pending := pending, sigCnt := sigCnt } :=
  ⟨sound.size, sound.live, sound.once, sound.logged, waking, unborn, sleeping, finished⟩

theorem reap_counted (count waited : Nat) (state : State) (sound : Counted count state)
    (place : state.place = .waitpid) (there : state.children[waited]? = some .zombie) :
    Counted count { state with
      children := state.children.set waited .reaped
      numLiveChildren := state.numLiveChildren - 1
      log := state.log ++ [waited] } := by
  have fresh : waited ∉ state.log := by
    rw [sound.logged, there]
    simp
  refine ⟨by rw [List.length_set]; exact sound.size, ?_, ?_, ?_,
    fun _ => Or.inr place, ?_, ?_, ?_⟩
  · have live := sound.live
    simp only [List.length_append, List.length_singleton]
    omega
  · exact List.nodup_append.mpr ⟨sound.once, List.nodup_singleton _, by
      intro child old last new same
      rw [List.mem_singleton] at new
      exact fresh (new ▸ same ▸ old)⟩
  · intro child
    dsimp only
    rw [List.mem_append, List.mem_singleton, sound.logged]
    by_cases here : waited = child
    · subst here
      rw [Indexed.set_self state.children waited .zombie .reaped there]
      simp
    · rw [List.getElem?_set_ne here]
      have other : child ≠ waited := Ne.symm here
      simp [other]
  · have unborn := sound.unborn
    simp only [place, Unborn] at unborn ⊢
    exact fun member => unborn (mem_set_other _ _ _ _ (by decide) member)
  · intro bad
    rw [place] at bad
    cases bad
  · intro bad
    rw [place] at bad
    cases bad

theorem terminate_counted (count child : Nat) (state : State) (sound : Counted count state)
    (there : state.children[child]? = some .running) :
    Counted count { state with children := state.children.set child .zombie, pending := true } := by
  refine ⟨by rw [List.length_set]; exact sound.size, sound.live, sound.once,
    logged_set _ _ child .running .zombie sound.logged there (by decide) (by decide),
    fun _ => Or.inl rfl, ?_, sound.sleeping, sound.finished⟩
  have unborn := sound.unborn
  have absent : .unborn ∉ state.children → .unborn ∉ state.children.set child .zombie :=
    fun none_ member => none_ (mem_set_other _ _ _ _ (by decide) member)
  cases place : state.place with
  | fork j =>
      simp only [place, Unborn] at unborn ⊢
      intro other
      by_cases here : child = other
      · subst here
        rw [Indexed.set_self state.children child .running .zombie there, ← unborn child, there]
        simp
      · rw [List.getElem?_set_ne here, unborn]
  | failed => trivial
  | test => exact absent (by simpa only [place, Unborn] using unborn)
  | sigsuspend => exact absent (by simpa only [place, Unborn] using unborn)
  | waitpid => exact absent (by simpa only [place, Unborn] using unborn)
  | handlerEnd => exact absent (by simpa only [place, Unborn] using unborn)
  | exited => exact absent (by simpa only [place, Unborn] using unborn)

theorem parent_counted (count waited : Nat) (before after : State) (sound : Counted count before)
    (taken : stepParent waited before = some after) : Counted count after := by
  have unborn := sound.unborn
  have asleep : before.place ≠ .waitpid → .zombie ∈ before.children →
      before.pending = true :=
    fun other zombie => (sound.waking zombie).resolve_right other
  unfold stepParent at taken
  split at taken
  · next j place =>
      split at taken
      · next inside =>
          cases taken
          exact fork_counted count j before sound place inside
      · next outside =>
          cases taken
          refine moved_counted count before .test _ _ sound
            (fun zombie => Or.inl (asleep (by rw [place]; simp) zombie)) ?_
              (fun bad => by cases bad)
            (fun bad => by cases bad)
          simp only [place, Unborn] at unborn
          intro member
          obtain ⟨child, found⟩ := List.getElem?_of_mem member
          have range := (unborn child).mp found
          rw [sound.size] at outside
          omega
  · next place =>
      cases taken
      simp only [place, Unborn] at unborn
      refine moved_counted count before _ _ _ sound
        (fun zombie => Or.inl (asleep (by rw [place]; simp) zombie)) ?_ ?_ ?_
      · split <;> exact unborn
      · split
        · next alive => exact fun _ => alive
        · intro bad
          cases bad
      · split
        · intro bad
          cases bad
        · next none_ => exact fun _ => Int.not_lt.mp none_
  · next place =>
      split at taken
      · cases taken
        simp only [place, Unborn] at unborn
        exact moved_counted count before .waitpid false _ sound (fun _ => Or.inr rfl) unborn
          (fun bad => by cases bad) (fun bad => by cases bad)
      · cases taken
  · next place =>
      split at taken
      · split at taken
        · next there =>
            cases taken
            exact reap_counted count waited before sound place there
        · cases taken
      · next nobody =>
          cases taken
          simp only [place, Unborn] at unborn
          exact moved_counted count before .handlerEnd _ _ sound
            (fun zombie => absurd zombie nobody) unborn
            (fun bad => by cases bad) (fun bad => by cases bad)
  · next place =>
      cases taken
      simp only [place, Unborn] at unborn
      exact moved_counted count before .test _ _ sound
        (fun zombie => Or.inl (asleep (by rw [place]; simp) zombie)) unborn
          (fun bad => by cases bad)
        (fun bad => by cases bad)
  · cases taken
  · cases taken

theorem step_counted (count : Nat) (choice : Choice) (before after : State)
    (sound : Counted count before) (taken : step choice before = some after) :
    Counted count after := by
  cases choice with
  | parent waited => exact parent_counted count waited before after sound taken
  | forkFails =>
      simp only [step] at taken
      split at taken
      · next j place =>
          cases taken
          refine moved_counted count before .failed _ _ sound (fun zombie => ?_) trivial
            (fun bad => by cases bad) (fun bad => by cases bad)
          refine (sound.waking zombie).imp_right fun bad => ?_
          rw [place] at bad
          cases bad
      · cases taken
  | terminate child =>
      simp only [step] at taken
      split at taken
      · next there =>
          cases taken
          exact terminate_counted count child before sound there
      · cases taken

/-- The parent sleeps only while a child runs: a zombie would have its signal pending. -/
theorem asleep_running (count : Nat) (state : State) (sound : Counted count state)
    (place : state.place = .sigsuspend) (quiet : state.pending = false) :
    .running ∈ state.children := by
  obtain ⟨child, member, unreaped⟩ := unreaped_child count state sound (sound.sleeping place)
  have unborn := sound.unborn
  simp only [place, Unborn] at unborn
  cases child with
  | unborn => exact absurd member unborn
  | running => exact member
  | zombie =>
      rcases sound.waking member with bad | bad
      · rw [quiet] at bad
        cases bad
      · rw [place] at bad
        cases bad
  | reaped => exact absurd rfl unreaped

/-- A child that is not reaped is missing from the log, which is then too short. -/
theorem unreaped_short (count : Nat) (state : State) (sound : Counted count state)
    (index : Nat) (child : Child) (found : state.children[index]? = some child)
    (unreaped : child ≠ .reaped) : state.log.length < count := by
  have inside : state.log ⊆ (List.range count).erase index := by
    intro one logged
    have there := (sound.logged one).mp logged
    refine (List.mem_erase_of_ne ?_).mpr (List.mem_range.mpr ?_)
    · rintro rfl
      rw [found] at there
      exact unreaped (Option.some.inj there)
    · rw [← sound.size]
      exact (List.getElem?_eq_some_iff.mp there).1
  have range : index < count := by
    rw [← sound.size]
    exact (List.getElem?_eq_some_iff.mp found).1
  have fewer := (sound.once.subperm inside).length_le
  rw [List.length_erase_of_mem (List.mem_range.mpr range), List.length_range] at fewer
  omega

theorem exited_reaped (count : Nat) (state : State) (sound : Counted count state)
    (place : state.place = .exited) : state.children = List.replicate count .reaped := by
  rw [List.eq_replicate_iff]
  refine ⟨sound.size, fun child member => ?_⟩
  by_contra unreaped
  obtain ⟨index, found⟩ := List.getElem?_of_mem member
  have short := unreaped_short count state sound index child found unreaped
  have live := sound.live
  have done := sound.finished place
  omega

/-- In every interleaving: the counter is what is left to reap, every child is reaped at
most once, the parent sleeps only while a child runs, and it ends when all are reaped. -/
theorem children_are_reaped (count : Nat) (state : State)
    (reached : Transition.Reachable (· = start count) step state) :
    state.numLiveChildren = count - state.log.length ∧ 0 ≤ state.numLiveChildren ∧
    (state.log.Nodup ∧ ∀ child, child ∈ state.log ↔
      state.children[child]? = some .reaped) ∧
    (state.place = .sigsuspend → state.pending = false → .running ∈ state.children) ∧
    (state.place = .exited → state.children = List.replicate count .reaped) := by
  have sound : Counted count state := by
    refine Transition.reachable_invariant ?_ (step_counted count) reached
    rintro state rfl
    exact start_counted count
  have live := sound.live
  have few := log_bounded count state sound
  exact ⟨by omega, by omega, ⟨sound.once, sound.logged⟩, asleep_running count state sound,
    exited_reaped count state sound⟩

-- Both children terminate before the parent first waits, and one signal serves for both.
theorem coalesced_children_are_reaped :
    ∃ state, Transition.replay step [.parent 0, .terminate 0, .parent 0, .terminate 1,
        .parent 0, .parent 0, .parent 0, .parent 1, .parent 0, .parent 0, .parent 0,
        .parent 0] (start 2) = some state ∧
      state.sigCnt = 1 ∧ state.children = List.replicate 2 .reaped := by
  obtain ⟨state, replayed, once, place⟩ : ∃ state,
    Transition.replay step [.parent 0, .terminate 0, .parent 0,
      .terminate 1, .parent 0, .parent 0, .parent 0, .parent 1, .parent 0, .parent 0,
      .parent 0, .parent 0]
      (start 2) = some state ∧ state.sigCnt = 1 ∧ state.place = .exited :=
        ⟨_, rfl, rfl, rfl⟩
  have reached : Transition.Reachable (· = start 2) step state :=
    Transition.replay_reachable _ (.start rfl) replayed
  exact ⟨state, replayed, once, (children_are_reaped 2 state reached).2.2.2.2 place⟩

end Tlpi.ChildReaping
