import Mathlib.Algebra.Order.Ring.Int
import Mathlib.Data.List.Basic
import Tlpi.Indexed
import Tlpi.Transition

/-!
pipes/pipe_sync.c: a parent waits for its children by reading from a pipe to which nobody writes.
It gets the end of file when the last child has closed its write end, or is gone. The children work
for any time, and may fail or be killed.
-/

namespace Tlpi.PipeSync

inductive Place where
  | closeRead
  | work
  | closeWrite
  | exit
  | ended
  deriving DecidableEq

inductive Parent where
  | fork
  | close
  | read
  | ready
  | exited (success : Bool)
  deriving DecidableEq

/-- `Parent started`, `Child %d (PID=%ld) closing pipe` and `Parent ready to go`. -/
inductive Line where
  | started
  | closing (j : Nat)
  | ready
  deriving DecidableEq

structure State where
  parent : Parent
  children : List Place
  stdout : List Line
  deriving DecidableEq

inductive Choice where
  | parent (works : Bool)
  | child (index : Nat) (works : Bool)
  | kill (index : Nat)
  deriving DecidableEq

/-- The child has the write end of the pipe, as it inherits it. -/
def Place.holds : Place → Bool
  | .closeRead => true
  | .work => true
  | .closeWrite => true
  | .exit => false
  | .ended => false

section Program
variable (numChildren : Nat)

def stepParent (works : Bool) (state : State) : Option State :=
  match state.parent with
  | .fork =>
      if state.children.length < numChildren then
        if works then some { state with children := state.children ++ [.closeRead] }
        else some { state with parent := .exited false }
      else some { state with parent := .close }
  | .close => some { state with parent := .read }
  | .read => if state.children.any Place.holds then none else some { state with parent := .ready }
  | .ready => some { state with stdout := state.stdout ++ [.ready], parent := .exited true }
  | .exited _ => none

/-- `getInt` ends the child if its argument is not a time to sleep. -/
def act (index : Nat) (works : Bool) : Place → Option (Place × List Line)
  | .closeRead => some (.work, [])
  | .work => if works then some (.closeWrite, [.closing (index + 1)]) else some (.ended, [])
  | .closeWrite => some (.exit, [])
  | .exit => some (.ended, [])
  | .ended => none

def moved (state : State) (index : Nat) (next : Place × List Line) : State :=
  { state with children := state.children.set index next.1, stdout := state.stdout ++ next.2 }

def kill : Place → Option (Place × List Line)
  | .ended => none
  | _ => some (.ended, [])

def step : Choice → State → Option State
  | .parent works, state => stepParent numChildren works state
  | .child index works, state =>
      (state.children[index]?.bind (act index works)).map (moved state index)
  | .kill index, state => (state.children[index]?.bind kill).map (moved state index)

end Program

def start : State := ⟨.fork, [], [.started]⟩

/-! What the parent can rely on. -/

/-- The child has told that it closes the pipe. -/
def Place.told : Place → Bool
  | .closeWrite => true
  | .exit => true
  | _ => false

structure Inv (numChildren : Nat) (state : State) : Prop where
  few : state.children.length ≤ numChildren
  all : state.parent ≠ .fork → state.parent ≠ .exited false →
    state.children.length = numChildren
  released : state.parent = .ready ∨ state.parent = .exited true → ∀ place ∈ state.children,
    place.holds = false
  last : ∃ lines, state.stdout = lines ++ (if state.parent = .exited true then [.ready]
    else []) ∧ .ready ∉ lines
  told : ∀ (index : Nat) place, state.children[index]? = some place → place.told = true →
    .closing (index + 1) ∈ state.stdout

/-- A move of a child: no write end comes back, and without one the child prints nothing more. -/
structure Moves (index : Nat) (old : Place) (next : Place × List Line) : Prop where
  released : old.holds = false → next.1.holds = false ∧ next.2 = []
  child : .ready ∉ next.2
  told : next.1.told = true → old.told = true ∨ .closing (index + 1) ∈ next.2

section Runs
variable (numChildren : Nat)

theorem start_inv : Inv numChildren start :=
  ⟨Nat.zero_le _, fun bad => absurd rfl bad, fun _ _ member => absurd member List.not_mem_nil,
    ⟨[.started], rfl, by decide⟩, fun _ _ bad => by cases bad⟩

theorem act_moves (index : Nat) (works : Bool) (old : Place) (next : Place × List Line)
    (taken : act index works old = some next) : Moves index old next := by
  cases old with
  | closeRead =>
      cases taken
      exact ⟨fun bad => (by cases bad), List.not_mem_nil, fun bad => (by cases bad)⟩
  | work =>
      cases works with
      | true =>
          cases taken
          exact ⟨fun bad => (by cases bad), by simp, fun _ => .inr List.mem_cons_self⟩
      | false =>
          cases taken
          exact ⟨fun bad => (by cases bad), List.not_mem_nil, fun bad => (by cases bad)⟩
  | closeWrite =>
      cases taken
      exact ⟨fun bad => (by cases bad), List.not_mem_nil, fun _ => .inl rfl⟩
  | exit =>
      cases taken
      exact ⟨fun _ => ⟨rfl, rfl⟩, List.not_mem_nil, fun bad => (by cases bad)⟩
  | ended => cases taken

theorem kill_moves (index : Nat) (old : Place) (next : Place × List Line)
    (taken : kill old = some next) : Moves index old next := by
  have same : next = (.ended, []) := by
    cases old with
    | ended => cases taken
    | _ => exact (Option.some.inj taken).symm
  subst same
  exact ⟨fun _ => ⟨rfl, rfl⟩, List.not_mem_nil, fun bad => (by cases bad)⟩

theorem moved_inv (state : State) (inv : Inv numChildren state) (index : Nat) (old : Place)
    (next : Place × List Line) (there : state.children[index]? = some old)
    (moves : Moves index old next) : Inv numChildren (moved state index next) := by
  have length : (moved state index next).children.length = state.children.length := List.length_set
  refine ⟨length.trans_le inv.few, fun forked alive => length.trans (inv.all forked alive),
    fun waited place member => ?_, ?_, fun position place found told => ?_⟩
  · have free := inv.released waited
    rcases List.mem_or_eq_of_mem_set member with earlier | rfl
    · exact free place earlier
    · exact (moves.released (free old (List.mem_of_getElem? there))).1
  · obtain ⟨lines, whole, child⟩ := inv.last
    by_cases finished : state.parent = .exited true
    · -- no child has the pipe any more, so none has a line to print
      have quiet :=
        (moves.released (inv.released (.inr finished) old (List.mem_of_getElem? there))).2
      refine ⟨lines, ?_, child⟩
      change state.stdout ++ next.2 = _
      rw [quiet, List.append_nil]
      exact whole
    · rw [if_neg finished, List.append_nil] at whole
      refine ⟨lines ++ next.2, ?_, ?_⟩
      · rw [show (moved state index next).parent = state.parent from rfl, if_neg finished,
            List.append_nil, ← whole]
        rfl
      · rw [List.mem_append]
        exact not_or.mpr ⟨child, moves.child⟩
  · change _ ∈ state.stdout ++ next.2
    rw [List.mem_append]
    rcases Indexed.set_cases state.children index position next.1 place found with
      ⟨rfl, rfl⟩ | ⟨_, other⟩
    · exact (moves.told told).imp (inv.told position old there) id
    · exact .inl (inv.told position place other told)

theorem parent_inv (works : Bool) (before after : State) (inv : Inv numChildren before)
    (taken : stepParent numChildren works before = some after) : Inv numChildren after := by
  obtain ⟨lines, whole, child⟩ := inv.last
  unfold stepParent at taken
  split at taken
  · next place =>
    rw [if_neg (by rw [place]; exact fun bad => by cases bad), List.append_nil] at whole
    split at taken
    · next room =>
      split at taken
      · cases taken
        refine ⟨?_, fun bad => absurd place bad, fun bad => ?_, ⟨lines, ?_, child⟩,
          fun index found there told => ?_⟩
        · rw [List.length_append, List.length_singleton]
          exact room
        · rcases bad with bad | bad <;> rw [place] at bad <;> cases bad
        · simpa [place] using whole
        · by_cases inside : index < before.children.length
          · rw [List.getElem?_append_left inside] at there
            exact inv.told index found there told
          · -- the new child has told nothing yet
            rw [List.getElem?_append_right (Nat.not_lt.mp inside)] at there
            rw [List.mem_singleton.mp (List.mem_of_getElem? there)] at told
            cases told
      · cases taken
        exact ⟨inv.few, fun _ bad => absurd rfl bad, fun bad => (by simp at bad),
          ⟨lines, by simpa using whole, child⟩, inv.told⟩
    · next full =>
      cases taken
      exact ⟨inv.few, fun _ _ => Nat.le_antisymm inv.few (Nat.not_lt.mp full),
        fun bad => (by simp at bad), ⟨lines, by simpa using whole, child⟩, inv.told⟩
  · next place =>
    have all := inv.all (by simp [place]) (by simp [place])
    cases taken
    exact ⟨inv.few, fun _ _ => all, fun bad => (by simp at bad),
      ⟨lines, by simpa [place] using whole, child⟩, inv.told⟩
  · next place =>
    have all := inv.all (by simp [place]) (by simp [place])
    split at taken
    · cases taken
    · next free =>
      cases taken
      refine ⟨inv.few, fun _ _ => all, fun _ found member => ?_,
        ⟨lines, by simpa [place] using whole, child⟩, inv.told⟩
      rw [List.any_eq_true, not_exists] at free
      exact Bool.eq_false_iff.mpr fun holds => free found ⟨member, holds⟩
  · next place =>
    have all := inv.all (by simp [place]) (by simp [place])
    cases taken
    refine ⟨inv.few, fun _ _ => all, fun _ => inv.released (.inl place), ⟨lines, ?_, child⟩,
      fun index found there told => ?_⟩
    · rw [if_neg (by rw [place]; exact fun bad => by cases bad), List.append_nil] at whole
      rw [if_pos rfl, whole]
    · exact List.mem_append_left _ (inv.told index found there told)
  · cases taken

theorem step_moved (state after : State) (index : Nat)
    (change : Place → Option (Place × List Line))
    (taken : (state.children[index]?.bind change).map (moved state index) = some after) :
    ∃ old next, state.children[index]? = some old ∧ change old = some next ∧
      after = moved state index next := by
  obtain ⟨next, changed, rfl⟩ := Option.map_eq_some_iff.mp taken
  obtain ⟨old, there, made⟩ := Option.bind_eq_some_iff.mp changed
  exact ⟨old, next, there, made, rfl⟩

theorem step_inv (choice : Choice) (before after : State) (inv : Inv numChildren before)
    (taken : step numChildren choice before = some after) : Inv numChildren after := by
  cases choice with
  | parent works => exact parent_inv numChildren works before after inv taken
  | child index works =>
      obtain ⟨old, next, there, made, rfl⟩ := step_moved before after index _ taken
      exact moved_inv numChildren before inv index old next there
        (act_moves index works old next made)
  | kill index =>
      obtain ⟨old, next, there, made, rfl⟩ := step_moved before after index _ taken
      exact moved_inv numChildren before inv index old next there (kill_moves index old next made)

/-! Every run ends, and not before all processes have. -/

def Place.weight : Place → Nat
  | .closeRead => 4
  | .work => 3
  | .closeWrite => 2
  | .exit => 1
  | .ended => 0

def parentWeight (state : State) : Nat :=
  match state.parent with
  | .fork => 5 * (numChildren - state.children.length) + 4
  | .close => 3
  | .read => 2
  | .ready => 1
  | .exited _ => 0

def rank (state : State) : Nat :=
  parentWeight numChildren state + (state.children.map Place.weight).sum

theorem moved_lowers (state : State) (index : Nat) (old : Place) (next : Place × List Line)
    (there : state.children[index]? = some old) (lower : next.1.weight < old.weight) :
    rank numChildren (moved state index next) < rank numChildren state := by
  have total := Indexed.sum_set Place.weight state.children index old next.1 there
  have same : parentWeight numChildren (moved state index next) =
      parentWeight numChildren state := by
    simp only [parentWeight, moved, List.length_set]
  rw [rank, rank, same]
  change _ + ((state.children.set index next.1).map Place.weight).sum < _
  omega

theorem act_lowers (index : Nat) (works : Bool) (old : Place) (next : Place × List Line)
    (taken : act index works old = some next) : next.1.weight < old.weight := by
  cases old with
  | work => cases works <;> cases taken <;> exact Nat.lt_of_sub_pos (Nat.succ_pos _)
  | ended => cases taken
  | _ =>
      cases taken
      decide

theorem kill_lowers (old : Place) (next : Place × List Line) (taken : kill old = some next) :
    next.1.weight < old.weight := by
  cases old with
  | ended => cases taken
  | _ =>
      cases taken
      decide

theorem parent_lowers (works : Bool) (before after : State)
    (taken : stepParent numChildren works before = some after) :
    rank numChildren after < rank numChildren before := by
  unfold stepParent at taken
  split at taken
  · next place =>
    split at taken
    · split at taken
      · cases taken
        simp only [rank, parentWeight, place, List.length_append, List.length_singleton,
          List.map_append, List.map_singleton, List.sum_append, List.sum_singleton, Place.weight]
        omega
      · cases taken
        simp only [rank, parentWeight, place]
        omega
    · cases taken
      simp only [rank, parentWeight, place]
      omega
  · next place =>
    cases taken
    simp only [rank, parentWeight, place]
    omega
  · next place =>
    split at taken
    · cases taken
    · cases taken
      simp only [rank, parentWeight, place]
      omega
  · next place =>
    cases taken
    simp only [rank, parentWeight, place]
    omega
  · cases taken

theorem step_lowers (choice : Choice) (before after : State)
    (taken : step numChildren choice before = some after) :
    rank numChildren after < rank numChildren before := by
  cases choice with
  | parent works => exact parent_lowers numChildren works before after taken
  | child index works =>
      obtain ⟨old, next, there, made, rfl⟩ := step_moved before after index _ taken
      exact moved_lowers numChildren before index old next there
        (act_lowers index works old next made)
  | kill index =>
      obtain ⟨old, next, there, made, rfl⟩ := step_moved before after index _ taken
      exact moved_lowers numChildren before index old next there (kill_lowers old next made)

theorem stuck_ended (state : State)
    (parent : ∀ works, step numChildren (.parent works) state = none)
    (children : ∀ index works, step numChildren (.child index works) state = none) :
    (∀ place ∈ state.children, place = .ended) ∧
      (state.parent = .exited false ∨ state.parent = .exited true) := by
  have ended : ∀ place ∈ state.children, place = .ended := by
    intro place member
    obtain ⟨index, there⟩ := List.getElem?_of_mem member
    have stuck := children index true
    rw [step, there, Option.map_eq_none_iff, Option.bind_some] at stuck
    cases place with
    | ended => rfl
    | _ => cases stuck
  refine ⟨ended, ?_⟩
  have own := parent true
  simp only [step, stepParent] at own
  split at own
  · split at own <;> cases own
  · cases own
  · split at own
    · next held =>
      -- a process that has ended holds no pipe
      obtain ⟨place, member, holds⟩ := List.any_eq_true.mp held
      rw [ended place member] at holds
      cases holds
    · cases own
  · cases own
  · next success place =>
    cases success with
    | true => exact .inr place
    | false => exact .inl place

/-- "Parent ready to go" is the last line, after which no child has anything left to tell: each
has closed the pipe, and told so before, or has ended. The parent comes to that line unless a `fork`
fails, also when children fail or are killed. -/
theorem children_are_waited_for :
    (∀ state, Transition.Reachable (· = start) (step numChildren) state →
      (.ready ∈ state.stdout → state.stdout.getLast? = some .ready ∧
        state.children.length = numChildren ∧
        ∀ (index : Nat) place, state.children[index]? = some place →
          place = .ended ∨ (place = .exit ∧ .closing (index + 1) ∈ state.stdout)) ∧
      ((∀ works, step numChildren (.parent works) state = none) →
        (∀ index works, step numChildren (.child index works) state = none) →
          (∀ place ∈ state.children, place = .ended) ∧
          (state.parent = .exited false ∨ .ready ∈ state.stdout))) ∧
      ∀ choices state, Transition.replay (step numChildren) choices start = some state →
        choices.length ≤ 5 * numChildren + 4 := by
  constructor
  · intro state reached
    have inv : Inv numChildren state :=
      Transition.reachable_invariant (fun _ here => here ▸ start_inv numChildren)
        (step_inv numChildren) reached
    obtain ⟨lines, whole, child⟩ := inv.last
    refine ⟨fun said => ?_, fun parent children => ?_⟩
    · have finished : state.parent = .exited true := by
        by_contra other
        rw [whole, if_neg other, List.append_nil] at said
        exact child said
      rw [if_pos finished] at whole
      refine ⟨by rw [whole, List.getLast?_concat],
        inv.all (by simp [finished]) (by simp [finished]), fun index place there => ?_⟩
      have free := inv.released (.inr finished) place (List.mem_of_getElem? there)
      have told := inv.told index place there
      cases place with
      | ended => exact .inl rfl
      | exit => exact .inr ⟨rfl, told rfl⟩
      | _ => cases free
    · obtain ⟨ended, exits⟩ := stuck_ended numChildren state parent children
      refine ⟨ended, exits.imp id fun finished => ?_⟩
      rw [whole, if_pos finished]
      exact List.mem_append_right _ (List.mem_singleton_self _)
  · intro choices state replayed
    exact Transition.choices_bounded (step numChildren) (rank numChildren)
      (step_lowers numChildren) choices replayed

end Runs

end Tlpi.PipeSync
