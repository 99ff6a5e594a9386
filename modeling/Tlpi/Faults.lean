import Mathlib.Data.List.Basic

/-!
Programs whose library calls can fail. The `n`th call of a run fails when
`fault n` holds; the program then ends at once (`errExit`) and leaves the
outside world as it is. A program that only computes is described by the value
it would return without failures.
-/

namespace Tlpi.Faults

variable {State α β : Type}

structure World (State : Type) where
  state : State
  calls : Nat

/-- No result means that the program has exited with a failure status. -/
def Prog (State α : Type) : Type := World State → Option α × World State

def Prog.pure (value : α) : Prog State α := fun world => (some value, world)

def Prog.bind (first : Prog State α) (next : α → Prog State β) : Prog State β := fun world =>
  match first world with
  | (some value, after) => next value after
  | (none, after) => (none, after)

instance : Monad (Prog State) where
  pure := Prog.pure
  bind := Prog.bind

def call (fault : Nat → Bool) (value : α) : Prog State α := fun world =>
  (if fault world.calls then none else some value, { world with calls := world.calls + 1 })

def fail : Prog State α := fun world => (none, world)

def read : Prog State State := fun world => (some world.state, world)

def write (state : State) : Prog State Unit := fun world => (some (), { world with state := state })

/-- Some call made between two counts failed. -/
def Failed (fault : Nat → Bool) (start stop : Nat) : Prop :=
  ∃ n, start ≤ n ∧ n < stop ∧ fault n = true

/-- The program leaves the world alone and returns `value` unless one of its
calls fails. -/
structure Computes (fault : Nat → Bool) (prog : Prog State α) (value : α) : Prop where
  state : ∀ world, (prog world).2.state = world.state
  calls : ∀ world, world.calls ≤ (prog world).2.calls
  result : ∀ world, (prog world).1 = some value ∧
    ¬ Failed fault world.calls (prog world).2.calls ∨
    (prog world).1 = none ∧ Failed fault world.calls (prog world).2.calls

theorem not_failed_self (fault : Nat → Bool) (count : Nat) : ¬ Failed fault count count := by
  rintro ⟨n, low, high, _⟩
  omega

theorem failed_trans (fault : Nat → Bool) (start middle stop : Nat) (first : start ≤ middle)
    (second : middle ≤ stop) :
    Failed fault start stop ↔ Failed fault start middle ∨ Failed fault middle stop := by
  constructor
  · rintro ⟨n, low, high, bad⟩
    by_cases early : n < middle
    · exact Or.inl ⟨n, low, early, bad⟩
    · exact Or.inr ⟨n, Nat.le_of_not_lt early, high, bad⟩
  · rintro (⟨n, low, high, bad⟩ | ⟨n, low, high, bad⟩)
    · exact ⟨n, low, Nat.lt_of_lt_of_le high second, bad⟩
    · exact ⟨n, Nat.le_trans first low, high, bad⟩

theorem bind_some (first : Prog State α) (next : α → Prog State β)
    (world : World State) (value : α) (done : (first world).1 = some value) :
    (first >>= next) world = next value (first world).2 := by
  change Prog.bind first next world = _
  unfold Prog.bind
  generalize first world = outcome at done
  obtain ⟨result, after⟩ := outcome
  cases done
  rfl

theorem bind_none (first : Prog State α) (next : α → Prog State β) (world : World State)
    (done : (first world).1 = none) :
    (first >>= next) world = (none, (first world).2) := by
  change Prog.bind first next world = _
  unfold Prog.bind
  generalize first world = outcome at done
  obtain ⟨result, after⟩ := outcome
  cases done
  rfl

theorem computes_pure (fault : Nat → Bool) (value : α) :
    Computes fault (pure value : Prog State α) value :=
  ⟨fun _ => rfl, fun _ => Nat.le_refl _, fun _ => Or.inl ⟨rfl, not_failed_self fault _⟩⟩

theorem computes_call (fault : Nat → Bool) (value : α) :
    Computes fault (call fault value : Prog State α) value := by
  refine ⟨fun _ => rfl, fun world => Nat.le_succ world.calls, fun world => ?_⟩
  cases bad : fault world.calls with
  | true =>
      exact Or.inr ⟨by simp [call, bad], world.calls, Nat.le_refl _, Nat.lt_succ_self _, bad⟩
  | false =>
      refine Or.inl ⟨by simp [call, bad], ?_⟩
      rintro ⟨n, low, high, failed⟩
      have here : n = world.calls := Nat.le_antisymm (Nat.le_of_lt_succ high) low
      rw [here, bad] at failed
      cases failed

theorem computes_bind (fault : Nat → Bool) (first : Prog State α) (next : α → Prog State β)
    (value : α) (result : β) (before : Computes fault first value)
    (after : Computes fault (next value) result) :
    Computes fault (first >>= next) result := by
  have split : ∀ world : World State,
      ((first world).1 = some value ∧ ¬ Failed fault world.calls (first world).2.calls ∧
        (first >>= next) world = next value (first world).2) ∨
      ((first world).1 = none ∧ Failed fault world.calls (first world).2.calls ∧
        (first >>= next) world = (none, (first world).2)) := by
    intro world
    rcases before.result world with ⟨done, fine⟩ | ⟨done, bad⟩
    · exact Or.inl ⟨done, fine, bind_some first next world value done⟩
    · exact Or.inr ⟨done, bad, bind_none first next world done⟩
  constructor
  · intro world
    rcases split world with ⟨_, _, run⟩ | ⟨_, _, run⟩
    · rw [run, after.state, before.state]
    · rw [run, before.state]
  · intro world
    rcases split world with ⟨_, _, run⟩ | ⟨_, _, run⟩
    · rw [run]
      exact Nat.le_trans (before.calls world) (after.calls _)
    · rw [run]
      exact before.calls world
  · intro world
    rcases split world with ⟨_, fine, run⟩ | ⟨_, bad, run⟩
    · rw [run, failed_trans fault _ _ _ (before.calls world) (after.calls _)]
      rcases after.result (first world).2 with ⟨done, later⟩ | ⟨done, later⟩
      · exact Or.inl ⟨done, not_or.mpr ⟨fine, later⟩⟩
      · exact Or.inr ⟨done, Or.inr later⟩
    · rw [run]
      exact Or.inr ⟨rfl, bad⟩

end Tlpi.Faults
