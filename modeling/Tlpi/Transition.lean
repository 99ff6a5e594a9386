import Mathlib.Data.List.Basic

/-!
Systems that take one enabled choice at a time. A choice names who moves and
how an unpredictable call is answered; a disabled choice has no successor.
Safety is proved by an invariant of single steps, termination by a rank that
every counted choice lowers. Nothing here mentions a particular program.
-/

namespace Tlpi.Transition

universe u v
variable {State : Type u} {Choice : Type v}

inductive Reachable (initial : State → Prop) (step : Choice → State → Option State) :
    State → Prop where
  | start {state : State} (here : initial state) : Reachable initial step state
  | next {before after : State} (choice : Choice) (earlier : Reachable initial step before)
      (taken : step choice before = some after) : Reachable initial step after

def replay (step : Choice → State → Option State) : List Choice → State → Option State
  | [], state => some state
  | choice :: rest, state => (step choice state).bind (replay step rest)

/-- The system in which only some choices are taken. -/
def restrict (allowed : Choice → State → Bool) (step : Choice → State → Option State)
    (choice : Choice) (state : State) : Option State :=
  if allowed choice state then step choice state else none

theorem restrict_some {allowed : Choice → State → Bool}
    {step : Choice → State → Option State} {choice : Choice} {before after : State}
    (taken : restrict allowed step choice before = some after) :
    allowed choice before = true ∧ step choice before = some after := by
  unfold restrict at taken
  split at taken
  · next fine => exact ⟨fine, taken⟩
  · cases taken

/-- An invariant that holds initially and survives every step holds in every
reachable state. -/
theorem reachable_invariant {initial : State → Prop} {step : Choice → State → Option State}
    {invariant : State → Prop} (initially : ∀ state, initial state → invariant state)
    (preserved : ∀ choice before after, invariant before → step choice before = some after →
      invariant after)
    {state : State} (reached : Reachable initial step state) : invariant state := by
  induction reached with
  | start here => exact initially _ here
  | next choice _ taken ih => exact preserved choice _ _ ih taken

theorem replay_reachable {initial : State → Prop} {step : Choice → State → Option State}
    (choices : List Choice) {before after : State} (reached : Reachable initial step before)
    (replayed : replay step choices before = some after) : Reachable initial step after := by
  induction choices generalizing before with
  | nil =>
      cases replayed
      exact reached
  | cons choice rest ih =>
      simp only [replay, Option.bind_eq_some_iff] at replayed
      obtain ⟨middle, taken, tail⟩ := replayed
      exact ih (Reachable.next choice reached taken) tail

theorem replay_cons {step : Choice → State → Option State} (choice : Choice)
    (rest : List Choice) {before middle after : State} (taken : step choice before = some middle)
    (later : replay step rest middle = some after) :
    replay step (choice :: rest) before = some after := by
  simp only [replay, taken, Option.bind_some, later]

theorem replay_append {step : Choice → State → Option State} (first second : List Choice)
    {before middle after : State} (front : replay step first before = some middle)
    (later : replay step second middle = some after) :
    replay step (first ++ second) before = some after := by
  induction first generalizing before with
  | nil =>
      cases front
      exact later
  | cons choice rest ih =>
      simp only [replay, Option.bind_eq_some_iff] at front
      obtain ⟨next, taken, tail⟩ := front
      exact replay_cons choice _ taken (ih tail)

/-- Counted choices lower the rank and the others do not raise it, so no run
contains more counted choices than the rank of its first state. -/
theorem counted_choices_bounded (step : Choice → State → Option State) (rank : State → Nat)
    (counted : Choice → Bool)
    (lowers : ∀ choice before after, counted choice = true → step choice before = some after →
      rank after < rank before)
    (keeps : ∀ choice before after, counted choice = false → step choice before = some after →
      rank after ≤ rank before)
    (choices : List Choice) {before after : State}
    (replayed : replay step choices before = some after) :
    (choices.filter counted).length + rank after ≤ rank before := by
  induction choices generalizing before with
  | nil =>
      cases replayed
      simp
  | cons choice rest ih =>
      simp only [replay, Option.bind_eq_some_iff] at replayed
      obtain ⟨middle, taken, tail⟩ := replayed
      have later := ih tail
      cases kind : counted choice with
      | true =>
          have drop := lowers choice _ _ kind taken
          simp only [List.filter_cons, kind, ↓reduceIte, List.length_cons]
          omega
      | false =>
          have level := keeps choice _ _ kind taken
          simp only [List.filter_cons, kind, Bool.false_eq_true, ↓reduceIte]
          omega

/-- A rank that every step lowers bounds the length of every run. -/
theorem choices_bounded (step : Choice → State → Option State) (rank : State → Nat)
    (lowers : ∀ choice before after, step choice before = some after → rank after < rank before)
    (choices : List Choice) {before after : State}
    (replayed : replay step choices before = some after) : choices.length ≤ rank before := by
  have bound := counted_choices_bounded step rank (fun _ => true)
    (fun choice before after _ taken => lowers choice before after taken)
      (fun _ _ _ bad => by cases bad)
    choices replayed
  rw [List.filter_true] at bound
  omega

/-- The same where the rank is lowered only in states that an invariant holds of. -/
theorem choices_bounded_within (step : Choice → State → Option State) (rank : State → Nat)
    (invariant : State → Prop)
    (preserved : ∀ choice before after, invariant before → step choice before = some after →
      invariant after) (lowers : ∀ choice before after, invariant before →
      step choice before = some after → rank after < rank before)
    (choices : List Choice) {before after : State} (fine : invariant before)
    (replayed : replay step choices before = some after) : choices.length ≤ rank before := by
  induction choices generalizing before with
  | nil => exact Nat.zero_le _
  | cons choice rest ih =>
      simp only [replay, Option.bind_eq_some_iff] at replayed
      obtain ⟨middle, taken, tail⟩ := replayed
      have later := ih (preserved choice _ _ fine taken) tail
      have drop := lowers choice _ _ fine taken
      rw [List.length_cons]
      omega

end Tlpi.Transition
