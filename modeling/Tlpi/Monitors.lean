import Mathlib.Data.Option.Basic
import Tlpi.Indexed

/-!
A mutex with a condition variable on which at most one thread waits. A wake-up only
makes the waiter compete for the mutex again, so a thread that waits is blocked as
long as `waiting` holds. Nothing here mentions a particular program.
-/

namespace Tlpi.Monitors

universe u
variable {Thread : Type u}

structure Monitor (Thread : Type u) where
  owner : Option Thread
  waiting : Bool
  deriving DecidableEq

/-- The main thread of a program and the ones that it has created. -/
inductive Member where
  | main
  | thread (idx : Nat)
  deriving DecidableEq

def idle : Monitor Thread := ⟨none, false⟩

/-- Blocks while somebody holds the mutex. -/
def lock (monitor : Monitor Thread) (who : Thread) : Option (Monitor Thread) :=
  match monitor.owner with
  | none => some { monitor with owner := some who }
  | some _ => none

def unlock (monitor : Monitor Thread) : Monitor Thread := { monitor with owner := none }

/-- The mutex is released and the wait begins in one step. -/
def wait (_ : Monitor Thread) : Monitor Thread := ⟨none, true⟩

/-- Lost if nobody waits. -/
def signal (monitor : Monitor Thread) : Monitor Thread := { monitor with waiting := false }

/-- The second half of the wait. -/
def relock (monitor : Monitor Thread) (who : Thread) : Option (Monitor Thread) :=
  if monitor.waiting then none else lock monitor who

/-- Whoever is in a critical section holds the mutex. -/
def Guarded (monitor : Monitor Thread) (inside : Thread → Prop) : Prop :=
  ∀ who, inside who → monitor.owner = some who

theorem lock_some (monitor after : Monitor Thread) (who : Thread)
    (locked : lock monitor who = some after) :
    monitor.owner = none ∧ after = { monitor with owner := some who } := by
  unfold lock at locked
  split at locked
  · next free =>
      cases locked
      exact ⟨free, rfl⟩
  · cases locked

theorem relock_some (monitor after : Monitor Thread) (who : Thread)
    (locked : relock monitor who = some after) :
    monitor.waiting = false ∧ monitor.owner = none ∧
      after = { monitor with owner := some who } := by
  unfold relock at locked
  split at locked
  · cases locked
  · next awake => exact ⟨Bool.eq_false_iff.mpr awake, lock_some monitor after who locked⟩

section Guarded
variable (monitor : Monitor Thread) (inside after : Thread → Prop)
  (guarded : Guarded monitor inside)
include guarded

theorem guarded_free (free : monitor.owner = none) (who : Thread) : ¬ inside who := by
  intro here
  have owned := guarded who here
  rw [free] at owned
  cases owned

theorem guarded_alone (who other : Thread) (here : inside who) (there : inside other) :
    other = who := by
  have owned := guarded who here
  rw [guarded other there] at owned
  exact Option.some.inj owned

theorem guarded_fewer (fewer : ∀ who, after who → inside who) : Guarded monitor after :=
  fun who here => guarded who (fewer who here)

theorem guarded_lock (free : monitor.owner = none) (who : Thread) (waiting : Bool)
    (entered : ∀ other, after other → inside other ∨ other = who) :
    Guarded ⟨some who, waiting⟩ after := by
  intro other here
  rcases entered other here with old | rfl
  · exact absurd old (guarded_free monitor inside guarded free other)
  · rfl

theorem guarded_unlock (who : Thread) (here : inside who) (waiting : Bool)
    (left : ∀ other, after other → inside other ∧ other ≠ who) :
    Guarded ⟨none, waiting⟩ after := by
  intro other there
  obtain ⟨old, different⟩ := left other there
  exact absurd (guarded_alone monitor inside guarded who other here old) different

end Guarded

/-! A main thread and an array of threads under one mutex. -/

section Members
universe v
variable {Item : Type v}

/-- Who is in a critical section, read off the places of the members. -/
def Inside (main : Bool) (inside : Item → Bool) (threads : List Item) : Member → Prop
  | .main => main = true
  | .thread idx => ∃ thread, threads[idx]? = some thread ∧ inside thread = true

variable (monitor : Monitor Member) (main : Bool) (inside : Item → Bool) (threads : List Item)
  (guarded : Guarded monitor (Inside main inside threads))
include guarded

theorem thread_locks (free : monitor.owner = none) (idx : Nat) (new : Item) (waiting : Bool) :
    Guarded ⟨some (.thread idx), waiting⟩ (Inside main inside (threads.set idx new)) := by
  refine guarded_lock monitor _ _ guarded free (.thread idx) waiting ?_
  rintro (_ | other) here
  · exact Or.inl here
  · obtain ⟨one, found, held⟩ := here
    rcases Indexed.set_cases _ _ _ _ _ found with ⟨rfl, _⟩ | ⟨_, old⟩
    · exact Or.inr rfl
    · exact Or.inl ⟨one, old, held⟩

theorem thread_moves (idx : Nat) (old new : Item) (there : threads[idx]? = some old)
    (kept : inside new = true → inside old = true) :
    Guarded monitor (Inside main inside (threads.set idx new)) := by
  refine guarded_fewer monitor _ _ guarded ?_
  rintro (_ | other) here
  · exact here
  · obtain ⟨one, found, held⟩ := here
    rcases Indexed.set_cases _ _ _ _ _ found with ⟨rfl, rfl⟩ | ⟨_, before⟩
    · exact ⟨old, there, kept held⟩
    · exact ⟨one, before, held⟩

theorem thread_unlocks (idx : Nat) (old new : Item) (there : threads[idx]? = some old)
    (held : inside old = true) (out : inside new = false) (waiting : Bool) :
    Guarded ⟨none, waiting⟩ (Inside main inside (threads.set idx new)) := by
  refine guarded_unlock monitor _ _ guarded (.thread idx) ⟨old, there, held⟩ waiting ?_
  rintro (_ | other) here
  · exact ⟨here, fun bad => by cases bad⟩
  · obtain ⟨one, found, still⟩ := here
    rcases Indexed.set_cases _ _ _ _ _ found with ⟨rfl, rfl⟩ | ⟨different, before⟩
    · rw [out] at still
      cases still
    · refine ⟨⟨one, before, still⟩, fun same => ?_⟩
      cases same
      exact different rfl

theorem main_locks (free : monitor.owner = none) (after waiting : Bool) :
    Guarded ⟨some .main, waiting⟩ (Inside after inside threads) := by
  refine guarded_lock monitor _ _ guarded free .main waiting ?_
  rintro (_ | other) here
  · exact Or.inr rfl
  · exact Or.inl here

theorem main_moves (after : Bool) (kept : after = true → main = true) : Guarded monitor
    (Inside after inside threads) := by
  refine guarded_fewer monitor _ _ guarded ?_
  rintro (_ | other) here
  · exact kept here
  · exact here

theorem main_unlocks (held : main = true) (waiting : Bool) :
    Guarded ⟨none, waiting⟩ (Inside false inside threads) := by
  refine guarded_unlock monitor _ _ guarded .main held waiting ?_
  rintro (_ | other) here
  · cases here
  · exact ⟨here, fun bad => by cases bad⟩

end Members

end Tlpi.Monitors
