import Mathlib.Data.List.Basic
import Tlpi.Transition

/-!
signals/sig_speed_sigsuspend.c: parent and child send TESTSIG to each other in
turn. The signal is blocked except inside `sigsuspend`, which installs the empty
mask and waits in one step; a blocked signal is a single flag of its process, so
a second one sent meanwhile would be lost. Either process may be delayed between
any two of its system calls.
-/

namespace Tlpi.SignalPingPong

inductive Role where
  | parent
  | child
  deriving DecidableEq

/-- What a process does next; `test` is the condition of its loop. -/
inductive Place where
  | test
  | kill
  | sigsuspend
  | exited
  deriving DecidableEq

/-- `sent` and `received` count the signals; the program itself keeps `scnt`. -/
structure Process where
  place : Place
  scnt : Nat
  pending : Bool
  sent : Nat
  received : Nat
  deriving DecidableEq

structure State where
  parent : Process
  child : Process
  deriving DecidableEq

def raise (process : Process) : Process := { process with pending := true }

/-- The handler runs and `sigsuspend` returns. -/
def receive (process : Process) : Process :=
  { process with pending := false, received := process.received + 1 }

/-- No successor while the process is blocked in `sigsuspend` or has exited. -/
def stepParent (numSigs : Nat) (state : State) : Option State :=
  let own := state.parent
  match own.place with
  | .test => some { state with parent.place := if own.scnt < numSigs then .sigsuspend else .exited }
  | .sigsuspend =>
      if own.pending then some { state with parent := { receive own with place := .kill } }
      else none
  | .kill =>
      some ⟨{ own with place := .test, scnt := own.scnt + 1, sent := own.sent + 1 },
        raise state.child⟩
  | .exited => none

def stepChild (numSigs : Nat) (state : State) : Option State :=
  let own := state.child
  match own.place with
  | .test => some { state with child.place := if own.scnt < numSigs then .kill else .exited }
  | .kill => some ⟨raise state.parent, { own with place := .sigsuspend, sent := own.sent + 1 }⟩
  | .sigsuspend =>
      if own.pending then
        some { state with child := { receive own with place := .test, scnt := own.scnt + 1 } }
      else none
  | .exited => none

def step (numSigs : Nat) : Role → State → Option State
  | .parent => stepParent numSigs
  | .child => stepChild numSigs

/-- Right after `fork`. -/
def start : State := ⟨⟨.test, 0, false, 0, 0⟩, ⟨.test, 0, false, 0, 0⟩⟩

def counters (state : State) : List Nat :=
  [state.parent.sent, state.parent.received, state.child.sent, state.child.received]

def flag (pending : Bool) : Nat := if pending then 1 else 0

/-! Each process keeps its own count, and a signal under way is the difference of two. -/

def ParentOk (numSigs : Nat) (process : Process) : Prop :=
  process.sent = process.scnt ∧
    match process.place with
    | .test => process.received = process.scnt ∧ process.scnt ≤ numSigs
    | .sigsuspend => process.received = process.scnt ∧ process.scnt < numSigs
    | .kill => process.received = process.scnt + 1 ∧ process.scnt < numSigs
    | .exited => process.received = process.scnt ∧ process.scnt = numSigs

def ChildOk (numSigs : Nat) (process : Process) : Prop :=
  process.received = process.scnt ∧
    match process.place with
    | .test => process.sent = process.scnt ∧ process.scnt ≤ numSigs
    | .kill => process.sent = process.scnt ∧ process.scnt < numSigs
    | .sigsuspend => process.sent = process.scnt + 1 ∧ process.scnt < numSigs
    | .exited => process.sent = process.scnt ∧ process.scnt = numSigs

structure InStep (numSigs : Nat) (state : State) : Prop where
  parent : ParentOk numSigs state.parent
  child : ChildOk numSigs state.child
  forth : state.child.sent = state.parent.received + flag state.parent.pending
  back : state.parent.sent = state.child.received + flag state.child.pending

theorem parent_bounds (numSigs : Nat) (process : Process) (ok : ParentOk numSigs process) :
    process.sent ≤ process.received ∧ process.received ≤ process.sent + 1 := by
  obtain ⟨place, scnt, pending, sent, received⟩ := process
  cases place <;> simp only [ParentOk] at ok ⊢ <;> omega

theorem child_bounds (numSigs : Nat) (process : Process) (ok : ChildOk numSigs process) :
    process.received ≤ process.sent ∧ process.sent ≤ process.received + 1 := by
  obtain ⟨place, scnt, pending, sent, received⟩ := process
  cases place <;> simp only [ChildOk] at ok ⊢ <;> omega

/-- Whoever is about to send has no signal under way in either direction. -/
theorem sender_alone (numSigs : Nat) (state : State) (sound : InStep numSigs state)
    (sending : state.parent.place = .kill ∨ state.child.place = .kill) :
    state.parent.pending = false ∧ state.child.pending = false := by
  have parent := parent_bounds numSigs state.parent sound.parent
  have child := child_bounds numSigs state.child sound.child
  have forth := sound.forth
  have back := sound.back
  have ahead : state.child.received = state.child.sent ∨
      state.parent.received = state.parent.sent + 1 := by
    rcases sending with place | place
    · have own := sound.parent
      simp only [ParentOk, place] at own
      omega
    · have own := sound.child
      simp only [ChildOk, place] at own
      omega
  have none_ : flag state.parent.pending = 0 ∧ flag state.child.pending = 0 := by omega
  cases first : state.parent.pending <;> cases second : state.child.pending <;> simp_all [flag]

theorem parent_in_step (numSigs : Nat) (before after : State) (sound : InStep numSigs before)
    (taken : stepParent numSigs before = some after) : InStep numSigs after := by
  have free := sender_alone numSigs before sound
  obtain ⟨parent, child, forth, back⟩ := sound
  unfold stepParent at taken
  dsimp only at taken
  split at taken
  · next place =>
      cases taken
      refine ⟨?_, child, forth, back⟩
      simp only [ParentOk, place] at parent
      split
      · simp only [ParentOk]
        omega
      · simp only [ParentOk]
        omega
  · next place =>
      split at taken
      · next delivered =>
          cases taken
          simp only [ParentOk, place] at parent
          simp only [delivered, flag, if_true] at forth
          refine ⟨?_, child, ?_, back⟩
          · simp only [receive, ParentOk]
            omega
          · simp only [receive, flag, Bool.false_eq_true, if_false]
            omega
      · cases taken
  · next place =>
      -- the child's flag was clear, so this signal makes the difference
      have clear := (free (Or.inl place)).2
      cases taken
      simp only [ParentOk, place] at parent
      simp only [clear, flag, Bool.false_eq_true, if_false] at back
      refine ⟨?_, child, forth, ?_⟩
      · simp only [ParentOk]
        omega
      · simp only [raise, flag, if_true]
        omega
  · cases taken

theorem child_in_step (numSigs : Nat) (before after : State) (sound : InStep numSigs before)
    (taken : stepChild numSigs before = some after) : InStep numSigs after := by
  have free := sender_alone numSigs before sound
  obtain ⟨parent, child, forth, back⟩ := sound
  unfold stepChild at taken
  dsimp only at taken
  split at taken
  · next place =>
      cases taken
      refine ⟨parent, ?_, forth, back⟩
      simp only [ChildOk, place] at child
      split
      · simp only [ChildOk]
        omega
      · simp only [ChildOk]
        omega
  · next place =>
      have clear := (free (Or.inr place)).1
      cases taken
      simp only [ChildOk, place] at child
      simp only [clear, flag, Bool.false_eq_true, if_false] at forth
      refine ⟨parent, ?_, ?_, back⟩
      · simp only [ChildOk]
        omega
      · simp only [raise, flag, if_true]
        omega
  · next place =>
      split at taken
      · next delivered =>
          cases taken
          simp only [ChildOk, place] at child
          simp only [delivered, flag, if_true] at back
          refine ⟨parent, ?_, forth, ?_⟩
          · simp only [receive, ChildOk]
            omega
          · simp only [receive, flag, Bool.false_eq_true, if_false]
            omega
      · cases taken
  · cases taken

theorem step_in_step (numSigs : Nat) (role : Role) (before after : State)
    (sound : InStep numSigs before) (taken : step numSigs role before = some after) :
    InStep numSigs after := by
  cases role with
  | parent => exact parent_in_step numSigs before after sound taken
  | child => exact child_in_step numSigs before after sound taken

theorem start_in_step (numSigs : Nat) : InStep numSigs start :=
  ⟨⟨rfl, rfl, Nat.zero_le _⟩, ⟨rfl, rfl, Nat.zero_le _⟩, rfl, rfl⟩

def Blocked (process : Process) : Prop :=
  process.place = .exited ∨ process.place = .sigsuspend ∧ process.pending = false

theorem parent_blocked (numSigs : Nat) (state : State) (blocked : stepParent numSigs state = none) :
    Blocked state.parent := by
  unfold stepParent at blocked
  dsimp only at blocked
  split at blocked
  · cases blocked
  · next place =>
      split at blocked
      · cases blocked
      · next clear => exact Or.inr ⟨place, Bool.eq_false_iff.mpr clear⟩
  · cases blocked
  · next place => exact Or.inl place

theorem child_blocked (numSigs : Nat) (state : State) (blocked : stepChild numSigs state = none) :
    Blocked state.child := by
  unfold stepChild at blocked
  dsimp only at blocked
  split at blocked
  · cases blocked
  · cases blocked
  · next place =>
      split at blocked
      · cases blocked
      · next clear => exact Or.inr ⟨place, Bool.eq_false_iff.mpr clear⟩
  · next place => exact Or.inl place

/-- Whoever waits without a signal has one to come from the other process. -/
theorem stuck_finished (numSigs : Nat) (state : State) (sound : InStep numSigs state)
    (left : Blocked state.parent) (right : Blocked state.child) :
    state.parent.place = .exited ∧ state.child.place = .exited := by
  obtain ⟨parent, child, forth, back⟩ := sound
  rcases left with first | ⟨first, clear⟩ <;> rcases right with second | ⟨second, free⟩
  · exact ⟨first, second⟩
  · exfalso
    simp only [ParentOk, first] at parent
    simp only [ChildOk, second] at child
    simp only [free, flag, Bool.false_eq_true, if_false] at back
    omega
  · exfalso
    simp only [ParentOk, first] at parent
    simp only [ChildOk, second] at child
    simp only [clear, flag, Bool.false_eq_true, if_false] at forth
    omega
  · exfalso
    simp only [ParentOk, first] at parent
    simp only [ChildOk, second] at child
    simp only [clear, free, flag, Bool.false_eq_true, if_false] at forth back
    omega

/-- Who has left its loop has received everything, and no more is sent to it. -/
theorem parent_exited (numSigs : Nat) (state : State) (sound : InStep numSigs state)
    (left : state.parent.place = .exited) :
    state.parent.received = numSigs ∧ state.parent.pending = false ∧
      state.child.place ≠ .kill := by
  obtain ⟨parent, child, forth, back⟩ := sound
  simp only [ParentOk, left] at parent
  have few : state.child.sent ≤ numSigs ∧
      (state.child.place = .kill → state.child.sent < numSigs) := by
    cases place : state.child.place <;> simp only [ChildOk, place] at child <;>
      refine ⟨by omega, fun sending => ?_⟩ <;> first | omega | cases sending
  refine ⟨by omega, ?_, fun sending => ?_⟩
  · cases held : state.parent.pending with
    | false => rfl
    | true =>
        simp only [held, flag, if_true] at forth
        omega
  · have fewer := few.2 sending
    omega

theorem child_exited (numSigs : Nat) (state : State) (sound : InStep numSigs state)
    (left : state.child.place = .exited) :
    state.child.received = numSigs ∧ state.child.pending = false ∧
      state.parent.place ≠ .kill := by
  obtain ⟨parent, child, forth, back⟩ := sound
  simp only [ChildOk, left] at child
  have few : state.parent.sent ≤ numSigs ∧
      (state.parent.place = .kill → state.parent.sent < numSigs) := by
    cases place : state.parent.place <;> simp only [ParentOk, place] at parent <;>
      refine ⟨by omega, fun sending => ?_⟩ <;> first | omega | cases sending
  refine ⟨by omega, ?_, fun sending => ?_⟩
  · cases held : state.child.pending with
    | false => rfl
    | true =>
        simp only [held, flag, if_true] at back
        omega
  · have fewer := few.2 sending
    omega

/-- In every interleaving: no signal is sent to a process that has one pending, the
counters stay within one of each other, the two processes are never both stuck before
the end, and none of them leaves before its last signal. -/
theorem ping_pong_keeps_step (numSigs : Nat) (state : State)
    (reached : Transition.Reachable (· = start) (step numSigs) state) :
    (state.parent.place = .kill → state.child.pending = false) ∧
    (state.child.place = .kill → state.parent.pending = false) ∧
    (∀ one ∈ counters state, ∀ other ∈ counters state, one ≤ other + 1) ∧
    (step numSigs .parent state = none → step numSigs .child state = none →
      state.parent.place = .exited ∧ state.child.place = .exited ∧ ∀ one ∈ counters state,
      one = numSigs) ∧
    (state.parent.place = .exited →
      state.parent.received = numSigs ∧ state.parent.pending = false ∧
      state.child.place ≠ .kill) ∧
    (state.child.place = .exited →
      state.child.received = numSigs ∧ state.child.pending = false ∧
      state.parent.place ≠ .kill) := by
  have sound : InStep numSigs state := by
    refine Transition.reachable_invariant ?_ (step_in_step numSigs) reached
    rintro state rfl
    exact start_in_step numSigs
  refine ⟨fun sending => (sender_alone numSigs state sound (Or.inl sending)).2,
    fun sending => (sender_alone numSigs state sound (Or.inr sending)).1, ?_, ?_,
    parent_exited numSigs state sound, child_exited numSigs state sound⟩
  · have parent := parent_bounds numSigs state.parent sound.parent
    have child := child_bounds numSigs state.child sound.child
    have forth := sound.forth
    have back := sound.back
    simp only [counters, List.forall_mem_cons, List.not_mem_nil, false_implies,
      implies_true, and_true]
    omega
  · intro parentStuck childStuck
    obtain ⟨left, right⟩ :=
      stuck_finished numSigs state sound (parent_blocked numSigs state parentStuck)
        (child_blocked numSigs state childStuck)
    have parent := sound.parent
    have child := sound.child
    simp only [ParentOk, left] at parent
    simp only [ChildOk, right] at child
    refine ⟨left, right, ?_⟩
    simp only [counters, List.forall_mem_cons, List.not_mem_nil, false_implies,
      implies_true, and_true]
    omega

-- One round, in which the child sends before the parent has reached `sigsuspend`.
theorem one_round_keeps_step :
    ∃ state, Transition.replay (step 1) [.child, .child, .parent, .parent, .parent, .child,
      .child, .parent] start =
        some state ∧
      state.parent.place = .exited ∧ state.child.place = .exited ∧ ∀ one ∈ counters state,
        one = 1 := by
  obtain ⟨state, replayed, parent, child⟩ : ∃ state, Transition.replay (step 1)
      [.child, .child, .parent, .parent, .parent, .child, .child, .parent] start = some state ∧
      step 1 .parent state = none ∧ step 1 .child state = none := ⟨_, rfl, rfl, rfl⟩
  have reached : Transition.Reachable (· = start) (step 1) state :=
    Transition.replay_reachable _ (.start rfl) replayed
  exact ⟨state, replayed, (ping_pong_keeps_step 1 state reached).2.2.2.1 parent child⟩

end Tlpi.SignalPingPong
