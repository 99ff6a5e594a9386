import Mathlib.Data.List.Basic
import Tlpi.CStrings
import Tlpi.Transition

/-!
pipes/change_case.c: the parent sends its standard input through one pipe to a child, which
returns it in capitals through another. The parent waits for each answer before it reads on.
Writes of up to PIPE_BUF bytes are not mixed or cut, a read takes all that is in the pipe up to
BUF_SIZE, and a process may die at any time.
-/

namespace Tlpi.CaseChange

open CStrings (toupper)

def BUF_SIZE : Nat := 100

/-- What a pipe holds at least. -/
def PIPE_BUF : Nat := 4096

inductive ParentPlace where
  | read
  | write
  | readBack
  | print
  | exited
  deriving DecidableEq

inductive ChildPlace where
  | read
  | write
  | exited
  deriving DecidableEq

structure Parent where
  place : ParentPlace
  buf : List UInt8
  dead : Bool
  deriving DecidableEq

structure Child where
  place : ChildPlace
  buf : List UInt8
  dead : Bool
  deriving DecidableEq

structure State where
  stdin : List UInt8
  parent : Parent
  outbound : List UInt8
  child : Child
  inbound : List UInt8
  stdout : List UInt8
  deriving DecidableEq

/-- `parent` has a count for a `read` of the standard input, which may give fewer bytes than
asked for. -/
inductive Choice where
  | parent (count : Nat)
  | child
  | killParent
  | killChild
  deriving DecidableEq

/-- Its ends of the pipes are closed. -/
def Parent.ended (parent : Parent) : Bool := parent.dead || parent.place = .exited

def Child.ended (child : Child) : Bool := child.dead || child.place = .exited

/-- A write to a pipe that nobody reads kills the process. -/
def stepParent (state : State) (count : Nat) : Option State :=
  let own := state.parent
  match own.place with
  | .read =>
      if state.stdin = [] then some { state with parent.place := .exited }
      else if 0 < count ∧ count ≤ BUF_SIZE ∧ count ≤ state.stdin.length then
        some { state with
          stdin := state.stdin.drop count,
          parent := { own with place := .write, buf := state.stdin.take count } }
      else none
  | .write =>
      if state.child.ended then some { state with parent.dead := true }
      else if state.outbound.length + own.buf.length ≤ PIPE_BUF then
        some { state with
          outbound := state.outbound ++ own.buf,
          parent := { own with place := .readBack, buf := [] } }
      else none
  | .readBack =>
      if state.inbound = [] then
        -- a count of zero: nothing to print
        if state.child.ended then some { state with parent.place := .read } else none
      else
        some { state with
          inbound := state.inbound.drop BUF_SIZE
          parent := { own with place := .print, buf := state.inbound.take BUF_SIZE } }
  | .print =>
      some { state with
        stdout := state.stdout ++ own.buf, parent := { own with place := .read, buf := [] } }
  | .exited => none

def stepChild (state : State) : Option State :=
  let own := state.child
  match own.place with
  | .read =>
      if state.outbound = [] then
        if state.parent.ended then some { state with child.place := .exited } else none
      else
        some { state with
          outbound := state.outbound.drop BUF_SIZE
          child := { own with place := .write, buf := (state.outbound.take BUF_SIZE).map toupper } }
  | .write =>
      if state.parent.ended then some { state with child.dead := true }
      else if state.inbound.length + own.buf.length ≤ PIPE_BUF then
        some { state with
          inbound := state.inbound ++ own.buf, child := { own with place := .read, buf := [] } }
      else none
  | .exited => none

def step : Choice → State → Option State
  | .parent count, state => if state.parent.dead then none else stepParent state count
  | .child, state => if state.child.dead then none else stepChild state
  | .killParent, state =>
      if state.parent.ended then none else some { state with parent.dead := true }
  | .killChild, state => if state.child.ended then none else some { state with child.dead := true }

/-- Right after `fork`, with the unused ends closed. -/
def start (stdin : List UInt8) : State :=
  ⟨stdin, ⟨.read, [], false⟩, [], ⟨.read, [], false⟩, [], []⟩

/-! What is under way. -/

def Parent.writing (parent : Parent) : List UInt8 :=
  if parent.place = .write then parent.buf else []

def Parent.printing (parent : Parent) : List UInt8 :=
  if parent.place = .print then parent.buf else []

def Child.writing (child : Child) : List UInt8 := if child.place = .write then child.buf else []

/-- With the child alive, the parent waits for an answer exactly as long as something is
between the two. -/
structure InStep (input : List UInt8) (state : State) : Prop where
  flow : state.stdout ++ state.parent.printing ++ state.inbound ++ state.child.writing ++
    (state.outbound ++ state.parent.writing ++ state.stdin).map toupper = input.map toupper
  waiting : state.child.dead = false →
    (state.parent.place = .readBack ↔
      state.inbound ++ state.child.writing ++ state.outbound ≠ [])
  single : (state.inbound = [] ∨ state.child.writing = [] ∧ state.outbound = []) ∧
    (state.child.writing = [] ∨ state.outbound = [])
  short : state.inbound.length ≤ BUF_SIZE ∧ state.child.writing.length ≤ BUF_SIZE ∧
    state.outbound.length ≤ BUF_SIZE ∧ state.parent.writing.length ≤ BUF_SIZE
  some : (state.child.place = .write → state.child.buf ≠ []) ∧
    (state.parent.place = .write → state.parent.buf ≠ [])
  leaving : state.child.place = .exited → state.parent.ended = true
  drained : state.parent.place = .exited → state.stdin = []

theorem start_in_step (input : List UInt8) : InStep input (start input) := by
  refine ⟨rfl, fun _ => ?_, ⟨Or.inl rfl, Or.inl rfl⟩, ?_, ⟨?_, ?_⟩, ?_, ?_⟩
  · simp [start, Child.writing]
  · simp [start, Child.writing, Parent.writing]
  · simp [start]
  · simp [start]
  · simp [start]
  · simp [start]

section Parent
variable (input : List UInt8) (before : State) (sound : InStep input before)
  (alive : before.parent.dead = false)
include sound alive

/-- The child ends only after the parent. -/
theorem child_runs (there : before.parent.place ≠ .exited) : before.child.place ≠ .exited := by
  intro bad
  have leaving := sound.leaving bad
  simp [Parent.ended, alive, there] at leaving

theorem parent_reads (count : Nat) (place : before.parent.place = .read) (size : 0 < count)
    (fits : count ≤ BUF_SIZE) (there : count ≤ before.stdin.length) :
    InStep input { before with
      stdin := before.stdin.drop count
      parent := { before.parent with place := .write, buf := before.stdin.take count } } := by
  have running := child_runs input before sound alive (by rw [place]; decide)
  obtain ⟨flow, waiting, single, ⟨first, second, third, _⟩, ⟨held, _⟩, _, drained⟩ :=
    sound
  refine ⟨?_, ?_, single, ⟨first, second, third, ?_⟩, ⟨held, fun _ => ?_⟩,
    fun bad => absurd bad running, fun bad => by cases bad⟩
  · simpa [Parent.printing, Parent.writing, place] using flow
  · simpa [place] using waiting
  · simp only [Parent.writing, if_true, List.length_take]
    omega
  · rw [← List.length_pos_iff, List.length_take]
    omega

theorem parent_writes (place : before.parent.place = .write) (reader : before.child.ended = false) :
    InStep input { before with
      outbound := before.outbound ++ before.parent.buf
      parent := { before.parent with place := .readBack, buf := [] } } := by
  have running := child_runs input before sound alive (by rw [place]; decide)
  obtain ⟨flow, waiting, single, ⟨first, second, third, fourth⟩, ⟨held, some⟩,
    _, drained⟩ := sound
  have living : before.child.dead = false := by
    rw [Child.ended, Bool.or_eq_false_iff] at reader
    exact reader.1
  have nothing := (not_congr (waiting living)).mp (by rw [place]; decide)
  rw [not_not, List.append_eq_nil_iff, List.append_eq_nil_iff] at nothing
  obtain ⟨⟨empty, idle⟩, clear⟩ := nothing
  simp only [Parent.writing, place, if_true] at fourth
  refine ⟨?_, ?_, ⟨Or.inl empty, Or.inl idle⟩, ⟨first, second, ?_, ?_⟩, ⟨held, ?_⟩,
    fun bad => absurd bad running, fun bad => by cases bad⟩
  · simpa [Parent.printing, Parent.writing, place] using flow
  · simp [empty, idle, clear, some place]
  · simpa [clear] using fourth
  · simp [Parent.writing]
  · simp

theorem parent_reads_back (place : before.parent.place = .readBack)
    (answer : before.inbound ≠ []) :
    InStep input { before with
      inbound := before.inbound.drop BUF_SIZE
      parent := { before.parent with place := .print, buf := before.inbound.take BUF_SIZE } } := by
  have running := child_runs input before sound alive (by rw [place]; decide)
  obtain ⟨flow, waiting, ⟨alone, _⟩, ⟨first, second, third, fourth⟩, ⟨held, some⟩,
    _, drained⟩ := sound
  obtain ⟨idle, clear⟩ := alone.resolve_left answer
  have taken : before.inbound.take BUF_SIZE = before.inbound := List.take_of_length_le first
  have left : before.inbound.drop BUF_SIZE = [] := List.drop_eq_nil_of_le first
  refine ⟨?_, ?_, ⟨Or.inl left, Or.inl idle⟩, ⟨?_, second, third, ?_⟩, ⟨held, ?_⟩,
    fun bad => absurd bad running, fun bad => by cases bad⟩
  · simpa [Parent.printing, Parent.writing, place, taken, left] using flow
  · simp [left, idle, clear]
  · simp [left]
  · simp [Parent.writing]
  · simp

theorem parent_prints (place : before.parent.place = .print) :
    InStep input { before with
      stdout := before.stdout ++ before.parent.buf
      parent := { before.parent with place := .read, buf := [] } } := by
  have running := child_runs input before sound alive (by rw [place]; decide)
  obtain ⟨flow, waiting, single, ⟨first, second, third, fourth⟩, ⟨held, some⟩,
    _, drained⟩ := sound
  refine ⟨?_, ?_, single, ⟨first, second, third, ?_⟩, ⟨held, ?_⟩,
    fun bad => absurd bad running, fun bad => by cases bad⟩
  · simpa [Parent.printing, Parent.writing, place] using flow
  · simpa [place] using waiting
  · simp [Parent.writing]
  · simp

/-- The parent goes on without an answer, or ends, or is killed by its own write. -/
theorem parent_moves (place : ParentPlace) (dead : Bool)
    (quiet : before.parent.place = .read ∧ place = .exited ∧ before.stdin = [] ∨
      before.parent.place = .write ∧ place = .write ∨
      before.parent.place = .readBack ∧ place = .read ∧ before.child.dead = true) :
    InStep input { before with parent := { before.parent with place, dead } } := by
  have same : Parent.writing { before.parent with place, dead } = before.parent.writing ∧
      Parent.printing { before.parent with place, dead } = before.parent.printing := by
    rcases quiet with ⟨old, rfl, _⟩ | ⟨old, rfl⟩ |
      ⟨old, rfl, _⟩ <;> simp [Parent.writing, Parent.printing, old]
  have running := child_runs input before sound alive (by
    rcases quiet with ⟨old, _⟩ | ⟨old, _⟩ | ⟨old, _⟩ <;> rw [old] <;> decide)
  obtain ⟨flow, waiting, single, short, ⟨held, some⟩, _, drained⟩ := sound
  refine ⟨?_, ?_, single, ?_, ⟨held, ?_⟩, fun bad => absurd bad running,
    ?_⟩
  · rw [same.1, same.2]
    exact flow
  · intro living
    refine Iff.trans ?_ (waiting living)
    rcases quiet with ⟨old, rfl, _⟩ | ⟨old, rfl⟩ | ⟨_, _, gone⟩
    · simp [old]
    · simp [old]
    · rw [living] at gone
      cases gone
  · rw [same.1]
    exact short
  · rcases quiet with ⟨_, rfl, _⟩ | ⟨old, rfl⟩ | ⟨_, rfl, _⟩
    · simp
    · exact fun _ => some old
    · simp
  · rcases quiet with ⟨_, _, empty⟩ | ⟨_, rfl⟩ | ⟨_, rfl, _⟩
    · exact fun _ => empty
    · exact fun bad => by cases bad
    · exact fun bad => by cases bad

theorem parent_in_step (after : State) (count : Nat)
    (taken : stepParent before count = some after) : InStep input after := by
  unfold stepParent at taken
  dsimp only at taken
  split at taken
  · next place =>
      split at taken
      · next empty =>
          cases taken
          exact parent_moves input before sound alive .exited before.parent.dead
            (Or.inl ⟨place, rfl, empty⟩)
      · split at taken
        · next size =>
            cases taken
            exact parent_reads input before sound alive count place size.1 size.2.1 size.2.2
        · cases taken
  · next place =>
      split at taken
      · cases taken
        have killed :=
          parent_moves input before sound alive .write true (Or.inr (Or.inl ⟨place, rfl⟩))
        rw [← place] at killed
        exact killed
      · next reader =>
          split at taken
          · cases taken
            exact parent_writes input before sound alive place (Bool.eq_false_iff.mpr reader)
          · cases taken
  · next place =>
      split at taken
      · split at taken
        · next ended =>
            cases taken
            refine parent_moves input before sound alive .read before.parent.dead
              (Or.inr (Or.inr ⟨place, rfl, ?_⟩))
            have running := child_runs input before sound alive (by rw [place]; decide)
            simpa [Child.ended, running] using ended
        · cases taken
      · next answer =>
          cases taken
          exact parent_reads_back input before sound alive place answer
  · next place =>
      cases taken
      exact parent_prints input before sound alive place
  · cases taken

end Parent

section Child
variable (input : List UInt8) (before : State) (sound : InStep input before)
include sound

theorem child_reads (place : before.child.place = .read) (some : before.outbound ≠ []) :
    InStep input { before with
      outbound := before.outbound.drop BUF_SIZE
      child := { before.child with
        place := .write, buf := (before.outbound.take BUF_SIZE).map toupper } } := by
  obtain ⟨flow, waiting, ⟨alone, _⟩, ⟨first, second, third, fourth⟩, ⟨_, held⟩,
    _, drained⟩ := sound
  have taken : before.outbound.take BUF_SIZE = before.outbound := List.take_of_length_le third
  have left : before.outbound.drop BUF_SIZE = [] := List.drop_eq_nil_of_le third
  have empty : before.inbound = [] := alone.resolve_right fun both => some both.2
  refine ⟨?_, ?_, ⟨Or.inl empty, Or.inr left⟩, ⟨first, ?_, ?_, fourth⟩,
    ⟨fun _ => ?_, held⟩, ChildPlace.noConfusion, drained⟩
  · simpa [Child.writing, place, taken, left] using flow
  · simpa [Child.writing, place, taken, left, empty, some] using waiting
  · simpa [Child.writing, taken] using third
  · simp [left]
  · simpa [taken] using some

theorem child_writes (place : before.child.place = .write) :
    InStep input { before with
      inbound := before.inbound ++ before.child.buf
      child := { before.child with place := .read, buf := [] } } := by
  obtain ⟨flow, waiting, ⟨alone, other⟩, ⟨first, second, third, fourth⟩, ⟨some, held⟩,
    _, drained⟩ := sound
  simp only [Child.writing, place, if_true, some place, false_or, false_and,
    or_false] at alone other second
  refine ⟨?_, ?_, ⟨Or.inr ⟨?_, other⟩, Or.inr other⟩, ⟨?_, ?_, third, fourth⟩,
    ⟨?_, held⟩, ChildPlace.noConfusion, drained⟩
  · simpa [Child.writing, place] using flow
  · simpa [Child.writing, place, alone, some place] using waiting
  · simp [Child.writing]
  · simpa [alone] using second
  · simp [Child.writing]
  · simp

/-- The child ends, or is killed by its own write. -/
theorem child_moves (place : ChildPlace) (dead : Bool)
    (ended : before.child.place = .read ∧ place = .exited ∧ dead = before.child.dead ∧
      before.parent.ended = true ∨
      before.child.place = place ∧ dead = true) :
    InStep input { before with child := { before.child with place, dead } } := by
  obtain ⟨flow, waiting, single, short, ⟨some, held⟩, leaving, drained⟩ := sound
  have same : Child.writing { before.child with place, dead } = before.child.writing := by
    rcases ended with ⟨old, rfl, _⟩ | ⟨rfl, _⟩ <;> simp [Child.writing, *]
  refine ⟨?_, ?_, ?_, ?_, ⟨?_, held⟩, ?_, drained⟩
  · rw [same]
    exact flow
  · rw [same]
    rcases ended with ⟨_, _, rfl, _⟩ | ⟨_, rfl⟩
    · exact waiting
    · exact fun bad => by cases bad
  · rw [same]
    exact single
  · rw [same]
    exact short
  · rcases ended with ⟨_, rfl, _⟩ | ⟨rfl, _⟩
    · simp
    · exact some
  · rcases ended with ⟨_, _, _, gone⟩ | ⟨rfl, _⟩
    · exact fun _ => gone
    · exact leaving

theorem child_in_step (after : State) (taken : stepChild before = some after) :
    InStep input after := by
  unfold stepChild at taken
  dsimp only at taken
  split at taken
  · next place =>
      split at taken
      · split at taken
        · next gone =>
            cases taken
            exact child_moves input before sound .exited before.child.dead
              (Or.inl ⟨place, rfl, rfl, gone⟩)
        · cases taken
      · next some =>
          cases taken
          exact child_reads input before sound place some
  · next place =>
      split at taken
      · cases taken
        exact child_moves input before sound before.child.place true (Or.inr ⟨rfl, rfl⟩)
      · split at taken
        · cases taken
          exact child_writes input before sound place
        · cases taken
  · cases taken

end Child

theorem step_in_step (input : List UInt8) (choice : Choice) (before after : State)
    (sound : InStep input before) (taken : step choice before = some after) :
    InStep input after := by
  cases choice with
  | parent count =>
      simp only [step, Option.ite_none_left_eq_some] at taken
      exact parent_in_step input before sound (Bool.eq_false_iff.mpr taken.1) after count taken.2
  | child =>
      simp only [step, Option.ite_none_left_eq_some] at taken
      exact child_in_step input before sound after taken.2
  | killParent =>
      simp only [step, Option.ite_none_left_eq_some, Option.some.injEq] at taken
      obtain ⟨_, rfl⟩ := taken
      exact ⟨sound.flow, sound.waiting, sound.single, sound.short, sound.some,
        fun _ => rfl, sound.drained⟩
  | killChild =>
      simp only [step, Option.ite_none_left_eq_some, Option.some.injEq] at taken
      obtain ⟨_, rfl⟩ := taken
      exact child_moves input before sound before.child.place true (Or.inr ⟨rfl, rfl⟩)

/-! Every run comes to an end. -/

def ParentPlace.weight : ParentPlace → Nat
  | .read => 1
  | .write => 3
  | .readBack => 2
  | .print => 2
  | .exited => 0

def ChildPlace.weight : ChildPlace → Nat
  | .read => 1
  | .write => 2
  | .exited => 0

/-- The further a byte still has to go, the more it counts. -/
def rank (state : State) : Nat :=
  4 * (6 * state.stdin.length + 5 * state.parent.writing.length + 4 * state.outbound.length +
      3 * state.child.writing.length + 2 * state.inbound.length + state.parent.printing.length) +
    state.parent.place.weight + state.child.place.weight + (!state.parent.dead).toNat +
      (!state.child.dead).toNat

theorem parent_rank (before after : State) (count : Nat) (alive : before.parent.dead = false)
    (taken : stepParent before count = some after) : rank after < rank before := by
  unfold stepParent at taken
  dsimp only at taken
  split at taken
  · next place =>
      split at taken
      · cases taken
        simp [rank, Parent.writing, Parent.printing, place, ParentPlace.weight]
      · split at taken
        · next size =>
            cases taken
            simp only [rank, Parent.writing, Parent.printing, place, ParentPlace.weight,
              reduceCtorEq, if_true, if_false, List.length_drop, List.length_take, List.length_nil]
            omega
        · cases taken
  · next place =>
      split at taken
      · cases taken
        simp [rank, Parent.writing, Parent.printing, place, alive]
      · split at taken
        · cases taken
          simp only [rank, Parent.writing, Parent.printing, place, ParentPlace.weight, reduceCtorEq,
            if_true, if_false, List.length_append, List.length_nil]
          omega
        · cases taken
  · next place =>
      split at taken
      · split at taken
        · cases taken
          simp [rank, Parent.writing, Parent.printing, place, ParentPlace.weight]
        · cases taken
      · next some =>
          cases taken
          have size := List.length_pos_iff.mpr some
          simp only [rank, Parent.writing, Parent.printing, place, ParentPlace.weight, reduceCtorEq,
            if_true, if_false, List.length_drop, List.length_take, List.length_nil, BUF_SIZE]
          omega
  · next place =>
      cases taken
      simp only [rank, Parent.writing, Parent.printing, place, ParentPlace.weight, reduceCtorEq,
        if_true, if_false, List.length_nil]
      omega
  · cases taken

theorem child_rank (before after : State) (alive : before.child.dead = false)
    (taken : stepChild before = some after) : rank after < rank before := by
  unfold stepChild at taken
  dsimp only at taken
  split at taken
  · next place =>
      split at taken
      · split at taken
        · cases taken
          simp [rank, Child.writing, place, ChildPlace.weight]
        · cases taken
      · next some =>
          cases taken
          have size := List.length_pos_iff.mpr some
          simp only [rank, Child.writing, place, ChildPlace.weight, reduceCtorEq, if_true,
            if_false, List.length_map, List.length_drop, List.length_take,
            List.length_nil, BUF_SIZE]
          omega
  · next place =>
      split at taken
      · cases taken
        simp [rank, Child.writing, place, alive]
      · split at taken
        · cases taken
          simp only [rank, Child.writing, place, ChildPlace.weight, reduceCtorEq, if_true, if_false,
            List.length_append, List.length_nil]
          omega
        · cases taken
  · cases taken

theorem step_rank (choice : Choice) (before after : State)
    (taken : step choice before = some after) : rank after < rank before := by
  cases choice with
  | parent count =>
      simp only [step, Option.ite_none_left_eq_some] at taken
      exact parent_rank before after count (Bool.eq_false_iff.mpr taken.1) taken.2
  | child =>
      simp only [step, Option.ite_none_left_eq_some] at taken
      exact child_rank before after (Bool.eq_false_iff.mpr taken.1) taken.2
  | killParent =>
      simp only [step, Option.ite_none_left_eq_some, Option.some.injEq, Parent.ended,
        Bool.or_eq_true, not_or] at taken
      obtain ⟨⟨alive, _⟩, rfl⟩ := taken
      simp [rank, Parent.writing, Parent.printing, Bool.eq_false_iff.mpr alive]
  | killChild =>
      simp only [step, Option.ite_none_left_eq_some, Option.some.injEq, Child.ended,
        Bool.or_eq_true, not_or] at taken
      obtain ⟨⟨alive, _⟩, rfl⟩ := taken
      simp [rank, Child.writing, Bool.eq_false_iff.mpr alive]

/-! Neither process waits for ever. -/

section Stuck
variable (input : List UInt8) (state : State) (sound : InStep input state)
  (child : state.child.dead = false)
include sound child

theorem nothing_between (place : state.parent.place ≠ .readBack) :
    state.inbound = [] ∧ state.child.writing = [] ∧ state.outbound = [] := by
  have nothing := (not_congr (sound.waiting child)).mp place
  rw [not_not, List.append_eq_nil_iff, List.append_eq_nil_iff] at nothing
  exact ⟨nothing.1.1, nothing.1.2, nothing.2⟩

theorem parent_settled (stuck : ∀ count, stepParent state count = none) :
    state.parent.place = .exited ∨
      state.parent.place = .readBack ∧ state.inbound = [] ∧ state.child.ended = false := by
  cases place : state.parent.place with
  | exited => exact Or.inl rfl
  | print =>
      have blocked := stuck 0
      simp [stepParent, place] at blocked
  | read =>
      have blocked := stuck 1
      have some : state.stdin ≠ [] := by
        intro empty
        simp [stepParent, place, empty] at blocked
      have size := List.length_pos_iff.mpr some
      simp [stepParent, place, some, BUF_SIZE] at blocked
  | write =>
      exfalso
      have blocked := stuck 0
      obtain ⟨_, _, clear⟩ := nothing_between input state sound child (by rw [place]; decide)
      have short := sound.short.2.2.2
      have room : BUF_SIZE ≤ PIPE_BUF := by decide
      simp only [Parent.writing, place, if_true] at short
      simp only [stepParent, place, clear, List.length_nil, Nat.zero_add] at blocked
      split at blocked
      · cases blocked
      · rw [if_pos (Nat.le_trans short room)] at blocked
        cases blocked
  | readBack =>
      have blocked := stuck 0
      simp only [stepParent, place] at blocked
      refine Or.inr ⟨rfl, ?_⟩
      split at blocked
      · next empty =>
          split at blocked
          · cases blocked
          · next alive => exact ⟨empty, Bool.eq_false_iff.mpr alive⟩
      · cases blocked

omit child in
theorem child_settled (stuck : stepChild state = none) :
    state.child.place = .exited ∨
      state.child.place = .read ∧ state.outbound = [] ∧ state.parent.ended = false := by
  cases place : state.child.place with
  | exited => exact Or.inl rfl
  | read =>
      simp only [stepChild, place] at stuck
      refine Or.inr ⟨rfl, ?_⟩
      split at stuck
      · next empty =>
          split at stuck
          · cases stuck
          · next alive => exact ⟨empty, Bool.eq_false_iff.mpr alive⟩
      · cases stuck
  | write =>
      exfalso
      have short := sound.short.2.1
      have alone := sound.single.1
      have room : BUF_SIZE ≤ PIPE_BUF := by decide
      simp only [Child.writing, place, if_true, sound.some.1 place, false_and,
        or_false] at short alone
      simp only [stepChild, place, alone, List.length_nil, Nat.zero_add] at stuck
      split at stuck
      · cases stuck
      · rw [if_pos (Nat.le_trans short room)] at stuck
        cases stuck

theorem both_settled (first : ∀ count, stepParent state count = none)
    (second : stepChild state = none) :
    state.parent.place = .exited ∧ state.child.place = .exited ∧
      state.stdout = input.map toupper := by
  have exited : state.parent.place = .exited := by
    refine (parent_settled input state sound child first).resolve_right ?_
    rintro ⟨place, empty, alive⟩
    rcases child_settled input state sound second with gone | ⟨reading, clear, _⟩
    · simp [Child.ended, gone] at alive
    · -- whoever waits has an answer to come
      have some := (sound.waiting child).mp place
      simp [empty, clear, Child.writing, reading] at some
  have gone : state.child.place = .exited := by
    refine (child_settled input state sound second).resolve_right ?_
    rintro ⟨_, _, alive⟩
    simp [Parent.ended, exited] at alive
  refine ⟨exited, gone, ?_⟩
  obtain ⟨empty, idle, clear⟩ :=
    nothing_between input state sound child (by rw [exited]; decide)
  have flow := sound.flow
  simpa [empty, idle, clear, Parent.writing, Parent.printing, exited, sound.drained exited]
    using flow

end Stuck

/-- The parent prints its input in capitals, in order and without a gap, whatever dies and
when; with both alive, nothing stops before all of it is printed and both have exited. -/
theorem input_is_capitalised (input : List UInt8) :
    (∀ state, Transition.Reachable (· = start input) step state →
      state.stdout <+: input.map toupper ∧
        (state.parent.dead = false → state.child.dead = false →
          (∀ count, step (.parent count) state = none) → step .child state = none →
            state.parent.place = .exited ∧ state.child.place = .exited ∧
            state.stdout = input.map toupper)) ∧
      ∀ choices state, Transition.replay step choices (start input) = some state →
        choices.length ≤ rank (start input) := by
  constructor
  · intro state reached
    have sound : InStep input state := by
      refine Transition.reachable_invariant ?_ (step_in_step input) reached
      rintro _ rfl
      exact start_in_step input
    refine ⟨?_, fun parent child first second => ?_⟩
    · rw [← sound.flow]
      simp only [List.append_assoc]
      exact List.prefix_append _ _
    · refine both_settled input state sound child (fun count => ?_) ?_
      · have blocked := first count
        rwa [step, if_neg (by rw [parent]; exact Bool.false_ne_true)] at blocked
      · rwa [step, if_neg (by rw [child]; exact Bool.false_ne_true)] at second
  · intro choices state replayed
    exact Transition.choices_bounded step rank step_rank choices replayed

end Tlpi.CaseChange
