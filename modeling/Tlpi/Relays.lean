import Mathlib.Data.List.Basic
import Mathlib.Tactic.Ring
import Mathlib.Tactic.Linarith

/-!
Processes in a row. Each one copies the channel before it to the channel behind it until
it sees end-of-file; a read takes any number of items that are there and fit, a write is
taken piece by piece as there is room. A process may fail at any time, and what it held
is then never read again. Nothing here mentions a particular program.
-/

namespace Tlpi.Relays

universe u
variable {Item : Type u}

inductive Status where
  | idle
  | running
  | finished
  | failed
  deriving DecidableEq

/-- A process with the channel behind it. What has no limit is a file or a terminal, which
takes a write as a whole. -/
structure Relay (Item : Type u) where
  size : Nat
  limit : Option Nat
  buf : List Item
  out : List Item
  status : Status
  deriving DecidableEq

inductive Move where
  | start
  | read (count : Nat)
  | write (count : Nat)
  | eof
  | fail
  deriving DecidableEq

def Status.ended (status : Status) : Bool := status = .finished || status = .failed

def Relay.fits (relay : Relay Item) (count : Nat) : Bool :=
  match relay.limit with
  | none => count = relay.buf.length
  | some limit => relay.out.length + count ≤ limit

/-- The process alone, with what it can read; `ended` says that nothing more will come. -/
def Relay.move (input : List Item) (ended : Bool) (relay : Relay Item) :
    Move → Option (List Item × Relay Item)
  | .start => if relay.status = .idle then some (input, { relay with status := .running }) else none
  | .read count =>
      if relay.status = .running ∧ relay.buf = [] ∧ 0 < count ∧ count ≤ relay.size ∧
        count ≤ input.length then
        some (input.drop count, { relay with buf := input.take count })
      else none
  | .write count =>
      if relay.status = .running ∧ 0 < count ∧ count ≤ relay.buf.length ∧
        relay.fits count = true then
        some (input,
          { relay with buf := relay.buf.drop count, out := relay.out ++ relay.buf.take count })
      else none
  | .eof =>
      if relay.status = .running ∧ relay.buf = [] ∧ input = [] ∧ ended = true then
        some (input, { relay with status := .finished })
      else none
  | .fail =>
      if relay.status = .idle ∨ relay.status = .running then
        some (input, { relay with status := .failed })
      else none

/-- One move of the process at a place in the row. -/
def move (input : List Item) (ended : Bool) :
    List (Relay Item) → Nat → Move → Option (List Item × List (Relay Item))
  | [], _, _ => none
  | relay :: rest, 0, choice =>
      (relay.move input ended choice).map fun left => (left.1, left.2 :: rest)
  | relay :: rest, place + 1, choice =>
      (move relay.out relay.status.ended rest place choice).map fun left =>
        (input, { relay with out := left.1 } :: left.2)

/-- What comes out at the end of the row. -/
def sink (input : List Item) : List (Relay Item) → List Item
  | [] => input
  | relay :: rest => sink relay.out rest

/-- What a move adds there. -/
def written : List (Relay Item) → Nat → Move → List Item
  | [relay], 0, .write count => relay.buf.take count
  | _ :: rest, place + 1, choice => written rest place choice
  | _, _, _ => []

/-- Everything on its way, the oldest first. -/
def whole (input : List Item) : List (Relay Item) → List Item
  | [] => input
  | relay :: rest => whole relay.out rest ++ relay.buf ++ input

/-- Whoever has finished has passed on all that came. -/
def Sound (input : List Item) (ended : Bool) : List (Relay Item) → Prop
  | [] => True
  | relay :: rest =>
      (relay.status = .finished → ended = true ∧ input = [] ∧ relay.buf = []) ∧
        Sound relay.out relay.status.ended rest

/-- Only the channels between two processes have a limit. -/
def Open : List (Relay Item) → Prop
  | [] => True
  | relay :: rest => 0 < relay.size ∧
      (relay.limit = none ∨ rest ≠ [] ∧ relay.limit ≠ some 0) ∧ Open rest

def weight : Status → Nat
  | .idle => 2
  | .running => 1
  | .finished => 0
  | .failed => 0

/-- Each item counts for the moves that are left to it. -/
def rank (input : List Item) : List (Relay Item) → Nat
  | [] => 0
  | relay :: rest =>
      (2 * rest.length + 2) * input.length + (2 * rest.length + 1) * relay.buf.length +
        weight relay.status +
        rank relay.out rest

/-! What a process can do. -/

inductive Moved (input : List Item) (ended : Bool) (relay : Relay Item) :
    List Item → Relay Item → Prop where
  | start (idle : relay.status = .idle) :
      Moved input ended relay input { relay with status := .running }
  | read (count : Nat) (running : relay.status = .running) (empty : relay.buf = [])
      (some : 0 < count)
      (there : count ≤ input.length) :
      Moved input ended relay (input.drop count) { relay with buf := input.take count }
  | write (count : Nat) (running : relay.status = .running) (some : 0 < count)
      (there : count ≤ relay.buf.length) :
      Moved input ended relay input
        { relay with buf := relay.buf.drop count, out := relay.out ++ relay.buf.take count }
  | eof (running : relay.status = .running) (empty : relay.buf = []) (nothing : input = [])
      (atEnd : ended = true) :
      Moved input ended relay input { relay with status := .finished }
  | fail (alive : relay.status = .idle ∨ relay.status = .running) :
      Moved input ended relay input { relay with status := .failed }

theorem relay_moved (input left : List Item) (ended : Bool) (relay after : Relay Item)
    (choice : Move) (taken : relay.move input ended choice = some (left, after)) :
    Moved input ended relay left after := by
  cases choice with
  | start =>
      simp only [Relay.move, Option.ite_none_right_eq_some, Option.some.injEq,
        Prod.mk.injEq] at taken
      obtain ⟨idle, rfl, rfl⟩ := taken
      exact .start idle
  | read count =>
      simp only [Relay.move, Option.ite_none_right_eq_some, Option.some.injEq,
        Prod.mk.injEq] at taken
      obtain ⟨⟨running, empty, some, _, there⟩, rfl, rfl⟩ := taken
      exact .read count running empty some there
  | write count =>
      simp only [Relay.move, Option.ite_none_right_eq_some, Option.some.injEq,
        Prod.mk.injEq] at taken
      obtain ⟨⟨running, some, there, _⟩, rfl, rfl⟩ := taken
      exact .write count running some there
  | eof =>
      simp only [Relay.move, Option.ite_none_right_eq_some, Option.some.injEq,
        Prod.mk.injEq] at taken
      obtain ⟨⟨running, empty, nothing, atEnd⟩, rfl, rfl⟩ := taken
      exact .eof running empty nothing atEnd
  | fail =>
      simp only [Relay.move, Option.ite_none_right_eq_some, Option.some.injEq,
        Prod.mk.injEq] at taken
      obtain ⟨alive, rfl, rfl⟩ := taken
      exact .fail alive

section Single
variable {input left : List Item} {ended : Bool} {relay after : Relay Item}
  (moved : Moved input ended relay left after)
include moved

theorem moved_whole : after.out ++ after.buf ++ left = relay.out ++ relay.buf ++ input := by
  cases moved with
  | start => rfl
  | read count _ empty => rw [empty, List.append_nil, List.append_assoc, List.take_append_drop]
  | write count =>
      simp only [List.append_assoc]
      rw [← List.append_assoc (relay.buf.take count), List.take_append_drop]
  | eof => rfl
  | fail => rfl

theorem moved_rank (behind : Nat) :
    (2 * behind + 2) * left.length + (2 * behind + 1) * after.buf.length + weight after.status +
        2 * behind * after.out.length <
      (2 * behind + 2) * input.length + (2 * behind + 1) * relay.buf.length + weight relay.status +
        2 * behind * relay.out.length := by
  cases moved with
  | start idle =>
      rw [idle]
      simp only [weight]
      omega
  | read count _ empty some there =>
      rw [List.length_drop, List.length_take_of_le there, empty, List.length_nil]
      obtain ⟨rest, size⟩ := Nat.exists_eq_add_of_le there
      rw [size, Nat.add_sub_cancel_left]
      nlinarith
  | write count _ some there =>
      rw [List.length_drop, List.length_append, List.length_take_of_le there]
      obtain ⟨rest, size⟩ := Nat.exists_eq_add_of_le there
      rw [size, Nat.add_sub_cancel_left]
      nlinarith
  | eof running =>
      rw [running]
      simp only [weight]
      omega
  | fail alive =>
      rcases alive with status | status
      · rw [status]
        simp only [weight]
        omega
      · rw [status]
        simp only [weight]
        omega

theorem moved_shape : after.size = relay.size ∧ after.limit = relay.limit := by
  cases moved <;> exact ⟨rfl, rfl⟩

theorem moved_alive : relay.status.ended = false := by
  cases moved with
  | start idle => simp [idle, Status.ended]
  | read _ running => simp [running, Status.ended]
  | write _ running => simp [running, Status.ended]
  | eof running => simp [running, Status.ended]
  | fail alive => rcases alive with status | status <;> simp [status, Status.ended]

theorem moved_finished (finished : after.status = .finished) :
    ended = true ∧ left = [] ∧ after.buf = [] := by
  have alive := moved_alive moved
  cases moved with
  | start => cases finished
  | read =>
      rw [show relay.status = .finished from finished] at alive
      cases alive
  | write =>
      rw [show relay.status = .finished from finished] at alive
      cases alive
  | eof _ empty nothing atEnd => exact ⟨atEnd, nothing, empty⟩
  | fail => cases finished

end Single

/-- Where a move leaves the process that makes it. -/
def Move.leaves : Move → Status
  | .start => .running
  | .read _ => .running
  | .write _ => .running
  | .eof => .finished
  | .fail => .failed

theorem leaves_active (choice : Move) : choice.leaves ≠ .idle := by
  cases choice <;> exact Status.noConfusion

theorem move_leaves (input left : List Item) (ended : Bool) (relay after : Relay Item)
    (choice : Move) (taken : relay.move input ended choice = some (left, after)) :
    after.status = choice.leaves := by
  cases choice with
  | start =>
      simp only [Relay.move, Option.ite_none_right_eq_some, Option.some.injEq,
        Prod.mk.injEq] at taken
      rw [← taken.2.2]
      rfl
  | read count =>
      simp only [Relay.move, Option.ite_none_right_eq_some, Option.some.injEq,
        Prod.mk.injEq] at taken
      rw [← taken.2.2]
      exact taken.1.1
  | write count =>
      simp only [Relay.move, Option.ite_none_right_eq_some, Option.some.injEq,
        Prod.mk.injEq] at taken
      rw [← taken.2.2]
      exact taken.1.1
  | eof =>
      simp only [Relay.move, Option.ite_none_right_eq_some, Option.some.injEq,
        Prod.mk.injEq] at taken
      rw [← taken.2.2]
      rfl
  | fail =>
      simp only [Relay.move, Option.ite_none_right_eq_some, Option.some.injEq,
        Prod.mk.injEq] at taken
      rw [← taken.2.2]
      rfl

/-- Only a write adds to what has come out. -/
theorem written_nothing (relays : List (Relay Item)) (place : Nat) (choice : Move)
    (other : ∀ count, choice ≠ .write count) : written relays place choice = [] := by
  induction relays generalizing place with
  | nil => rfl
  | cons relay rest ih =>
      cases place with
      | succ place =>
          rw [written]
          exact ih place
      | zero =>
          cases choice with
          | write count => exact absurd rfl (other count)
          | _ => cases rest <;> rfl

/-! What the row keeps. -/

theorem whole_input (input : List Item) (relays : List (Relay Item)) :
    whole input relays = whole [] relays ++ input := by
  cases relays with
  | nil => rfl
  | cons relay rest => simp [whole]

theorem rank_input (input : List Item) (relays : List (Relay Item)) :
    rank input relays = 2 * relays.length * input.length + rank [] relays := by
  cases relays with
  | nil => simp [rank]
  | cons relay rest =>
      simp only [rank, List.length_cons, List.length_nil]
      ring

/-- Nobody behind a living process has finished, whatever that process does next. -/
theorem sound_fed (input other : List Item) (atEnd : Bool) (relays : List (Relay Item))
    (sound : Sound input false relays) : Sound other atEnd relays := by
  cases relays with
  | nil => trivial
  | cons relay rest =>
      obtain ⟨first, others⟩ := sound
      refine ⟨fun finished => ?_, others⟩
      cases (first finished).1

/-- What a move of one place gives is either a move of the first process or one further on. -/
theorem move_cases (input left : List Item) (ended : Bool) (relay : Relay Item)
    (rest after : List (Relay Item)) (place : Nat) (choice : Move)
    (taken : move input ended (relay :: rest) place choice = some (left, after)) :
    (∃ one, Moved input ended relay left one ∧ after = one :: rest) ∨
      ∃ next out others, place = next + 1 ∧ move relay.out relay.status.ended rest next choice =
        some (out, others) ∧
        left = input ∧ after = { relay with out } :: others := by
  cases place with
  | zero =>
      obtain ⟨⟨first, second⟩, moved, same⟩ := Option.map_eq_some_iff.mp taken
      cases same
      exact Or.inl ⟨second, relay_moved _ _ _ _ _ _ moved, rfl⟩
  | succ next =>
      obtain ⟨⟨first, second⟩, moved, same⟩ := Option.map_eq_some_iff.mp taken
      cases same
      exact Or.inr ⟨next, first, second, rfl, moved, rfl, rfl⟩

section Row
variable (input left : List Item) (ended : Bool) (relays after : List (Relay Item))
  (place : Nat) (choice : Move) (taken : move input ended relays place choice = some (left, after))
include taken

theorem move_length : after.length = relays.length := by
  induction relays generalizing input left ended after place with
  | nil => cases taken
  | cons relay rest ih =>
      rcases move_cases _ _ _ _ _ _ _ _ taken with ⟨one, _, rfl⟩ |
        ⟨next, out, others, _, later, _, rfl⟩
      · rfl
      · rw [List.length_cons, List.length_cons, ih _ _ _ _ _ later]

theorem move_place : place < relays.length := by
  induction relays generalizing input left ended after place with
  | nil => cases taken
  | cons relay rest ih =>
      cases place with
      | zero => exact Nat.zero_lt_succ _
      | succ next =>
          obtain ⟨⟨first, second⟩, moved, same⟩ := Option.map_eq_some_iff.mp taken
          exact Nat.succ_lt_succ (ih _ _ _ _ _ moved)

theorem move_whole : whole left after = whole input relays := by
  induction relays generalizing input left ended after place with
  | nil => cases taken
  | cons relay rest ih =>
      rcases move_cases _ _ _ _ _ _ _ _ taken with ⟨one, moved, rfl⟩ |
        ⟨next, out, others, _, later, rfl, rfl⟩
      · have kept := moved_whole moved
        simp only [whole]
        rw [whole_input one.out, whole_input relay.out, List.append_assoc, List.append_assoc,
          ← List.append_assoc one.out, kept]
        simp only [List.append_assoc]
      · simp only [whole]
        rw [ih _ _ _ _ _ later]

theorem move_rank : rank left after < rank input relays := by
  induction relays generalizing input left ended after place with
  | nil => cases taken
  | cons relay rest ih =>
      rcases move_cases _ _ _ _ _ _ _ _ taken with ⟨one, moved, rfl⟩ |
        ⟨next, out, others, _, later, rfl, rfl⟩
      · have lower := moved_rank moved rest.length
        simp only [rank]
        rw [rank_input one.out, rank_input relay.out]
        omega
      · have lower := ih _ _ _ _ _ later
        have same := move_length _ _ _ _ _ _ _ later
        simp only [rank, same]
        omega

theorem move_sink : sink left after = sink input relays ++ written relays place choice := by
  induction relays generalizing input left ended after place with
  | nil => cases taken
  | cons relay rest ih =>
      cases place with
      | zero =>
          obtain ⟨⟨first, second⟩, moved, same⟩ := Option.map_eq_some_iff.mp taken
          cases same
          simp only [sink]
          cases choice with
          | write count =>
              simp only [Relay.move, Option.ite_none_right_eq_some, Option.some.injEq,
                Prod.mk.injEq] at moved
              obtain ⟨_, rfl, rfl⟩ := moved
              cases rest with
              | nil => rfl
              | cons next more => simp [sink, written]
          | _ =>
              simp only [Relay.move, Option.ite_none_right_eq_some, Option.some.injEq,
                Prod.mk.injEq] at moved
              obtain ⟨_, rfl, rfl⟩ := moved
              cases rest <;> simp [written]
      | succ next =>
          obtain ⟨⟨first, second⟩, moved, same⟩ := Option.map_eq_some_iff.mp taken
          cases same
          simp only [sink]
          rw [ih _ _ _ _ _ moved, written]

theorem move_status : (after.map Relay.status)[place]? = some choice.leaves := by
  induction relays generalizing input left ended after place with
  | nil => cases taken
  | cons relay rest ih =>
      cases place with
      | zero =>
          obtain ⟨⟨first, second⟩, moved, same⟩ := Option.map_eq_some_iff.mp taken
          cases same
          exact congrArg some (move_leaves _ _ _ _ _ _ moved)
      | succ next =>
          obtain ⟨⟨first, second⟩, moved, same⟩ := Option.map_eq_some_iff.mp taken
          cases same
          exact ih relay.out first relay.status.ended second next moved

theorem move_alive : (relays.map Relay.status)[place]? ≠ some .finished ∧
    (relays.map Relay.status)[place]? ≠ some .failed := by
  induction relays generalizing input left ended after place with
  | nil => cases taken
  | cons relay rest ih =>
      cases place with
      | zero =>
          obtain ⟨⟨first, second⟩, moved, _⟩ := Option.map_eq_some_iff.mp taken
          have alive := moved_alive (relay_moved _ _ _ _ _ _ moved)
          constructor
          · intro bad
            rw [show relay.status = .finished from Option.some.inj bad] at alive
            cases alive
          · intro bad
            rw [show relay.status = .failed from Option.some.inj bad] at alive
            cases alive
      | succ next =>
          obtain ⟨⟨first, second⟩, moved, _⟩ := Option.map_eq_some_iff.mp taken
          exact ih relay.out first relay.status.ended second next moved

theorem move_others (other : Nat) (different : other ≠ place) :
    (after.map Relay.status)[other]? = (relays.map Relay.status)[other]? := by
  induction relays generalizing input left ended after place other with
  | nil => cases taken
  | cons relay rest ih =>
      cases place with
      | zero =>
          obtain ⟨⟨first, second⟩, moved, same⟩ := Option.map_eq_some_iff.mp taken
          cases same
          cases other with
          | zero => exact absurd rfl different
          | succ other => rfl
      | succ next =>
          obtain ⟨⟨first, second⟩, moved, same⟩ := Option.map_eq_some_iff.mp taken
          cases same
          cases other with
          | zero => rfl
          | succ other =>
              exact ih _ _ _ _ _ moved other fun same => different (congrArg Nat.succ same)

/-- Whoever is idle was so before and has not been the one to move. -/
theorem move_idle (other : Nat) (still : (after.map Relay.status)[other]? = some .idle) :
    (relays.map Relay.status)[other]? = some .idle ∧ other ≠ place := by
  have different : other ≠ place := by
    rintro rfl
    rw [move_status input left ended relays after other choice taken, Option.some.injEq] at still
    exact leaves_active choice still
  exact ⟨move_others input left ended relays after place choice taken other different ▸ still,
    different⟩

theorem move_sound (sound : Sound input ended relays) : Sound left ended after := by
  induction relays generalizing input left ended after place with
  | nil => cases taken
  | cons relay rest ih =>
      obtain ⟨first, others⟩ := sound
      rcases move_cases _ _ _ _ _ _ _ _ taken with ⟨one, moved, rfl⟩ |
        ⟨next, out, others', _, later, rfl, rfl⟩
      · refine ⟨fun finished => moved_finished moved finished, ?_⟩
        rw [moved_alive moved] at others
        exact sound_fed _ _ _ rest others
      · exact ⟨first, ih _ _ _ _ _ later others⟩

theorem move_open (unblocked : Open relays) : Open after := by
  induction relays generalizing input left ended after place with
  | nil => cases taken
  | cons relay rest ih =>
      obtain ⟨size, limit, others⟩ := unblocked
      rcases move_cases _ _ _ _ _ _ _ _ taken with ⟨one, moved, rfl⟩ |
        ⟨next, out, others', _, later, rfl, rfl⟩
      · obtain ⟨sameSize, sameLimit⟩ := moved_shape moved
        refine ⟨sameSize ▸ size, ?_, others⟩
        rw [sameLimit]
        exact limit
      · refine ⟨size, limit.imp_right fun between => ⟨?_, between.2⟩,
          ih _ _ _ _ _ later others⟩
        rw [← List.length_pos_iff, move_length _ _ _ _ _ _ _ later, List.length_pos_iff]
        exact between.1

end Row

/-- An idle process can be started and can fail. -/
theorem idle_moves (input : List Item) (ended : Bool) (relays : List (Relay Item))
    (place : Nat) (choice : Move) (idle : (relays.map Relay.status)[place]? = some .idle)
    (early : choice = .start ∨ choice = .fail) :
    move input ended relays place choice ≠ none := by
  induction relays generalizing input ended place with
  | nil => cases idle
  | cons relay rest ih =>
      cases place with
      | zero =>
          have status : relay.status = .idle := Option.some.inj idle
          rcases early with rfl | rfl <;> simp [move, Relay.move, status]
      | succ place =>
          rw [move, ne_eq, Option.map_eq_none_iff]
          exact ih _ _ place idle

/-- End-of-file comes from the process in front. -/
theorem eof_after (input : List Item) (ended : Bool) (relays : List (Relay Item)) (place : Nat)
    (left : List Item × List (Relay Item))
    (taken : move input ended relays (place + 1) .eof = some left) :
    ∃ status, (relays.map Relay.status)[place]? = some status ∧ status.ended = true := by
  induction relays generalizing input ended place left with
  | nil => cases taken
  | cons relay rest ih =>
      obtain ⟨later, moved, _⟩ := Option.map_eq_some_iff.mp taken
      cases place with
      | zero =>
          cases rest with
          | nil => cases moved
          | cons next more =>
              obtain ⟨_, acted, _⟩ := Option.map_eq_some_iff.mp moved
              simp only [Relay.move, Option.ite_none_right_eq_some] at acted
              exact ⟨relay.status, rfl, acted.1.2.2.2⟩
      | succ place => exact ih _ _ place _ moved

theorem sink_prefix (input : List Item) (relays : List (Relay Item)) :
    sink input relays <+: whole input relays := by
  induction relays generalizing input with
  | nil => exact List.prefix_rfl
  | cons relay rest ih =>
      rw [sink, whole, List.append_assoc]
      exact (ih relay.out).trans (List.prefix_append _ _)

/-- When all have finished, nothing is on its way. -/
theorem finished_whole (input : List Item) (ended : Bool) (relays : List (Relay Item))
    (sound : Sound input ended relays) (done : ∀ relay ∈ relays, relay.status = .finished) :
    sink input relays = whole input relays := by
  induction relays generalizing input ended with
  | nil => rfl
  | cons relay rest ih =>
      obtain ⟨first, others⟩ := sound
      obtain ⟨_, nothing, empty⟩ := first (done relay List.mem_cons_self)
      rw [sink, whole, nothing, empty, List.append_nil, List.append_nil]
      exact ih _ _ others fun one member => done one (List.mem_cons_of_mem _ member)

/-- A row that has been given its whole input. -/
structure Flows (given input : List Item) (relays : List (Relay Item)) : Prop where
  all : whole input relays = given
  sound : Sound input true relays
  unblocked : Open relays

theorem move_flows (given input left : List Item) (relays after : List (Relay Item))
    (place : Nat) (choice : Move) (flows : Flows given input relays)
    (taken : move input true relays place choice = some (left, after)) : Flows given left after :=
  ⟨(move_whole _ _ _ _ _ _ _ taken).trans flows.all, move_sound _ _ _ _ _ _ _ taken flows.sound,
    move_open _ _ _ _ _ _ _ taken flows.unblocked⟩

theorem flows_prefix (given input : List Item) (relays : List (Relay Item))
    (flows : Flows given input relays) : sink input relays <+: given :=
  flows.all ▸ sink_prefix input relays

theorem flows_finished (given input : List Item) (relays : List (Relay Item))
    (flows : Flows given input relays) (done : ∀ relay ∈ relays, relay.status = .finished) :
    sink input relays = given :=
  (finished_whole _ _ _ flows.sound done).trans flows.all

/-- The first process waits for what comes before it. -/
def Hungry (input : List Item) (ended : Bool) : List (Relay Item) → Prop
  | [] => False
  | _ :: _ => input = [] ∧ ended = false

/-- A read, a write or the end of a process is possible. -/
def Acts (input : List Item) (ended : Bool) (relays : List (Relay Item)) : Prop :=
  ∃ place choice left, choice ≠ .start ∧ choice ≠ .fail ∧
    move input ended relays place choice = some left

def Relay.free (relay : Relay Item) : Prop :=
  ∃ count, 0 < count ∧ count ≤ relay.buf.length ∧ relay.fits count = true

theorem free_unlimited (relay : Relay Item) (unlimited : relay.limit = none)
    (held : relay.buf ≠ []) : relay.free :=
  ⟨relay.buf.length, List.length_pos_iff.mpr held, Nat.le_refl _,
    by simp [Relay.fits, unlimited]⟩

theorem free_empty (relay : Relay Item) (positive : relay.limit ≠ some 0) (empty : relay.out = [])
    (held : relay.buf ≠ []) : relay.free := by
  cases bound : relay.limit with
  | none => exact free_unlimited relay bound held
  | some limit =>
      refine ⟨1, Nat.one_pos, List.length_pos_iff.mpr held, ?_⟩
      simp only [Relay.fits, bound, empty, List.length_nil, decide_eq_true_eq]
      by_contra none
      refine positive ?_
      rw [bound, show limit = 0 by omega]

theorem first_acts (input : List Item) (ended : Bool) (relay : Relay Item)
    (rest : List (Relay Item)) (running : relay.status = .running) (size : 0 < relay.size)
    (free : relay.buf ≠ [] → relay.free) :
    Acts input ended (relay :: rest) ∨ Hungry input ended (relay :: rest) := by
  have act : ∀ choice left, choice ≠ .start → choice ≠ .fail →
    relay.move input ended choice = some left →
      Acts input ended (relay :: rest) := by
    intro choice left started harmless moved
    exact ⟨0, choice, _, started, harmless, by rw [move, moved]; rfl⟩
  by_cases empty : relay.buf = []
  · by_cases nothing : input = []
    · cases atEnd : ended with
      | true =>
          exact Or.inl (atEnd ▸ act .eof _ (by decide) (by decide)
            (if_pos ⟨running, empty, nothing, atEnd⟩))
      | false => exact Or.inr ⟨nothing, rfl⟩
    · have some : 1 ≤ input.length := List.length_pos_iff.mpr nothing
      exact Or.inl (act (.read 1) _ (by decide) (by decide)
        (if_pos ⟨running, empty, Nat.one_pos, size, some⟩))
  · obtain ⟨count, some, there, fits⟩ := free empty
    exact Or.inl (act (.write count) _ (by simp) (by simp)
      (if_pos ⟨running, some, there, fits⟩))

/-- A row in which nobody has failed goes on until all have finished, unless it waits for input. -/
theorem row_acts (input : List Item) (ended : Bool) (relays : List (Relay Item))
    (unblocked : Open relays) (sound : Sound input ended relays)
    (alive : ∀ relay ∈ relays, relay.status = .running ∨ relay.status = .finished) :
    (∀ relay ∈ relays, relay.status = .finished) ∨ Acts input ended relays ∨
      Hungry input ended relays := by
  induction relays generalizing input ended with
  | nil => exact Or.inl fun relay member => by cases member
  | cons relay rest ih =>
      obtain ⟨size, limit, widths⟩ := unblocked
      obtain ⟨first, others⟩ := sound
      have further := ih relay.out relay.status.ended widths others fun one member =>
        alive one (List.mem_cons_of_mem _ member)
      have passed : Acts relay.out relay.status.ended rest →
          Acts input ended (relay :: rest) := by
        rintro ⟨place, choice, left, started, harmless, moved⟩
        exact ⟨place + 1, choice, _, started, harmless, by rw [move, moved]; rfl⟩
      rcases alive relay List.mem_cons_self with running | finished
      · have living : relay.status.ended = false := by rw [running]; rfl
        rcases further with all | can | hungry
        · refine Or.inr (first_acts input ended relay rest running size ?_)
          cases rest with
          | nil => exact free_unlimited relay (limit.resolve_right fun between => between.1 rfl)
          | cons next more =>
              -- nobody finishes before the one in front of him
              have atEnd := (others.1 (all next List.mem_cons_self)).1
              rw [living] at atEnd
              cases atEnd
        · exact Or.inr (Or.inl (passed can))
        · refine Or.inr (first_acts input ended relay rest running size ?_)
          cases rest with
          | nil => exact hungry.elim
          | cons next more =>
              rcases limit with unlimited | ⟨_, positive⟩
              · exact free_unlimited relay unlimited
              · exact free_empty relay positive hungry.1
      · have atEnd : relay.status.ended = true := by rw [finished]; rfl
        rcases further with all | can | hungry
        · refine Or.inl fun one member => ?_
          rcases List.mem_cons.mp member with rfl | later
          · exact finished
          · exact all one later
        · exact Or.inr (Or.inl (passed can))
        · cases rest with
          | nil => exact hungry.elim
          | cons next more =>
              rw [atEnd] at hungry
              cases hungry.2

theorem flows_acts (given input : List Item) (relays : List (Relay Item))
    (flows : Flows given input relays)
    (alive : ∀ relay ∈ relays, relay.status = .running ∨ relay.status = .finished) :
    (∀ relay ∈ relays, relay.status = .finished) ∨ Acts input true relays := by
  refine (row_acts _ _ _ flows.unblocked flows.sound alive).imp_right (Or.resolve_right · ?_)
  cases relays with
  | nil => exact id
  | cons relay rest =>
      rintro ⟨_, atEnd⟩
      cases atEnd

end Tlpi.Relays
