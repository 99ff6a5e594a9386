import Mathlib.Algebra.Order.Ring.Int
import Mathlib.Data.List.Basic
import Tlpi.Indexed
import Tlpi.Transition

/-!
altio/epoll_input.c: a program that reads FIFOs as `epoll_wait` reports them, while their writers
write and go away. Its source says that a descriptor is closed only after all outstanding input
has been read. An `epoll_wait` that is interrupted is only repeated.
-/

namespace Tlpi.EpollInput

def MAX_BUF : Nat := 1000
def MAX_EVENTS : Nat := 5

/-- `coming` is what the writers have yet to write, `buffer` what is in the FIFO and `received`
what has been read. After its last writer has gone, a FIFO may be opened again `reopens` times. -/
structure Fifo where
  coming : List UInt8
  buffer : List UInt8
  written : List UInt8
  received : List UInt8
  writers : Bool
  reopens : Nat
  closed : Bool
  deriving DecidableEq

structure Event where
  fd : Nat
  epollin : Bool
  epollhup : Bool
  epollerr : Bool
  deriving DecidableEq

inductive Place where
  | wait
  | handle (evlist : List Event)
  | exited (success : Bool)
  deriving DecidableEq

structure State where
  fifos : List Fifo
  numOpenFds : Int
  place : Place
  deriving DecidableEq

inductive Choice where
  | epollWait (fds : List Nat)
  | handle
  | leave
  | write (fd count : Nat)
  | gone (fd : Nat)
  | reopen (fd : Nat)
  deriving DecidableEq

def Fifo.event (fifo : Fifo) (fd : Nat) : Event :=
  ⟨fd, fifo.buffer ≠ [], !fifo.writers, false⟩

/-- A closed descriptor is no longer in the interest list. -/
def Fifo.ready (fifo : Fifo) : Bool := !fifo.closed && (fifo.buffer ≠ [] || !fifo.writers)

def eventOf (fifos : List Fifo) (fd : Nat) : Option Event :=
  match fifos[fd]? with
  | none => none
  | some fifo => if fifo.ready then some (fifo.event fd) else none

/-- The reported descriptors are any of those that are ready. -/
def epollWait (fds : List Nat) (state : State) : Option State :=
  if state.place = .wait ∧ 0 < state.numOpenFds ∧ fds ≠ [] ∧
    fds.length ≤ MAX_EVENTS ∧ fds.Nodup ∧
      ∀ fd ∈ fds, (eventOf state.fifos fd).isSome then
    some { state with place := .handle (fds.filterMap (eventOf state.fifos)) }
  else none

/-- After the last event the loop goes round. -/
def next (rest : List Event) : Place := if rest = [] then .wait else .handle rest

def Fifo.read (fifo : Fifo) : Fifo :=
  { fifo with
    buffer := fifo.buffer.drop MAX_BUF
    received := fifo.received ++ fifo.buffer.take MAX_BUF }

def Fifo.close (fifo : Fifo) : Fifo := { fifo with closed := true }

def handle (state : State) : Option State :=
  match state.place with
  | .handle (event :: rest) =>
      match state.fifos[event.fd]? with
      | none => some { state with place := .exited false }
      | some fifo =>
          if event.epollin then
            if fifo.closed then some { state with place := .exited false }
            else
              some { state with
                fifos := state.fifos.set event.fd fifo.read
                place := next rest }
          else if event.epollhup || event.epollerr then
            if fifo.closed then some { state with place := .exited false }
            else
              some { state with
                fifos := state.fifos.set event.fd fifo.close
                numOpenFds := state.numOpenFds - 1
                place := next rest }
          else some { state with place := next rest }
  | _ => none

/-- A writer adds bytes while there is room. -/
def write (room count : Nat) (fifo : Fifo) : Option Fifo :=
  if fifo.writers = true ∧ fifo.closed = false ∧ 0 < count ∧ count ≤ fifo.coming.length ∧
      fifo.buffer.length + count ≤ room then
    some { fifo with
      coming := fifo.coming.drop count
      buffer := fifo.buffer ++ fifo.coming.take count
      written := fifo.written ++ fifo.coming.take count }
  else none

def gone (fifo : Fifo) : Option Fifo :=
  if fifo.writers then some { fifo with writers := false } else none

def reopen (fifo : Fifo) : Option Fifo :=
  if fifo.writers = false ∧ fifo.closed = false ∧ 0 < fifo.reopens then
    some { fifo with writers := true, reopens := fifo.reopens - 1 }
  else none

def change (fd : Nat) (alter : Fifo → Option Fifo) (state : State) : Option State :=
  (Indexed.update state.fifos fd alter).map fun fifos => { state with fifos := fifos }

def step (room : Nat) : Choice → State → Option State
  | .epollWait fds, state => epollWait fds state
  | .handle, state => handle state
  | .leave, state =>
      if state.place = .wait ∧ state.numOpenFds ≤ 0 then
        some { state with place := .exited true }
      else none
  | .write fd count, state => change fd (write room count) state
  | .gone fd, state => change fd gone state
  | .reopen fd, state => change fd reopen state

/-- Each file has been opened, for which it needed a writer. -/
def start (inputs : List (List UInt8 × Nat)) : State :=
  ⟨inputs.map fun input => ⟨input.1, [], [], [], true, input.2, false⟩,
    inputs.length, .wait⟩

/-! What each event still tells. -/

def Place.events : Place → List Event
  | .handle evlist => evlist
  | _ => []

/-- Input that was reported is still there, and a FIFO that was reported empty and without writers
stays so unless it is opened again. -/
structure Told (reopens : Nat) (fifo : Fifo) (event : Event) : Prop where
  still : fifo.closed = false
  input : event.epollin = true → fifo.buffer ≠ []
  hangup : event.epollin = false → event.epollhup = true ∧
    (fifo.reopens = reopens → fifo.writers = false ∧ fifo.buffer = [])

structure Sound (input : List UInt8 × Nat) (fifo : Fifo) : Prop where
  whole : fifo.written ++ fifo.coming = input.1
  flow : fifo.received ++ fifo.buffer = fifo.written
  fewer : fifo.reopens ≤ input.2
  drained : fifo.closed = true → fifo.reopens = input.2 →
    fifo.writers = false ∧ fifo.buffer = []

structure Inv (inputs : List (List UInt8 × Nat)) (state : State) : Prop where
  length : state.fifos.length = inputs.length
  sound : ∀ (fd : Nat) input fifo, inputs[fd]? = some input → state.fifos[fd]? = some fifo →
    Sound input fifo
  told : ∀ event ∈ state.place.events, ∃ input fifo, inputs[event.fd]? = some input ∧
    state.fifos[event.fd]? = some fifo ∧ Told input.2 fifo event
  once : (state.place.events.map Event.fd).Nodup
  some_ : ∀ evlist, state.place = .handle evlist → evlist ≠ []
  openFds : state.numOpenFds = (state.fifos.map fun fifo => (!fifo.closed).toNat).sum
  fine : ∀ success, state.place = .exited success → success = true ∧ ∀ fifo ∈ state.fifos,
    fifo.closed = true

theorem start_inv (inputs : List (List UInt8 × Nat)) : Inv inputs (start inputs) := by
  refine ⟨List.length_map _, ?_, fun _ bad => absurd bad List.not_mem_nil, List.nodup_nil,
    fun _ bad => (by cases bad), ?_, fun _ bad => by cases bad⟩
  · intro fd input fifo listed found
    rw [start, List.getElem?_map, listed] at found
    cases found
    exact ⟨rfl, rfl, Nat.le_refl _, fun bad => by cases bad⟩
  · simp [start, Function.comp_def]

section Change
variable (inputs : List (List UInt8 × Nat)) (before : State) (inv : Inv inputs before)
  (fd : Nat) (old new : Fifo) (there : before.fifos[fd]? = some old)
include inv there

/-- What a writer does to a FIFO: the program's count and its events stay right. -/
theorem changed_inv (sound : ∀ input, Sound input old → Sound input new)
    (told : ∀ input event, Sound input old → Told input.2 old event → Told input.2 new event)
    (closed : new.closed = old.closed) :
    Inv inputs { before with fifos := before.fifos.set fd new } := by
  refine ⟨by rw [List.length_set]; exact inv.length, ?_, ?_, inv.once, inv.some_, ?_, ?_⟩
  · intro position input fifo listed found
    rcases Indexed.set_cases _ _ _ _ _ found with ⟨rfl, rfl⟩ | ⟨_, earlier⟩
    · exact sound input (inv.sound position input old listed there)
    · exact inv.sound position input fifo listed earlier
  · intro event member
    obtain ⟨input, fifo, listed, found, still⟩ := inv.told event member
    by_cases same : fd = event.fd
    · subst same
      obtain rfl := Option.some.inj (there.symm.trans found)
      exact ⟨input, new, listed, Indexed.set_self _ _ _ _ there,
        told _ event (inv.sound _ _ _ listed there) still⟩
    · exact ⟨input, fifo, listed, (List.getElem?_set_ne same).trans found, still⟩
  · dsimp only
    rw [Indexed.map_set_same (fun fifo : Fifo => (!fifo.closed).toNat) _ _ _ _ there
        (by rw [closed])]
    exact inv.openFds
  · intro success ended
    obtain ⟨fine, all⟩ := inv.fine success ended
    refine ⟨fine, fun fifo member => ?_⟩
    rcases List.mem_or_eq_of_mem_set member with earlier | rfl
    · exact all fifo earlier
    · rw [closed]
      exact all old (List.mem_of_getElem? there)

theorem write_inv (room count : Nat) (taken : write room count old = some new) :
    Inv inputs { before with fifos := before.fifos.set fd new } := by
  rw [write, Option.ite_none_right_eq_some, Option.some.injEq] at taken
  obtain ⟨⟨writers, still, _, _, _⟩, rfl⟩ := taken
  refine changed_inv inputs before inv fd old _ there (fun input sound => ?_)
    (fun input event _ told => ?_) rfl
  · refine ⟨?_, ?_, sound.fewer, fun bad => ?_⟩
    · dsimp only
      rw [List.append_assoc, List.take_append_drop]
      exact sound.whole
    · dsimp only
      rw [← sound.flow, List.append_assoc]
    · exact absurd (still.symm.trans bad) Bool.false_ne_true
  · refine ⟨told.still, fun some_ => ?_,
      fun hangup => ⟨(told.hangup hangup).1, fun same => ?_⟩⟩
    · exact List.append_ne_nil_of_left_ne_nil (told.input some_) _
    · have bad := ((told.hangup hangup).2 same).1
      rw [writers] at bad
      cases bad

theorem gone_inv (taken : gone old = some new) :
    Inv inputs { before with fifos := before.fifos.set fd new } := by
  rw [gone, Option.ite_none_right_eq_some, Option.some.injEq] at taken
  obtain ⟨_, rfl⟩ := taken
  refine changed_inv inputs before inv fd old _ there (fun input sound => ?_)
    (fun input event _ told => ?_) rfl
  · exact ⟨sound.whole, sound.flow, sound.fewer,
      fun closed same => ⟨rfl, (sound.drained closed same).2⟩⟩
  · refine ⟨told.still, told.input, fun none => ⟨(told.hangup none).1, fun same => ?_⟩⟩
    exact ⟨rfl, ((told.hangup none).2 same).2⟩

theorem reopen_inv (taken : reopen old = some new) :
    Inv inputs { before with fifos := before.fifos.set fd new } := by
  rw [reopen, Option.ite_none_right_eq_some, Option.some.injEq] at taken
  obtain ⟨⟨_, _, some_⟩, rfl⟩ := taken
  refine changed_inv inputs before inv fd old _ there (fun input sound => ?_)
    (fun input event sound told => ?_) rfl
  · have fewer := sound.fewer
    refine ⟨sound.whole, sound.flow, by dsimp only; omega, fun _ bad => ?_⟩
    dsimp only at bad
    omega
  · have fewer := sound.fewer
    refine ⟨told.still, told.input, fun hangup => ⟨(told.hangup hangup).1, fun bad => ?_⟩⟩
    dsimp only at bad
    omega

end Change

theorem event_of_some (fifos : List Fifo) (fd : Nat) (event : Event)
    (found : eventOf fifos fd = some event) :
    ∃ fifo, fifos[fd]? = some fifo ∧ fifo.ready = true ∧ event = fifo.event fd := by
  unfold eventOf at found
  split at found
  · cases found
  · next fifo there =>
      rw [Option.ite_none_right_eq_some, Option.some.injEq] at found
      exact ⟨fifo, there, found.1, found.2.symm⟩

theorem ready_told (reopens : Nat) (fifo : Fifo) (fd : Nat) (isReady : fifo.ready = true) :
    Told reopens fifo (fifo.event fd) := by
  rw [Fifo.ready, Bool.and_eq_true, Bool.not_eq_true'] at isReady
  refine ⟨isReady.1, fun input => of_decide_eq_true input, fun none => ?_⟩
  have empty : fifo.buffer = [] := not_not.mp (of_decide_eq_false none)
  have hup : fifo.writers = false := by simpa [empty] using isReady.2
  exact ⟨by rw [Fifo.event, hup]; rfl, fun _ => ⟨hup, empty⟩⟩

theorem wait_inv (inputs : List (List UInt8 × Nat)) (before after : State)
    (inv : Inv inputs before) (fds : List Nat) (taken : epollWait fds before = some after) :
    Inv inputs after := by
  rw [epollWait, Option.ite_none_right_eq_some, Option.some.injEq] at taken
  obtain ⟨⟨_, _, some_, _, once, ready⟩, rfl⟩ := taken
  have inside {event : Event} (member : event ∈ fds.filterMap (eventOf before.fifos)) :
      ∃ fifo, before.fifos[event.fd]? = some fifo ∧ fifo.ready = true ∧
        event = fifo.event event.fd := by
    obtain ⟨fd, _, found⟩ := List.mem_filterMap.mp member
    obtain ⟨fifo, there, isReady, rfl⟩ := event_of_some before.fifos fd event found
    exact ⟨fifo, there, isReady, rfl⟩
  refine ⟨inv.length, inv.sound, fun event member => ?_, ?_, ?_, inv.openFds,
    fun _ bad => by cases bad⟩
  · obtain ⟨fifo, there, isReady, same⟩ := inside member
    have small : event.fd < inputs.length := inv.length ▸ (List.getElem?_eq_some_iff.mp there).1
    obtain ⟨input, listed⟩ : ∃ input, inputs[event.fd]? = some input :=
      ⟨_, List.getElem?_eq_getElem small⟩
    exact ⟨input, fifo, listed, there, same ▸ ready_told input.2 fifo event.fd isReady⟩
  · refine List.Nodup.map_on ?_ (once.filterMap ?_)
    · intro one first two second same
      obtain ⟨fifo, there, _, left⟩ := inside first
      obtain ⟨other, here, _, right⟩ := inside second
      rw [← same] at here right
      obtain rfl := Option.some.inj (there.symm.trans here)
      rw [left, right]
    · intro one two event first second
      obtain ⟨_, _, _, left⟩ := event_of_some _ _ _ first
      obtain ⟨_, _, _, right⟩ := event_of_some _ _ _ second
      have equal := congrArg Event.fd (left.symm.trans right)
      exact equal
  · rintro evlist ⟨⟩ none
    obtain ⟨fd, others, rfl⟩ := List.exists_cons_of_ne_nil some_
    obtain ⟨event, found⟩ := Option.isSome_iff_exists.mp (ready fd List.mem_cons_self)
    have member : event ∈ (fd :: others).filterMap (eventOf before.fifos) :=
      List.mem_filterMap.mpr ⟨fd, List.mem_cons_self, found⟩
    rw [none] at member
    cases member

theorem next_events (rest : List Event) : (next rest).events = rest := by
  unfold next
  split
  · next none => exact none.symm
  · rfl

section Handle
variable (inputs : List (List UInt8 × Nat)) (before : State) (inv : Inv inputs before)
  (event : Event) (rest : List Event) (place : before.place = .handle (event :: rest))
  (old new : Fifo) (there : before.fifos[event.fd]? = some old)
include inv place there

/-- One event has been dealt with. -/
theorem handled_inv (count : Int)
    (sound : ∀ input, Sound input old → Told input.2 old event → Sound input new)
    (counted : count + (!old.closed).toNat = before.numOpenFds + (!new.closed).toNat) :
    Inv inputs ⟨before.fifos.set event.fd new, count, next rest⟩ := by
  have once := inv.once
  rw [place] at once
  obtain ⟨fresh, later⟩ := List.nodup_cons.mp once
  obtain ⟨input, fifo, listed, found, told⟩ :=
    inv.told event (by rw [place]; exact List.mem_cons_self)
  obtain rfl := Option.some.inj (there.symm.trans found)
  refine ⟨by rw [List.length_set]; exact inv.length, ?_, ?_, ?_, ?_, ?_, ?_⟩
  · intro position other fifo here now
    rcases Indexed.set_cases _ _ _ _ _ now with ⟨rfl, rfl⟩ | ⟨_, earlier⟩
    · obtain rfl := Option.some.inj (listed.symm.trans here)
      exact sound input (inv.sound event.fd input old here there) told
    · exact inv.sound position other fifo here earlier
  · intro other member
    rw [next_events] at member
    obtain ⟨given, fifo, here, now, still⟩ :=
      inv.told other (by rw [place]; exact List.mem_cons_of_mem _ member)
    have different : event.fd ≠ other.fd :=
      fun same => fresh (same ▸ List.mem_map_of_mem member)
    exact ⟨given, fifo, here, (List.getElem?_set_ne different).trans now, still⟩
  · rw [next_events]
    exact later
  · intro evlist going
    unfold next at going
    split at going
    · cases going
    · next more =>
        cases going
        exact more
  · have sum :=
      Indexed.sum_set (fun fifo : Fifo => (!fifo.closed).toNat) before.fifos event.fd old new there
    have opens := inv.openFds
    dsimp only at sum ⊢
    omega
  · intro success bad
    unfold next at bad
    split at bad <;> cases bad

end Handle

/-- An event that still tells the truth leads to a read or to a close, and to no error. -/
theorem handle_cases (inputs : List (List UInt8 × Nat)) (before after : State)
    (inv : Inv inputs before) (taken : handle before = some after) :
    ∃ event rest old, before.place = .handle (event :: rest) ∧
      before.fifos[event.fd]? = some old ∧
      old.closed = false ∧
      ((old.buffer ≠ [] ∧
        after = ⟨before.fifos.set event.fd old.read, before.numOpenFds, next rest⟩) ∨
        (event.epollin = false ∧
          after = ⟨before.fifos.set event.fd old.close, before.numOpenFds - 1,
            next rest⟩)) := by
  unfold handle at taken
  split at taken
  · next event rest place =>
      obtain ⟨input, old, _, there, told⟩ :=
        inv.told event (by rw [place]; exact List.mem_cons_self)
      have still : ¬ old.closed = true := by rw [told.still]; exact Bool.false_ne_true
      refine ⟨event, rest, old, place, there, told.still, ?_⟩
      rw [there] at taken
      dsimp only at taken
      rw [if_neg still, if_neg still] at taken
      split at taken
      · next some_ =>
          cases taken
          exact Or.inl ⟨told.input some_, rfl⟩
      · next none =>
          rw [Bool.not_eq_true] at none
          rw [if_pos (by rw [(told.hangup none).1]; rfl)] at taken
          cases taken
          exact Or.inr ⟨none, rfl⟩
  · cases taken

theorem handle_inv (inputs : List (List UInt8 × Nat)) (before after : State)
    (inv : Inv inputs before) (taken : handle before = some after) : Inv inputs after := by
  obtain ⟨event, rest, old, place, there, still, ⟨_, rfl⟩ | ⟨none, rfl⟩⟩ :=
    handle_cases inputs before after inv taken
  · refine handled_inv inputs before inv event rest place old _ there _
      (fun input sound _ => ?_) rfl
    refine ⟨sound.whole, ?_, sound.fewer,
      fun bad => absurd (still.symm.trans bad) Bool.false_ne_true⟩
    rw [Fifo.read, List.append_assoc, List.take_append_drop]
    exact sound.flow
  · refine handled_inv inputs before inv event rest place old _ there _
      (fun input sound told => ?_) ?_
    · exact ⟨sound.whole, sound.flow, sound.fewer, fun _ same => (told.hangup none).2 same⟩
    · rw [still]
      simp [Fifo.close]

theorem leave_inv (inputs : List (List UInt8 × Nat)) (before : State) (inv : Inv inputs before)
    (none : before.numOpenFds ≤ 0) : Inv inputs { before with place := .exited true } := by
  refine ⟨inv.length, inv.sound, fun _ bad => absurd bad List.not_mem_nil, List.nodup_nil,
    fun _ bad => (by cases bad), inv.openFds, fun success ended => ?_⟩
  cases ended
  refine ⟨rfl, fun fifo member => ?_⟩
  have zero : (before.fifos.map fun fifo => (!fifo.closed).toNat).sum = 0 := by
    have count := inv.openFds
    omega
  have each := List.sum_eq_zero_iff.mp zero _ (List.mem_map_of_mem member)
  simpa using each

/-- A change that a writer made. -/
theorem change_some (fd : Nat) (alter : Fifo → Option Fifo) (before after : State)
    (made : change fd alter before = some after) :
    ∃ old new, before.fifos[fd]? = some old ∧ alter old = some new ∧
      after = { before with fifos := before.fifos.set fd new } := by
  obtain ⟨fifos, updated, rfl⟩ := Option.map_eq_some_iff.mp made
  obtain ⟨old, new, there, altered, rfl⟩ := Indexed.update_some _ _ _ _ updated
  exact ⟨old, new, there, altered, rfl⟩

theorem step_inv (room : Nat) (inputs : List (List UInt8 × Nat)) (choice : Choice)
    (before after : State) (inv : Inv inputs before)
    (taken : step room choice before = some after) : Inv inputs after := by
  cases choice with
  | epollWait fds => exact wait_inv inputs before after inv fds taken
  | handle => exact handle_inv inputs before after inv taken
  | leave =>
      rw [step, Option.ite_none_right_eq_some, Option.some.injEq] at taken
      obtain ⟨⟨_, none⟩, rfl⟩ := taken
      exact leave_inv inputs before inv none
  | write fd count =>
      obtain ⟨old, new, there, made, rfl⟩ := change_some fd _ before after taken
      exact write_inv inputs before inv fd old new there room count made
  | gone fd =>
      obtain ⟨old, new, there, made, rfl⟩ := change_some fd _ before after taken
      exact gone_inv inputs before inv fd old new there made
  | reopen fd =>
      obtain ⟨old, new, there, made, rfl⟩ := change_some fd _ before after taken
      exact reopen_inv inputs before inv fd old new there made

/-! Every byte is written and read once, and every FIFO is closed once. -/

def Fifo.weight (fifo : Fifo) : Nat :=
  3 * fifo.coming.length + 2 * fifo.buffer.length + 2 * fifo.reopens + fifo.writers.toNat + 2 *
    (!fifo.closed).toNat

def Place.weight : Place → Nat
  | .wait => 1
  | _ => 0

def rank (state : State) : Nat := (state.fifos.map Fifo.weight).sum + state.place.weight

theorem next_weight (rest : List Event) : (next rest).weight ≤ 1 := by
  unfold next
  split
  · exact Nat.le_refl 1
  · exact Nat.zero_le 1

theorem changed_lowers (before : State) (fd : Nat) (old new : Fifo)
    (there : before.fifos[fd]? = some old) (lower : new.weight < old.weight) :
    rank { before with fifos := before.fifos.set fd new } < rank before := by
  have sum := Indexed.sum_set Fifo.weight before.fifos fd old new there
  unfold rank
  dsimp only
  omega

theorem handle_lowers (inputs : List (List UInt8 × Nat)) (before after : State)
    (inv : Inv inputs before) (taken : handle before = some after) : rank after < rank before := by
  obtain ⟨event, rest, old, place, there, still, kind⟩ :=
    handle_cases inputs before after inv taken
  have going := next_weight rest
  have idle : before.place.weight = 0 := by rw [place]; rfl
  rcases kind with ⟨some_, rfl⟩ | ⟨_, rfl⟩
  · have sum := Indexed.sum_set Fifo.weight before.fifos event.fd old old.read there
    have fewer : old.read.weight + 2 ≤ old.weight := by
      have more := List.length_pos_iff.mpr some_
      simp only [Fifo.weight, Fifo.read, List.length_drop, MAX_BUF]
      omega
    unfold rank
    dsimp only
    omega
  · have sum := Indexed.sum_set Fifo.weight before.fifos event.fd old old.close there
    have fewer : old.close.weight + 2 = old.weight := by
      simp only [Fifo.weight, Fifo.close, still, Bool.not_true, Bool.not_false, Bool.toNat_false,
        Bool.toNat_true]
    unfold rank
    dsimp only
    omega

theorem step_lowers (room : Nat) (inputs : List (List UInt8 × Nat)) (choice : Choice)
    (before after : State) (inv : Inv inputs before)
    (taken : step room choice before = some after) : rank after < rank before := by
  cases choice with
  | epollWait fds =>
      rw [step, epollWait, Option.ite_none_right_eq_some, Option.some.injEq] at taken
      obtain ⟨⟨place, _⟩, rfl⟩ := taken
      simp only [rank, place, Place.weight]
      omega
  | handle => exact handle_lowers inputs before after inv taken
  | leave =>
      rw [step, Option.ite_none_right_eq_some, Option.some.injEq] at taken
      obtain ⟨⟨place, _⟩, rfl⟩ := taken
      simp only [rank, place, Place.weight]
      omega
  | write fd count =>
      obtain ⟨old, new, there, made, rfl⟩ := change_some fd _ before after taken
      refine changed_lowers before fd old new there ?_
      rw [write, Option.ite_none_right_eq_some, Option.some.injEq] at made
      obtain ⟨⟨_, _, positive, enough, _⟩, rfl⟩ := made
      simp only [Fifo.weight, List.length_drop, List.length_append, List.length_take]
      omega
  | gone fd =>
      obtain ⟨old, new, there, made, rfl⟩ := change_some fd _ before after taken
      refine changed_lowers before fd old new there ?_
      rw [gone, Option.ite_none_right_eq_some, Option.some.injEq] at made
      obtain ⟨writers, rfl⟩ := made
      simp only [Fifo.weight, writers, Bool.toNat_false, Bool.toNat_true]
      omega
  | reopen fd =>
      obtain ⟨old, new, there, made, rfl⟩ := change_some fd _ before after taken
      refine changed_lowers before fd old new there ?_
      rw [reopen, Option.ite_none_right_eq_some, Option.some.injEq] at made
      obtain ⟨⟨writers, _, some_⟩, rfl⟩ := made
      simp only [Fifo.weight, writers, Bool.toNat_false, Bool.toNat_true]
      omega

theorem start_rank (inputs : List (List UInt8 × Nat)) :
    rank (start inputs) = (inputs.map fun input => 3 * input.1.length + 2 * input.2 + 3).sum +
      1 := by
  simp only [rank, start, Place.weight, List.map_map]
  rfl

/-- While a descriptor is open, its writers can go or `epoll_wait` returns. -/
theorem stuck_exited (room : Nat) (inputs : List (List UInt8 × Nat)) (state : State)
    (inv : Inv inputs state) (stuck : ∀ choice, step room choice state = none) :
    state.place = .exited true := by
  cases place : state.place with
  | exited success => rw [(inv.fine success place).1]
  | handle evlist =>
      obtain ⟨event, rest, rfl⟩ := List.exists_cons_of_ne_nil (inv.some_ evlist place)
      have none := stuck .handle
      simp only [step, handle, place] at none
      split at none
      · cases none
      · split at none
        · split at none <;> cases none
        · split at none
          · split at none <;> cases none
          · cases none
  | wait =>
      have more : 0 < state.numOpenFds := by
        by_contra hangup
        have leaves := stuck .leave
        rw [step, if_pos ⟨place, Int.not_lt.mp hangup⟩] at leaves
        cases leaves
      have some_ : (state.fifos.map fun fifo => (!fifo.closed).toNat).sum ≠ 0 := by
        have count := inv.openFds
        omega
      have exists_ : ∃ fifo ∈ state.fifos, fifo.closed = false := by
        by_contra none
        refine some_ (List.sum_eq_zero_iff.mpr fun weight member => ?_)
        obtain ⟨fifo, inside, rfl⟩ := List.mem_map.mp member
        have closed : fifo.closed = true := by
          by_contra still
          exact none ⟨fifo, inside, Bool.eq_false_iff.mpr still⟩
        rw [closed]
        rfl
      obtain ⟨fifo, inside, still⟩ := exists_
      obtain ⟨fd, there⟩ := List.mem_iff_getElem?.mp inside
      have alone : fifo.writers = false := by
        have stays :=
          Indexed.update_none _ _ _ (Option.map_eq_none_iff.mp (stuck (.gone fd))) fifo there
        by_contra writers
        rw [gone, if_pos (Bool.not_eq_false _ ▸ writers)] at stays
        cases stays
      have isReady : fifo.ready = true := by
        rw [Fifo.ready, still, alone, Bool.not_false, Bool.or_true, Bool.and_self]
      have waits := stuck (.epollWait [fd])
      rw [step, epollWait, if_pos] at waits
      · cases waits
      · refine ⟨place, more, List.cons_ne_nil _ _, Nat.succ_le_of_lt (by decide),
          List.nodup_singleton fd, ?_⟩
        intro other member
        obtain rfl := List.mem_singleton.mp member
        rw [eventOf, there]
        dsimp only
        rw [if_pos isReady]
        rfl

/-- In every run what is read is a part of what was written, in order, and no call fails. A
descriptor is closed only after all of its input has been read, unless the FIFO was opened for
writing again; the run ends, with every descriptor closed. -/
theorem input_is_read_before_closing (room : Nat) (inputs : List (List UInt8 × Nat))
    (choices : List Choice) (state : State)
    (replayed : Transition.replay (step room) choices (start inputs) = some state) :
    choices.length ≤ (inputs.map fun input => 3 * input.1.length + 2 * input.2 + 3).sum + 1 ∧
      state.place ≠ .exited false ∧
      (∀ (fd : Nat) input fifo, inputs[fd]? = some input → state.fifos[fd]? = some fifo →
        fifo.written ++ fifo.coming = input.1 ∧ fifo.received <+: fifo.written ∧
          (fifo.closed = true → fifo.reopens = input.2 → fifo.writers = false ∧
            fifo.received = fifo.written)) ∧
      ((∀ choice, step room choice state = none) →
        state.place = .exited true ∧ ∀ fifo ∈ state.fifos, fifo.closed = true) := by
  have reached : Transition.Reachable (fun state => state = start inputs) (step room) state :=
    Transition.replay_reachable choices (Transition.Reachable.start rfl) replayed
  have inv : Inv inputs state :=
    Transition.reachable_invariant (fun state here => here ▸ start_inv inputs)
      (fun choice before after inv taken => step_inv room inputs choice before after inv taken)
        reached
  refine ⟨?_, ?_, ?_, ?_⟩
  · rw [← start_rank inputs]
    exact Transition.choices_bounded_within (step room) rank (Inv inputs) (step_inv room inputs)
      (step_lowers room inputs) choices (start_inv inputs) replayed
  · intro failed
    cases (inv.fine false failed).1
  · intro fd input fifo listed there
    have sound := inv.sound fd input fifo listed there
    refine ⟨sound.whole, ⟨fifo.buffer, sound.flow⟩, fun closed same => ?_⟩
    obtain ⟨alone, empty⟩ := sound.drained closed same
    have flow := sound.flow
    rw [empty, List.append_nil] at flow
    exact ⟨alone, flow⟩
  · intro stuck
    have ended := stuck_exited room inputs state inv stuck
    exact ⟨ended, (inv.fine true ended).2⟩

/-- A writer writes two bytes and goes before the program has looked. -/
def written : List Choice :=
  [.write 0 2, .gone 0, .epollWait [0], .handle, .epollWait [0], .handle, .leave]

theorem written_is_read :
    ∃ state, Transition.replay (step 65536) written (start [([104, 105], 0)]) = some state ∧
    state.place ≠ .exited false := by
  refine ⟨⟨[⟨[], [], [104, 105], [104, 105], false, 0, true⟩], 0, .exited true⟩,
    by decide, ?_⟩
  exact (input_is_read_before_closing 65536 [([104, 105], 0)] written _ (by decide)).2.1

-- A FIFO that is opened again and written to after its hangup was reported loses that input.
example : Transition.replay (step 65536) [.gone 0, .epollWait [0], .reopen 0, .write 0 1, .handle]
  (start [([7], 1)]) =
    some ⟨[⟨[], [7], [7], [], true, 0, true⟩], 0, .wait⟩ := by decide

end Tlpi.EpollInput
