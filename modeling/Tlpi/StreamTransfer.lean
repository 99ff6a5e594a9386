import Mathlib.Data.List.Basic
import Mathlib.Data.List.Nodup
import Tlpi.Indexed
import Tlpi.Relays
import Tlpi.Transition

/-!
sockets/us_xfr_sv.c and us_xfr_cl.c (and their second versions, which differ in how they set
up the socket): clients copy their standard input to a connection, and one server takes the
connections one after the other and copies what comes to its standard output. A connection is
a row of two processes, of which the second is the server.
-/

namespace Tlpi.StreamTransfer

open Relays

def BUF_SIZE : Nat := 100

def BACKLOG : Nat := 5

structure Connection where
  stdin : List UInt8
  processes : List (Relay UInt8)
  deriving DecidableEq

/-- `current` is the connection that the server copies from, `order` lists all that it has
accepted. -/
structure State where
  connections : List Connection
  queue : List Nat
  current : Option Nat
  order : List Nat
  stdout : List UInt8
  running : Bool
  deriving DecidableEq

inductive Choice where
  | connect (client : Nat) (works : Bool)
  | accept (works : Bool)
  | client (client : Nat) (move : Move)
  | server (move : Move)
  deriving DecidableEq

def Connection.act (connection : Connection) (place : Nat) (move : Move) : Option Connection :=
  (Relays.move connection.stdin true connection.processes place move).map fun left =>
    ⟨left.1, left.2⟩

def Connection.received (connection : Connection) : List UInt8 :=
  sink connection.stdin connection.processes

def Connection.status (connection : Connection) (place : Nat) : Option Status :=
  (connection.processes.map Relay.status)[place]?

def State.update (state : State) (client : Nat) (change : Connection → Option Connection) :
    Option State :=
  (Indexed.update state.connections client change).map fun connections => { state with connections }

/-- A client that has no connection yet. -/
def Connection.early (connection : Connection) : Bool := connection.status 0 = some .idle

/-- The server has no connection after end-of-file, and exits on a failure. -/
def State.after (state : State) (connection : Connection) (move : Move) : State :=
  { state with
    stdout := state.stdout ++ written connection.processes 1 move
    current := if move = .eof then none else state.current
    running := move ≠ .fail }

def step : Choice → State → Option State
  | .connect client works, state =>
      if works then
        if state.running = true ∧ state.queue.length < BACKLOG then
          State.update { state with queue := state.queue ++ [client] } client fun connection =>
            if connection.early then connection.act 0 .start else none
        else none
      else state.update client fun connection =>
        if connection.early then connection.act 0 .fail else none
  | .accept works, state =>
      if state.running = true ∧ state.current = none then
        if works then
          match state.queue with
          | [] => none
          | client :: rest =>
              State.update { state with
                queue := rest, current := some client, order := state.order ++ [client] }
                client (·.act 1 .start)
        else some { state with running := false }
      else none
  | .client client move, state =>
      state.update client fun connection => if connection.early then none else connection.act 0 move
  | .server move, state =>
      match state.current with
      | none => none
      | some client =>
          match state.connections[client]? with
          | none => none
          | some connection =>
              if state.running = true then
                (state.after connection move).update client (·.act 1 move)
              else none

/-- `room` and one more is what a socket holds. -/
def client (room : Nat) (stdin : List UInt8) : Connection :=
  ⟨stdin, [⟨BUF_SIZE, some (room + 1), [], [], .idle⟩, ⟨BUF_SIZE, none, [], [], .idle⟩]⟩

def start (room : Nat) (inputs : List (List UInt8)) : State :=
  ⟨inputs.map (client room), [], none, [], [], true⟩

/-! One connection. -/

structure Kept (input : List UInt8) (connection : Connection) : Prop where
  flows : Flows input connection.stdin connection.processes
  two : connection.processes.length = 2

section Act
variable (before after : Connection) (place : Nat) (move : Move)
  (taken : before.act place move = some after)
include taken

theorem act_kept (input : List UInt8) (kept : Kept input before) : Kept input after := by
  obtain ⟨⟨left, processes⟩, moved, rfl⟩ := Option.map_eq_some_iff.mp taken
  exact ⟨move_flows _ _ _ _ _ _ _ kept.flows moved,
    (move_length _ _ _ _ _ _ _ moved).trans kept.two⟩

theorem act_received : after.received = before.received ++ written before.processes place move := by
  obtain ⟨⟨left, processes⟩, moved, rfl⟩ := Option.map_eq_some_iff.mp taken
  exact move_sink _ _ _ _ _ _ _ moved

theorem act_status : after.status place = some move.leaves := by
  obtain ⟨⟨left, processes⟩, moved, rfl⟩ := Option.map_eq_some_iff.mp taken
  exact move_status _ _ _ _ _ _ _ moved

theorem act_others (other : Nat) (different : other ≠ place) :
    after.status other = before.status other := by
  obtain ⟨⟨left, processes⟩, moved, rfl⟩ := Option.map_eq_some_iff.mp taken
  exact move_others _ _ _ _ _ _ _ moved other different

theorem act_alive :
    before.status place ≠ some .finished ∧ before.status place ≠ some .failed := by
  obtain ⟨⟨left, processes⟩, moved, rfl⟩ := Option.map_eq_some_iff.mp taken
  exact move_alive _ _ _ _ _ _ _ moved

theorem act_rank : rank after.stdin after.processes < rank before.stdin before.processes := by
  obtain ⟨⟨left, processes⟩, moved, rfl⟩ := Option.map_eq_some_iff.mp taken
  exact move_rank _ _ _ _ _ _ _ moved

/-- Only the server writes at the end of the row. -/
theorem client_received (first : place = 0) (two : before.processes.length = 2) :
    after.received = before.received := by
  subst first
  rw [act_received before after 0 move taken]
  obtain ⟨client, server, shape⟩ := List.length_eq_two.mp two
  rw [shape, written.eq_def]
  cases move <;> exact List.append_nil _

end Act

/-! The whole service. -/

def State.received (state : State) (client : Nat) : List UInt8 :=
  (state.connections[client]?.map Connection.received).getD []

structure Inv (inputs : List (List UInt8)) (state : State) : Prop where
  length : state.connections.length = inputs.length
  kept : ∀ (index : Nat) input connection, inputs[index]? = some input →
    state.connections[index]? = some connection →
    Kept input connection
  once : (state.queue ++ state.order).Nodup
  inside : ∀ index ∈ state.queue ++ state.order, index < inputs.length
  begun : ∀ (index : Nat) connection, state.connections[index]? = some connection →
    index ∈ state.queue ++ state.order → connection.early = false
  fresh : ∀ (index : Nat) connection, state.connections[index]? = some connection →
    index ∉ state.order →
    connection.status 1 = some .idle ∧ connection.received = [] ∧
      (connection.early = true ∨ connection.status 0 = some .failed ∨ index ∈ state.queue)
  copied : ∀ (index : Nat) connection, state.connections[index]? = some connection →
    index ∈ state.order →
    state.current ≠ some index → connection.status 1 = some .finished
  last : ∀ index, state.current = some index → ∃ front, state.order = front ++ [index]
  copying : ∀ (index : Nat) connection, state.connections[index]? = some connection →
    state.current = some index →
    state.running = true → connection.status 1 = some .running
  stdout : state.stdout = (state.order.map state.received).flatten

theorem start_inv (room : Nat) (inputs : List (List UInt8)) : Inv inputs (start room inputs) := by
  refine ⟨List.length_map _, ?_, List.nodup_nil, ?_, ?_, ?_, ?_, ?_, ?_, rfl⟩
  · intro index input connection listed found
    rw [start, List.getElem?_map, listed] at found
    cases found
    refine ⟨⟨?_, ?_, ?_⟩, rfl⟩
    · simp [client, whole]
    · simp [client, Sound]
    · simp [client, Open, BUF_SIZE]
  · intro index member
    cases member
  · intro index connection _ member
    cases member
  · intro index connection found _
    rw [start, List.getElem?_map] at found
    obtain ⟨input, _, rfl⟩ := Option.map_eq_some_iff.mp found
    exact ⟨rfl, rfl, Or.inl rfl⟩
  · intro index connection _ member
    cases member
  · intro index current
    cases current
  · intro index connection _ current
    cases current

theorem update_some (state after : State) (client : Nat) (change : Connection → Option Connection)
    (taken : state.update client change = some after) :
    ∃ before later, state.connections[client]? = some before ∧ change before = some later ∧
      after = { state with connections := state.connections.set client later } := by
  obtain ⟨connections, updated, rfl⟩ := Option.map_eq_some_iff.mp taken
  obtain ⟨before, later, there, changed, rfl⟩ := Indexed.update_some _ _ _ _ updated
  exact ⟨before, later, there, changed, rfl⟩

theorem received_set (connections : List Connection) (client other : Nat)
    (before later : Connection) (there : connections[client]? = some before) :
    (((connections.set client later)[other]?).map Connection.received).getD [] =
      if other = client then later.received
      else (connections[other]?.map Connection.received).getD [] := by
  by_cases same : other = client
  · subst same
    rw [Indexed.set_self connections other before later there, if_pos rfl]
    rfl
  · rw [List.getElem?_set_ne (Ne.symm same), if_neg same]

/-- A step that adds nothing to the output. -/
theorem stdout_kept (state after : State) (client : Nat) (before later : Connection)
    (there : state.connections[client]? = some before)
    (connections : after.connections = state.connections.set client later)
    (same : later.received = before.received) : after.received = state.received := by
  funext other
  rw [State.received, connections, received_set _ _ _ _ _ there]
  split
  · next here => rw [here, State.received, there, same]; rfl
  · rfl

section Steps
variable (inputs : List (List UInt8)) (state after : State) (inv : Inv inputs state) (client : Nat)
  (before later : Connection) (there : state.connections[client]? = some before)
include inv there

theorem set_kept (connections : after.connections = state.connections.set client later)
    (kept : ∀ input, Kept input before → Kept input later) :
    ∀ (index : Nat) input connection, inputs[index]? = some input →
      after.connections[index]? = some connection →
      Kept input connection := by
  intro index input connection listed found
  rw [connections] at found
  rcases Indexed.set_cases _ _ _ _ _ found with ⟨rfl, rfl⟩ | ⟨_, old⟩
  · exact kept input (inv.kept index input before listed there)
  · exact inv.kept index input connection listed old

/-- The client moves, perhaps into the queue. -/
theorem client_moved (move : Move) (acted : before.act 0 move = some later)
    (connections : after.connections = state.connections.set client later)
    (rest : after.current = state.current ∧ after.order = state.order ∧
      after.stdout = state.stdout ∧
      after.running = state.running)
    (queue : after.queue = state.queue ∨ after.queue = state.queue ++ [client] ∧
      before.early = true)
    (known : client ∉ state.order → later.status 0 = some .failed ∨ client ∈ after.queue) :
    Inv inputs after := by
  obtain ⟨current, order, stdout, running⟩ := rest
  have inside : client < inputs.length := inv.length ▸ (List.getElem?_eq_some_iff.mp there).1
  have two : before.processes.length = 2 :=
    (inv.kept client _ before (List.getElem?_eq_getElem inside) there).two
  have same := client_received before later 0 move acted rfl two
  have begun : later.early = false := by
    rw [Connection.early, act_status before later 0 move acted]
    simp [leaves_active]
  have server := act_others before later 0 move acted 1 (by decide)
  have members : ∀ index, index ∈ after.queue ++ after.order →
      index = client ∨ index ∈ state.queue ++ state.order := by
    intro index member
    rw [order] at member
    rcases queue with equal | ⟨equal, _⟩
    · exact Or.inr (equal ▸ member)
    · rw [equal, List.append_assoc, List.mem_append, List.mem_append, List.mem_singleton] at member
      rw [List.mem_append]
      tauto
  refine ⟨?_, set_kept inputs state after inv client before later there connections
    fun input kept =>
    act_kept before later 0 move acted input kept, ?_, ?_, ?_, ?_, ?_, ?_, ?_, ?_⟩
  · rw [connections, List.length_set]
    exact inv.length
  · rw [order]
    rcases queue with equal | ⟨equal, early⟩
    · rw [equal]
      exact inv.once
    · rw [equal, List.append_assoc, List.singleton_append, List.nodup_middle, List.nodup_cons]
      refine ⟨fun bad => ?_, inv.once⟩
      rw [inv.begun client before there bad] at early
      cases early
  · intro index member
    rcases members index member with rfl | old
    · exact inside
    · exact inv.inside index old
  · intro index connection found member
    rw [connections] at found
    rcases Indexed.set_cases _ _ _ _ _ found with ⟨rfl, rfl⟩ | ⟨different, old⟩
    · exact begun
    · exact inv.begun index connection old ((members index member).resolve_left different)
  · intro index connection found outside
    rw [order] at outside
    rw [connections] at found
    rcases Indexed.set_cases _ _ _ _ _ found with ⟨rfl, rfl⟩ | ⟨different, old⟩
    · obtain ⟨idle, nothing, _⟩ := inv.fresh index before there outside
      exact ⟨server.trans idle, same.trans nothing, Or.inr (known outside)⟩
    · obtain ⟨idle, nothing, which⟩ := inv.fresh index connection old outside
      refine ⟨idle, nothing, which.imp_right (Or.imp_right fun queued => ?_)⟩
      rcases queue with equal | ⟨equal, _⟩
      · exact equal ▸ queued
      · exact equal ▸ List.mem_append_left _ queued
  · intro index connection found member
    rw [order] at member
    rw [current]
    rw [connections] at found
    intro apart
    rcases Indexed.set_cases _ _ _ _ _ found with ⟨rfl, rfl⟩ | ⟨_, old⟩
    · exact server.trans (inv.copied index before there member apart)
    · exact inv.copied index connection old member apart
  · rw [current, order]
    exact inv.last
  · intro index connection found
    rw [current, running]
    rw [connections] at found
    intro here alive
    rcases Indexed.set_cases _ _ _ _ _ found with ⟨rfl, rfl⟩ | ⟨_, old⟩
    · exact server.trans (inv.copying index before there here alive)
    · exact inv.copying index connection old here alive
  · rw [stdout, order, stdout_kept state after client before later there connections same]
    exact inv.stdout

/-- The server takes the first connection of the queue. -/
theorem accepted_inv (rest : List Nat) (queue : state.queue = client :: rest)
    (free : state.current = none) (acted : before.act 1 .start = some later) :
    Inv inputs { state with
      connections := state.connections.set client later
      queue := rest
      current := some client
      order := state.order ++ [client] } := by
  have outside : client ∉ state.order := by
    have once := inv.once
    rw [queue, List.cons_append, List.nodup_cons] at once
    exact fun bad => once.1 (List.mem_append_right _ bad)
  obtain ⟨_, nothing, _⟩ := inv.fresh client before there outside
  have members : ∀ index, index ∈ rest ++ (state.order ++ [client]) ↔
      index ∈ state.queue ++ state.order := by
    intro index
    rw [queue]
    simp only [List.mem_append, List.mem_cons, List.not_mem_nil]
    tauto
  have silent : later.received = before.received := by
    rw [act_received before later 1 .start acted, written_nothing _ _ _ fun _ => Move.noConfusion,
        List.append_nil]
  have first := act_others before later 1 .start acted 0 (by decide)
  refine ⟨?_, set_kept inputs state _ inv client before later there rfl fun input kept =>
    act_kept before later 1 .start acted input kept, ?_, ?_, ?_, ?_, ?_, ?_, ?_, ?_⟩
  · rw [List.length_set]
    exact inv.length
  · have order : (rest ++ (state.order ++ [client])).Perm (state.queue ++ state.order) := by
      rw [queue, ← List.append_assoc]
      exact List.perm_append_singleton _ _
    exact order.nodup_iff.mpr inv.once
  · exact fun index member => inv.inside index ((members index).mp member)
  · intro index connection found member
    have old := (members index).mp member
    rcases Indexed.set_cases _ _ _ _ _ found with ⟨rfl, rfl⟩ | ⟨_, earlier⟩
    · rw [Connection.early, first]
      exact inv.begun index before there old
    · exact inv.begun index connection earlier old
  · intro index connection found apart
    rw [List.mem_append, List.mem_singleton, not_or] at apart
    rcases Indexed.set_cases _ _ _ _ _ found with ⟨rfl, _⟩ | ⟨different, old⟩
    · exact absurd rfl apart.2
    · obtain ⟨idle, empty, which⟩ := inv.fresh index connection old apart.1
      refine ⟨idle, empty, which.imp_right (Or.imp_right fun queued => ?_)⟩
      rw [queue] at queued
      exact (List.mem_cons.mp queued).resolve_left different
  · intro index connection found member apart
    rcases Indexed.set_cases _ _ _ _ _ found with ⟨rfl, _⟩ | ⟨different, old⟩
    · exact absurd rfl apart
    · refine inv.copied index connection old ?_ ?_
      · exact (List.mem_append.mp member).resolve_right fun new =>
          different (List.mem_singleton.mp new)
      · rw [free]
        exact fun bad => by cases bad
  · intro index current
    cases current
    exact ⟨state.order, rfl⟩
  · intro index connection found current _
    cases current
    rcases Indexed.set_cases _ _ _ _ _ found with ⟨_, rfl⟩ | ⟨different, _⟩
    · exact act_status before _ 1 .start acted
    · exact absurd rfl different
  · dsimp only
    rw [stdout_kept state _ client before later there rfl silent, List.map_append,
        List.flatten_append, inv.stdout]
    simp [State.received, there, nothing]

/-- The server copies from its current connection. -/
theorem copied_inv (move : Move) (current : state.current = some client)
    (running : state.running = true) (acted : before.act 1 move = some later) :
    Inv inputs { state.after before move with
      connections := state.connections.set client later } := by
  obtain ⟨front, order⟩ := inv.last client current
  have member : client ∈ state.order := order ▸ List.mem_append_right _ List.mem_cons_self
  have status := act_status before later 1 move acted
  have first := act_others before later 1 move acted 0 (by decide)
  have once : client ∉ front := by
    have nodup := (List.nodup_append.mp inv.once).2.1
    rw [order] at nodup
    exact fun bad => (List.nodup_append.mp nodup).2.2 client bad client List.mem_cons_self rfl
  refine ⟨?_, set_kept inputs state _ inv client before later there rfl fun input kept =>
    act_kept before later 1 move acted input kept, inv.once, inv.inside, ?_, ?_, ?_, ?_, ?_, ?_⟩
  · rw [List.length_set]
    exact inv.length
  · intro index connection found inside
    rcases Indexed.set_cases _ _ _ _ _ found with ⟨rfl, rfl⟩ | ⟨_, old⟩
    · rw [Connection.early, first]
      exact inv.begun index before there inside
    · exact inv.begun index connection old inside
  · intro index connection found outside
    rcases Indexed.set_cases _ _ _ _ _ found with ⟨rfl, _⟩ | ⟨_, old⟩
    · exact absurd member outside
    · exact inv.fresh index connection old outside
  · intro index connection found inside apart
    rcases Indexed.set_cases _ _ _ _ _ found with ⟨rfl, rfl⟩ | ⟨different, old⟩
    · have atEnd : move = .eof := by
        by_contra more
        refine apart ?_
        rw [State.after, if_neg more]
        exact current
      rw [status, atEnd]
      rfl
    · refine inv.copied index connection old inside ?_
      rw [current]
      exact fun same => different (Option.some.inj same).symm
  · intro index still
    refine inv.last index ?_
    by_cases atEnd : move = .eof
    · rw [State.after, if_pos atEnd] at still
      cases still
    · rw [State.after, if_neg atEnd] at still
      exact still
  · intro index connection found still alive
    have more : move ≠ .eof ∧ move ≠ .fail := by
      constructor
      · rintro rfl
        cases still
      · rintro rfl
        cases alive
    rcases Indexed.set_cases _ _ _ _ _ found with ⟨_, rfl⟩ | ⟨different, old⟩
    · rw [status]
      cases move with
      | eof => exact absurd rfl more.1
      | fail => exact absurd rfl more.2
      | _ => rfl
    · refine inv.copying index connection old ?_ running
      rw [State.after, if_neg more.1] at still
      exact still
  · -- the current connection is the last one accepted, so its bytes come at the end
    have others : ∀ index ∈ front, State.received { state.after before move with
        connections := state.connections.set client later } index = state.received index := by
      intro index inside
      have different : index ≠ client := by
        rintro rfl
        exact once inside
      rw [State.received, received_set _ _ _ _ _ there, if_neg different]
      rfl
    have own : State.received { state.after before move with
        connections := state.connections.set client later } client = before.received ++
          written before.processes 1 move := by
      rw [State.received, received_set _ _ _ _ _ there, if_pos rfl,
          act_received before later 1 move acted]
    have earlier : state.received client = before.received := by
      rw [State.received, there]
      rfl
    change state.stdout ++ _ = (state.order.map _).flatten
    rw [inv.stdout, order, List.map_append, List.map_append, List.flatten_append,
      List.flatten_append, List.map_congr_left others, List.map_singleton,
      List.map_singleton, own, earlier]
    simp

end Steps

theorem step_inv (inputs : List (List UInt8)) (choice : Choice) (before after : State)
    (inv : Inv inputs before) (taken : step choice before = some after) : Inv inputs after := by
  cases choice with
  | connect client works =>
      cases works with
      | true =>
          simp only [step, if_true, Option.ite_none_right_eq_some] at taken
          obtain ⟨connection, later, there, changed, rfl⟩ := update_some _ _ _ _ taken.2
          simp only [Option.ite_none_right_eq_some] at changed
          exact client_moved inputs before _ inv client connection later there .start changed.2 rfl
            ⟨rfl, rfl, rfl, rfl⟩
            (Or.inr ⟨rfl, changed.1⟩) fun _ =>
              Or.inr (List.mem_append_right _ List.mem_cons_self)
      | false =>
          simp only [step, Bool.false_eq_true, if_false] at taken
          obtain ⟨connection, later, there, changed, rfl⟩ := update_some _ _ _ _ taken
          simp only [Option.ite_none_right_eq_some] at changed
          exact client_moved inputs before _ inv client connection later there .fail changed.2 rfl
            ⟨rfl, rfl, rfl, rfl⟩
            (Or.inl rfl) fun _ => Or.inl (act_status connection later 0 .fail changed.2)
  | accept works =>
      simp only [step, Option.ite_none_right_eq_some] at taken
      obtain ⟨⟨_, free⟩, taken⟩ := taken
      split at taken
      · split at taken
        · cases taken
        · next client rest queue =>
            obtain ⟨connection, later, there, acted, rfl⟩ := update_some _ _ _ _ taken
            exact accepted_inv inputs before inv client connection later there rest queue free acted
      · cases taken
        exact ⟨inv.length, inv.kept, inv.once, inv.inside, inv.begun, inv.fresh,
          inv.copied, inv.last, (fun _ _ _ _ alive => by cases alive), inv.stdout⟩
  | client client move =>
      obtain ⟨connection, later, there, changed, rfl⟩ := update_some _ _ _ _ taken
      simp only [Option.ite_none_left_eq_some] at changed
      obtain ⟨begun, acted⟩ := changed
      refine client_moved inputs before _ inv client connection later there move acted rfl
        ⟨rfl, rfl, rfl, rfl⟩ (Or.inl rfl) fun outside => ?_
      obtain ⟨_, _, early | failed | queued⟩ := inv.fresh client connection there outside
      · exact absurd early begun
      · exact absurd failed (act_alive connection later 0 move acted).2
      · exact Or.inr queued
  | server move =>
      simp only [step] at taken
      split at taken
      · cases taken
      · next client current =>
          split at taken
          · cases taken
          · next connection found =>
              simp only [Option.ite_none_right_eq_some] at taken
              obtain ⟨running, taken⟩ := taken
              obtain ⟨same, later, there, acted, rfl⟩ := update_some _ _ _ _ taken
              obtain rfl : connection = same := Option.some.inj (found.symm.trans there)
              exact copied_inv inputs before inv client connection later there move
                current running acted

/-! Every run comes to an end. -/

def Connection.work (connection : Connection) : Nat :=
  3 * rank connection.stdin connection.processes

def work (state : State) : Nat :=
  (state.connections.map Connection.work).sum + state.queue.length + state.running.toNat

theorem acted_work (connections : List Connection) (client place : Nat)
    (before later : Connection) (move : Move) (there : connections[client]? = some before)
    (acted : before.act place move = some later) :
    ((connections.set client later).map Connection.work).sum + 3 ≤
      (connections.map Connection.work).sum := by
  have same := Indexed.sum_set Connection.work connections client before later there
  have lower := act_rank before later place move acted
  simp only [Connection.work] at same ⊢
  omega

theorem step_work (choice : Choice) (before after : State)
    (taken : step choice before = some after) : work after < work before := by
  cases choice with
  | connect client works =>
      cases works with
      | true =>
          simp only [step, if_true, Option.ite_none_right_eq_some] at taken
          obtain ⟨connection, later, there, changed, rfl⟩ := update_some _ _ _ _ taken.2
          simp only [Option.ite_none_right_eq_some] at changed
          have less :=
            acted_work before.connections client 0 connection later .start there changed.2
          simp only [work, List.length_append, List.length_cons, List.length_nil]
          omega
      | false =>
          simp only [step, Bool.false_eq_true, if_false] at taken
          obtain ⟨connection, later, there, changed, rfl⟩ := update_some _ _ _ _ taken
          simp only [Option.ite_none_right_eq_some] at changed
          have less := acted_work before.connections client 0 connection later .fail there changed.2
          simp only [work]
          omega
  | accept works =>
      simp only [step, Option.ite_none_right_eq_some] at taken
      obtain ⟨⟨running, _⟩, taken⟩ := taken
      split at taken
      · split at taken
        · cases taken
        · next client rest queue =>
            obtain ⟨connection, later, there, acted, rfl⟩ := update_some _ _ _ _ taken
            have less := acted_work before.connections client 1 connection later .start there acted
            simp only [work, queue, List.length_cons]
            omega
      · cases taken
        simp only [work, running, Bool.toNat_true, Bool.toNat_false]
        omega
  | client client move =>
      obtain ⟨connection, later, there, changed, rfl⟩ := update_some _ _ _ _ taken
      simp only [Option.ite_none_left_eq_some] at changed
      have less := acted_work before.connections client 0 connection later move there changed.2
      simp only [work]
      omega
  | server move =>
      simp only [step] at taken
      split at taken
      · cases taken
      · next client current =>
          split at taken
          · cases taken
          · next connection found =>
              simp only [Option.ite_none_right_eq_some] at taken
              obtain ⟨running, taken⟩ := taken
              obtain ⟨same, later, there, acted, rfl⟩ := update_some _ _ _ _ taken
              have less := acted_work before.connections client 1 same later move there acted
              have alive : (decide (move ≠ .fail)).toNat ≤ 1 := Bool.toNat_le _
              simp only [work, State.after]
              omega

/-! Nobody waits for ever. -/

structure Undisturbed (state : State) : Prop where
  running : state.running = true
  processes : ∀ connection ∈ state.connections, ∀ process ∈ connection.processes,
    process.status ≠ .failed

def Choice.works : Choice → Bool
  | .connect _ works => works
  | .accept works => works
  | .client _ move => move ≠ .fail
  | .server move => move ≠ .fail

theorem update_none (state : State) (client : Nat) (change : Connection → Option Connection)
    (stuck : state.update client change = none) (connection : Connection)
    (there : state.connections[client]? = some connection) : change connection = none :=
  Indexed.update_none _ _ _ (Option.map_eq_none_iff.mp stuck) connection there

theorem status_of (connection : Connection) (place : Nat) (status : Status)
    (found : connection.status place = some status) :
    ∃ process ∈ connection.processes, process.status = status := by
  rw [Connection.status, List.getElem?_map] at found
  obtain ⟨process, there, rfl⟩ := Option.map_eq_some_iff.mp found
  exact ⟨process, List.mem_of_getElem? there, rfl⟩

theorem start_possible (connection : Connection) (place : Nat)
    (idle : connection.status place = some .idle) : connection.act place .start ≠ none := by
  rw [Connection.act, ne_eq, Option.map_eq_none_iff]
  exact idle_moves _ _ _ _ .start idle (Or.inl rfl)

/-- The server leaves a connection when the client has sent all, unless the client has failed. -/
theorem copied_whole (inputs : List (List UInt8)) (state : State)
    (inv : Inv inputs state) (index : Nat) (input : List UInt8) (connection : Connection)
    (listed : inputs[index]? = some input) (there : state.connections[index]? = some connection)
    (accepted : index ∈ state.order) (left : state.current ≠ some index)
    (healthy : connection.status 0 ≠ some .failed) : state.received index = input := by
  have kept := inv.kept index input connection listed there
  have copied := inv.copied index connection there accepted left
  obtain ⟨first, second, shape⟩ := List.length_eq_two.mp kept.two
  have sound := kept.flows.sound
  simp only [Connection.status, shape, List.map_cons, List.getElem?_cons_succ,
    List.getElem?_cons_zero, Option.some.injEq, ne_eq] at copied healthy
  rw [shape] at sound
  have atEnd := (sound.2.1 copied).1
  have finished : first.status = .finished := by
    cases status : first.status with
    | finished => rfl
    | failed => exact absurd status healthy
    | idle => rw [status] at atEnd; cases atEnd
    | running => rw [status] at atEnd; cases atEnd
  rw [State.received, there]
  refine flows_finished _ _ _ kept.flows fun process member => ?_
  rw [shape] at member
  rcases List.mem_pair.mp member with rfl | rfl
  · exact finished
  · exact copied

section Stuck
variable (inputs : List (List UInt8)) (state : State) (inv : Inv inputs state)
  (calm : Undisturbed state) (stuck : ∀ choice, choice.works = true → step choice state = none)
include inv calm stuck

omit inv in
theorem client_begun (empty : state.queue = []) (index : Nat) (connection : Connection)
    (there : state.connections[index]? = some connection) : connection.early = false := by
  rw [Bool.eq_false_iff]
  intro early
  have connected := stuck (.connect index true) rfl
  simp only [step, if_true, calm.running, empty, List.length_nil,
    show 0 < BACKLOG by decide, and_self] at connected
  have none := update_none _ index _ connected connection there
  rw [if_pos early] at none
  exact start_possible connection 0 (of_decide_eq_true early) none

theorem server_settled : state.current = none := by
  cases current : state.current with
  | none => rfl
  | some client =>
      exfalso
      obtain ⟨front, order⟩ := inv.last client current
      have member : client ∈ state.queue ++ state.order :=
        List.mem_append_right _ (order ▸ List.mem_append_right _ List.mem_cons_self)
      have inside := inv.inside client member
      have inside' : client < state.connections.length := inv.length ▸ inside
      have there := List.getElem?_eq_getElem inside'
      generalize state.connections[client] = connection at there
      have kept := inv.kept client _ connection (List.getElem?_eq_getElem inside) there
      have begun := inv.begun client connection there member
      have copying := inv.copying client connection there current calm.running
      obtain ⟨first, second, shape⟩ := List.length_eq_two.mp kept.two
      have healthy := calm.processes connection (List.mem_of_getElem? there)
      simp only [Connection.early, Connection.status, shape, List.map_cons, List.getElem?_cons_zero,
        Option.some.injEq, decide_eq_false_iff_not, List.getElem?_cons_succ] at begun copying
      have alive : ∀ process ∈ connection.processes,
          process.status = .running ∨ process.status = .finished := by
        intro process member
        rw [shape] at member
        rcases List.mem_pair.mp member with rfl | rfl
        · cases status : process.status with
          | idle => exact absurd status begun
          | running => exact Or.inl rfl
          | finished => exact Or.inr rfl
          | failed => exact absurd status (healthy process (shape ▸ List.mem_cons_self))
        · exact Or.inl copying
      rcases flows_acts _ _ _ kept.flows alive with all |
        ⟨place, choice, left, _, harmless, moved⟩
      · have atEnd := all second (shape ▸ List.mem_cons_of_mem _ List.mem_cons_self)
        rw [copying] at atEnd
        cases atEnd
      · have small := move_place _ _ _ _ _ _ _ moved
        rw [kept.two] at small
        have early : connection.early = false := inv.begun client connection there member
        match place, small with
        | 0, _ =>
            have none := update_none _ client _ (stuck (.client client choice)
              (decide_eq_true harmless)) connection there
            rw [early, if_neg Bool.false_ne_true, Connection.act, moved] at none
            cases none
        | 1, _ =>
            have blocked := stuck (.server choice) (decide_eq_true harmless)
            simp only [step, current, there, calm.running, if_true] at blocked
            have none := update_none _ client _ blocked connection there
            rw [Connection.act, moved] at none
            cases none

theorem queue_settled : state.queue = [] := by
  have free := server_settled inputs state inv calm stuck
  cases queue : state.queue with
  | nil => rfl
  | cons client rest =>
      exfalso
      have once := inv.once
      rw [queue, List.cons_append, List.nodup_cons] at once
      have outside : client ∉ state.order := fun bad => once.1 (List.mem_append_right _ bad)
      have inside : client < state.connections.length := by
        rw [inv.length]
        exact inv.inside client (queue ▸ List.mem_cons_self)
      have there := List.getElem?_eq_getElem inside
      have accepted := stuck (.accept true) rfl
      simp only [step, calm.running, free, and_self, if_true, queue] at accepted
      exact start_possible _ 1 (inv.fresh client _ there outside).1
        (update_none _ client _ accepted _ there)

/-- Every connection has been accepted and copied to its end. -/
theorem all_copied (index : Nat) (input : List UInt8) (listed : inputs[index]? = some input) :
    index ∈ state.order ∧ state.received index = input := by
  have free := server_settled inputs state inv calm stuck
  have empty := queue_settled inputs state inv calm stuck
  have inside : index < state.connections.length := by
    rw [inv.length]
    exact (List.getElem?_eq_some_iff.mp listed).1
  have there := List.getElem?_eq_getElem inside
  generalize state.connections[index] = connection at there
  have kept := inv.kept index input connection listed there
  have healthy := calm.processes connection (List.mem_of_getElem? there)
  have begun := client_begun state calm stuck empty index connection there
  have accepted : index ∈ state.order := by
    by_contra outside
    obtain ⟨_, _, early | failed | queued⟩ := inv.fresh index connection there outside
    · rw [begun] at early
      cases early
    · obtain ⟨process, member, status⟩ := status_of connection 0 .failed failed
      exact healthy process member status
    · rw [empty] at queued
      cases queued
  refine ⟨accepted, copied_whole inputs state inv index input connection listed
    there accepted ?_ ?_⟩
  · rw [free]
    exact fun bad => by cases bad
  · intro failed
    obtain ⟨process, member, status⟩ := status_of connection 0 .failed failed
    exact healthy process member status

end Stuck

/-- The server's output is what it has got from the connections, one after the other in the
order in which they were accepted: of each a part of the client's input, and all of it once the
server has left it and the client has not failed. A run has only so many steps; where no call
fails, it does not stop before every client has been copied. -/
theorem streams_follow_each_other (room : Nat) (inputs : List (List UInt8)) :
    (∀ state, Transition.Reachable (· = start room inputs) step state →
      state.stdout = (state.order.map state.received).flatten ∧ state.order.Nodup ∧
        (∀ (index : Nat) input connection, inputs[index]? = some input →
          state.connections[index]? = some connection →
            state.received index <+: input ∧
              (index ∈ state.order → state.current ≠ some index →
                connection.status 0 ≠ some .failed →
                state.received index = input)) ∧
        (Undisturbed state → (∀ choice, choice.works = true → step choice state = none) →
          state.order.Perm (List.range inputs.length) ∧
            state.stdout = (state.order.map fun index => inputs.getD index []).flatten)) ∧
      ∀ choices state, Transition.replay step choices (start room inputs) = some state →
        choices.length ≤ work (start room inputs) := by
  constructor
  · intro state reached
    have inv : Inv inputs state := by
      refine Transition.reachable_invariant ?_ (step_inv inputs) reached
      rintro _ rfl
      exact start_inv room inputs
    have once : state.order.Nodup := (List.nodup_append.mp inv.once).2.1
    refine ⟨inv.stdout, once, fun index input connection listed there =>
      ⟨?_, fun accepted left healthy => ?_⟩,
        fun calm stuck => ⟨?_, ?_⟩⟩
    · rw [State.received, there]
      exact flows_prefix _ _ _ (inv.kept index input connection listed there).flows
    · exact copied_whole inputs state inv index input connection listed there accepted left healthy
    · rw [List.perm_ext_iff_of_nodup once List.nodup_range]
      intro index
      rw [List.mem_range]
      refine ⟨fun member => inv.inside index (List.mem_append_right _ member), fun small => ?_⟩
      exact (all_copied inputs state inv calm stuck index _ (List.getElem?_eq_getElem small)).1
    · rw [inv.stdout]
      refine congrArg List.flatten (List.map_congr_left fun index member => ?_)
      have listed := List.getElem?_eq_getElem (inv.inside index (List.mem_append_right _ member))
      rw [(all_copied inputs state inv calm stuck index _ listed).2,
          List.getD_eq_getElem?_getD, listed]
      rfl
  · intro choices state replayed
    exact Transition.choices_bounded step work step_work choices replayed

end Tlpi.StreamTransfer
