import Mathlib.Data.List.Basic
import Mathlib.Data.List.TakeWhile
import Tlpi.Indexed
import Tlpi.Relays
import Tlpi.Transition

/-!
sockets/is_echo_sv.c and is_echo_cl.c: any number of clients, each of two processes, and a
server that forks a child for each connection. A connection is a row of three processes:
the client's parent copies its standard input to the socket, the server's child copies the
socket back to itself, the client's child prints what comes back. Processes may be delayed
at any point, and any of them may fail.
-/

namespace Tlpi.EchoService

open Relays

def BUF_SIZE : Nat := 100

/-- BUF_SIZE in the server. -/
def SERVER_BUF_SIZE : Nat := 4096

def BACKLOG : Nat := 10

/-- How far the client has come before it is two processes. -/
inductive Stage where
  | inetConnect
  | fork
  | forked
  | exited
  deriving DecidableEq

structure Connection where
  stdin : List UInt8
  processes : List (Relay UInt8)
  printed : List UInt8
  stage : Stage
  deriving DecidableEq

/-- `queue` holds the connections that wait for `accept`, `handling` is the one of which the
server's parent has a descriptor, `served` says that it has a child. -/
structure State where
  connections : List Connection
  queue : List Nat
  handling : Option Nat
  served : Bool
  listening : Bool
  deriving DecidableEq

inductive Choice where
  | inetConnect (client : Nat) (works : Bool)
  | fork (client : Nat) (works : Bool)
  | accept (works : Bool)
  | forkChild (works : Bool)
  | close
  | act (client place : Nat) (move : Move)
  deriving DecidableEq

/-- `printf("%.*s")`, which stops at a null byte. -/
def printf (chunk : List UInt8) : List UInt8 := chunk.takeWhile (· ≠ 0)

/-- One move in the row of a connection. -/
def Connection.act (connection : Connection) (place : Nat) (move : Move) : Option Connection :=
  (Relays.move connection.stdin true connection.processes place move).map fun left =>
    { connection with
      stdin := left.1
      processes := left.2
      printed := connection.printed ++ printf (written connection.processes place move) }

def Connection.status (connection : Connection) (place : Nat) : Option Status :=
  (connection.processes.map Relay.status)[place]?

/-- The two processes of a client start together; if `fork` fails, there is one and it exits. -/
def Connection.fork (connection : Connection) (works : Bool) : Option Connection :=
  let move : Move := if works then .start else .fail
  ((connection.act 0 move).bind (·.act 2 move)).map fun both =>
    { both with stage := if works then .forked else .exited }

/-- A process sees end-of-file when the other side has called `shutdown`, or when nobody has
the other side open any more. -/
def State.hungUp (state : State) (client : Nat) (connection : Connection) (place : Nat) : Bool :=
  match place with
  | 1 => connection.status 0 = some .finished || (connection.status 2).any Status.ended
  | 2 => state.handling ≠ some client
  | _ => true

def State.allows (state : State) (client : Nat) (connection : Connection) (place : Nat)
    (move : Move) : Bool :=
  (connection.stage = .forked || place = 1 && connection.stage ≠ .inetConnect) &&
    match move with
    | .start => false
    | .eof => state.hungUp client connection place
    | _ => true

def State.update (state : State) (client : Nat) (change : Connection → Option Connection) :
    Option State :=
  (Indexed.update state.connections client change).map fun connections => { state with connections }

/-- The connection gets a child, or is given up when `fork` fails; one that has been reset
meanwhile is left as it is. -/
def serve (works : Bool) (connection : Connection) : Connection :=
  (connection.act 1 (if works then .start else .fail)).getD connection

def step : Choice → State → Option State
  | .inetConnect client works, state =>
      if works then
        if state.listening = true ∧ state.queue.length < BACKLOG then
          State.update { state with queue := state.queue ++ [client] } client fun connection =>
            if connection.stage = .inetConnect then some { connection with stage := .fork }
            else none
        else none
      else
        state.update client fun connection =>
          if connection.stage = .inetConnect then some { connection with stage := .exited }
          else none
  | .fork client works, state =>
      state.update client fun connection =>
        if connection.stage = .fork then connection.fork works else none
  | .accept works, state =>
      if state.listening = true ∧ state.handling = none then
        if works then
          match state.queue with
          | [] => none
          | client :: rest =>
              some { state with queue := rest, handling := some client, served := false }
        else some { state with listening := false }
      else none
  | .forkChild works, state =>
      match state.handling, state.served with
      | some client, false =>
          State.update
            { state with handling := if works then some client else none, served := true } client
            fun connection => some (serve works connection)
      | _, _ => none
  | .close, state =>
      match state.handling, state.served with
      | some _, true => some { state with handling := none }
      | _, _ => none
  | .act client place move, state =>
      state.update client fun connection =>
        if state.allows client connection place move then connection.act place move else none

/-- `room` and one more is what a socket holds in each direction. -/
def client (room : Nat) (stdin : List UInt8) : Connection :=
  { stdin := stdin
    processes := [⟨BUF_SIZE, some (room + 1), [], [], .idle⟩,
      ⟨SERVER_BUF_SIZE, some (room + 1), [], [], .idle⟩, ⟨BUF_SIZE, none, [], [], .idle⟩]
    printed := []
    stage := .inetConnect }

def start (room : Nat) (inputs : List (List UInt8)) : State :=
  ⟨inputs.map (client room), [], none, false, true⟩

/-! One connection. -/

structure Kept (input : List UInt8) (connection : Connection) : Prop where
  flows : Flows input connection.stdin connection.processes
  three : connection.processes.length = 3
  printed : 0 ∉ input → connection.printed = sink connection.stdin connection.processes

theorem kept_stage (input : List UInt8) (connection : Connection) (stage : Stage)
    (kept : Kept input connection) : Kept input { connection with stage } :=
  ⟨kept.flows, kept.three, kept.printed⟩

theorem printf_whole (chunk : List UInt8) (plain : 0 ∉ chunk) : printf chunk = chunk := by
  unfold printf
  rw [List.takeWhile_eq_self_iff]
  intro byte member
  rw [decide_eq_true_eq]
  rintro rfl
  exact plain member

theorem act_kept (input : List UInt8) (before after : Connection) (place : Nat) (move : Move)
    (kept : Kept input before) (taken : before.act place move = some after) :
    Kept input after := by
  obtain ⟨⟨left, processes⟩, moved, rfl⟩ := Option.map_eq_some_iff.mp taken
  have flows := move_flows _ _ _ _ _ _ _ kept.flows moved
  have out := move_sink _ _ _ _ _ _ _ moved
  refine ⟨flows, (move_length _ _ _ _ _ _ _ moved).trans kept.three, fun plain => ?_⟩
  have part := flows_prefix _ _ _ flows
  have text : 0 ∉ written before.processes place move := by
    intro bad
    refine plain (part.subset ?_)
    rw [out]
    exact List.mem_append_right _ bad
  dsimp only
  rw [kept.printed plain, printf_whole _ text, out]

theorem act_stage (before after : Connection) (place : Nat) (move : Move)
    (taken : before.act place move = some after) : after.stage = before.stage := by
  obtain ⟨_, _, rfl⟩ := Option.map_eq_some_iff.mp taken
  rfl

theorem act_idle (before after : Connection) (place : Nat) (move : Move)
    (taken : before.act place move = some after) (other : Nat)
    (still : after.status other = some .idle) :
    before.status other = some .idle ∧ other ≠ place := by
  obtain ⟨⟨left, processes⟩, moved, rfl⟩ := Option.map_eq_some_iff.mp taken
  exact move_idle _ _ _ _ _ _ _ moved other still

theorem act_others (before after : Connection) (place : Nat) (move : Move)
    (taken : before.act place move = some after) (other : Nat) (different : other ≠ place) :
    after.status other = before.status other := by
  obtain ⟨⟨left, processes⟩, moved, rfl⟩ := Option.map_eq_some_iff.mp taken
  exact move_others _ _ _ _ _ _ _ moved other different

theorem fork_kept (input : List UInt8) (before after : Connection) (works : Bool)
    (kept : Kept input before) (taken : before.fork works = some after) : Kept input after := by
  obtain ⟨both, forked, rfl⟩ := Option.map_eq_some_iff.mp taken
  obtain ⟨middle, first, second⟩ := Option.bind_eq_some_iff.mp forked
  have between := act_kept input _ _ _ _ kept first
  exact kept_stage input both _ (act_kept input _ _ _ _ between second)

theorem fork_stage (before after : Connection) (works : Bool)
    (taken : before.fork works = some after) :
    after.stage = if works then .forked else .exited := by
  obtain ⟨_, _, rfl⟩ := Option.map_eq_some_iff.mp taken
  rfl

theorem fork_idle (before after : Connection) (works : Bool)
    (taken : before.fork works = some after) (other : Nat)
    (still : after.status other = some .idle) :
    before.status other = some .idle ∧ other ≠ 0 ∧ other ≠ 2 := by
  obtain ⟨both, forked, rfl⟩ := Option.map_eq_some_iff.mp taken
  obtain ⟨middle, first, second⟩ := Option.bind_eq_some_iff.mp forked
  obtain ⟨between, apart⟩ := act_idle _ _ _ _ second other still
  obtain ⟨earlier, different⟩ := act_idle _ _ _ _ first other between
  exact ⟨earlier, different, apart⟩

theorem serve_kept (input : List UInt8) (connection : Connection) (works : Bool)
    (kept : Kept input connection) : Kept input (serve works connection) := by
  unfold serve
  cases taken : connection.act 1 (if works then .start else .fail) with
  | none => exact kept
  | some after => exact act_kept input _ _ _ _ kept taken

theorem serve_stage (connection : Connection) (works : Bool) :
    (serve works connection).stage = connection.stage := by
  unfold serve
  cases taken : connection.act 1 (if works then .start else .fail) with
  | none => rfl
  | some after => exact act_stage _ _ _ _ taken

theorem serve_idle (connection : Connection) (works : Bool) (other : Nat)
    (still : (serve works connection).status other = some .idle) :
    connection.status other = some .idle ∧ other ≠ 1 := by
  unfold serve at still
  cases taken : connection.act 1 (if works then .start else .fail) with
  | some after =>
      rw [taken] at still
      exact act_idle _ _ _ _ taken other still
  | none =>
      rw [taken] at still
      refine ⟨still, ?_⟩
      rintro rfl
      refine idle_moves connection.stdin true connection.processes 1 _ still ?_
        (Option.map_eq_none_iff.mp taken)
      cases works with
      | true => exact Or.inl rfl
      | false => exact Or.inr rfl

theorem serve_others (connection : Connection) (works : Bool) (other : Nat)
    (different : other ≠ 1) :
    (serve works connection).status other = connection.status other := by
  unfold serve
  cases taken : connection.act 1 (if works then .start else .fail) with
  | none => rfl
  | some after => exact act_others _ _ _ _ taken other different

/-! All connections. -/

/-- The connections that the server has got. -/
def State.has (state : State) (client : Nat) : Prop :=
  client ∈ state.queue ∨ state.handling = some client

def State.waiting (state : State) (client : Nat) : Prop :=
  client ∈ state.queue ∨ state.handling = some client ∧ state.served = false

/-- Who has not been started yet will be, unless the client has given up. -/
structure Waits (waiting : Prop) (connection : Connection) : Prop where
  idle : ∀ place < 3, connection.status place = some .idle →
    connection.stage = .inetConnect ∨ connection.stage = .exited ∨
      (place = 1 ∧ waiting ∨ place ≠ 1 ∧ connection.stage = .fork)
  early : connection.stage = .inetConnect ∨ connection.stage = .fork →
    connection.status 0 = some .idle ∧ connection.status 2 = some .idle

structure Inv (inputs : List (List UInt8)) (state : State) : Prop where
  length : state.connections.length = inputs.length
  known : ∀ client, state.has client → client < inputs.length
  kept : ∀ (index : Nat) input connection, inputs[index]? = some input →
    state.connections[index]? = some connection →
    Kept input connection
  waits : ∀ (index : Nat) connection, state.connections[index]? = some connection →
    Waits (state.waiting index) connection

theorem update_some (state after : State) (client : Nat) (change : Connection → Option Connection)
    (taken : state.update client change = some after) :
    ∃ before later, state.connections[client]? = some before ∧ change before = some later ∧
      after = { state with connections := state.connections.set client later } := by
  obtain ⟨connections, updated, rfl⟩ := Option.map_eq_some_iff.mp taken
  obtain ⟨before, later, there, changed, rfl⟩ := Indexed.update_some _ _ _ _ updated
  exact ⟨before, later, there, changed, rfl⟩

theorem waits_longer (waiting still : Prop) (connection : Connection) (longer : waiting → still)
    (waits : Waits waiting connection) : Waits still connection := by
  refine ⟨fun place small idle => ?_, waits.early⟩
  refine (waits.idle place small idle).imp_right (Or.imp_right ?_)
  exact Or.imp_left fun here => ⟨here.1, longer here.2⟩

/-- A change of one connection, with what it means for the ones that wait. -/
theorem updated_inv (inputs : List (List UInt8)) (state after : State) (inv : Inv inputs state)
    (client : Nat) (before later : Connection) (there : state.connections[client]? = some before)
    (same : after.connections = state.connections.set client later)
    (kept : ∀ input, Kept input before → Kept input later)
    (waits : Waits (state.waiting client) before → Waits (after.waiting client) later)
    (others : ∀ other, other ≠ client → state.waiting other → after.waiting other)
    (known : ∀ other, after.has other → other = client ∨ state.has other) :
    Inv inputs after := by
  refine ⟨?_, ?_, ?_, ?_⟩
  · rw [same, List.length_set]
    exact inv.length
  · intro other here
    rcases known other here with rfl | earlier
    · rw [← inv.length]
      exact (List.getElem?_eq_some_iff.mp there).1
    · exact inv.known other earlier
  · intro index input connection listed found
    rw [same] at found
    rcases Indexed.set_cases _ _ _ _ _ found with ⟨rfl, rfl⟩ | ⟨_, old⟩
    · exact kept input (inv.kept index input before listed there)
    · exact inv.kept index input connection listed old
  · intro index connection found
    rw [same] at found
    rcases Indexed.set_cases _ _ _ _ _ found with ⟨rfl, rfl⟩ | ⟨different, old⟩
    · exact waits (inv.waits index before there)
    · exact waits_longer _ _ connection (others index different) (inv.waits index connection old)

/-- Steps of the server's parent alone. -/
theorem server_inv (inputs : List (List UInt8)) (state after : State) (inv : Inv inputs state)
    (same : after.connections = state.connections)
    (others : ∀ other, state.waiting other → after.waiting other)
    (known : ∀ other, after.has other → state.has other) : Inv inputs after := by
  refine ⟨?_, fun other here => inv.known other (known other here), ?_, ?_⟩
  · rw [same]
    exact inv.length
  · rw [same]
    exact inv.kept
  · intro index connection found
    rw [same] at found
    exact waits_longer _ _ connection (others index) (inv.waits index connection found)

theorem connect_inv (inputs : List (List UInt8)) (client : Nat) (works : Bool)
    (before after : State) (inv : Inv inputs before)
    (taken : step (.inetConnect client works) before = some after) : Inv inputs after := by
  cases works with
  | true =>
      simp only [step, if_true, Option.ite_none_right_eq_some] at taken
      obtain ⟨connection, later, there, changed, rfl⟩ := update_some _ _ _ _ taken.2
      simp only [Option.ite_none_right_eq_some, Option.some.injEq] at changed
      obtain ⟨stage, rfl⟩ := changed
      refine updated_inv inputs before _ inv client connection _ there rfl
        (fun input kept => kept_stage input connection _ kept) ?_ ?_ ?_
      · intro waits
        refine ⟨fun place _ _ => ?_, fun _ => waits.early (Or.inl stage)⟩
        by_cases middle : place = 1
        · exact Or.inr
            (Or.inr (Or.inl ⟨middle, Or.inl (List.mem_append_right _ List.mem_cons_self)⟩))
        · exact Or.inr (Or.inr (Or.inr ⟨middle, rfl⟩))
      · exact fun other _ waiting => waiting.imp_left fun queued => List.mem_append_left _ queued
      · rintro other (queued | busy)
        · rcases List.mem_append.mp queued with old | new
          · exact Or.inr (Or.inl old)
          · exact Or.inl (List.mem_singleton.mp new)
        · exact Or.inr (Or.inr busy)
  | false =>
      simp only [step, Bool.false_eq_true, if_false] at taken
      obtain ⟨connection, later, there, changed, rfl⟩ := update_some _ _ _ _ taken
      simp only [Option.ite_none_right_eq_some, Option.some.injEq] at changed
      obtain ⟨_, rfl⟩ := changed
      refine updated_inv inputs before _ inv client connection _ there rfl
        (fun input kept => kept_stage input connection _ kept) ?_ (fun _ _ waiting => waiting)
        (fun _ here => Or.inr here)
      exact fun _ => ⟨fun _ _ _ => Or.inr (Or.inl rfl),
        fun bad => by rcases bad with bad | bad <;> cases bad⟩

theorem fork_inv (inputs : List (List UInt8)) (client : Nat) (works : Bool) (before after : State)
    (inv : Inv inputs before) (taken : step (.fork client works) before = some after) :
    Inv inputs after := by
  obtain ⟨connection, later, there, changed, rfl⟩ := update_some _ _ _ _ taken
  simp only [Option.ite_none_right_eq_some] at changed
  obtain ⟨stage, forked⟩ := changed
  refine updated_inv inputs before _ inv client connection later there rfl
    (fun input kept => fork_kept input connection later works kept forked) ?_
      (fun _ _ waiting => waiting)
    (fun _ here => Or.inr here)
  intro waits
  have parted := fork_stage connection later works forked
  refine ⟨fun place small idle => ?_, fun bad => absurd bad ?_⟩
  swap
  · rw [parted]
    cases works <;> decide
  obtain ⟨earlier, first, last⟩ := fork_idle connection later works forked place idle
  have middle : place = 1 := by omega
  rcases waits.idle place small earlier with early | given | ⟨_, waiting⟩ | ⟨other, _⟩
  · rw [stage] at early
    cases early
  · rw [stage] at given
    cases given
  · exact Or.inr (Or.inr (Or.inl ⟨middle, waiting⟩))
  · exact absurd middle other

theorem act_inv (inputs : List (List UInt8)) (client place : Nat) (move : Move)
    (before after : State) (inv : Inv inputs before)
    (taken : step (.act client place move) before = some after) : Inv inputs after := by
  obtain ⟨connection, later, there, changed, rfl⟩ := update_some _ _ _ _ taken
  simp only [Option.ite_none_right_eq_some] at changed
  obtain ⟨allowed, acted⟩ := changed
  refine updated_inv inputs before _ inv client connection later there rfl
    (fun input kept => act_kept input connection later place move kept acted) ?_
      (fun _ _ waiting => waiting)
    (fun _ here => Or.inr here)
  intro waits
  have same := act_stage connection later place move acted
  refine ⟨fun other small idle => ?_, fun early => ?_⟩
  · rw [same]
    exact waits.idle other small (act_idle connection later place move acted other idle).1
  · -- before the client is two processes, only the server's child moves
    rw [same] at early
    have middle : place = 1 := by
      rcases early with stage | stage <;> simp_all [State.allows]
    rw [act_others connection later place move acted 0 (by omega),
      act_others connection later place move acted 2
      (by omega)]
    exact waits.early early

theorem accept_inv (inputs : List (List UInt8)) (works : Bool) (before after : State)
    (inv : Inv inputs before) (taken : step (.accept works) before = some after) :
    Inv inputs after := by
  simp only [step, Option.ite_none_right_eq_some] at taken
  obtain ⟨⟨_, free⟩, taken⟩ := taken
  split at taken
  · split at taken
    · cases taken
    · next client rest queue =>
        cases taken
        refine server_inv inputs before _ inv rfl ?_ ?_
        · rintro other (queued | ⟨busy, _⟩)
          · rw [queue] at queued
            rcases List.mem_cons.mp queued with rfl | later
            · exact Or.inr ⟨rfl, rfl⟩
            · exact Or.inl later
          · rw [free] at busy
            cases busy
        · rintro other (queued | busy)
          · exact Or.inl (queue ▸ List.mem_cons_of_mem _ queued)
          · exact Or.inl (queue ▸ Option.some.inj busy ▸ List.mem_cons_self)
  · cases taken
    exact server_inv inputs before _ inv rfl (fun _ waiting => waiting) fun _ here => here

theorem fork_child_inv (inputs : List (List UInt8)) (works : Bool) (before after : State)
    (inv : Inv inputs before) (taken : step (.forkChild works) before = some after) :
    Inv inputs after := by
  simp only [step] at taken
  split at taken
  · next client handling _ =>
      obtain ⟨connection, later, there, changed, rfl⟩ := update_some _ _ _ _ taken
      cases changed
      refine updated_inv inputs before _ inv client connection _ there rfl
        (fun input kept => serve_kept input connection works kept) ?_ ?_ ?_
      · intro waits
        refine ⟨fun place small idle => ?_, fun early => ?_⟩
        · obtain ⟨earlier, apart⟩ := serve_idle connection works place idle
          rw [serve_stage]
          refine (waits.idle place small earlier).imp_right (Or.imp_right ?_)
          exact Or.imp_left fun here => absurd here.1 apart
        · rw [serve_stage] at early
          rw [serve_others connection works 0 (by decide),
              serve_others connection works 2 (by decide)]
          exact waits.early early
      · rintro other different (queued | ⟨busy, _⟩)
        · exact Or.inl queued
        · rw [handling] at busy
          exact absurd (Option.some.inj busy).symm different
      · rintro other (queued | busy)
        · exact Or.inr (Or.inl queued)
        · cases works with
          | true => exact Or.inl (Option.some.inj busy).symm
          | false => cases busy
  · cases taken

theorem close_inv (inputs : List (List UInt8)) (before after : State)
    (inv : Inv inputs before) (taken : step .close before = some after) : Inv inputs after := by
  simp only [step] at taken
  split at taken
  · next served =>
      cases taken
      refine server_inv inputs before _ inv rfl ?_ ?_
      · rintro other (queued | ⟨_, unserved⟩)
        · exact Or.inl queued
        · rw [served] at unserved
          cases unserved
      · rintro other (queued | busy)
        · exact Or.inl queued
        · cases busy
  · cases taken

theorem step_inv (inputs : List (List UInt8)) (choice : Choice) (before after : State)
    (inv : Inv inputs before) (taken : step choice before = some after) : Inv inputs after := by
  cases choice with
  | inetConnect client works => exact connect_inv inputs client works before after inv taken
  | fork client works => exact fork_inv inputs client works before after inv taken
  | accept works => exact accept_inv inputs works before after inv taken
  | forkChild works => exact fork_child_inv inputs works before after inv taken
  | close => exact close_inv inputs before after inv taken
  | act client place move => exact act_inv inputs client place move before after inv taken

theorem client_kept (room : Nat) (input : List UInt8) : Kept input (client room input) := by
  refine ⟨⟨?_, ?_, ?_⟩, rfl, fun _ => rfl⟩
  · simp [client, whole]
  · simp [client, Sound]
  · simp [client, Open, BUF_SIZE, SERVER_BUF_SIZE]

theorem start_inv (room : Nat) (inputs : List (List UInt8)) : Inv inputs (start room inputs) := by
  refine ⟨List.length_map _, ?_, ?_, ?_⟩
  · rintro index (queued | busy)
    · cases queued
    · cases busy
  · intro index input connection listed found
    rw [start, List.getElem?_map, listed] at found
    cases found
    exact client_kept room input
  · intro index connection found
    rw [start, List.getElem?_map] at found
    obtain ⟨input, _, rfl⟩ := Option.map_eq_some_iff.mp found
    exact ⟨fun _ _ _ => Or.inl rfl, fun _ => ⟨rfl, rfl⟩⟩

/-! Every run comes to an end. -/

def Stage.weight : Stage → Nat
  | .inetConnect => 5
  | .fork => 1
  | .forked => 0
  | .exited => 0

def Connection.work (connection : Connection) : Nat :=
  rank connection.stdin connection.processes + connection.stage.weight

def State.busy (state : State) : Nat :=
  match state.handling, state.served with
  | none, _ => 0
  | some _, false => 2
  | some _, true => 1

def work (state : State) : Nat :=
  (state.connections.map Connection.work).sum + 3 * state.queue.length + state.busy +
    state.listening.toNat

theorem act_work (before after : Connection) (place : Nat) (move : Move)
    (taken : before.act place move = some after) : after.work < before.work := by
  obtain ⟨⟨left, processes⟩, moved, rfl⟩ := Option.map_eq_some_iff.mp taken
  exact Nat.add_lt_add_right (move_rank _ _ _ _ _ _ _ moved) _

theorem fork_work (before after : Connection) (works : Bool)
    (taken : before.fork works = some after) : after.work < before.work := by
  obtain ⟨both, forked, rfl⟩ := Option.map_eq_some_iff.mp taken
  obtain ⟨middle, first, second⟩ := Option.bind_eq_some_iff.mp forked
  have lower := (act_work _ _ _ _ second).trans (act_work _ _ _ _ first)
  have ended : (if works then Stage.forked else Stage.exited).weight = 0 := by cases works <;> rfl
  simp only [Connection.work, ended] at lower ⊢
  omega

theorem serve_work (connection : Connection) (works : Bool) :
    (serve works connection).work ≤ connection.work := by
  unfold serve
  cases taken : connection.act 1 (if works then .start else .fail) with
  | none => exact Nat.le_refl _
  | some after => exact Nat.le_of_lt (act_work _ _ _ _ taken)

/-- What a step of one connection takes away. -/
theorem updated_work (connections : List Connection) (client : Nat) (before later : Connection)
    (there : connections[client]? = some before) :
    ((connections.set client later).map Connection.work).sum + before.work =
      (connections.map Connection.work).sum + later.work :=
  Indexed.sum_set _ _ _ _ _ there

theorem connect_work (client : Nat) (works : Bool) (before after : State)
    (taken : step (.inetConnect client works) before = some after) : work after < work before := by
  cases works with
  | true =>
      simp only [step, if_true, Option.ite_none_right_eq_some] at taken
      obtain ⟨connection, later, there, changed, rfl⟩ := update_some _ _ _ _ taken.2
      simp only [Option.ite_none_right_eq_some, Option.some.injEq] at changed
      obtain ⟨stage, rfl⟩ := changed
      have less := updated_work _ client connection { connection with stage := .fork } there
      simp only [Connection.work, stage, Stage.weight] at less
      simp only [work, State.busy, List.length_append, List.length_cons, List.length_nil]
      omega
  | false =>
      simp only [step, Bool.false_eq_true, if_false] at taken
      obtain ⟨connection, later, there, changed, rfl⟩ := update_some _ _ _ _ taken
      simp only [Option.ite_none_right_eq_some, Option.some.injEq] at changed
      obtain ⟨stage, rfl⟩ := changed
      have less := updated_work _ client connection { connection with stage := .exited } there
      simp only [Connection.work, stage, Stage.weight] at less
      simp only [work, State.busy]
      omega

theorem step_work (choice : Choice) (before after : State)
    (taken : step choice before = some after) : work after < work before := by
  cases choice with
  | inetConnect client works => exact connect_work client works before after taken
  | fork client works =>
      obtain ⟨connection, later, there, changed, rfl⟩ := update_some _ _ _ _ taken
      simp only [Option.ite_none_right_eq_some] at changed
      have less := updated_work _ client connection later there
      have lower := fork_work connection later works changed.2
      simp only [work, State.busy]
      omega
  | accept works =>
      simp only [step, Option.ite_none_right_eq_some] at taken
      obtain ⟨⟨listening, free⟩, taken⟩ := taken
      split at taken
      · split at taken
        · cases taken
        · next client rest queue =>
            cases taken
            simp only [work, State.busy, free, queue, List.length_cons]
            omega
      · cases taken
        simp only [work, State.busy, listening, Bool.toNat_true, Bool.toNat_false]
        omega
  | forkChild works =>
      simp only [step] at taken
      split at taken
      · next client handling unserved =>
          obtain ⟨connection, later, there, changed, rfl⟩ := update_some _ _ _ _ taken
          cases changed
          have less :=
            updated_work before.connections client connection (serve works connection) there
          have lower := serve_work connection works
          have quiet : before.busy = 2 := by simp only [State.busy, handling, unserved]
          simp only [work, quiet]
          cases works <;> simp only [State.busy, if_true, Bool.false_eq_true, if_false] <;> omega
      · cases taken
  | close =>
      simp only [step] at taken
      split at taken
      · next handling served =>
          cases taken
          simp only [work, State.busy, handling, served]
          omega
      · cases taken
  | act client place move =>
      obtain ⟨connection, later, there, changed, rfl⟩ := update_some _ _ _ _ taken
      simp only [Option.ite_none_right_eq_some] at changed
      have less := updated_work _ client connection later there
      have lower := act_work connection later place move changed.2
      simp only [work, State.busy]
      omega

/-! Nobody waits for ever. -/

/-- Neither the server nor a client has given up, and no process has failed. -/
structure Undisturbed (state : State) : Prop where
  listening : state.listening = true
  clients : ∀ connection ∈ state.connections, connection.stage ≠ .exited
  processes : ∀ connection ∈ state.connections, ∀ process ∈ connection.processes,
    process.status ≠ .failed

/-- A call that does not fail. -/
def Choice.works : Choice → Bool
  | .inetConnect _ works => works
  | .fork _ works => works
  | .accept works => works
  | .forkChild works => works
  | .close => true
  | .act _ _ move => move ≠ .fail

theorem update_none (state : State) (client : Nat) (change : Connection → Option Connection)
    (stuck : state.update client change = none) (connection : Connection)
    (there : state.connections[client]? = some connection) : change connection = none :=
  Indexed.update_none _ _ _ (Option.map_eq_none_iff.mp stuck) connection there

theorem fork_possible (connection : Connection) (first : connection.status 0 = some .idle)
    (last : connection.status 2 = some .idle) : connection.fork true ≠ none := by
  intro none
  rw [Connection.fork, Option.map_eq_none_iff, Option.bind_eq_none_iff] at none
  cases started : connection.act 0 .start with
  | none =>
      rw [Connection.act, Option.map_eq_none_iff] at started
      exact idle_moves _ _ _ 0 .start first (Or.inl rfl) started
  | some middle =>
      have second := none middle started
      rw [if_pos rfl, Connection.act, Option.map_eq_none_iff] at second
      refine idle_moves _ _ _ 2 .start ?_ (Or.inl rfl) second
      exact (act_others _ _ _ _ started 2 (by decide)).trans last

theorem moves_allowed (state : State) (index : Nat) (connection : Connection)
    (stage : connection.stage = .forked) (free : state.handling = none)
    (healthy : ∀ process ∈ connection.processes, process.status ≠ .failed) (place : Nat)
    (choice : Move) (left : List UInt8 × List (Relay UInt8)) (started : choice ≠ .start)
    (moved : move connection.stdin true connection.processes place choice = some left) :
    state.allows index connection place choice = true := by
  have heard : choice = .eof → state.hungUp index connection place = true := by
    rintro rfl
    match place with
    | 0 => rfl
    | 1 =>
        obtain ⟨status, found, hungUp⟩ := eof_after _ _ _ 0 _ moved
        have finished : status = .finished := by
          rw [List.getElem?_map] at found
          obtain ⟨process, there, rfl⟩ := Option.map_eq_some_iff.mp found
          cases kind : process.status with
          | finished => rfl
          | failed => exact absurd kind (healthy process (List.mem_of_getElem? there))
          | idle => rw [kind] at hungUp; cases hungUp
          | running => rw [kind] at hungUp; cases hungUp
        rw [finished] at found
        simp [State.hungUp, Connection.status, found]
    | 2 => simp [State.hungUp, free]
    | _ + 3 => rfl
  cases choice with
  | start => exact absurd rfl started
  | eof => simp [State.allows, stage, heard rfl]
  | read => simp [State.allows, stage]
  | write => simp [State.allows, stage]
  | fail => simp [State.allows, stage]

section Stuck
variable (inputs : List (List UInt8)) (state : State) (inv : Inv inputs state)
  (calm : Undisturbed state) (stuck : ∀ choice, choice.works = true → step choice state = none)
include inv calm stuck

theorem server_settled : state.handling = none ∧ state.queue = [] := by
  have free : state.handling = none := by
    cases handling : state.handling with
    | none => rfl
    | some client =>
        exfalso
        have inside : client < state.connections.length := by
          rw [inv.length]
          exact inv.known client (Or.inr handling)
        cases served : state.served with
        | true =>
            have closed := stuck .close rfl
            simp only [step, handling, served] at closed
            cases closed
        | false =>
            have forked := stuck (.forkChild true) rfl
            simp only [step, handling, served] at forked
            cases update_none _ client _ forked _ (List.getElem?_eq_getElem inside)
  refine ⟨free, ?_⟩
  cases queue : state.queue with
  | nil => rfl
  | cons client rest =>
      have accepted := stuck (.accept true) rfl
      simp [step, calm.listening, free, queue] at accepted

theorem client_settled (index : Nat) (connection : Connection)
    (there : state.connections[index]? = some connection) : connection.stage = .forked := by
  obtain ⟨free, empty⟩ := server_settled inputs state inv calm stuck
  cases stage : connection.stage with
  | inetConnect =>
      have connected := stuck (.inetConnect index true) rfl
      simp only [step, if_true, calm.listening, empty, List.length_nil,
        show 0 < BACKLOG by decide, and_self] at connected
      have none := update_none _ index _ connected connection there
      rw [if_pos stage] at none
      cases none
  | fork =>
      have forked := update_none _ index _ (stuck (.fork index true) rfl) connection there
      rw [if_pos stage] at forked
      obtain ⟨first, last⟩ := (inv.waits index connection there).early (Or.inr stage)
      exact absurd forked (fork_possible connection first last)
  | forked => rfl
  | exited => exact absurd stage (calm.clients connection (List.mem_of_getElem? there))

theorem connection_settled (index : Nat) (input : List UInt8) (connection : Connection)
    (listed : inputs[index]? = some input) (there : state.connections[index]? = some connection) :
    ∀ process ∈ connection.processes, process.status = .finished := by
  obtain ⟨free, empty⟩ := server_settled inputs state inv calm stuck
  have stage := client_settled inputs state inv calm stuck index connection there
  have kept := inv.kept index input connection listed there
  have healthy := calm.processes connection (List.mem_of_getElem? there)
  have alive : ∀ process ∈ connection.processes,
      process.status = .running ∨ process.status = .finished := by
    intro process member
    obtain ⟨place, found⟩ := List.getElem?_of_mem member
    have small : place < 3 := kept.three ▸ (List.getElem?_eq_some_iff.mp found).1
    cases status : process.status with
    | running => exact Or.inl rfl
    | finished => exact Or.inr rfl
    | failed => exact absurd status (healthy process member)
    | idle =>
        have idle : connection.status place = some .idle := by
          rw [Connection.status, List.getElem?_map, found, Option.map_some, status]
        rcases (inv.waits index connection there).idle place small idle with bad | bad |
          ⟨_, bad | bad⟩ | ⟨_, bad⟩
        · rw [stage] at bad
          cases bad
        · rw [stage] at bad
          cases bad
        · rw [empty] at bad
          cases bad
        · rw [free] at bad
          cases bad.1
        · rw [stage] at bad
          cases bad
  rcases flows_acts _ _ _ kept.flows alive with all |
    ⟨place, choice, left, started, harmless, moved⟩
  · exact all
  · exfalso
    have none := update_none _ index _ (stuck (.act index place choice) (decide_eq_true harmless))
      connection there
    rw [if_pos (moves_allowed state index connection stage free healthy place choice
        left started moved),
      Connection.act, moved] at none
    cases none

end Stuck

/-- Any number of clients. Each one prints nothing but what it has been given, and in order;
a run has only so many steps; and where no call fails, nothing stops before each client has
got back all of its input and its processes and the server's child have ended. -/
theorem clients_are_echoed (room : Nat) (inputs : List (List UInt8)) :
    (∀ state, Transition.Reachable (· = start room inputs) step state →
      ∀ (index : Nat) input connection, inputs[index]? = some input →
      state.connections[index]? = some connection →
        sink connection.stdin connection.processes <+: input ∧
          (0 ∉ input → connection.printed <+: input) ∧
          (Undisturbed state → (∀ choice, choice.works = true → step choice state = none) →
            (∀ process ∈ connection.processes, process.status = .finished) ∧
              sink connection.stdin connection.processes = input ∧
              (0 ∉ input → connection.printed = input))) ∧
      ∀ choices state, Transition.replay step choices (start room inputs) = some state →
        choices.length ≤ work (start room inputs) := by
  constructor
  · intro state reached index input connection listed there
    have inv : Inv inputs state := by
      refine Transition.reachable_invariant ?_ (step_inv inputs) reached
      rintro _ rfl
      exact start_inv room inputs
    have kept := inv.kept index input connection listed there
    have part := flows_prefix _ _ _ kept.flows
    refine ⟨part, fun plain => kept.printed plain ▸ part, fun calm stuck => ?_⟩
    have finished :=
      connection_settled inputs state inv calm stuck index input connection listed there
    have all := flows_finished _ _ _ kept.flows finished
    exact ⟨finished, all, fun plain => (kept.printed plain).trans all⟩
  · intro choices state replayed
    exact Transition.choices_bounded step work step_work choices replayed

end Tlpi.EchoService
