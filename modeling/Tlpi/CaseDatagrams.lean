import Mathlib.Algebra.Order.Ring.Int
import Mathlib.Data.List.Basic
import Tlpi.CStrings
import Tlpi.Indexed
import Tlpi.Transition

/-!
sockets/ud_ucase_sv.c and ud_ucase_cl.c: any number of clients send their arguments one by one
in datagrams to a server, which returns each of them in capitals. UNIX domain datagrams are
neither lost nor reordered; a `recvfrom` cuts a datagram at BUF_SIZE; a `sendto` waits while the
socket it sends to is full, and fails when that socket is gone. Any client may die at any time.
-/

namespace Tlpi.CaseDatagrams

open CStrings (Str toupper)

def BUF_SIZE : Nat := 10

inductive Place where
  | sendto
  | recvfrom
  | exited
  deriving DecidableEq

/-- `messages` are the arguments from the current one on, `inbox` is the client's socket. -/
structure Client where
  messages : List Str
  place : Place
  inbox : List Str
  responses : List Str
  dead : Bool
  deriving DecidableEq

inductive Server where
  | recvfrom
  | sendto (claddr : Nat) (buf : Str)
  | exited
  deriving DecidableEq

structure State where
  clients : List Client
  requests : List (Nat × Str)
  server : Server
  deriving DecidableEq

inductive Choice where
  | client (index : Nat)
  | server
  | kill (index : Nat)
  deriving DecidableEq

/-- What the server returns for a message. -/
def answer (message : Str) : Str := (message.take BUF_SIZE).map toupper

/-- `room` is what a socket holds; without a server `sendto` is fatal. -/
def stepClient (room : Nat) (state : State) (index : Nat) (client : Client) : Option State :=
  match client.place with
  | .sendto =>
      match client.messages with
      | [] =>
          some { state with clients := state.clients.set index { client with place := .exited } }
      | message :: _ =>
          if state.server = .exited then
            some { state with clients := state.clients.set index { client with dead := true } }
          else if state.requests.length < room then
            some { state with
              clients := state.clients.set index { client with place := .recvfrom }
              requests := state.requests ++ [(index, message)] }
          else none
  | .recvfrom =>
      match client.inbox with
      | [] => none
      | resp :: rest =>
          some { state with
            clients := state.clients.set index
              { client with
                messages := client.messages.tail
                place := .sendto
                inbox := rest
                responses := client.responses ++ [resp.take BUF_SIZE] } }
  | .exited => none

/-- Every client removes its socket when it exits, and one that has died has none that could
be reached. -/
def Client.reachable (client : Client) : Bool := !client.dead && client.place ≠ .exited

def stepServer (room : Nat) (state : State) : Option State :=
  match state.server with
  | .recvfrom =>
      match state.requests with
      | [] => none
      | (claddr, message) :: rest =>
          some { state with requests := rest, server := .sendto claddr (answer message) }
  | .sendto claddr buf =>
      match state.clients[claddr]? with
      | none => some { state with server := .exited }
      | some client =>
          if client.reachable then
            if client.inbox.length < room then
              some { state with
                clients := state.clients.set claddr { client with inbox := client.inbox ++ [buf] }
                server := .recvfrom }
            else none
          else some { state with server := .exited }
  | .exited => none

def step (room : Nat) : Choice → State → Option State
  | .client index, state =>
      match state.clients[index]? with
      | none => none
      | some client => if client.dead then none else stepClient room state index client
  | .server, state => stepServer room state
  | .kill index, state =>
      match state.clients[index]? with
      | none => none
      | some client =>
          if client.reachable then
            some { state with clients := state.clients.set index { client with dead := true } }
          else none

def start (arguments : List (List Str)) : State :=
  ⟨arguments.map fun messages => ⟨messages, .sendto, [], [], false⟩, [], .recvfrom⟩

/-! What is under way to a client. -/

def Server.holds (server : Server) (index : Nat) : List Str :=
  match server with
  | .sendto claddr buf => if claddr = index then [buf] else []
  | _ => []

def requested (requests : List (Nat × Str)) (index : Nat) : List Str :=
  (requests.filter (·.1 = index)).map fun request => answer request.2

def underWay (state : State) (index : Nat) (client : Client) : List Str :=
  client.inbox ++ state.server.holds index ++ requested state.requests index

/-- A client has one answer to come while it waits, and none otherwise. -/
structure Fits (messages : List Str) (state : State) (index : Nat) (client : Client) : Prop where
  answers : client.responses ++ client.messages.map answer = messages.map answer
  waiting : client.dead = false → client.place = .recvfrom →
    ∃ message rest, client.messages = message :: rest ∧
      underWay state index client = [answer message]
  idle : client.dead = false → client.place ≠ .recvfrom → underWay state index client = []
  done : client.place = .exited → client.messages = []

structure Inv (arguments : List (List Str)) (state : State) : Prop where
  length : state.clients.length = arguments.length
  fits : ∀ (index : Nat) messages client, arguments[index]? = some messages →
    state.clients[index]? = some client →
    Fits messages state index client

theorem start_inv (arguments : List (List Str)) : Inv arguments (start arguments) := by
  refine ⟨List.length_map _, ?_⟩
  intro index messages client listed found
  rw [start, List.getElem?_map, listed] at found
  cases found
  exact ⟨rfl, fun _ bad => (by cases bad), fun _ _ => rfl, fun bad => by cases bad⟩

/-- A client is not touched by what leaves the datagrams to it alone. -/
theorem fits_elsewhere (messages : List Str) (before after : State) (index : Nat) (client : Client)
    (fits : Fits messages before index client)
    (same : underWay after index client = underWay before index client) :
    Fits messages after index client :=
  ⟨fits.answers, fun alive place => same ▸ fits.waiting alive place,
    fun alive place => same ▸ fits.idle alive place, fits.done⟩

/-- A step that changes one client. -/
theorem updated_inv (arguments : List (List Str)) (before after : State)
    (inv : Inv arguments before) (index : Nat) (old new : Client)
    (there : before.clients[index]? = some old)
    (clients : after.clients = before.clients.set index new)
    (own : ∀ messages, Fits messages before index old → Fits messages after index new)
    (others : ∀ other client, other ≠ index →
      underWay after other client = underWay before other client) :
    Inv arguments after := by
  refine ⟨by rw [clients, List.length_set]; exact inv.length, ?_⟩
  intro place messages client listed found
  rw [clients] at found
  rcases Indexed.set_cases _ _ _ _ _ found with ⟨rfl, rfl⟩ | ⟨different, earlier⟩
  · exact own messages (inv.fits place messages old listed there)
  · exact fits_elsewhere messages before after place client
      (inv.fits place messages client listed earlier)
      (others place client different)

theorem requested_append (requests : List (Nat × Str)) (index other : Nat) (message : Str) :
    requested (requests ++ [(index, message)]) other =
      requested requests other ++ if index = other then [answer message] else [] := by
  unfold requested
  by_cases same : index = other <;> simp [same]

theorem requested_cons (requests : List (Nat × Str)) (index other : Nat) (message : Str) :
    requested ((index, message) :: requests) other =
      (if index = other then [answer message] else []) ++ requested requests other := by
  unfold requested
  by_cases same : index = other <;> simp [same]

theorem take_answer (message : Str) : (answer message).take BUF_SIZE = answer message := by
  refine List.take_of_length_le ?_
  rw [answer, List.length_map, List.length_take]
  exact Nat.min_le_left _ _

section Client
variable (arguments : List (List Str)) (before : State) (inv : Inv arguments before) (index : Nat)
  (client : Client) (there : before.clients[index]? = some client) (alive : client.dead = false)
include inv there

/-- A client that dies, or exits with all its answers. -/
theorem client_ends (new : Client)
    (same : new.messages = client.messages ∧ new.responses = client.responses ∧
      new.inbox = client.inbox) (ended : new.dead = true ∧ new.place = client.place ∨
      new.dead = client.dead ∧ client.place = .sendto ∧ new.place = .exited ∧
      client.messages = []) :
    Inv arguments { before with clients := before.clients.set index new } := by
  obtain ⟨rest, responses, inbox⟩ := same
  refine updated_inv arguments before _ inv index client new there rfl (fun messages fits => ?_)
    fun _ _ _ => rfl
  refine ⟨?_, ?_, ?_, ?_⟩
  · rw [rest, responses]
    exact fits.answers
  · rcases ended with ⟨dead, _⟩ | ⟨_, _, gone, _⟩
    · intro bad
      rw [dead] at bad
      cases bad
    · intro _ bad
      rw [gone] at bad
      cases bad
  · rcases ended with ⟨dead, _⟩ | ⟨kept, place, _, _⟩
    · intro bad
      rw [dead] at bad
      cases bad
    · intro alive _
      rw [underWay, inbox]
      exact fits.idle (kept ▸ alive) (by rw [place]; decide)
  · rw [rest]
    rcases ended with ⟨_, place⟩ | ⟨_, _, _, none⟩
    · rw [place]
      exact fits.done
    · exact fun _ => none

include alive

theorem client_sends (message : Str) (rest : List Str) (place : client.place = .sendto)
    (next : client.messages = message :: rest) :
    Inv arguments { before with
      clients := before.clients.set index { client with place := .recvfrom }
      requests := before.requests ++ [(index, message)] } := by
  refine updated_inv arguments before _ inv index client _ there rfl (fun messages fits => ?_)
    fun other _ different => ?_
  · refine ⟨fits.answers, fun _ _ => ⟨message, rest, next, ?_⟩, fun _ bad => absurd rfl bad,
      fun bad => by cases bad⟩
    have nothing := fits.idle alive (by rw [place]; decide)
    simp only [underWay] at nothing ⊢
    rw [requested_append, if_pos rfl, ← List.append_assoc, nothing, List.nil_append]
  · simp only [underWay]
    rw [requested_append, if_neg (Ne.symm different), List.append_nil]

theorem client_receives (resp : Str) (rest : List Str) (place : client.place = .recvfrom)
    (inbox : client.inbox = resp :: rest) :
    Inv arguments { before with
      clients := before.clients.set index
        { client with
          messages := client.messages.tail
          place := .sendto
          inbox := rest
          responses := client.responses ++ [resp.take BUF_SIZE] } } := by
  refine updated_inv arguments before _ inv index client _ there rfl (fun messages fits => ?_)
    fun _ _ _ => rfl
  obtain ⟨message, others, next, coming⟩ := fits.waiting alive place
  simp only [underWay, inbox, List.cons_append, List.cons.injEq] at coming
  obtain ⟨rfl, nothing⟩ := coming
  refine ⟨?_, fun _ bad => (by cases bad), fun _ _ => nothing, fun bad => by cases bad⟩
  rw [← fits.answers, next, take_answer]
  simp

theorem client_inv (room : Nat) (after : State)
    (taken : stepClient room before index client = some after) : Inv arguments after := by
  unfold stepClient at taken
  split at taken
  · next place =>
      split at taken
      · next none =>
          cases taken
          exact client_ends arguments before inv index client there _ ⟨rfl, rfl, rfl⟩
            (Or.inr ⟨rfl, place, rfl, none⟩)
      · next message rest next =>
          split at taken
          · cases taken
            exact client_ends arguments before inv index client there _ ⟨rfl, rfl, rfl⟩
              (Or.inl ⟨rfl, rfl⟩)
          · split at taken
            · cases taken
              exact client_sends arguments before inv index client there alive
                message rest place next
            · cases taken
  · next place =>
      split at taken
      · cases taken
      · next resp rest inbox =>
          cases taken
          exact client_receives arguments before inv index client there alive resp rest place inbox
  · cases taken

end Client

theorem server_inv (room : Nat) (arguments : List (List Str)) (before after : State)
    (inv : Inv arguments before) (taken : stepServer room before = some after) :
    Inv arguments after := by
  unfold stepServer at taken
  split at taken
  · next place =>
      split at taken
      · cases taken
      · next claddr message rest queue =>
          cases taken
          refine ⟨inv.length, fun index messages client listed found => ?_⟩
          refine fits_elsewhere messages before _ index client
            (inv.fits index messages client listed found) ?_
          simp only [underWay, place, queue, Server.holds, List.append_nil]
          rw [requested_cons, List.append_assoc]
  · next claddr buf place =>
      have lost : ∀ client, before.clients[claddr]? = some client → client.reachable = false →
          Inv arguments { before with server := .exited } := by
        intro client there gone
        refine ⟨inv.length, fun index messages other listed found => ?_⟩
        have fits := inv.fits index messages other listed found
        by_cases here : index = claddr
        · subst here
          obtain rfl : client = other := Option.some.inj (there.symm.trans found)
          -- an answer is under way, so the client has not exited but died
          have dead : client.dead = true := by
            by_contra alive
            rw [Bool.not_eq_true] at alive
            have exited : client.place = .exited := by simpa [Client.reachable, alive] using gone
            have nothing := fits.idle alive (by rw [exited]; decide)
            simp [underWay, place, Server.holds] at nothing
          refine ⟨fits.answers, fun alive => ?_, fun alive => ?_, fits.done⟩
          · rw [dead] at alive
            cases alive
          · rw [dead] at alive
            cases alive
        · refine fits_elsewhere messages before _ index other fits ?_
          simp only [underWay, place, Server.holds, if_neg (Ne.symm here)]
      split at taken
      · next none =>
          cases taken
          refine ⟨inv.length, fun index messages client listed found => ?_⟩
          refine fits_elsewhere messages before _ index client
            (inv.fits index messages client listed found) ?_
          have different : claddr ≠ index := by
            rintro rfl
            rw [none] at found
            cases found
          simp only [underWay, place, Server.holds, if_neg different]
      · next client there =>
          split at taken
          · rw [Option.ite_none_right_eq_some, Option.some.injEq] at taken
            obtain ⟨_, rfl⟩ := taken
            refine updated_inv arguments before _ inv claddr client _ there rfl
              (fun messages fits => ?_) fun other _ different => ?_
            · have same : underWay { before with
                  clients := before.clients.set claddr
                    { client with inbox := client.inbox ++ [buf] }
                  server := .recvfrom } claddr { client with inbox := client.inbox ++ [buf] } =
                  underWay before claddr client := by
                simp only [underWay, place, Server.holds, if_true, List.append_nil]
              exact ⟨fits.answers, fun alive wait => same ▸ fits.waiting alive wait,
                fun alive wait => same ▸ fits.idle alive wait, fits.done⟩
            · simp only [underWay, place, Server.holds, if_neg (Ne.symm different)]
          · next gone =>
              cases taken
              exact lost client there (Bool.eq_false_iff.mpr gone)
  · cases taken

theorem step_inv (room : Nat) (arguments : List (List Str)) (choice : Choice) (before after : State)
    (inv : Inv arguments before) (taken : step room choice before = some after) :
    Inv arguments after := by
  cases choice with
  | client index =>
      simp only [step] at taken
      split at taken
      · cases taken
      · next client there =>
          rw [Option.ite_none_left_eq_some] at taken
          exact client_inv arguments before inv index client there (Bool.eq_false_iff.mpr taken.1)
            room after taken.2
  | server => exact server_inv room arguments before after inv taken
  | kill index =>
      simp only [step] at taken
      split at taken
      · cases taken
      · next client there =>
          rw [Option.ite_none_right_eq_some, Option.some.injEq] at taken
          obtain ⟨_, rfl⟩ := taken
          exact client_ends arguments before inv index client there _ ⟨rfl, rfl, rfl⟩
            (Or.inl ⟨rfl, rfl⟩)

/-! The server stops only when a client has died. -/

structure Served (state : State) : Prop where
  known : ∀ request ∈ state.requests, request.1 < state.clients.length
  held : ∀ claddr buf, state.server = .sendto claddr buf → claddr < state.clients.length
  lost : state.server = .exited → ∃ client ∈ state.clients, client.dead = true

theorem start_served (arguments : List (List Str)) : Served (start arguments) :=
  ⟨fun _ bad => absurd bad List.not_mem_nil, fun _ _ bad => (by cases bad),
    fun bad => by cases bad⟩

/-- A change to one client that brings none back to life. -/
theorem set_served (before : State) (served : Served before) (index : Nat) (old new : Client)
    (there : before.clients[index]? = some old) (requests : List (Nat × Str))
    (known : ∀ request ∈ requests, request.1 < before.clients.length)
    (kept : old.dead = true → new.dead = true) :
    Served ⟨before.clients.set index new, requests, before.server⟩ := by
  refine ⟨fun request member => ?_, fun claddr buf holds => ?_, fun gone => ?_⟩
  · rw [List.length_set]
    exact known request member
  · rw [List.length_set]
    exact served.held claddr buf holds
  · obtain ⟨client, member, dead⟩ := served.lost gone
    obtain ⟨place, found⟩ := List.getElem?_of_mem member
    by_cases same : index = place
    · subst same
      obtain rfl : old = client := Option.some.inj (there.symm.trans found)
      exact ⟨new, List.mem_of_getElem? (Indexed.set_self _ _ _ _ there), kept dead⟩
    · refine ⟨client, List.mem_of_getElem? (i := place) ?_, dead⟩
      rw [List.getElem?_set_ne same]
      exact found

theorem client_served (room : Nat) (before after : State) (served : Served before) (index : Nat)
    (client : Client) (there : before.clients[index]? = some client)
    (taken : stepClient room before index client = some after) : Served after := by
  unfold stepClient at taken
  split at taken
  · split at taken
    · cases taken
      exact set_served before served index client _ there _ served.known fun dead => dead
    · split at taken
      · cases taken
        exact set_served before served index client _ there _ served.known fun _ => rfl
      · split at taken
        · cases taken
          refine set_served before served index client _ there _ (fun request member => ?_)
            fun dead => dead
          rcases List.mem_append.mp member with earlier | own
          · exact served.known request earlier
          · obtain rfl := List.mem_singleton.mp own
            exact (List.getElem?_eq_some_iff.mp there).1
        · cases taken
  · split at taken
    · cases taken
    · cases taken
      exact set_served before served index client _ there _ served.known fun dead => dead
  · cases taken

theorem server_served (room : Nat) (arguments : List (List Str)) (before after : State)
    (inv : Inv arguments before) (served : Served before)
    (taken : stepServer room before = some after) : Served after := by
  unfold stepServer at taken
  split at taken
  · split at taken
    · cases taken
    · next claddr message rest queue =>
        cases taken
        have known := served.known
        rw [queue] at known
        refine ⟨fun request member => known request (List.mem_cons_of_mem _ member), ?_,
          fun bad => by cases bad⟩
        rintro _ _ ⟨⟩
        exact known _ List.mem_cons_self
  · next claddr buf place =>
      have inside := served.held claddr buf place
      split at taken
      · next none => exact absurd inside (Nat.not_lt.mpr (List.getElem?_eq_none_iff.mp none))
      · next client there =>
          split at taken
          · rw [Option.ite_none_right_eq_some, Option.some.injEq] at taken
            obtain ⟨_, rfl⟩ := taken
            refine ⟨fun request member => ?_, fun _ _ bad => (by cases bad),
              fun bad => by cases bad⟩
            rw [List.length_set]
            exact served.known request member
          · next gone =>
              cases taken
              refine ⟨served.known, fun _ _ bad => (by cases bad),
                fun _ => ⟨client, List.mem_of_getElem? there, ?_⟩⟩
              -- an answer is under way, so the client has not exited
              by_contra alive
              rw [Bool.not_eq_true] at alive
              have exited : client.place = .exited := by simpa [Client.reachable, alive] using gone
              have listed := List.getElem?_eq_getElem (inv.length ▸ inside)
              have nothing :=
                (inv.fits claddr _ client listed there).idle alive (by rw [exited]; decide)
              simp [underWay, place, Server.holds] at nothing
  · cases taken

theorem step_served (room : Nat) (arguments : List (List Str)) (choice : Choice)
    (before after : State) (inv : Inv arguments before) (served : Served before)
    (taken : step room choice before = some after) : Served after := by
  cases choice with
  | client index =>
      simp only [step] at taken
      split at taken
      · cases taken
      · next client there =>
          rw [Option.ite_none_left_eq_some] at taken
          exact client_served room before after served index client there taken.2
  | server => exact server_served room arguments before after inv served taken
  | kill index =>
      simp only [step] at taken
      split at taken
      · cases taken
      · next client there =>
          rw [Option.ite_none_right_eq_some, Option.some.injEq] at taken
          obtain ⟨_, rfl⟩ := taken
          exact set_served before served index client _ there _ served.known fun _ => rfl

structure Sound (arguments : List (List Str)) (state : State) : Prop where
  inv : Inv arguments state
  served : Served state

theorem reached_sound (room : Nat) (arguments : List (List Str)) (state : State)
    (reached : Transition.Reachable (· = start arguments) (step room) state) :
    Sound arguments state := by
  refine Transition.reachable_invariant ?_ (fun choice before after sound taken => ?_) reached
  · rintro _ rfl
    exact ⟨start_inv arguments, start_served arguments⟩
  · exact ⟨step_inv room arguments choice before after sound.inv taken,
      step_served room arguments choice before after sound.inv sound.served taken⟩

/-! Every run comes to an end. -/

/-- The messages that have not been sent. -/
def Client.unsent (client : Client) : List Str :=
  if client.place = .recvfrom then client.messages.tail else client.messages

def Client.work (client : Client) : Nat :=
  5 * client.unsent.length + (if client.place = .sendto then 1 else 0) + 2 * client.inbox.length +
    (!client.dead).toNat

def Server.work : Server → Nat
  | .recvfrom => 1
  | .sendto _ _ => 4
  | .exited => 0

def work (state : State) : Nat :=
  (state.clients.map Client.work).sum + 4 * state.requests.length + state.server.work

theorem client_work (room : Nat) (before after : State) (index : Nat) (client : Client)
    (alive : client.dead = false) (there : before.clients[index]? = some client)
    (taken : stepClient room before index client = some after) : work after < work before := by
  have changed (new : Client) := Indexed.sum_set Client.work before.clients index client new there
  unfold stepClient at taken
  split at taken
  · next place =>
      split at taken
      · cases taken
        have sum := changed { client with place := .exited }
        simp only [Client.work, Client.unsent, place, work, reduceCtorEq, ↓reduceIte] at sum ⊢
        omega
      · next message rest next =>
          split at taken
          · cases taken
            have sum := changed { client with dead := true }
            simp only [Client.work, Client.unsent, place, alive, work, reduceCtorEq,
              ↓reduceIte, Bool.not_true, Bool.not_false, Bool.toNat_true,
              Bool.toNat_false] at sum ⊢
            omega
          · split at taken
            · cases taken
              have sum := changed { client with place := .recvfrom }
              simp only [Client.work, Client.unsent, place, next, work, reduceCtorEq,
                ↓reduceIte, List.tail_cons, List.length_cons, List.length_append,
                List.length_nil] at sum ⊢
              omega
            · cases taken
  · next place =>
      split at taken
      · cases taken
      · next resp rest inbox =>
          cases taken
          have sum := changed
            { client with
              messages := client.messages.tail
              place := .sendto
              inbox := rest
              responses := client.responses ++ [resp.take BUF_SIZE] }
          simp only [Client.work, Client.unsent, place, inbox, work, reduceCtorEq, ↓reduceIte,
            List.length_cons] at sum ⊢
          omega
  · cases taken

theorem server_work (room : Nat) (before after : State)
    (taken : stepServer room before = some after) : work after < work before := by
  unfold stepServer at taken
  split at taken
  · next place =>
      split at taken
      · cases taken
      · next queue =>
          cases taken
          simp only [work, place, queue, Server.work, List.length_cons]
          omega
  · next claddr buf place =>
      split at taken
      · cases taken
        simp only [work, place, Server.work]
        omega
      · next client there =>
          split at taken
          · rw [Option.ite_none_right_eq_some, Option.some.injEq] at taken
            obtain ⟨_, rfl⟩ := taken
            have sum := Indexed.sum_set Client.work before.clients claddr client
              { client with inbox := client.inbox ++ [buf] } there
            simp only [Client.work, Client.unsent, work, place, Server.work, List.length_append,
              List.length_cons, List.length_nil] at sum ⊢
            omega
          · cases taken
            simp only [work, place, Server.work]
            omega
  · cases taken

theorem step_work (room : Nat) (choice : Choice) (before after : State)
    (taken : step room choice before = some after) : work after < work before := by
  cases choice with
  | client index =>
      simp only [step] at taken
      split at taken
      · cases taken
      · next client there =>
          rw [Option.ite_none_left_eq_some] at taken
          exact client_work room before after index client
            (Bool.eq_false_iff.mpr taken.1) there taken.2
  | server => exact server_work room before after taken
  | kill index =>
      simp only [step] at taken
      split at taken
      · cases taken
      · next client there =>
          rw [Option.ite_none_right_eq_some, Option.some.injEq] at taken
          obtain ⟨alive, rfl⟩ := taken
          have dead : client.dead = false := by
            simp only [Client.reachable, Bool.and_eq_true, Bool.not_eq_true'] at alive
            exact alive.1
          have sum := Indexed.sum_set Client.work before.clients index client
              { client with dead := true } there
          simp only [Client.work, Client.unsent, dead, work, Bool.not_true, Bool.not_false,
            Bool.toNat_true, Bool.toNat_false] at sum ⊢
          omega

/-! Where nothing can move. -/

section Stuck
variable (state : State)

/-- The server answers one message of a client at a time. -/
theorem answered_empty (arguments : List (List Str)) (inv : Inv arguments state)
    (claddr : Nat) (buf : Str) (server : state.server = .sendto claddr buf) (client : Client)
    (there : state.clients[claddr]? = some client) (living : client.dead = false) :
    client.inbox = [] := by
  obtain ⟨inside, _⟩ := List.getElem?_eq_some_iff.mp there
  have fits := inv.fits claddr _ client (List.getElem?_eq_getElem (inv.length ▸ inside)) there
  by_cases place : client.place = .recvfrom
  · obtain ⟨message, rest, _, coming⟩ := fits.waiting living place
    have lengths := congrArg List.length coming
    simp only [underWay, server, Server.holds, if_true, List.length_append, List.length_cons,
      List.length_nil] at lengths
    exact List.length_eq_zero_iff.mp (by omega)
  · have nothing := fits.idle living place
    simp [underWay, server, Server.holds] at nothing

theorem server_settled (room : Nat) (arguments : List (List Str)) (inv : Inv arguments state)
    (served : Served state) (alive : ∀ client ∈ state.clients, client.dead = false)
    (stuck : stepServer (room + 1) state = none) :
    state.server = .recvfrom ∧ state.requests = [] := by
  unfold stepServer at stuck
  split at stuck
  · next place =>
      split at stuck
      · next queue => exact ⟨place, queue⟩
      · cases stuck
  · next claddr buf place =>
      split at stuck
      · cases stuck
      · next client there =>
          have empty := answered_empty state arguments inv claddr buf place client there
            (alive client (List.mem_of_getElem? there))
          have free : client.inbox.length < room + 1 := by
            rw [empty]
            exact Nat.succ_pos room
          rw [if_pos free] at stuck
          split at stuck
          · cases stuck
          · cases stuck
  · next place =>
      obtain ⟨client, member, dead⟩ := served.lost place
      rw [alive client member] at dead
      cases dead

theorem client_settled (room : Nat) (arguments : List (List Str)) (inv : Inv arguments state)
    (server : state.server = .recvfrom) (requests : state.requests = []) (index : Nat)
    (messages : List Str) (client : Client) (listed : arguments[index]? = some messages)
    (there : state.clients[index]? = some client) (living : client.dead = false)
    (stuck : stepClient (room + 1) state index client = none) :
    client.place = .exited ∧ client.responses = messages.map answer := by
  have fits := inv.fits index messages client listed there
  unfold stepClient at stuck
  split at stuck
  · split at stuck
    · cases stuck
    · rw [if_neg (by rw [server]; decide),
          if_pos (by rw [requests]; exact Nat.succ_pos room)] at stuck
      cases stuck
  · next place =>
      split at stuck
      · next inbox =>
          obtain ⟨message, rest, _, coming⟩ := fits.waiting living place
          simp [underWay, inbox, server, requests, Server.holds, requested] at coming
      · cases stuck
  · next place =>
      have answers := fits.answers
      rw [fits.done place, List.map_nil, List.append_nil] at answers
      exact ⟨place, answers⟩

end Stuck

/-- Every client gets the capitals of its arguments, each cut at `BUF_SIZE`, in order and none of
another client's, whatever dies and when. The server stops only after a client has died; while
all live, nothing stops before every client has all its answers and has exited. -/
theorem capitals_are_returned (room : Nat) (arguments : List (List Str)) :
    (∀ state, Transition.Reachable (· = start arguments) (step (room + 1)) state →
      (∀ (index : Nat) messages client, arguments[index]? = some messages →
        state.clients[index]? = some client →
        client.responses <+: messages.map answer) ∧
      (state.server = .exited → ∃ client ∈ state.clients, client.dead = true) ∧
      ((∀ client ∈ state.clients, client.dead = false) →
        (∀ index, step (room + 1) (.client index) state = none) →
        step (room + 1) .server state = none →
          ∀ (index : Nat) messages client, arguments[index]? = some messages →
          state.clients[index]? = some client →
            client.place = .exited ∧ client.responses = messages.map answer)) ∧
      ∀ choices state, Transition.replay (step (room + 1)) choices (start arguments) =
        some state →
        choices.length ≤ work (start arguments) := by
  constructor
  · intro state reached
    obtain ⟨inv, served⟩ := reached_sound (room + 1) arguments state reached
    refine ⟨fun index messages client listed there => ?_, served.lost,
      fun alive clients server => ?_⟩
    · rw [← (inv.fits index messages client listed there).answers]
      exact List.prefix_append _ _
    · intro index messages client listed there
      obtain ⟨waits, empty⟩ := server_settled state room arguments inv served alive server
      have living := alive client (List.mem_of_getElem? there)
      have stuck := clients index
      simp only [step, there, living, Bool.false_eq_true, if_false] at stuck
      exact client_settled state room arguments inv waits empty index messages client
        listed there living stuck
  · intro choices state replayed
    exact Transition.choices_bounded _ work (step_work _) choices replayed

end Tlpi.CaseDatagrams
