import Mathlib
import Tlpi.Indexed
import Tlpi.Ranges
import Tlpi.Transition

/-!
pipes/fifo_seqnum_server.c and pipes/fifo_seqnum_client.c: an iterative server that
allots ranges of sequence numbers. Requests reach it over one FIFO, each response goes
back over the FIFO of the client. The client with PID `pid` is the entry at that
position of the list of clients, so PIDs are distinct.
-/

namespace Tlpi.SequenceFifo

/-- `struct request`. A `struct response` is its only field, the `seqNum`. -/
structure Request where
  pid : Nat
  seqLen : Int
  deriving DecidableEq

/-- The FIFO of a client. `reader` and `writer` record that the FIFO has been opened, as
an `open` of the other end waits for that; `reading` and `writing` that it still is. -/
structure Fifo where
  present : Bool
  reader : Bool
  reading : Bool
  writer : Bool
  writing : Bool
  data : List Int
  deriving DecidableEq

/-- What a client does next; the blocking `open` calls have two steps. -/
inductive ClientPlace where
  | mkfifo
  | openServer
  | openingServer
  | write
  | open
  | opening
  | read
  | print (seqNum : Int)
  | exited (seqNum : Int)
  | failed
  deriving DecidableEq

structure Client where
  seqLen : Int
  place : ClientPlace
  fifo : Fifo
  deriving DecidableEq

inductive ServerPlace where
  | mkfifo
  | open
  | opening
  | openDummy
  | read
  | openClient (req : Request)
  | openingClient (req : Request)
  | write (req : Request)
  | close (req : Request)
  | update (req : Request)
  deriving DecidableEq

/-- SERVER_FIFO; a request is read and written as a whole. -/
structure ServerFifo where
  present : Bool
  reader : Bool
  writer : Bool
  requests : List Request
  deriving DecidableEq

/-- `granted` is the history of the responses written, oldest first. -/
structure State where
  clients : List Client
  place : ServerPlace
  seqNum : Int
  fifo : ServerFifo
  granted : List (Request × Int)
  deriving DecidableEq

inductive Choice where
  | client (pid : Nat)
  | server
  deriving DecidableEq

def State.adjust (state : State) (pid : Nat) (change : Client → Client) : State :=
  { state with clients := state.clients.modify pid change }

def Client.moved (client : Client) (place : ClientPlace) : Client := { client with place := place }

/-- No successor while the client is blocked or has ended. `room` is the number of
requests that fit into the server's FIFO. -/
def stepClient (room : Nat) (state : State) (pid : Nat) (client : Client) : Option State :=
  match client.place with
  | .mkfifo =>
      some (state.adjust pid fun client =>
        { client with place := .openServer, fifo := { client.fifo with present := true } })
  | .openServer =>
      -- the server is started first
      if state.fifo.present then
        some { state.adjust pid (·.moved .openingServer) with
          fifo := { state.fifo with writer := true } }
      else none
  | .openingServer => if state.fifo.reader then some (state.adjust pid (·.moved .write)) else none
  | .write =>
      if state.fifo.requests.length < room then
        some { state.adjust pid (·.moved .open) with
          fifo := { state.fifo with
            requests := state.fifo.requests ++ [⟨pid, client.seqLen⟩] } }
      else none
  | .open =>
      some (state.adjust pid fun client =>
        { client with
          place := .opening, fifo := { client.fifo with reader := true, reading := true } })
  | .opening => if client.fifo.writer then some (state.adjust pid (·.moved .read)) else none
  | .read =>
      match client.fifo.data with
      | seqNum :: rest =>
          some (state.adjust pid fun client =>
            { client with place := .print seqNum, fifo := { client.fifo with data := rest } })
      | [] => if client.fifo.writing then none else some (state.adjust pid (·.moved .failed))
  | .print seqNum =>
      -- `exit` calls removeFifo and closes the descriptors
      some (state.adjust pid fun client =>
        { client with
          place := .exited seqNum,
          fifo := { client.fifo with present := false, reading := false } })
  | .exited _ => none
  | .failed => none

def State.fifoOf (state : State) (pid : Nat) : Fifo :=
  match state.clients[pid]? with
  | some client => client.fifo
  | none => ⟨false, false, false, false, false, []⟩

def State.served (state : State) (pid : Nat) (place : ServerPlace)
    (change : Fifo → Fifo) : State :=
  { state.adjust pid (fun client => { client with fifo := change client.fifo }) with
    place := place }

def stepServer (state : State) : Option State :=
  match state.place with
  | .mkfifo => some { state with place := .open, fifo := { state.fifo with present := true } }
  | .open => some { state with place := .opening, fifo := { state.fifo with reader := true } }
  | .opening => if state.fifo.writer then some { state with place := .openDummy } else none
  | .openDummy => some { state with place := .read, fifo := { state.fifo with writer := true } }
  | .read =>
      match state.fifo.requests with
      | req :: rest =>
          some { state with place := .openClient req, fifo := { state.fifo with requests := rest } }
      | [] => none
  | .openClient req =>
      if (state.fifoOf req.pid).present then
        some (state.served req.pid (.openingClient req) fun fifo =>
          { fifo with writer := true, writing := true })
      else some { state with place := .read }
  | .openingClient req =>
      if (state.fifoOf req.pid).reader then some { state with place := .write req } else none
  | .write req =>
      -- without a reader SIGPIPE is ignored and the failure reported
      if (state.fifoOf req.pid).reading then
        some { state.served req.pid (.close req) (fun fifo =>
          { fifo with data := fifo.data ++ [state.seqNum] }) with
            granted := state.granted ++ [(req, state.seqNum)] }
      else some { state with place := .close req }
  | .close req =>
      some (state.served req.pid (.update req) fun fifo => { fifo with writing := false })
  | .update req =>
      some { state with place := .read, seqNum := (state.seqNum + req.seqLen).bmod (2 ^ 32) }

def step (room : Nat) (choice : Choice) (state : State) : Option State :=
  match choice with
  | .client pid => state.clients[pid]?.bind (stepClient room state pid)
  | .server => stepServer state

def start (lengths : List Int) : State where
  clients :=
    lengths.map fun seqLen => ⟨seqLen, .mkfifo, ⟨false, false, false, false, false, []⟩⟩
  place := .mkfifo
  seqNum := 0
  fifo := ⟨false, false, false, []⟩
  granted := []

/-- The start of the range that a client has been given. -/
def ClientPlace.received : ClientPlace → Option Int
  | .print seqNum => some seqNum
  | .exited seqNum => some seqNum
  | _ => none

def Client.range (client : Client) (seqNum : Int) : Ranges.Range Int := ⟨seqNum, client.seqLen⟩

/-! The invariant ties each client to the server's side of its request. -/

/-- The request read and not yet answered. -/
def ServerPlace.current : ServerPlace → List Request
  | .openClient req => [req]
  | .openingClient req => [req]
  | .write req => [req]
  | _ => []

/-- The client whose FIFO the server has opened. -/
def ServerPlace.attached : ServerPlace → Nat → Bool
  | .openingClient req, pid => req.pid = pid
  | .write req, pid => req.pid = pid
  | .close req, pid => req.pid = pid
  | _, _ => false

/-- What has been granted and is not part of `seqNum` yet. -/
def ServerPlace.owed : ServerPlace → Int
  | .close req => req.seqLen
  | .update req => req.seqLen
  | _ => 0

/-- Every request sent so far, in the order of arrival. -/
def State.asked (state : State) : List Request :=
  state.granted.map Prod.fst ++ (state.place.current ++ state.fifo.requests)

def State.answer (state : State) (pid : Nat) : Option Int :=
  (state.granted.find? fun grant => grant.1.pid = pid).map Prod.snd

def State.next (state : State) : Int := state.seqNum + state.place.owed

def ClientPlace.sent : ClientPlace → Bool
  | .mkfifo => false
  | .openServer => false
  | .openingServer => false
  | .write => false
  | _ => true

def ClientPlace.made : ClientPlace → Bool
  | .mkfifo => false
  | .exited _ => false
  | _ => true

def ClientPlace.came : ClientPlace → Bool
  | .opening => true
  | .read => true
  | .print _ => true
  | .exited _ => true
  | _ => false

def ClientPlace.listening : ClientPlace → Bool
  | .opening => true
  | .read => true
  | .print _ => true
  | _ => false

structure Fits (state : State) (pid : Nat) (client : Client) : Prop where
  running : client.place ≠ .failed
  sent : client.place.sent = true ↔ pid ∈ state.asked.map Request.pid
  present : client.fifo.present = client.place.made
  reader : client.fifo.reader = client.place.came
  reading : client.fifo.reading = client.place.listening
  writing : client.fifo.writing = state.place.attached pid
  writer : client.fifo.writer = (state.place.attached pid || (state.answer pid).isSome)
  data : client.fifo.data = if client.place.received = none then (state.answer pid).toList else []
  received : ∀ seqNum, client.place.received = some seqNum → state.answer pid = some seqNum
  waited : client.place = .read → client.fifo.writer = true
  met : ∀ req, state.place = .write req → req.pid = pid → client.place.came = true

/-- How far both sides have got with SERVER_FIFO. -/
structure Opened (state : State) : Prop where
  present : state.place ≠ .mkfifo → state.fifo.present = true
  reader : state.place ≠ .mkfifo → state.place ≠ .open → state.fifo.reader = true
  writer : ∀ client ∈ state.clients, client.place ≠ .mkfifo →
    client.place ≠ .openServer → state.fifo.writer = true

structure Served (lengths : List Int) (state : State) : Prop where
  wants : state.clients.map Client.seqLen = lengths
  fits : ∀ (pid : Nat) client, state.clients[pid]? = some client → Fits state pid client
  distinct : (state.asked.map Request.pid).Nodup
  owned : ∀ req ∈ state.asked, lengths[req.pid]? = some req.seqLen
  answered : ∀ req, state.place = .close req → (state.answer req.pid).isSome
  tiles : Ranges.Tiles 0 state.next (state.granted.map fun grant => ⟨grant.2, grant.1.seqLen⟩)
  opened : Opened state

theorem adjusted (state : State) (pid other : Nat) (change : Client → Client) (client : Client)
    (there : (state.adjust pid change).clients[other]? = some client) :
    ∃ old, state.clients[other]? = some old ∧
      client = if pid = other then change old else old := by
  unfold State.adjust at there
  simp only [List.getElem?_modify, Option.map_eq_map, Option.map_eq_some_iff] at there
  obtain ⟨old, found, same⟩ := there
  exact ⟨old, found, same.symm⟩

theorem adjusted_map {Weight : Type} (weight : Client → Weight) (state : State) (pid : Nat)
    (change : Client → Client) (same : ∀ client, weight (change client) = weight client) :
    (state.adjust pid change).clients.map weight = state.clients.map weight := by
  unfold State.adjust
  apply List.ext_getElem?
  intro position
  simp only [List.getElem?_map, List.getElem?_modify]
  cases state.clients[position]? with
  | none => rfl
  | some client =>
      by_cases here : pid = position
      · simp [here, same]
      · simp [here]

theorem answer_asked (state : State) (pid : Nat) :
    (state.answer pid).isSome = true ↔ pid ∈ (state.granted.map Prod.fst).map Request.pid := by
  unfold State.answer
  simp only [Option.isSome_map, List.find?_isSome, decide_eq_true_eq, List.map_map, List.mem_map,
    Function.comp_apply]

/-- A pid is answered once its request is, so not while it is the current one. -/
theorem current_unanswered (state : State) (distinct : (state.asked.map Request.pid).Nodup)
    (req : Request) (current : req ∈ state.place.current ++ state.fifo.requests) :
    state.answer req.pid = none := by
  rw [State.asked, List.map_append, List.nodup_append] at distinct
  by_contra given
  have some_ : (state.answer req.pid).isSome = true := Option.isSome_iff_ne_none.mpr given
  have before := (answer_asked state req.pid).mp some_
  exact distinct.2.2 _ before _ (List.mem_map_of_mem current) rfl

theorem fits_kept (before after : State) (pid : Nat) (client : Client)
    (fits : Fits before pid client)
    (asked : pid ∈ after.asked.map Request.pid ↔ pid ∈ before.asked.map Request.pid)
    (attached : after.place.attached pid = before.place.attached pid)
    (answer : after.answer pid = before.answer pid)
    (met : ∀ req, after.place = .write req → req.pid = pid → client.place.came = true) :
    Fits after pid client where
  running := fits.running
  sent := fits.sent.trans asked.symm
  present := fits.present
  reader := fits.reader
  reading := fits.reading
  writing := by rw [attached, fits.writing]
  writer := by rw [attached, answer, fits.writer]
  data := by rw [answer, fits.data]
  received := by
    intro seqNum given
    rw [answer]
    exact fits.received seqNum given
  waited := fits.waited
  met := met

section ClientSteps
variable (lengths : List Int) (state : State) (sound : Served lengths state) (pid : Nat)
  (client : Client) (there : state.clients[pid]? = some client)

include sound there in
theorem opened_client (change : Client → Client) (fifo : ServerFifo)
    (present : fifo.present = state.fifo.present) (reader : fifo.reader = state.fifo.reader)
    (writer : state.fifo.writer = true → fifo.writer = true)
    (past : (change client).place = .openServer ∨ fifo.writer = true) :
    Opened { state.adjust pid change with fifo := fifo } := by
  refine ⟨fun begun => present.trans (sound.opened.present begun),
    fun begun later => reader.trans (sound.opened.reader begun later), ?_⟩
  intro one member made connected
  obtain ⟨other, found⟩ := List.getElem?_of_mem member
  obtain ⟨old, home, same⟩ := adjusted state pid other change one found
  by_cases here : pid = other
  · subst here
    rw [if_pos rfl] at same
    rw [there, Option.some.injEq] at home
    subst same home
    rcases past with early | open_
    · exact absurd early connected
    · exact open_
  · rw [if_neg here] at same
    subst same
    exact writer (sound.opened.writer one (List.mem_of_getElem? home) made connected)

include sound there in
/-- A client's step that sends no request. -/
theorem client_served (change : Client → Client) (fifo : ServerFifo)
    (length : ∀ one, (change one).seqLen = one.seqLen)
    (requests : fifo.requests = state.fifo.requests) (mine : Fits state pid (change client))
    (opened : Opened { state.adjust pid change with fifo := fifo }) :
    Served lengths { state.adjust pid change with fifo := fifo } := by
  have asked : State.asked { state.adjust pid change with fifo := fifo } = state.asked := by
    unfold State.asked
    rw [requests]
    rfl
  refine ⟨(adjusted_map Client.seqLen state pid change length).trans sound.wants, ?_, ?_, ?_,
    sound.answered, sound.tiles, opened⟩
  · intro other one found
    obtain ⟨old, home, same⟩ := adjusted state pid other change one found
    have was : Fits state other one := by
      by_cases here : pid = other
      · subst here
        rw [there, Option.some.injEq] at home
        rw [if_pos rfl, ← home] at same
        rw [same]
        exact mine
      · rw [if_neg here] at same
        rw [same]
        exact sound.fits other old home
    exact fits_kept state _ other one was (by rw [asked]) rfl rfl was.met
  · rw [asked]
    exact sound.distinct
  · rw [asked]
    exact sound.owned

include sound there in
/-- The other steps leave a client with the server open. -/
theorem past_open (begun : client.place ≠ .mkfifo) (later : client.place ≠ .openServer) :
    state.fifo.writer = true :=
  sound.opened.writer client (List.mem_of_getElem? there) begun later

include sound there in
/-- A step that touches only the client's own FIFO, once the server's has been opened. -/
theorem connected_served (change : Client → Client)
    (length : ∀ one, (change one).seqLen = one.seqLen) (begun : client.place ≠ .mkfifo)
    (later : client.place ≠ .openServer) (mine : Fits state pid (change client)) :
    Served lengths (state.adjust pid change) :=
  client_served lengths state sound pid client there change state.fifo length rfl mine
    (opened_client lengths state sound pid client there change state.fifo rfl rfl id
      (Or.inr (past_open lengths state sound pid client there begun later)))

include sound there in
theorem write_served (place : client.place = .write) :
    Served lengths { state.adjust pid (·.moved .open) with
      fifo := { state.fifo with
        requests := state.fifo.requests ++ [⟨pid, client.seqLen⟩] } } := by
  have fits := sound.fits pid client there
  have unsent : pid ∉ state.asked.map Request.pid := by
    intro bad
    have sent := fits.sent.mpr bad
    rw [place] at sent
    cases sent
  have asked : State.asked { state.adjust pid (·.moved .open) with
      fifo := { state.fifo with requests := state.fifo.requests ++ [⟨pid, client.seqLen⟩] } } =
      state.asked ++ [⟨pid, client.seqLen⟩] := by
    unfold State.asked
    simp only [List.append_assoc]
    rfl
  refine ⟨(adjusted_map Client.seqLen state pid (·.moved .open) fun _ => rfl).trans sound.wants,
    ?_, ?_, ?_, sound.answered, sound.tiles,
    opened_client lengths state sound pid client there _ _ rfl rfl id
      (Or.inr (past_open lengths state sound pid client there (by rw [place]; decide)
        (by rw [place]; decide)))⟩
  · intro other one found
    obtain ⟨old, home, same⟩ := adjusted state pid other _ one found
    by_cases here : pid = other
    · subst here
      rw [there, Option.some.injEq] at home
      rw [if_pos rfl, ← home] at same
      subst same
      refine ⟨(fun bad => by cases bad), ?_, ?_, ?_, ?_, fits.writing,
        fits.writer, ?_, ?_, ?_, ?_⟩
      · rw [asked, List.map_append]
        exact ⟨fun _ => List.mem_append_right _ List.mem_cons_self, fun _ => rfl⟩
      · exact fits.present.trans (by rw [place]; rfl)
      · exact fits.reader.trans (by rw [place]; rfl)
      · exact fits.reading.trans (by rw [place]; rfl)
      · exact fits.data.trans (by rw [place]; rfl)
      · intro seqNum bad
        cases bad
      · intro bad
        cases bad
      · -- the server cannot be writing to a client that has not asked
        intro req writing same
        refine absurd ?_ unsent
        rw [State.asked, show state.place = .write req from writing, ← same]
        simp [ServerPlace.current]
    · rw [if_neg here] at same
      subst same
      have was := sound.fits other one home
      refine fits_kept state _ other one was ?_ rfl rfl was.met
      rw [asked, List.map_append, List.mem_append]
      simp only [List.map_cons, List.map_nil, List.mem_singleton, or_iff_left_iff_imp]
      intro same
      exact absurd same.symm here
  · rw [asked, List.map_append]
    refine List.nodup_append.mpr ⟨sound.distinct, List.nodup_singleton _, ?_⟩
    intro one member other new same
    rw [List.map_cons, List.map_nil, List.mem_singleton] at new
    rw [same, new] at member
    exact unsent member
  · rw [asked]
    intro req member
    rcases List.mem_append.mp member with old | new
    · exact sound.owned req old
    · rw [List.mem_singleton] at new
      rw [new, ← sound.wants, List.getElem?_map, there]
      rfl

/-- A client that has come to a later place in the same phase of its request. -/
theorem fits_moved (fits : Fits state pid client) (now : Client) (running : now.place ≠ .failed)
    (sent : now.place.sent = client.place.sent) (present : now.fifo.present = now.place.made)
    (reader : now.fifo.reader = now.place.came) (reading : now.fifo.reading = now.place.listening)
    (writing : now.fifo.writing = client.fifo.writing)
    (writer : now.fifo.writer = client.fifo.writer)
    (data : now.fifo.data = if now.place.received = none then (state.answer pid).toList else [])
    (received : ∀ seqNum, now.place.received = some seqNum → state.answer pid = some seqNum)
    (waited : now.place = .read → client.fifo.writer = true)
    (came : client.place.came = true → now.place.came = true) : Fits state pid now where
  running := running
  sent := by rw [sent, fits.sent]
  present := present
  reader := reader
  reading := reading
  writing := writing.trans fits.writing
  writer := writer.trans fits.writer
  data := data
  received := received
  waited := fun here => writer.trans (waited here)
  met := fun req here same => came (fits.met req here same)

/-- A client that has come further and done nothing to its FIFO. -/
theorem fits_onward (fits : Fits state pid client) (place : ClientPlace)
    (running : place ≠ .failed) (sent : place.sent = client.place.sent)
    (made : place.made = client.place.made) (came : place.came = client.place.came)
    (listening : place.listening = client.place.listening)
    (received : place.received = client.place.received)
    (waited : place = .read → client.fifo.writer = true) :
    Fits state pid (client.moved place) := by
  refine fits_moved state pid client fits _ running sent (fits.present.trans made.symm)
    (fits.reader.trans came.symm) (fits.reading.trans listening.symm) rfl rfl ?_ ?_ waited ?_
  · exact fits.data.trans (by rw [← received]; rfl)
  · exact fun seqNum same => fits.received seqNum (received ▸ same)
  · exact fun earlier => came.trans earlier

include sound there in
theorem client_step_served (room : Nat) (after : State)
    (taken : stepClient room state pid client = some after) : Served lengths after := by
  have fits := sound.fits pid client there
  have silent : client.place.received = none → client.fifo.data = (state.answer pid).toList := by
    intro early
    rw [fits.data, if_pos early]
  unfold stepClient at taken
  split at taken
  · next place =>
      cases taken
      rw [place] at silent
      refine client_served lengths state sound pid client there _ state.fifo (fun _ => rfl) rfl ?_
        (opened_client lengths state sound pid client there _ _ rfl rfl id (Or.inl rfl))
      refine fits_moved state pid client fits _ (fun bad => by cases bad)
        (by rw [place]; rfl) rfl ?_ ?_ rfl rfl
        (silent rfl) (fun _ bad => by cases bad) (fun bad => by cases bad)
          (fun bad => by rw [place] at bad; cases bad)
      · rw [fits.reader, place]
        rfl
      · rw [fits.reading, place]
        rfl
  · next place =>
      split at taken
      · cases taken
        refine client_served lengths state sound pid client there _ _ (fun _ => rfl) rfl ?_
          (opened_client lengths state sound pid client there _ _ rfl rfl
            (fun _ => rfl) (Or.inr rfl))
        refine fits_onward state pid client fits _ (by decide) ?_ ?_ ?_ ?_ ?_
          (fun bad => by cases bad)
        all_goals
          rw [place]
          rfl
      · cases taken
  · next place =>
      split at taken
      · cases taken
        refine connected_served lengths state sound pid client there _ (fun _ => rfl)
          (by rw [place]; decide) (by rw [place]; decide) ?_
        refine fits_onward state pid client fits _ (by decide) ?_ ?_ ?_ ?_ ?_
          (fun bad => by cases bad)
        all_goals
          rw [place]
          rfl
      · cases taken
  · next place =>
      split at taken
      · cases taken
        exact write_served lengths state sound pid client there place
      · cases taken
  · next place =>
      cases taken
      rw [place] at silent
      refine connected_served lengths state sound pid client there _ (fun _ => rfl)
        (by rw [place]; decide) (by rw [place]; decide) ?_
      refine fits_moved state pid client fits _ (fun bad => by cases bad)
        (by rw [place]; rfl) ?_ rfl rfl rfl rfl
        (silent rfl) (fun _ bad => by cases bad) (fun bad => by cases bad) (fun _ => rfl)
      exact fits.present.trans (by rw [place]; rfl)
  · next place =>
      split at taken
      · next come =>
          cases taken
          refine connected_served lengths state sound pid client there _ (fun _ => rfl)
            (by rw [place]; decide) (by rw [place]; decide) ?_
          refine fits_onward state pid client fits _ (by decide) ?_ ?_ ?_ ?_ ?_ (fun _ => come)
          all_goals
            rw [place]
            rfl
      · cases taken
  · next place =>
      have unread := silent (by rw [place]; rfl)
      split at taken
      · next seqNum rest content =>
          cases taken
          rw [content] at unread
          obtain ⟨given, rfl⟩ : state.answer pid = some seqNum ∧ rest = [] := by
            cases answer : state.answer pid with
            | none =>
                rw [answer] at unread
                cases unread
            | some value =>
                rw [answer] at unread
                cases unread
                exact ⟨rfl, rfl⟩
          refine connected_served lengths state sound pid client there _ (fun _ => rfl)
            (by rw [place]; decide) (by rw [place]; decide) ?_
          refine fits_moved state pid client fits _ (fun bad => by cases bad)
            (by rw [place]; rfl) ?_ ?_ ?_ rfl rfl
            rfl ?_ (fun bad => by cases bad) (fun _ => rfl)
          · exact fits.present.trans (by rw [place]; rfl)
          · exact fits.reader.trans (by rw [place]; rfl)
          · exact fits.reading.trans (by rw [place]; rfl)
          · intro value same
            cases same
            exact given
      · next empty =>
          split at taken
          · cases taken
          · -- end of file: the server has closed the FIFO, and it does so after its response
            next closed =>
              exfalso
              have come := fits.waited place
              rw [fits.writer, ← fits.writing, Bool.eq_false_of_not_eq_true closed,
                  Bool.false_or] at come
              obtain ⟨value, answer⟩ := Option.isSome_iff_exists.mp come
              rw [empty, answer] at unread
              cases unread
  · next seqNum place =>
      cases taken
      refine connected_served lengths state sound pid client there _ (fun _ => rfl)
        (by rw [place]; exact fun bad => by cases bad)
          (by rw [place]; exact fun bad => by cases bad) ?_
      refine fits_moved state pid client fits _ (fun bad => by cases bad)
        (by rw [place]; rfl) rfl ?_ rfl rfl rfl ?_ ?_ (fun bad => by cases bad) (fun _ => rfl)
      · exact fits.reader.trans (by rw [place]; rfl)
      · exact fits.data.trans (by rw [place]; rfl)
      · intro value same
        apply fits.received
        rw [place]
        exact same
  · cases taken
  · cases taken

end ClientSteps

section ServerSteps
variable (lengths : List Int) (state : State) (sound : Served lengths state)

include sound in
/-- A step of the server that touches no client's FIFO. -/
theorem place_served (place : ServerPlace) (seqNum : Int) (fifo : ServerFifo)
    (asked : State.asked { state with place, seqNum, fifo } = state.asked)
    (attached : ∀ pid, place.attached pid = state.place.attached pid)
    (met : ∀ req client, place = .write req → state.clients[req.pid]? = some client →
      client.place.came = true)
    (open_ : ∀ req, place ≠ .close req)
    (next : State.next { state with place, seqNum, fifo } = state.next)
    (opened : Opened { state with place, seqNum, fifo }) :
    Served lengths { state with place, seqNum, fifo } := by
  refine ⟨sound.wants, ?_, ?_, ?_, ?_, ?_, opened⟩
  · intro pid client there
    refine fits_kept state _ pid client (sound.fits pid client there) (by rw [asked])
      (attached pid) rfl ?_
    intro req writing same
    subst same
    exact met req client writing there
  · rw [asked]
    exact sound.distinct
  · rw [asked]
    exact sound.owned
  · intro req closing
    exact absurd closing (open_ req)
  · rw [next]
    exact sound.tiles

theorem fifo_of (pid : Nat) (client : Client) (there : state.clients[pid]? = some client) :
    state.fifoOf pid = client.fifo := by
  unfold State.fifoOf
  rw [there]

include sound in
/-- The client whose request the server has read waits for its response. -/
theorem current_client (req : Request) (current : req ∈ state.place.current) :
    ∃ client, state.clients[req.pid]? = some client ∧ client.seqLen = req.seqLen ∧
      client.place.sent = true ∧ client.place.received = none ∧
        state.answer req.pid = none := by
  have arrived : req ∈ state.place.current ++ state.fifo.requests :=
    List.mem_append_left _ current
  have asked : req ∈ state.asked := List.mem_append_right _ arrived
  have unanswered := current_unanswered state sound.distinct req arrived
  have wants := sound.owned req asked
  rw [← sound.wants, List.getElem?_map, Option.map_eq_some_iff] at wants
  obtain ⟨client, there, length⟩ := wants
  have fits := sound.fits req.pid client there
  refine ⟨client, there, length, fits.sent.mpr (List.mem_map_of_mem asked), ?_, unanswered⟩
  cases got : client.place.received with
  | none => rfl
  | some seqNum =>
      rw [fits.received seqNum got] at unanswered
      cases unanswered

include sound in
/-- A step of the server on the FIFO of the client it serves. -/
theorem served_served (req : Request) (place : ServerPlace) (change : Fifo → Fifo)
    (granted : List (Request × Int))
    (asked : State.asked { state.served req.pid place change with granted := granted } =
      state.asked) (attached : ∀ pid, pid ≠ req.pid →
      place.attached pid = state.place.attached pid)
    (answer : ∀ pid, pid ≠ req.pid →
      State.answer { state.served req.pid place change with granted := granted } pid =
        state.answer pid)
    (begun : state.place ≠ .mkfifo) (past : state.place ≠ .open)
    (unmet : ∀ req, place ≠ .write req)
    (mine : ∀ client, state.clients[req.pid]? = some client →
      Fits { state.served req.pid place change with granted := granted } req.pid
        { client with fifo := change client.fifo })
    (answered : ∀ one, place = .close one →
      (State.answer { state.served req.pid place change with granted := granted } one.pid).isSome)
    (tiles : Ranges.Tiles 0 (State.next
      { state.served req.pid place change with granted := granted })
      (granted.map fun grant => ⟨grant.2, grant.1.seqLen⟩)) :
    Served lengths { state.served req.pid place change with granted := granted } := by
  refine ⟨?_, ?_, ?_, ?_, ?_, tiles, ?_⟩
  · have kept := adjusted_map Client.seqLen state req.pid (fun client =>
        { client with fifo := change client.fifo }) fun _ => rfl
    exact kept.trans sound.wants
  · intro pid client found
    obtain ⟨old, home, same⟩ := adjusted state req.pid pid _ client found
    by_cases here : req.pid = pid
    · subst here
      rw [if_pos rfl] at same
      rw [same]
      exact mine old home
    · rw [if_neg here] at same
      subst same
      have other : pid ≠ req.pid := fun same => here same.symm
      exact fits_kept state _ pid client (sound.fits pid client home) (by rw [asked])
        (attached pid other) (answer pid other) (fun req writing _ => absurd writing (unmet req))
  · rw [asked]
    exact sound.distinct
  · rw [asked]
    exact sound.owned
  · exact answered
  · refine ⟨fun _ => sound.opened.present begun, fun _ _ => sound.opened.reader begun past, ?_⟩
    intro client member made connected
    obtain ⟨pid, found⟩ := List.getElem?_of_mem member
    obtain ⟨old, home, same⟩ := adjusted state req.pid pid _ client found
    have place : client.place = old.place := by
      rw [same]
      split <;> rfl
    rw [place] at made connected
    exact sound.opened.writer old (List.mem_of_getElem? home) made connected

include sound in
theorem open_client_served (req : Request) (place : state.place = .openClient req) :
    Served lengths (state.served req.pid (.openingClient req) fun fifo =>
      { fifo with writer := true, writing := true }) := by
  have here : state.place.attached = fun _ => false := by
    funext pid
    rw [place]
    rfl
  refine served_served lengths state sound req (.openingClient req)
    (fun fifo => { fifo with writer := true, writing := true }) state.granted ?_ ?_ (fun _ _ => rfl)
    (by rw [place]; exact fun bad => by cases bad) (by rw [place]; exact fun bad => by cases bad)
    (fun _ bad => by cases bad) ?_ (fun _ bad => by cases bad) ?_
  · unfold State.asked
    rw [place]
    rfl
  · intro pid other
    rw [here]
    exact decide_eq_false fun same => other same.symm
  · intro client there
    obtain ⟨_, _, _, _, _, unanswered⟩ :=
      current_client lengths state sound req (by rw [place]; exact List.mem_cons_self)
    have fits := sound.fits req.pid client there
    have attached : ServerPlace.attached (.openingClient req) req.pid = true := decide_eq_true rfl
    refine ⟨fits.running, ?_, fits.present, fits.reader, fits.reading, attached.symm, ?_,
      fits.data, fits.received, (fun _ => rfl), (fun _ bad => by cases bad)⟩
    · refine fits.sent.trans ?_
      unfold State.asked
      rw [place]
      rfl
    · change true = (ServerPlace.attached (.openingClient req) req.pid || _)
      rw [attached, Bool.true_or]
  · have tiles := sound.tiles
    unfold State.next at tiles
    rw [place] at tiles
    exact tiles

include sound in
theorem opening_client_served (req : Request) (place : state.place = .openingClient req)
    (come : (state.fifoOf req.pid).reader = true) :
    Served lengths { state with place := .write req } := by
  refine place_served lengths state sound (.write req) state.seqNum state.fifo ?_ ?_ ?_
    (fun _ bad => by cases bad) ?_ ?_
  · unfold State.asked
    rw [place]
    rfl
  · intro pid
    rw [place]
    rfl
  · intro one client same there
    cases same
    rw [fifo_of state req.pid client there, (sound.fits req.pid client there).reader] at come
    exact come
  · unfold State.next
    rw [place]
    rfl
  · have begun : state.place ≠ .mkfifo := by rw [place]; exact fun bad => by cases bad
    have past : state.place ≠ .open := by rw [place]; exact fun bad => by cases bad
    exact ⟨fun _ => sound.opened.present begun, fun _ _ => sound.opened.reader begun past,
      sound.opened.writer⟩

theorem answer_granted (req : Request) (seqNum : Int) (fresh : state.answer req.pid = none)
    (pid : Nat) :
    ((state.granted ++ [(req, seqNum)]).find? fun grant => grant.1.pid = pid).map Prod.snd =
      if pid = req.pid then some seqNum else state.answer pid := by
  unfold State.answer at fresh ⊢
  rw [List.find?_append]
  by_cases same : pid = req.pid
  · subst same
    rw [Option.map_eq_none_iff] at fresh
    simp [fresh]
  · have other : ¬ req.pid = pid := fun eq => same eq.symm
    simp [same, other]

include sound in
/-- The response goes to a client that has asked for it, once. -/
theorem write_client_served (positive : ∀ seqLen ∈ lengths, 0 < seqLen) (req : Request)
    (place : state.place = .write req) :
    (state.fifoOf req.pid).reading = true ∧
      Served lengths { state.served req.pid (.close req) (fun fifo =>
        { fifo with data := fifo.data ++ [state.seqNum] }) with
          granted := state.granted ++ [(req, state.seqNum)] } := by
  obtain ⟨client, there, length, _, waiting, unanswered⟩ :=
    current_client lengths state sound req (by rw [place]; exact List.mem_cons_self)
  have fits := sound.fits req.pid client there
  have answer := answer_granted state req state.seqNum unanswered
  have came := fits.met req place rfl
  have attached : ∀ pid, ServerPlace.attached (.close req) pid = state.place.attached pid := by
    intro pid
    rw [place]
    rfl
  have asked : State.asked { state.served req.pid (.close req) (fun fifo =>
      { fifo with data := fifo.data ++ [state.seqNum] }) with
        granted := state.granted ++ [(req, state.seqNum)] } =
      state.asked := by
    unfold State.asked
    rw [place]
    simp [State.served, State.adjust, ServerPlace.current]
  constructor
  · rw [fifo_of state req.pid client there, fits.reading]
    cases here : client.place <;> simp [here, ClientPlace.came, ClientPlace.received,
      ClientPlace.listening] at came waiting ⊢
  · refine served_served lengths state sound req _ _ _ asked (fun pid _ => attached pid) ?_
      (by rw [place]; exact fun bad => by cases bad) (by rw [place]; exact fun bad => by cases bad)
      (fun _ bad => by cases bad) ?_ ?_ ?_
    · intro pid other
      exact (answer pid).trans (if_neg other)
    · intro one found
      rw [there, Option.some.injEq] at found
      subst found
      have given := (answer req.pid).trans (if_pos rfl)
      have open_ : ServerPlace.attached (.close req) req.pid = true := decide_eq_true rfl
      refine ⟨fits.running, ?_, fits.present, fits.reader, fits.reading, ?_, ?_, ?_, ?_,
        fits.waited, fun _ _ _ => came⟩
      · rw [asked]
        exact fits.sent
      · exact fits.writing.trans (attached req.pid).symm
      · refine fits.writer.trans ?_
        rw [← attached, open_, Bool.true_or]
        change true = (ServerPlace.attached (.close req) req.pid || _)
        rw [open_, Bool.true_or]
      · -- nothing was in the FIFO before
        refine Eq.trans (?_ : client.fifo.data ++ [state.seqNum] = [state.seqNum]) ?_
        · rw [fits.data, if_pos waiting, unanswered]
          rfl
        · rw [if_pos waiting]
          exact congrArg Option.toList given.symm
      · intro seqNum bad
        rw [show client.place.received = some seqNum from bad] at waiting
        cases waiting
    · intro one same
      cases same
      exact Option.isSome_iff_exists.mpr ⟨state.seqNum, (answer req.pid).trans (if_pos rfl)⟩
    · have tiles := sound.tiles
      unfold State.next at tiles
      rw [place] at tiles
      have wanted : 0 < req.seqLen := by
        apply positive
        exact List.mem_of_getElem?
          (sound.owned req (by rw [State.asked, place]; simp [ServerPlace.current]))
      have last :=
        Ranges.tiles_snoc _ 0 _ ⟨state.seqNum, req.seqLen⟩ tiles (Int.add_zero _).symm wanted
      rw [List.map_append]
      unfold State.next
      simpa [ServerPlace.owed, State.served, State.adjust] using last

include sound in
theorem close_client_served (req : Request) (place : state.place = .close req) :
    Served lengths (state.served req.pid (.update req) fun fifo =>
      { fifo with writing := false }) := by
  refine served_served lengths state sound req (.update req) (fun fifo =>
    { fifo with writing := false })
      state.granted ?_ ?_ (fun _ _ => rfl)
      (by rw [place]; exact fun bad => by cases bad) (by rw [place]; exact fun bad => by cases bad)
      (fun _ bad => by cases bad) ?_ (fun _ bad => by cases bad) ?_
  · unfold State.asked
    rw [place]
    rfl
  · intro pid other
    rw [place]
    exact (decide_eq_false fun same => other same.symm).symm
  · intro client there
    have fits := sound.fits req.pid client there
    have answered := sound.answered req place
    refine ⟨fits.running, ?_, fits.present, fits.reader, fits.reading, rfl, ?_,
      fits.data, fits.received, fits.waited, (fun _ bad => by cases bad)⟩
    · refine fits.sent.trans ?_
      unfold State.asked
      rw [place]
      rfl
    · refine fits.writer.trans ?_
      rw [answered, Bool.or_true]
      exact answered.symm
  · have tiles := sound.tiles
    unfold State.next at tiles
    rw [place] at tiles
    exact tiles

include sound in
/-- Nothing is granted twice, so the counter stays below the sum of all lengths. -/
theorem next_bounded (positive : ∀ seqLen ∈ lengths, 0 < seqLen) :
    0 ≤ state.next ∧ state.next ≤ lengths.sum := by
  refine ⟨Ranges.tiles_le _ _ _ sound.tiles, ?_⟩
  have sum := Ranges.tiles_length _ _ _ sound.tiles
  rw [Int.zero_add, List.map_map] at sum
  have wants : state.granted.map (Ranges.Range.length ∘ fun grant =>
    ⟨grant.2, grant.1.seqLen⟩) =
      ((state.granted.map Prod.fst).map Request.pid).map fun pid => lengths.getD pid 0 := by
    rw [List.map_map, List.map_map]
    apply List.map_congr_left
    intro grant member
    have own := sound.owned grant.1 (List.mem_append_left _ (List.mem_map_of_mem member))
    simp [List.getD, own]
  have distinct := sound.distinct
  rw [State.asked, List.map_append, List.nodup_append] at distinct
  rw [sum, wants]
  exact Indexed.sum_distinct lengths (fun seqLen member => (positive seqLen member).le) _ distinct.1

include sound in
theorem update_served (positive : ∀ seqLen ∈ lengths, 0 < seqLen)
    (fitting : lengths.sum < 2 ^ 31) (req : Request) (place : state.place = .update req) :
    Served lengths
      { state with place := .read, seqNum := (state.seqNum + req.seqLen).bmod (2 ^ 32) } := by
  have next : state.next = state.seqNum + req.seqLen := by
    rw [State.next, place]
    rfl
  have exact_ : (state.seqNum + req.seqLen).bmod (2 ^ 32) = state.seqNum + req.seqLen := by
    obtain ⟨least, most⟩ := next_bounded lengths state sound positive
    rw [next] at least most
    apply Int.bmod_eq_of_le <;> omega
  refine place_served lengths state sound .read _ state.fifo ?_ ?_ (fun _ _ bad => by cases bad)
    (fun _ bad => by cases bad) ?_ ?_
  · unfold State.asked
    rw [place]
    rfl
  · intro pid
    rw [place]
    rfl
  · rw [next, State.next, exact_]
    exact Int.add_zero _
  · have begun : state.place ≠ .mkfifo := by rw [place]; exact fun bad => by cases bad
    have past : state.place ≠ .open := by rw [place]; exact fun bad => by cases bad
    exact ⟨fun _ => sound.opened.present begun, fun _ _ => sound.opened.reader begun past,
      sound.opened.writer⟩

/-- No client's FIFO is open and nothing is owed. -/
structure ServerPlace.Detached (place : ServerPlace) : Prop where
  attached : ∀ pid, place.attached pid = false
  owed : place.owed = 0
  writes : ∀ req, place ≠ .write req
  closes : ∀ req, place ≠ .close req

theorem detached_between (place : ServerPlace)
    (between : place ∈ [.mkfifo, .open, .opening, .openDummy, .read] ∨ ∃ req,
      place = .openClient req) : place.Detached := by
  simp only [List.mem_cons, List.not_mem_nil, or_false] at between
  rcases between with (rfl | rfl | rfl | rfl | rfl) | ⟨req, rfl⟩ <;>
    exact ⟨fun _ => rfl, rfl, (fun _ bad => by cases bad), (fun _ bad => by cases bad)⟩

include sound in
/-- A step between two clients. -/
theorem idle_served (place : ServerPlace) (fifo : ServerFifo) (here : state.place.Detached)
    (there : place.Detached)
    (asked : place.current ++ fifo.requests = state.place.current ++ state.fifo.requests)
    (opened : Opened { state with place, fifo }) : Served lengths { state with place, fifo } := by
  refine place_served lengths state sound place state.seqNum fifo ?_ ?_ (fun req _ bad =>
    absurd bad (there.writes req))
      there.closes ?_ opened
  · unfold State.asked
    rw [← asked]
  · intro pid
    rw [here.attached, there.attached]
  · unfold State.next
    rw [here.owed, there.owed]

include sound in
theorem server_step_served (positive : ∀ seqLen ∈ lengths, 0 < seqLen)
    (fitting : lengths.sum < 2 ^ 31) (after : State) (taken : stepServer state = some after) :
    Served lengths after := by
  -- the first five cases lie between two clients
  have idle : ∀ place fifo, state.place ∈ [.mkfifo, .open, .opening, .openDummy, .read] →
      (place ∈ [.mkfifo, .open, .opening, .openDummy, .read] ∨ ∃ req,
        place = .openClient req) →
      place.current ++ fifo.requests = state.place.current ++ state.fifo.requests →
      Opened { state with place, fifo } → Served lengths { state with place, fifo } :=
        fun place fifo here there =>
    idle_served lengths state sound place fifo (detached_between _ (Or.inl here))
      (detached_between _ there)
  unfold stepServer at taken
  split at taken
  · next place =>
      cases taken
      apply idle
      · simp [place]
      · simp
      · rw [place]
        rfl
      · exact ⟨fun _ => rfl, fun _ bad => absurd rfl bad, sound.opened.writer⟩
  · next place =>
      cases taken
      have present := sound.opened.present (by rw [place]; exact fun bad => by cases bad)
      apply idle
      · simp [place]
      · simp
      · rw [place]
        rfl
      · exact ⟨fun _ => present, fun _ _ => rfl, sound.opened.writer⟩
  · next place =>
      have present := sound.opened.present (by rw [place]; exact fun bad => by cases bad)
      have reader := sound.opened.reader (by rw [place]; exact fun bad => by cases bad)
        (by rw [place]; exact fun bad => by cases bad)
      split at taken
      · cases taken
        apply idle
        · simp [place]
        · simp
        · rw [place]
          rfl
        · exact ⟨fun _ => present, fun _ _ => reader, sound.opened.writer⟩
      · cases taken
  · next place =>
      have present := sound.opened.present (by rw [place]; exact fun bad => by cases bad)
      have reader := sound.opened.reader (by rw [place]; exact fun bad => by cases bad)
        (by rw [place]; exact fun bad => by cases bad)
      cases taken
      apply idle
      · simp [place]
      · simp
      · rw [place]
        rfl
      · exact ⟨fun _ => present, fun _ _ => reader, fun _ _ _ _ => rfl⟩
  · next place =>
      have present := sound.opened.present (by rw [place]; exact fun bad => by cases bad)
      have reader := sound.opened.reader (by rw [place]; exact fun bad => by cases bad)
        (by rw [place]; exact fun bad => by cases bad)
      split at taken
      · next req rest waiting =>
          cases taken
          apply idle
          · simp [place]
          · simp
          · rw [place, waiting]
            rfl
          · exact ⟨fun _ => present, fun _ _ => reader, sound.opened.writer⟩
      · cases taken
  · next req place =>
      split at taken
      · cases taken
        exact open_client_served lengths state sound req place
      · -- ENOENT: the client removes its FIFO only after it has received the response
        next missing =>
          exfalso
          obtain ⟨client, there, _, sent, waiting, _⟩ :=
            current_client lengths state sound req (by rw [place]; exact List.mem_cons_self)
          rw [fifo_of state req.pid client there,
              (sound.fits req.pid client there).present] at missing
          have running := (sound.fits req.pid client there).running
          cases here : client.place <;>
            simp [here, ClientPlace.sent, ClientPlace.received,
              ClientPlace.made] at sent waiting missing running
  · next req place =>
      split at taken
      · next come =>
          cases taken
          exact opening_client_served lengths state sound req place come
      · cases taken
  · next req place =>
      obtain ⟨reading, fine⟩ := write_client_served lengths state sound positive req place
      split at taken
      · cases taken
        exact fine
      · next closed => exact absurd reading closed
  · next req place =>
      cases taken
      exact close_client_served lengths state sound req place
  · next req place =>
      cases taken
      exact update_served lengths state sound positive fitting req place

end ServerSteps

theorem start_served (lengths : List Int) : Served lengths (start lengths) := by
  have first : ∀ client ∈ (start lengths).clients,
      client.place = .mkfifo ∧ client.fifo = ⟨false, false, false, false, false, []⟩ := by
    intro client member
    obtain ⟨seqLen, _, rfl⟩ := List.mem_map.mp member
    exact ⟨rfl, rfl⟩
  refine ⟨?_, ?_, List.nodup_nil, (fun _ bad => by cases bad),
    (fun _ bad => by cases bad), rfl, ?_⟩
  · change (lengths.map _).map Client.seqLen = lengths
    rw [List.map_map]
    exact List.map_id lengths
  · intro pid client there
    obtain ⟨place, fifo⟩ := first client (List.mem_of_getElem? there)
    constructor <;> simp [place, fifo, start, State.asked, State.answer, ServerPlace.current,
      ServerPlace.attached, ClientPlace.sent, ClientPlace.made, ClientPlace.came,
      ClientPlace.listening, ClientPlace.received]
  · refine ⟨fun bad => absurd rfl bad, fun bad => absurd rfl bad, ?_⟩
    intro client member bad
    exact absurd (first client member).1 bad

section Runs
variable (room : Nat) (lengths : List Int) (positive : ∀ seqLen ∈ lengths, 0 < seqLen)
  (fitting : lengths.sum < 2 ^ 31)

include positive fitting

theorem step_served (choice : Choice) (before after : State) (sound : Served lengths before)
    (taken : step room choice before = some after) : Served lengths after := by
  cases choice with
  | client pid =>
      obtain ⟨client, there, moved⟩ := Option.bind_eq_some_iff.mp taken
      exact client_step_served lengths before sound pid client there room after moved
  | server => exact server_step_served lengths before sound positive fitting after taken

theorem run_served (state : State)
    (reached : Transition.Reachable (· = start lengths) (step room) state) :
    Served lengths state := by
  refine Transition.reachable_invariant ?_ (step_served room lengths positive fitting) reached
  rintro state rfl
  exact start_served lengths

end Runs

/-! Every step uses up some of what is left to do. -/

def ClientPlace.rank : ClientPlace → Nat
  | .mkfifo => 15
  | .openServer => 14
  | .openingServer => 13
  | .write => 12
  | .open => 4
  | .opening => 3
  | .read => 2
  | .print _ => 1
  | .exited _ => 0
  | .failed => 0

def ServerPlace.rank : ServerPlace → Nat
  | .mkfifo => 4
  | .open => 3
  | .opening => 2
  | .openDummy => 1
  | .read => 0
  | .openClient _ => 5
  | .openingClient _ => 4
  | .write _ => 3
  | .close _ => 2
  | .update _ => 1

def clientsRank (clients : List Client) : Nat := (clients.map fun client => client.place.rank).sum

def State.rank (state : State) : Nat :=
  clientsRank state.clients + 6 * state.fifo.requests.length + state.place.rank

theorem adjusted_rank (state : State) (pid : Nat) (client : Client)
    (there : state.clients[pid]? = some client) (change : Client → Client) :
    clientsRank (state.adjust pid change).clients + client.place.rank =
      clientsRank state.clients + (change client).place.rank := by
  have set : (state.adjust pid change).clients = state.clients.set pid (change client) := by
    unfold State.adjust
    apply List.ext_getElem?
    intro position
    rw [List.getElem?_modify, List.getElem?_set]
    by_cases here : pid = position
    · subst here
      obtain ⟨inside, same⟩ := List.getElem?_eq_some_iff.mp there
      simp [inside, same]
    · simp [here]
  rw [set]
  exact Indexed.sum_set (fun client => client.place.rank) state.clients pid client
    (change client) there

theorem client_step_rank (room : Nat) (state : State) (pid : Nat) (client : Client)
    (there : state.clients[pid]? = some client) (after : State)
    (taken : stepClient room state pid client = some after) : after.rank < state.rank := by
  have moved := adjusted_rank state pid client there
  have own : client.place.rank ≤ clientsRank state.clients :=
    List.single_le_sum (fun _ _ => Nat.zero_le _) _
      (List.mem_map_of_mem (List.mem_of_getElem? there))
  -- only a written request adds to the server's work, and less than its client loses
  have lower : ∀ change fifo, (change client).place.rank + 6 * fifo.requests.length <
      client.place.rank + 6 * state.fifo.requests.length →
      State.rank { state.adjust pid change with fifo := fifo } < state.rank := by
    intro change fifo drop
    have sum := moved change
    change clientsRank (state.adjust pid change).clients + 6 * fifo.requests.length +
      state.place.rank < _
    unfold State.rank
    omega
  unfold stepClient at taken
  split at taken
  · next place =>
      cases taken
      exact lower _ state.fifo (by rw [place]; simp [ClientPlace.rank])
  · next place =>
      split at taken
      · cases taken
        exact lower _ _ (by rw [place]; simp [ClientPlace.rank, Client.moved])
      · cases taken
  · next place =>
      split at taken
      · cases taken
        exact lower _ state.fifo (by rw [place]; simp [ClientPlace.rank, Client.moved])
      · cases taken
  · next place =>
      split at taken
      · cases taken
        exact lower _ _ (by rw [place]; simp [ClientPlace.rank, Client.moved]; omega)
      · cases taken
  · next place =>
      cases taken
      exact lower _ state.fifo (by rw [place]; simp [ClientPlace.rank])
  · next place =>
      split at taken
      · cases taken
        exact lower _ state.fifo (by rw [place]; simp [ClientPlace.rank, Client.moved])
      · cases taken
  · next place =>
      split at taken
      · cases taken
        exact lower _ state.fifo (by rw [place]; simp [ClientPlace.rank])
      · split at taken
        · cases taken
        · cases taken
          exact lower _ state.fifo (by rw [place]; simp [ClientPlace.rank, Client.moved])
  · next seqNum place =>
      cases taken
      exact lower _ state.fifo (by rw [place]; simp [ClientPlace.rank])
  · cases taken
  · cases taken

theorem server_step_rank (state after : State) (taken : stepServer state = some after) :
    after.rank < state.rank := by
  have kept : ∀ pid place change,
      clientsRank (state.served pid place change).clients = clientsRank state.clients := by
    intro pid place change
    exact congrArg List.sum (adjusted_map (fun client => client.place.rank) state pid
      (fun client => { client with fifo := change client.fifo }) fun _ => rfl)
  unfold stepServer at taken
  split at taken
  case h_5 place =>
      split at taken
      · next req rest waiting =>
          cases taken
          simp only [State.rank, place, waiting, ServerPlace.rank, List.length_cons]
          omega
      · cases taken
  case h_6 req place =>
      split at taken
      · cases taken
        have same := kept req.pid (.openingClient req) fun fifo =>
            { fifo with writer := true, writing := true }
        simp only [State.rank, same]
        simp [State.served, State.adjust, place, ServerPlace.rank]
      · cases taken
        simp [State.rank, place, ServerPlace.rank]
  case h_8 req place =>
      split at taken
      · cases taken
        have same :=
          kept req.pid (.close req) fun fifo => { fifo with data := fifo.data ++ [state.seqNum] }
        simp only [State.rank, same]
        simp [State.served, State.adjust, place, ServerPlace.rank]
      · cases taken
        simp [State.rank, place, ServerPlace.rank]
  case h_9 req place =>
      cases taken
      have same := kept req.pid (.update req) fun fifo => { fifo with writing := false }
      simp only [State.rank, same]
      simp [State.served, State.adjust, place, ServerPlace.rank]
  all_goals
    next place =>
      first
        | cases taken
          simp [State.rank, place, ServerPlace.rank]
        | split at taken
          · cases taken
            simp [State.rank, place, ServerPlace.rank]
          · cases taken

theorem step_rank (room : Nat) (choice : Choice) (before after : State)
    (taken : step room choice before = some after) : after.rank < before.rank := by
  cases choice with
  | client pid =>
      obtain ⟨client, there, moved⟩ := Option.bind_eq_some_iff.mp taken
      exact client_step_rank room before pid client there after moved
  | server => exact server_step_rank before after taken

/-! A system in which nobody can move has served every client. -/

theorem waiting_places (place : ClientPlace) (running : place ≠ .failed)
    (sent : place.sent = true) (waiting : place.received = none) :
    place = .open ∨ place = .opening ∨ place = .read := by
  cases place <;> simp [ClientPlace.sent, ClientPlace.received] at running sent waiting ⊢

section Stuck
variable (room : Nat) (spacious : 0 < room) (lengths : List Int) (state : State)
  (sound : Served lengths state) (stuck : ∀ choice, step room choice state = none)

include stuck in
theorem client_stuck (pid : Nat) (client : Client) (there : state.clients[pid]? = some client) :
    stepClient room state pid client = none := by
  have still := stuck (.client pid)
  simpa [step, there] using still

include sound stuck in
/-- The server can only wait for the first client or for a request. -/
theorem server_stuck : (state.place = .opening ∧ state.fifo.writer = false) ∨
    state.place = .read ∧ state.fifo.requests = [] := by
  have still : stepServer state = none := stuck .server
  cases place : state.place with
  | opening => exact Or.inl ⟨rfl, by simpa [stepServer, place] using still⟩
  | read =>
      cases waiting : state.fifo.requests with
      | nil => exact Or.inr ⟨rfl, rfl⟩
      | cons req rest => simp [stepServer, place, waiting] at still
  | openingClient req =>
      -- the client has sent its request, so it is about to open its FIFO
      obtain ⟨client, there, _, sent, waiting, _⟩ :=
        current_client lengths state sound req (by rw [place]; exact List.mem_cons_self)
      have fits := sound.fits req.pid client there
      have quiet := client_stuck room state stuck req.pid client there
      simp only [stepServer, place, fifo_of state req.pid client there, fits.reader] at still
      rcases waiting_places client.place fits.running sent waiting with here | here | here
      · simp [stepClient, here] at quiet
      · simp [here, ClientPlace.came] at still
      · simp [here, ClientPlace.came] at still
  | mkfifo => simp [stepServer, place] at still
  | «open» => simp [stepServer, place] at still
  | openDummy => simp [stepServer, place] at still
  | openClient req => simp only [stepServer, place] at still; split at still <;> cases still
  | write req => simp only [stepServer, place] at still; split at still <;> cases still
  | close req => simp [stepServer, place] at still
  | update req => simp [stepServer, place] at still

include spacious sound stuck

theorem clients_stuck (pid : Nat) (client : Client) (there : state.clients[pid]? = some client) :
    state.place = .read ∧ ∃ seqNum, client.place = .exited seqNum := by
  have fits := sound.fits pid client there
  have quiet := client_stuck room state stuck pid client there
  have serving := server_stuck room lengths state sound stuck
  have present : state.fifo.present = true := by
    apply sound.opened.present
    rcases serving with ⟨place, _⟩ | ⟨place, _⟩ <;> rw [place] <;> decide
  have reader : state.fifo.reader = true := by
    apply sound.opened.reader
    · rcases serving with ⟨place, _⟩ | ⟨place, _⟩ <;> rw [place] <;> decide
    · rcases serving with ⟨place, _⟩ | ⟨place, _⟩ <;> rw [place] <;> decide
  have begun : client.place ≠ .mkfifo := by
    intro here
    simp [stepClient, here] at quiet
  have connected : client.place ≠ .openServer := by
    intro here
    simp [stepClient, here, present] at quiet
  obtain ⟨place, empty⟩ : state.place = .read ∧ state.fifo.requests = [] := by
    rcases serving with ⟨_, bad⟩ | fine
    · rw [past_open lengths state sound pid client there begun connected] at bad
      cases bad
    · exact fine
  have detached : state.place.attached pid = false := by
    rw [place]
    rfl
  -- with no request left, a client that has asked has been answered
  have answered : client.place.sent = true → ∃ seqNum, state.answer pid = some seqNum := by
    intro sent
    have asked := fits.sent.mp sent
    rw [State.asked, place, empty] at asked
    apply Option.isSome_iff_exists.mp
    rw [answer_asked]
    simpa [ServerPlace.current] using asked
  refine ⟨place, ?_⟩
  cases here : client.place with
  | mkfifo => exact absurd here begun
  | openServer => exact absurd here connected
  | openingServer => simp [stepClient, here, reader] at quiet
  | write => simp [stepClient, here, empty, spacious] at quiet
  | «open» => simp [stepClient, here] at quiet
  | opening =>
      obtain ⟨seqNum, answer⟩ := answered (by rw [here]; rfl)
      simp [stepClient, here, fits.writer, detached, answer] at quiet
  | read =>
      obtain ⟨seqNum, answer⟩ := answered (by rw [here]; rfl)
      have data := fits.data
      rw [here, answer] at data
      rw [stepClient, here] at quiet
      dsimp only at quiet
      rw [data] at quiet
      cases quiet
  | print seqNum => simp [stepClient, here] at quiet
  | exited seqNum => exact ⟨seqNum, rfl⟩
  | failed => exact absurd here fits.running

end Stuck

section Answers
variable (lengths : List Int) (state : State) (sound : Served lengths state)
include sound

theorem grants_distinct : (state.granted.map fun grant => grant.1.pid).Nodup := by
  have distinct := sound.distinct
  rw [State.asked, List.map_append, List.nodup_append, List.map_map] at distinct
  exact distinct.1

theorem grant_answer (grant : Request × Int) (member : grant ∈ state.granted) :
    state.answer grant.1.pid = some grant.2 := by
  obtain ⟨seqNum, answer⟩ : ∃ seqNum, state.answer grant.1.pid = some seqNum := by
    apply Option.isSome_iff_exists.mp
    rw [answer_asked, List.map_map]
    exact List.mem_map.mpr ⟨grant, member, rfl⟩
  unfold State.answer at answer ⊢
  rw [Option.map_eq_some_iff] at answer
  obtain ⟨other, found, rfl⟩ := answer
  have same : other.1.pid = grant.1.pid := by simpa using List.find?_some found
  have one := List.inj_on_of_nodup_map (grants_distinct lengths state sound)
    (List.mem_of_find?_eq_some found) member same
  rw [found, one]
  rfl

/-- The answer to a client is the one response to its own request. -/
theorem answer_grant (pid : Nat) (client : Client) (there : state.clients[pid]? = some client)
    (seqNum : Int) (answer : state.answer pid = some seqNum) :
    (⟨pid, client.seqLen⟩, seqNum) ∈ state.granted := by
  unfold State.answer at answer
  rw [Option.map_eq_some_iff] at answer
  obtain ⟨⟨req, value⟩, found, rfl⟩ := answer
  have member := List.mem_of_find?_eq_some found
  have same : req.pid = pid := by simpa using List.find?_some found
  have wants := sound.owned req (List.mem_append_left _ (List.mem_map.mpr ⟨_, member, rfl⟩))
  rw [← sound.wants, List.getElem?_map, same, there, Option.map_some, Option.some.injEq] at wants
  rw [show (⟨pid, client.seqLen⟩ : Request) = req by rw [wants, ← same]]
  exact member

theorem grants_disjoint (one other : Request × Int) (member : one ∈ state.granted)
    (belongs : other ∈ state.granted) (different : one.1.pid ≠ other.1.pid) :
    Disjoint (Ranges.Range.numbers ⟨one.2, one.1.seqLen⟩) (Ranges.Range.numbers ⟨other.2,
      other.1.seqLen⟩) := by
  have pairwise := Ranges.tiles_disjoint _ _ _ sound.tiles
  rw [List.pairwise_map] at pairwise
  have symmetric : Std.Symm fun one other : Request × Int =>
      Disjoint (Ranges.Range.numbers ⟨one.2, one.1.seqLen⟩) (Ranges.Range.numbers ⟨other.2,
        other.1.seqLen⟩) :=
    ⟨fun _ _ apart => apart.symm⟩
  refine List.Pairwise.forall pairwise member belongs ?_
  intro same
  exact different (by rw [same])

end Answers

/-- What clients with distinct PIDs can rely on in every state of every interleaving. -/
structure Allotted (state : State) : Prop where
  running : ∀ client ∈ state.clients, client.place ≠ .failed
  once : (state.granted.map fun grant => grant.1.pid).Nodup
  own : ∀ (pid : Nat) client seqNum, state.clients[pid]? = some client →
    client.place.received = some seqNum →
    (⟨pid, client.seqLen⟩, seqNum) ∈ state.granted
  disjoint : ∀ (one other : Nat) first second here there, one ≠ other →
    state.clients[one]? = some first →
    state.clients[other]? = some second → first.place.received = some here →
      second.place.received = some there →
    Disjoint (first.range here).numbers (second.range there).numbers
  interval : ∀ number, number ∈ Set.Ico 0 state.next ↔
    ∃ grant ∈ state.granted, number ∈ Ranges.Range.numbers ⟨grant.2, grant.1.seqLen⟩

/-- Every client has its response, and the ranges make up the interval up to `seqNum`. -/
structure Complete (state : State) : Prop where
  exited : ∀ client ∈ state.clients, ∃ seqNum, client.place = .exited seqNum
  interval : ∀ number, number ∈ Set.Ico 0 state.seqNum ↔
    ∃ client ∈ state.clients,
      ∃ seqNum, client.place = .exited seqNum ∧ number ∈ (client.range seqNum).numbers

theorem served_allotted (lengths : List Int) (state : State) (sound : Served lengths state) :
    Allotted state := by
  have own : ∀ (pid : Nat) client seqNum, state.clients[pid]? = some client →
      client.place.received = some seqNum →
        (⟨pid, client.seqLen⟩, seqNum) ∈ state.granted := by
    intro pid client seqNum there got
    exact answer_grant lengths state sound pid client there seqNum
      ((sound.fits pid client there).received seqNum got)
  refine ⟨?_, grants_distinct lengths state sound, own, ?_, ?_⟩
  · intro client member
    obtain ⟨pid, there⟩ := List.getElem?_of_mem member
    exact (sound.fits pid client there).running
  · intro one other first second here there different found home got given
    exact grants_disjoint lengths state sound _ _ (own one first here found got)
      (own other second there home given) different
  · intro number
    rw [Ranges.tiles_cover _ _ _ sound.tiles]
    simp only [List.mem_map, exists_exists_and_eq_and]

theorem stuck_complete (room : Nat) (spacious : 0 < room) (lengths : List Int) (state : State)
    (sound : Served lengths state) (stuck : ∀ choice, step room choice state = none) :
    Complete state := by
  have done := clients_stuck room spacious lengths state sound stuck
  have next : state.next = state.seqNum := by
    rcases server_stuck room lengths state sound stuck with ⟨place, _⟩ | ⟨place, _⟩
    · rw [State.next, place]
      exact Int.add_zero _
    · rw [State.next, place]
      exact Int.add_zero _
  refine ⟨?_, ?_⟩
  · intro client member
    obtain ⟨pid, there⟩ := List.getElem?_of_mem member
    exact (done pid client there).2
  · intro number
    rw [← next, (served_allotted lengths state sound).interval]
    constructor
    · rintro ⟨grant, member, inside⟩
      have wants := sound.owned grant.1 (List.mem_append_left _ (List.mem_map_of_mem member))
      rw [← sound.wants, List.getElem?_map, Option.map_eq_some_iff] at wants
      obtain ⟨client, there, length⟩ := wants
      obtain ⟨_, seqNum, place⟩ := done grant.1.pid client there
      have got := (sound.fits grant.1.pid client there).received seqNum (by rw [place]; rfl)
      rw [grant_answer lengths state sound grant member, Option.some.injEq] at got
      refine ⟨client, List.mem_of_getElem? there, seqNum, place, ?_⟩
      rw [Client.range, length, ← got]
      exact inside
    · rintro ⟨client, member, seqNum, place, inside⟩
      obtain ⟨pid, there⟩ := List.getElem?_of_mem member
      refine ⟨(⟨pid, client.seqLen⟩, seqNum), ?_, inside⟩
      exact (served_allotted lengths state sound).own pid client seqNum there (by rw [place]; rfl)

/-- In every interleaving no client fails or gets the response to another's request, the
granted ranges are disjoint and fill the interval up to the counter, and the run ends
with every client served. -/
theorem sequence_numbers_are_allotted_once (room : Nat) (spacious : 0 < room) (lengths : List Int)
    (positive : ∀ seqLen ∈ lengths, 0 < seqLen) (fitting : lengths.sum < 2 ^ 31) :
    (∀ state, Transition.Reachable (· = start lengths) (step room) state →
      Allotted state ∧ ((∀ choice, step room choice state = none) → Complete state)) ∧
    ∀ choices state, Transition.replay (step room) choices (start lengths) = some state →
      choices.length ≤ (start lengths).rank := by
  constructor
  · intro state reached
    have sound := run_served room lengths positive fitting state reached
    exact ⟨served_allotted lengths state sound,
      stuck_complete room spacious lengths state sound⟩
  · intro choices state replayed
    have bounded := Transition.counted_choices_bounded (step room) State.rank (fun _ => true)
      (fun choice before after _ => step_rank room choice before after) (fun _ _ _ bad =>
        by cases bad) choices replayed
    rw [List.filter_true] at bounded
    omega

-- The second client's request overtakes the first one's.
theorem two_clients_are_served :
    ∃ state, Transition.replay (step 8)
        [.server, .client 0, .client 1, .client 1, .client 0, .server, .client 1,
          .client 1, .server, .server, .client 0, .client 0, .server, .server, .client 1, .client 1,
          .server, .server, .client 1, .server, .server, .client 1, .server, .server, .client 0,
          .client 0, .server, .server, .server, .client 0, .client 0, .server]
        (start [3, 5]) = some state ∧
      state.granted = [(⟨1, 5⟩, 0), (⟨0, 3⟩, 5)] ∧ state.seqNum = 8 ∧
        Allotted state := by
  obtain ⟨state, replayed, granted, seqNum⟩ : ∃ state, Transition.replay (step 8)
      [.server, .client 0, .client 1, .client 1, .client 0, .server, .client 1,
        .client 1, .server, .server, .client 0, .client 0, .server, .server, .client 1, .client 1,
        .server, .server, .client 1, .server, .server, .client 1, .server, .server, .client 0,
        .client 0, .server, .server, .server, .client 0, .client 0, .server]
      (start [3, 5]) = some state ∧ state.granted = [(⟨1, 5⟩, 0), (⟨0, 3⟩, 5)] ∧
        state.seqNum = 8 :=
    ⟨_, rfl, by decide, by decide⟩
  have reached : Transition.Reachable (· = start [3, 5]) (step 8) state :=
    Transition.replay_reachable _ (.start rfl) replayed
  exact ⟨state, replayed, granted, seqNum,
    ((sequence_numbers_are_allotted_once 8 (by decide) [3, 5] (by decide) (by decide)).1
      state reached).1⟩

end Tlpi.SequenceFifo
