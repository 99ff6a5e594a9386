import Mathlib.Algebra.Order.Ring.Int
import Tlpi.Indexed
import Tlpi.Transition

/-!
svmsg/svmsg_file_server.c, svmsg/svmsg_file_client.c and svmsg/svmsg_file.h.
Any number of clients, the server loop and one child for each request move one
system call at a time. Message queues are FIFO; `msgsnd` waits for room in a
queue of `qbytes` bytes; a queue identifier is the position at which `msgget`
created the queue, so identifiers are private. A `read` answers with any
nonempty block that fits. `files` gives the contents of the files that can be
opened. `sent` and `received` are histories, read by no step.
-/

namespace Tlpi.FileServer

open Transition Indexed

def PATH_MAX : Nat := 4096

/-- `sizeof(int) + PATH_MAX`: the members after `mtype` leave no padding. -/
def REQ_MSG_SIZE : Nat := 4 + PATH_MAX

def RESP_MSG_SIZE : Nat := 8192

structure Request where
  clientId : Nat
  pathname : List UInt8
  deriving DecidableEq

inductive RespType where
  | failure
  | data
  | finish
  deriving DecidableEq

structure Response where
  mtype : RespType
  data : List UInt8
  deriving DecidableEq

/-- The bytes of "Couldn't open" with the terminating null. -/
def couldntOpen : List UInt8 :=
  [0x43, 0x6f, 0x75, 0x6c, 0x64, 0x6e, 0x27, 0x74, 0x20, 0x6f, 0x70, 0x65, 0x6e, 0]

inductive ClientAt where
  | start
  | send
  | first
  | loop (mtype : RespType) (totBytes numMsgs : Nat)
  | tooLong
  | failed (text : List UInt8)
  | finished (totBytes numMsgs : Nat)
  deriving DecidableEq

structure Client where
  pathname : List UInt8
  clientId : Option Nat
  pc : ClientAt
  received : List Response
  deriving DecidableEq

inductive ChildAt where
  | openFile
  | sendFailure
  | read (rest : List UInt8)
  | sendData (block rest : List UInt8)
  | sendEnd
  | exited
  deriving DecidableEq

structure Child where
  req : Request
  pc : ChildAt
  sent : List Response
  deriving DecidableEq

inductive ServerAt where
  | receive
  | fork (req : Request)
  deriving DecidableEq

/-- A queue removed by its owner is `none`. -/
structure System where
  clients : List Client
  queues : List (Option (List Response))
  serverQueue : List Request
  server : ServerAt
  children : List Child
  deriving DecidableEq

inductive Choice where
  | client (index : Nat)
  | server
  | serverInterrupted
  | child (index count : Nat)
  deriving DecidableEq

def hasRoom (qbytes : Nat) (sizes : List Nat) (size : Nat) : Bool :=
  size + sizes.sum ≤ qbytes && 1 + sizes.length ≤ qbytes

def msgsnd (qbytes : Nat) (queues : List (Option (List Response))) (id : Nat) (msg : Response) :
    Option (List (Option (List Response))) :=
  match queues[id]? with
  | some (some queue) =>
      if hasRoom qbytes (queue.map (·.data.length)) msg.data.length then
        some (queues.set id (some (queue ++ [msg])))
      else none
  | _ => none

def msgrcv (queues : List (Option (List Response))) (id : Nat) :
    Option (Response × List (Option (List Response))) :=
  match queues[id]? with
  | some (some (msg :: rest)) => some (msg, queues.set id (some rest))
  | _ => none

/-- `exit` runs `removeQueue`. -/
def removeQueue (queues : List (Option (List Response))) (id : Nat) :
    List (Option (List Response)) := queues.set id none

def clientMove (qbytes : Nat) (s : System) (client : Client) :
    Option (Client × List (Option (List Response)) × List Request) :=
  match client.pc, client.clientId with
  | .start, _ =>
      if client.pathname.length > PATH_MAX - 1 then
        some ({ client with pc := .tooLong }, s.queues, s.serverQueue)
      else some ({ client with clientId := some s.queues.length, pc := .send },
        s.queues ++ [some []], s.serverQueue)
  | .send, some id =>
      if hasRoom qbytes (s.serverQueue.map fun _ => REQ_MSG_SIZE) REQ_MSG_SIZE then
        some ({ client with pc := .first }, s.queues, s.serverQueue ++ [⟨id, client.pathname⟩])
      else none
  | .first, some id => (msgrcv s.queues id).map fun (resp, queues) =>
      let client := { client with received := client.received ++ [resp] }
      match resp.mtype with
      | .failure => ({ client with pc := .failed resp.data }, removeQueue queues id, s.serverQueue)
      | _ => ({ client with pc := .loop resp.mtype resp.data.length 1 }, queues, s.serverQueue)
  | .loop .data totBytes numMsgs, some id => (msgrcv s.queues id).map fun (resp, queues) =>
      ({ client with
          received := client.received ++ [resp]
          pc := .loop resp.mtype (totBytes + resp.data.length) (numMsgs + 1) },
        queues, s.serverQueue)
  | .loop _ totBytes numMsgs, some id =>
      some ({ client with pc := .finished totBytes numMsgs }, removeQueue s.queues id,
        s.serverQueue)
  | _, _ => none

def clientStep (qbytes index : Nat) (s : System) : Option System :=
  match s.clients[index]? with
  | none => none
  | some client => (clientMove qbytes s client).map fun (client, queues, serverQueue) =>
      { s with
        clients := s.clients.set index client
        queues := queues
        serverQueue := serverQueue }

/-- The server loop: an interrupted `msgrcv` is repeated; the child of `fork`
keeps its own copy of the request. -/
def serverStep (s : System) : Option System :=
  match s.server, s.serverQueue with
  | .receive, req :: rest => some { s with server := .fork req, serverQueue := rest }
  | .receive, [] => none
  | .fork req, _ =>
      some { s with server := .receive, children := s.children ++ [⟨req, .openFile, []⟩] }

/-- `serveRequest`, in the child process. -/
def serveRequest (qbytes : Nat) (files : List UInt8 → Option (List UInt8)) (count : Nat)
    (queues : List (Option (List Response))) (child : Child) :
    Option (Child × List (Option (List Response))) :=
  let send (msg : Response) (pc : ChildAt) :=
    (msgsnd qbytes queues child.req.clientId msg).map fun queues =>
      ({ child with pc := pc, sent := child.sent ++ [msg] }, queues)
  match child.pc with
  | .openFile =>
      match files child.req.pathname with
      | none => some ({ child with pc := .sendFailure }, queues)
      | some content => some ({ child with pc := .read content }, queues)
  | .sendFailure => send ⟨.failure, couldntOpen⟩ .exited
  | .read [] => some ({ child with pc := .sendEnd }, queues)
  | .read rest =>
      if 0 < count ∧ count ≤ RESP_MSG_SIZE ∧ count ≤ rest.length then
        some ({ child with pc := .sendData (rest.take count) (rest.drop count) }, queues)
      else none
  | .sendData block rest => send ⟨.data, block⟩ (.read rest)
  | .sendEnd => send ⟨.finish, []⟩ .exited
  | .exited => none

def childStep (qbytes : Nat) (files : List UInt8 → Option (List UInt8)) (index count : Nat)
    (s : System) : Option System :=
  match s.children[index]? with
  | none => none
  | some child => (serveRequest qbytes files count s.queues child).map fun (child, queues) =>
      { s with children := s.children.set index child, queues := queues }

def step (qbytes : Nat) (files : List UInt8 → Option (List UInt8))
    (choice : Choice) (s : System) : Option System :=
  match choice with
  | .client index => clientStep qbytes index s
  | .server => serverStep s
  | .serverInterrupted => if s.server = .receive then some s else none
  | .child index count => childStep qbytes files index count s

def Started (pathnames : List (List UInt8)) (s : System) : Prop :=
  s = ⟨pathnames.map fun pathname => ⟨pathname, none, .start, []⟩, [], [], .receive, []⟩

/-! A request that waits in the server's queue or in its buffer is a job like
the request of a child that has not opened its file yet. -/

def Child.fresh (req : Request) : Child := ⟨req, .openFile, []⟩

def System.inServer (s : System) : List Request :=
  match s.server with
  | .receive => s.serverQueue
  | .fork req => req :: s.serverQueue

def System.jobs (s : System) : List Child := s.children ++ s.inServer.map Child.fresh

def payload (messages : List Response) : List UInt8 := (messages.map (·.data)).flatten

def DataStream (messages : List Response) : Prop :=
  ∀ msg ∈ messages, msg.mtype = .data ∧ msg.data ≠ [] ∧ msg.data.length ≤ RESP_MSG_SIZE

/-- The whole conversation for one request: the file's bytes in order and one
end message, or the single failure message. -/
def Complete (file : Option (List UInt8)) (messages : List Response) : Prop :=
  match file with
  | none => messages = [⟨.failure, couldntOpen⟩]
  | some content => ∃ blocks, DataStream blocks ∧ payload blocks = content ∧
      messages = blocks ++ [⟨.finish, []⟩]

def ChildOk (file : Option (List UInt8)) (sent : List Response) : ChildAt → Prop
  | .openFile => sent = []
  | .sendFailure => file = none ∧ sent = []
  | .read rest => DataStream sent ∧ file = some (payload sent ++ rest)
  | .sendData block rest => block ≠ [] ∧ block.length ≤ RESP_MSG_SIZE ∧ DataStream sent ∧
      file = some (payload sent ++ block ++ rest)
  | .sendEnd => DataStream sent ∧ file = some (payload sent)
  | .exited => Complete file sent

def ClientAt.waiting : ClientAt → Bool
  | .first | .loop .. => true
  | _ => false

def ClientAt.answered : ClientAt → Bool
  | .failed _ | .finished .. => true
  | _ => false

def ClientOk (pathname : List UInt8) (received : List Response) : ClientAt → Prop
  | .start | .send | .first => received = []
  | .tooLong => received = [] ∧ PATH_MAX ≤ pathname.length
  | .loop mtype totBytes numMsgs => mtype ≠ .failure ∧ totBytes = (payload received).length ∧
      numMsgs = received.length ∧ ∃ earlier last,
        received = earlier ++ [last] ∧ last.mtype = mtype
  | .failed text => received = [⟨.failure, text⟩]
  | .finished totBytes numMsgs => totBytes = (payload received).length ∧
      numMsgs = received.length ∧ ∃ earlier last,
        received = earlier ++ [last] ∧ last.mtype = .finish

/-- A job and the client it belongs to: what the child sent is what the client
received and what still waits in the client's own queue. -/
structure Served (queues : List (Option (List Response))) (client : Client) (child : Child) :
    Prop where
  id : client.clientId = some child.req.clientId
  pathname : client.pathname = child.req.pathname
  active : client.pc.waiting = true ∨ client.pc.answered = true
  flow : client.pc.waiting = true → ∃ queue, queues[child.req.clientId]? = some (some queue) ∧
    client.received ++ queue = child.sent
  ended : client.pc.answered = true → client.received = child.sent ∧ child.pc = .exited

structure Inv (files : List UInt8 → Option (List UInt8)) (s : System) : Prop where
  jobsOk : ∀ (k : Nat) child, s.jobs[k]? = some child →
    ChildOk (files child.req.pathname) child.sent child.pc ∧
    ∃ (i : Nat) (client : Client), s.clients[i]? = some client ∧ Served s.queues client child
  jobIds : ∀ (k l : Nat) child other, s.jobs[k]? = some child → s.jobs[l]? = some other →
    child.req.clientId = other.req.clientId → k = l
  clientsOk : ∀ (i : Nat) client, s.clients[i]? = some client →
    ClientOk client.pathname client.received client.pc
  clientIds : ∀ (i j : Nat) client other id, s.clients[i]? = some client →
    s.clients[j]? = some other →
    client.clientId = some id → other.clientId = some id → i = j
  inRange : ∀ (i : Nat) client id, s.clients[i]? = some client → client.clientId = some id →
    id < s.queues.length
  sending : ∀ (i : Nat) client, s.clients[i]? = some client → client.pc = .send →
    ∃ id, client.clientId = some id ∧ s.queues[id]? = some (some [])
  asked : ∀ (i : Nat) client, s.clients[i]? = some client →
    client.pc.waiting = true ∨ client.pc.answered = true →
    ∃ (k : Nat) (child : Child), s.jobs[k]? = some child ∧
      client.clientId = some child.req.clientId

theorem started_inv (files : List UInt8 → Option (List UInt8)) (pathnames : List (List UInt8))
    (s : System) (started : Started pathnames s) : Inv files s := by
  subst started
  have here : ∀ (i : Nat) (client : Client), (pathnames.map fun pathname =>
      (Client.mk pathname none .start []))[i]? = some client →
      client.clientId = none ∧ client.pc = .start ∧ client.received = [] := by
    intro i client lookup
    simp only [List.getElem?_map, Option.map_eq_some_iff] at lookup
    obtain ⟨pathname, _, rfl⟩ := lookup
    exact ⟨rfl, rfl, rfl⟩
  constructor
  · intro k child job
    simp [System.jobs, System.inServer] at job
  · intro k l child other job
    simp [System.jobs, System.inServer] at job
  · intro i client lookup
    obtain ⟨_, pc, received⟩ := here i client lookup
    rw [pc, received]
    rfl
  · intro i j client other id lookup _ own
    rw [(here i client lookup).1] at own
    cases own
  · intro i client id lookup own
    rw [(here i client lookup).1] at own
    cases own
  · intro i client lookup pc
    rw [(here i client lookup).2.1] at pc
    cases pc
  · intro i client lookup pc
    rw [(here i client lookup).2.1] at pc
    rcases pc with waiting | answered
    · cases waiting
    · cases answered

theorem server_keeps_jobs (s t : System) (taken : serverStep s = some t) :
    t.jobs = s.jobs ∧ t.clients = s.clients ∧ t.queues = s.queues := by
  rcases s with ⟨clients, queues, serverQueue, server, children⟩
  cases server with
  | receive =>
      cases serverQueue with
      | nil => cases taken
      | cons req rest =>
          cases taken
          exact ⟨rfl, rfl, rfl⟩
  | fork req =>
      cases taken
      simp [System.jobs, System.inServer, Child.fresh]

theorem server_step_inv (files : List UInt8 → Option (List UInt8)) (s t : System)
    (inv : Inv files s) (taken : serverStep s = some t) : Inv files t := by
  obtain ⟨jobs, clients, queues⟩ := server_keeps_jobs s t taken
  obtain ⟨jobsOk, jobIds, clientsOk, clientIds, inRange, sending, asked⟩ := inv
  exact ⟨by rwa [jobs, clients, queues], by rwa [jobs], by rwa [clients], by rwa [clients],
    by rwa [clients, queues], by rwa [clients, queues], by rwa [clients, jobs]⟩

variable {qbytes : Nat} {files : List UInt8 → Option (List UInt8)}

theorem msgsnd_spec (queues after : List (Option (List Response))) (id : Nat) (msg : Response)
    (sent : msgsnd qbytes queues id msg = some after) :
    ∃ queue, queues[id]? = some (some queue) ∧
      after = queues.set id (some (queue ++ [msg])) := by
  unfold msgsnd at sent
  split at sent
  · next queue found =>
      split at sent
      · exact ⟨queue, found, (Option.some.inj sent).symm⟩
      · cases sent
  · cases sent

theorem msgrcv_spec (queues after : List (Option (List Response))) (id : Nat) (msg : Response)
    (got : msgrcv queues id = some (msg, after)) :
    ∃ rest, queues[id]? = some (some (msg :: rest)) ∧ after = queues.set id (some rest) := by
  unfold msgrcv at got
  split at got
  · next first rest found =>
      cases got
      exact ⟨rest, found, rfl⟩
  · cases got

theorem data_stream_snoc (messages : List Response) (block : List UInt8)
    (stream : DataStream messages) (data : block ≠ []) (fits : block.length ≤ RESP_MSG_SIZE) :
    DataStream (messages ++ [⟨.data, block⟩]) := by
  intro msg member
  rcases List.mem_append.mp member with old | new
  · exact stream msg old
  · rw [List.mem_singleton.mp new]
    exact ⟨rfl, data, fits⟩

@[simp] theorem payload_snoc (messages : List Response) (msg : Response) :
    payload (messages ++ [msg]) = payload messages ++ msg.data := by
  simp [payload]

/-- One move of a child: it stays silent or appends one message to the queue
named in its own copy of the request. -/
structure Serves (queues after : List (Option (List Response))) (child next : Child) : Prop where
  req : next.req = child.req
  running : child.pc ≠ .exited
  output : (after = queues ∧ next.sent = child.sent) ∨
    ∃ msg queue, queues[child.req.clientId]? = some (some queue) ∧
      after = queues.set child.req.clientId (some (queue ++ [msg])) ∧
      next.sent = child.sent ++ [msg]

theorem send_serves (queues after : List (Option (List Response))) (child : Child) (pc : ChildAt)
    (msg : Response) (running : child.pc ≠ .exited)
    (sent : msgsnd qbytes queues child.req.clientId msg = some after) :
    Serves queues after child ⟨child.req, pc, child.sent ++ [msg]⟩ := by
  obtain ⟨queue, found, rfl⟩ := msgsnd_spec queues after _ msg sent
  exact ⟨rfl, running, Or.inr ⟨msg, queue, found, rfl, rfl⟩⟩

theorem serve_request_serves (count : Nat) (queues after : List (Option (List Response)))
    (child next : Child)
    (taken : serveRequest qbytes files count queues child = some (next, after)) :
    Serves queues after child next := by
  rcases child with ⟨req, pc, sent⟩
  unfold serveRequest at taken
  cases pc with
  | openFile =>
      dsimp only at taken
      split at taken <;> cases taken <;> exact ⟨rfl, nofun, Or.inl ⟨rfl, rfl⟩⟩
  | read rest =>
      cases rest with
      | nil =>
          cases taken
          exact ⟨rfl, nofun, Or.inl ⟨rfl, rfl⟩⟩
      | cons byte rest =>
          dsimp only at taken
          split at taken <;> cases taken
          exact ⟨rfl, nofun, Or.inl ⟨rfl, rfl⟩⟩
  | sendFailure | sendData block rest | sendEnd =>
      simp only [Option.map_eq_some_iff, Prod.mk.injEq] at taken
      obtain ⟨queues', sent', rfl, rfl⟩ := taken
      exact send_serves queues queues' _ _ _ nofun sent'
  | exited => cases taken

theorem serve_request_ok (count : Nat) (queues after : List (Option (List Response)))
    (child next : Child) (taken : serveRequest qbytes files count queues child = some (next, after))
    (ok : ChildOk (files child.req.pathname) child.sent child.pc) :
    ChildOk (files child.req.pathname) next.sent next.pc := by
  rcases child with ⟨req, pc, sent⟩
  unfold serveRequest at taken
  cases pc with
  | openFile =>
      dsimp only at taken ok
      subst ok
      split at taken
      · next missing =>
          cases taken
          exact ⟨missing, rfl⟩
      · next content found =>
          cases taken
          exact ⟨nofun, by simpa [payload] using found⟩
  | read rest =>
      obtain ⟨stream, content⟩ := ok
      cases rest with
      | nil =>
          cases taken
          exact ⟨stream, by simpa using content⟩
      | cons byte rest =>
          dsimp only at taken
          split at taken
          · next bounds =>
              cases taken
              refine ⟨?_, ?_, stream, ?_⟩
              · intro empty
                have := congrArg List.length empty
                simp only [List.length_take, List.length_nil] at this
                omega
              · simp only [List.length_take]
                omega
              · rw [List.append_assoc, List.take_append_drop]
                exact content
          · cases taken
  | sendFailure =>
      obtain ⟨missing, rfl⟩ := ok
      simp only [Option.map_eq_some_iff, Prod.mk.injEq] at taken
      obtain ⟨queues', _, rfl, rfl⟩ := taken
      simp only [ChildOk, Complete, missing, List.nil_append]
  | sendData block rest =>
      obtain ⟨data, fits, stream, content⟩ := ok
      simp only [Option.map_eq_some_iff, Prod.mk.injEq] at taken
      obtain ⟨queues', _, rfl, rfl⟩ := taken
      exact ⟨data_stream_snoc sent block stream data fits, by simpa using content⟩
  | sendEnd =>
      obtain ⟨stream, content⟩ := ok
      simp only [Option.map_eq_some_iff, Prod.mk.injEq] at taken
      obtain ⟨queues', _, rfl, rfl⟩ := taken
      simp only [ChildOk, Complete, content]
      exact ⟨sent, stream, rfl, rfl⟩
  | exited => cases taken

theorem served_frame (queues after : List (Option (List Response))) (client : Client)
    (child : Child) (same : after[child.req.clientId]? = queues[child.req.clientId]?)
    (served : Served queues client child) : Served after client child := by
  obtain ⟨id, pathname, active, flow, ended⟩ := served
  exact ⟨id, pathname, active, by rwa [same], ended⟩

theorem serves_other (queues after : List (Option (List Response))) (child next : Child) (id : Nat)
    (serves : Serves queues after child next) (other : id ≠ child.req.clientId) :
    after[id]? = queues[id]? := by
  rcases serves.output with ⟨rfl, _⟩ | ⟨msg, queue, _, rfl, _⟩
  · rfl
  · exact List.getElem?_set_ne (Ne.symm other)

theorem serves_length (queues after : List (Option (List Response))) (child next : Child)
    (serves : Serves queues after child next) : after.length = queues.length := by
  rcases serves.output with ⟨rfl, _⟩ | ⟨msg, queue, _, rfl, _⟩
  · rfl
  · simp

theorem serves_served (queues after : List (Option (List Response))) (client : Client)
    (child next : Child) (serves : Serves queues after child next)
    (served : Served queues client child) : Served after client next := by
  obtain ⟨id, pathname, active, flow, ended⟩ := served
  have notAnswered : ¬ client.pc.answered = true := fun answered =>
    serves.running (ended answered).2
  refine ⟨by rw [serves.req]; exact id, by rw [serves.req]; exact pathname, active, ?_,
    fun answered => absurd answered notAnswered⟩
  intro waiting
  obtain ⟨queue, found, stream⟩ := flow waiting
  rw [serves.req]
  rcases serves.output with ⟨rfl, silent⟩ | ⟨msg, before, known, rfl, sent⟩
  · exact ⟨queue, found, by rw [silent]; exact stream⟩
  · rw [found] at known
    cases known
    refine ⟨queue ++ [msg], set_self _ _ _ _ found, ?_⟩
    rw [sent, ← stream, List.append_assoc]

theorem child_step_spec (index count : Nat) (s t : System)
    (taken : childStep qbytes files index count s = some t) :
    ∃ child next, s.jobs[index]? = some child ∧
      serveRequest qbytes files count s.queues child = some (next, t.queues) ∧
      t.jobs = s.jobs.set index next ∧ t.clients = s.clients ∧
      t.serverQueue = s.serverQueue ∧ t.server = s.server := by
  unfold childStep at taken
  cases lookup : s.children[index]? with
  | none => simp [lookup] at taken
  | some child =>
      simp only [lookup, Option.map_eq_some_iff] at taken
      obtain ⟨⟨next, after⟩, moved, rfl⟩ := taken
      have inside : index < s.children.length := (List.getElem?_eq_some_iff.mp lookup).1
      refine ⟨child, next, ?_, moved, ?_, rfl, rfl, rfl⟩
      · rw [System.jobs, List.getElem?_append_left inside]
        exact lookup
      · simp only [System.jobs, System.inServer]
        rw [List.set_append_left _ _ inside]

theorem child_step_inv (index count : Nat) (s t : System) (inv : Inv files s)
    (taken : childStep qbytes files index count s = some t) : Inv files t := by
  obtain ⟨child, next, job, moved, jobs, clients, _, _⟩ := child_step_spec index count s t taken
  have serves := serve_request_serves count s.queues t.queues child next moved
  obtain ⟨jobsOk, jobIds, clientsOk, clientIds, inRange, sending, asked⟩ := inv
  obtain ⟨ok, i, client, owner, served⟩ := jobsOk index child job
  refine ⟨?_, ?_, by rwa [clients], by rwa [clients], ?_, ?_, ?_⟩
  · rw [jobs, clients]
    intro k found position
    rcases set_cases _ _ _ _ _ position with ⟨rfl, rfl⟩ | ⟨different, old⟩
    · refine ⟨?_, i, client, owner, serves_served _ _ _ _ _ serves served⟩
      rw [serves.req]
      exact serve_request_ok count _ _ _ _ moved ok
    · obtain ⟨foundOk, j, other, at_j, otherServed⟩ := jobsOk k found old
      refine ⟨foundOk, j, other, at_j, served_frame _ _ _ _ ?_ otherServed⟩
      apply serves_other _ _ _ _ _ serves
      intro same
      exact different (jobIds k index found child old job same)
  · rw [jobs]
    intro k l first second at_k at_l same
    rcases set_cases _ _ _ _ _ at_k with ⟨rfl, rfl⟩ | ⟨_, old_k⟩ <;>
      rcases set_cases _ _ _ _ _ at_l with ⟨rfl, rfl⟩ | ⟨_, old_l⟩
    · rfl
    · exact jobIds _ _ _ _ job old_l (by rw [← serves.req]; exact same)
    · exact jobIds _ _ _ _ old_k job (by rw [← serves.req]; exact same)
    · exact jobIds _ _ _ _ old_k old_l same
  · rw [clients]
    intro j other id at_j own
    rw [serves_length _ _ _ _ serves]
    exact inRange j other id at_j own
  · rw [clients]
    intro j other at_j pc
    obtain ⟨id, own, empty⟩ := sending j other at_j pc
    refine ⟨id, own, ?_⟩
    rw [serves_other _ _ _ _ _ serves]
    · exact empty
    · intro same
      have here := clientIds i j client other id owner at_j (same ▸ served.id) own
      subst here
      rw [owner] at at_j
      cases at_j
      have active := served.active
      simp [pc, ClientAt.waiting, ClientAt.answered] at active
  · rw [jobs, clients]
    intro j other at_j waiting
    obtain ⟨k, found, at_k, own⟩ := asked j other at_j waiting
    by_cases here : k = index
    · subst here
      rw [job] at at_k
      cases at_k
      exact ⟨k, next, set_self _ _ _ _ job, by rw [serves.req]; exact own⟩
    · exact ⟨k, found, by rw [List.getElem?_set_ne (Ne.symm here)]; exact at_k, own⟩

theorem nondata_last (file : Option (List UInt8)) (sent earlier queue : List Response)
    (last : Response) (pc : ChildAt) (ok : ChildOk file sent pc)
    (split : sent = earlier ++ last :: queue) (nondata : last.mtype ≠ .data) :
    pc = .exited ∧ queue = [] ∧ (last.mtype = .failure → earlier = []) := by
  have member : last ∈ sent := by simp [split]
  cases pc with
  | openFile => simp [ChildOk, split] at ok
  | sendFailure => simp [ChildOk, split] at ok
  | read rest => exact absurd (ok.1 last member).1 nondata
  | sendData block rest => exact absurd (ok.2.2.1 last member).1 nondata
  | sendEnd => exact absurd (ok.1 last member).1 nondata
  | exited =>
      cases file with
      | none =>
          have whole : [Response.mk .failure couldntOpen] = earlier ++ last :: queue := by
            rw [← split]
            exact ok.symm
          cases earlier with
          | nil => simp_all
          | cons first rest => simp at whole
      | some content =>
          obtain ⟨blocks, stream, _, whole⟩ := ok
          rw [split] at whole
          rcases List.eq_nil_or_concat queue with rfl | ⟨front, final, rfl⟩
          · have same := List.append_inj_right' whole rfl
            simp only [List.cons.injEq, and_true] at same
            subst same
            exact ⟨rfl, rfl, nofun⟩
          · have snoc : (earlier ++ last :: front) ++ [final] = blocks ++ [⟨.finish, []⟩] := by
              simpa using whole
            have inner : earlier ++ last :: front = blocks := List.append_inj_left' snoc rfl
            have inBlocks : last ∈ blocks := by simp [← inner]
            exact absurd (stream last inBlocks).1 nondata

theorem jobs_append (s : System) (clients : List Client) (queues : List (Option (List Response)))
    (request : Option Request) :
    (System.jobs { s with
      clients := clients
      queues := queues
      serverQueue := s.serverQueue ++ request.toList }) =
      s.jobs ++ request.toList.map Child.fresh := by
  rcases s with ⟨_, _, serverQueue, server, children⟩
  cases server <;> simp [System.jobs, System.inServer]

theorem old_or_new (jobs : List Child) (request : Option Request) (k : Nat) (child : Child)
    (position : (jobs ++ request.toList.map Child.fresh)[k]? = some child) :
    jobs[k]? = some child ∨
      (k = jobs.length ∧ ∃ req, request = some req ∧ child = Child.fresh req) := by
  by_cases inside : k < jobs.length
  · rw [List.getElem?_append_left inside] at position
    exact Or.inl position
  · rw [List.getElem?_append_right (Nat.le_of_not_lt inside)] at position
    cases request with
    | none => simp at position
    | some req =>
        have first : k - jobs.length = 0 := by
          have bound := (List.getElem?_eq_some_iff.mp position).1
          simpa using bound
        rw [first] at position
        cases position
        exact Or.inr ⟨by omega, req, rfl, rfl⟩

/-- A client that has no job yet is nobody's owner. -/
theorem owner_not_idle (s : System) (inv : Inv files s) (k : Nat) (child : Child)
    (job : s.jobs[k]? = some child) (i : Nat) (client : Client)
    (lookup : s.clients[i]? = some client)
    (idle : ¬ (client.pc.waiting = true ∨ client.pc.answered = true)) :
    ∃ (j : Nat) (owner : Client), j ≠ i ∧ s.clients[j]? = some owner ∧
      Served s.queues owner child := by
  obtain ⟨_, j, owner, at_j, served⟩ := inv.jobsOk k child job
  refine ⟨j, owner, ?_, at_j, served⟩
  rintro rfl
  rw [lookup] at at_j
  cases at_j
  exact idle served.active

theorem client_start_inv (s : System) (inv : Inv files s) (index : Nat) (client : Client)
    (lookup : s.clients[index]? = some client) (pc : client.pc = .start) :
    Inv files { s with
      clients := s.clients.set index { client with clientId := some s.queues.length, pc := .send }
      queues := s.queues ++ [some []] } := by
  have received : client.received = [] := by
    have ok := inv.clientsOk index client lookup
    rwa [pc] at ok
  have idle : ¬ (client.pc.waiting = true ∨ client.pc.answered = true) := by
    simp [pc, ClientAt.waiting, ClientAt.answered]
  refine ⟨?_, inv.jobIds, ?_, ?_, ?_, ?_, ?_⟩
  · intro k child job
    obtain ⟨j, owner, other, at_j, served⟩ :=
      owner_not_idle s inv k child job index client lookup idle
    refine ⟨(inv.jobsOk k child job).1, j, owner, ?_, served_frame _ _ _ _ ?_ served⟩
    · rw [List.getElem?_set_ne (Ne.symm other)]
      exact at_j
    · exact List.getElem?_append_left (inv.inRange j owner _ at_j served.id)
  · intro i found position
    rcases set_cases _ _ _ _ _ position with ⟨_, rfl⟩ | ⟨_, old⟩
    · exact received
    · exact inv.clientsOk i found old
  · intro i j first second id at_i at_j own_i own_j
    rcases set_cases _ _ _ _ _ at_i with ⟨rfl, rfl⟩ | ⟨_, old_i⟩ <;>
      rcases set_cases _ _ _ _ _ at_j with ⟨rfl, rfl⟩ | ⟨_, old_j⟩
    · rfl
    · cases own_i
      exact absurd (inv.inRange j second _ old_j own_j) (Nat.lt_irrefl _)
    · cases own_j
      exact absurd (inv.inRange i first _ old_i own_i) (Nat.lt_irrefl _)
    · exact inv.clientIds i j first second id old_i old_j own_i own_j
  · intro i found id position own
    simp only [List.length_append, List.length_singleton]
    rcases set_cases _ _ _ _ _ position with ⟨_, rfl⟩ | ⟨_, old⟩
    · cases own
      exact Nat.lt_succ_self _
    · exact Nat.lt_succ_of_lt (inv.inRange i found id old own)
  · intro i found position sends
    rcases set_cases _ _ _ _ _ position with ⟨_, rfl⟩ | ⟨_, old⟩
    · exact ⟨s.queues.length, rfl, by simp⟩
    · obtain ⟨id, own, empty⟩ := inv.sending i found old sends
      exact ⟨id, own, by
        rw [List.getElem?_append_left (inv.inRange i found id old own)]; exact empty⟩
  · intro i found position waiting
    rcases set_cases _ _ _ _ _ position with ⟨_, rfl⟩ | ⟨_, old⟩
    · exact nomatch waiting
    · exact inv.asked i found old waiting

/-- A client that moves on without a new queue: its own jobs are for the
caller to show, everything else is untouched. -/
theorem client_update_inv (s : System) (inv : Inv files s) (index : Nat) (client next : Client)
    (after : List (Option (List Response))) (request : Option Request)
    (lookup : s.clients[index]? = some client)
    (sameId : next.clientId = client.clientId) (length : after.length = s.queues.length)
    (others : ∀ id, client.clientId ≠ some id → after[id]? = s.queues[id]?)
    (ok : ClientOk next.pathname next.received next.pc)
    (own : ∀ child, ChildOk (files child.req.pathname) child.sent child.pc →
      Served s.queues client child → Served after next child ∧ request = none)
    (posted : ∀ req, request = some req → Served after next (Child.fresh req))
    (notSending : next.pc ≠ .send)
    (known : next.pc.waiting = true ∨ next.pc.answered = true →
      (client.pc.waiting = true ∨ client.pc.answered = true) ∨ request ≠ none) :
    Inv files { s with
      clients := s.clients.set index next
      queues := after
      serverQueue := s.serverQueue ++ request.toList } := by
  have foreign : ∀ (k : Nat) (child : Child) (req : Request), s.jobs[k]? = some child →
      request = some req → child.req.clientId ≠ req.clientId := by
    intro k child req job new same
    obtain ⟨childOk, j, owner, at_j, served⟩ := inv.jobsOk k child job
    have mine : client.clientId = some child.req.clientId := by
      rw [same, ← sameId]
      exact (posted req new).id
    have here := inv.clientIds j index owner client _ at_j lookup served.id mine
    subst here
    rw [lookup] at at_j
    cases at_j
    have none := (own child childOk served).2
    rw [new] at none
    cases none
  refine ⟨?_, ?_, ?_, ?_, ?_, ?_, ?_⟩
  · rw [jobs_append]
    intro k child position
    rcases old_or_new _ _ _ _ position with job | ⟨_, req, new, rfl⟩
    · obtain ⟨childOk, j, owner, at_j, served⟩ := inv.jobsOk k child job
      refine ⟨childOk, ?_⟩
      by_cases here : j = index
      · subst here
        rw [lookup] at at_j
        cases at_j
        exact ⟨j, next, set_self _ _ _ _ lookup, (own child childOk served).1⟩
      · refine ⟨j, owner, by rw [List.getElem?_set_ne (Ne.symm here)]; exact at_j,
          served_frame _ _ _ _ (others _ ?_) served⟩
        intro same
        exact here (inv.clientIds j index owner client _ at_j lookup served.id same)
    · exact ⟨rfl, index, next, set_self _ _ _ _ lookup, posted req new⟩
  · rw [jobs_append]
    intro k l child other at_k at_l same
    rcases old_or_new _ _ _ _ at_k with job | ⟨last, req, new, rfl⟩ <;>
      rcases old_or_new _ _ _ _ at_l with job' | ⟨last', req', new', rfl⟩
    · exact inv.jobIds k l child other job job' same
    · exact absurd same (foreign k child req' job new')
    · exact absurd same.symm (foreign l other req job' new)
    · rw [last, last']
  · intro i found position
    rcases set_cases _ _ _ _ _ position with ⟨_, rfl⟩ | ⟨_, old⟩
    · exact ok
    · exact inv.clientsOk i found old
  · intro i j first second id at_i at_j own_i own_j
    rcases set_cases _ _ _ _ _ at_i with ⟨rfl, rfl⟩ | ⟨_, old_i⟩ <;>
      rcases set_cases _ _ _ _ _ at_j with ⟨rfl, rfl⟩ | ⟨_, old_j⟩
    · rfl
    · exact inv.clientIds _ _ _ _ id lookup old_j (sameId ▸ own_i) own_j
    · exact inv.clientIds _ _ _ _ id old_i lookup own_i (sameId ▸ own_j)
    · exact inv.clientIds i j first second id old_i old_j own_i own_j
  · intro i found id position owned
    rw [length]
    rcases set_cases _ _ _ _ _ position with ⟨_, rfl⟩ | ⟨_, old⟩
    · exact inv.inRange index client id lookup (sameId ▸ owned)
    · exact inv.inRange i found id old owned
  · intro i found position sends
    rcases set_cases _ _ _ _ _ position with ⟨_, rfl⟩ | ⟨different, old⟩
    · exact absurd sends notSending
    · obtain ⟨id, owned, empty⟩ := inv.sending i found old sends
      refine ⟨id, owned, ?_⟩
      rw [others id]
      · exact empty
      · intro same
        exact different (inv.clientIds i index found client id old lookup owned same)
  · rw [jobs_append]
    intro i found position waiting
    have kept : ∀ client : Client, (∃ (k : Nat) (child : Child), s.jobs[k]? = some child ∧
        client.clientId = some child.req.clientId) →
        ∃ (k : Nat) (child : Child),
          (s.jobs ++ request.toList.map Child.fresh)[k]? = some child ∧
          client.clientId = some child.req.clientId := by
      rintro client ⟨k, child, job, mine⟩
      exact ⟨k, child, by
        rw [List.getElem?_append_left (List.getElem?_eq_some_iff.mp job).1]
        exact job, mine⟩
    rcases set_cases _ _ _ _ _ position with ⟨_, rfl⟩ | ⟨_, old⟩
    · rcases known waiting with before | new
      · apply kept
        rw [sameId]
        exact inv.asked index client lookup before
      · obtain ⟨req, new⟩ := Option.ne_none_iff_exists'.mp new
        exact ⟨s.jobs.length, Child.fresh req, by simp [new], (posted req new).id⟩
    · exact kept found (inv.asked i found old waiting)

theorem waiting_stream (queues : List (Option (List Response))) (client : Client)
    (child : Child) (msg : Response) (rest : List Response) (id : Nat)
    (owned : client.clientId = some id) (found : queues[id]? = some (some (msg :: rest)))
    (waiting : client.pc.waiting = true) (served : Served queues client child) :
    child.sent = client.received ++ msg :: rest := by
  obtain ⟨queue, known, stream⟩ := served.flow waiting
  have same : child.req.clientId = id := Option.some.inj (served.id.symm.trans owned)
  rw [same, found] at known
  cases known
  exact stream.symm

theorem received_served (queues after : List (Option (List Response))) (client : Client)
    (pc : ClientAt) (child : Child) (msg : Response) (rest : List Response) (id : Nat)
    (owned : client.clientId = some id) (found : queues[id]? = some (some (msg :: rest)))
    (waiting : client.pc.waiting = true) (served : Served queues client child)
    (next : pc.waiting = true ∧ after = queues.set id (some rest) ∨
      pc.answered = true ∧ pc.waiting = false ∧ rest = [] ∧ child.pc = .exited) :
    Served after { client with pc := pc, received := client.received ++ [msg] } child := by
  have stream := waiting_stream queues client child msg rest id owned found waiting served
  have same : child.req.clientId = id := Option.some.inj (served.id.symm.trans owned)
  refine ⟨served.id, served.pathname, ?_, ?_, ?_⟩
  · exact next.imp And.left And.left
  · intro still
    rcases next with ⟨_, rfl⟩ | ⟨_, stopped, _⟩
    · exact ⟨rest, by rw [same]; exact set_self _ _ _ _ found, by simp [stream]⟩
    · exact absurd still (by simp [stopped])
  · intro answered
    rcases next with ⟨still, _⟩ | ⟨_, _, empty, exited⟩
    · cases pc <;> cases still <;> cases answered
    · exact ⟨by simp [stream, empty], exited⟩

theorem client_receive_inv (s : System) (inv : Inv files s) (index id : Nat) (client : Client)
    (pc : ClientAt) (msg : Response) (rest : List Response)
    (lookup : s.clients[index]? = some client) (owned : client.clientId = some id)
    (waiting : client.pc.waiting = true) (found : s.queues[id]? = some (some (msg :: rest)))
    (still : pc.waiting = true) (ok : ClientOk client.pathname (client.received ++ [msg]) pc) :
    Inv files { s with
      clients := s.clients.set index { client with pc := pc, received := client.received ++ [msg] }
      queues := s.queues.set id (some rest) } := by
  have updated := client_update_inv s inv index client
    { client with pc := pc, received := client.received ++ [msg] }
      (s.queues.set id (some rest)) none
    lookup rfl (by simp) ?_ ok ?_ nofun ?_ (fun _ => Or.inl (Or.inl waiting))
  · simpa using updated
  · intro other different
    apply List.getElem?_set_ne
    rintro rfl
    exact different owned
  · intro child _ served
    exact ⟨received_served _ _ client pc child msg rest id owned found waiting served
      (Or.inl ⟨still, rfl⟩), rfl⟩
  · rintro rfl
    cases still

theorem client_failed_inv (s : System) (inv : Inv files s) (index id : Nat) (client : Client)
    (msg : Response) (rest : List Response) (lookup : s.clients[index]? = some client)
    (owned : client.clientId = some id) (first : client.pc = .first)
    (found : s.queues[id]? = some (some (msg :: rest))) (failure : msg.mtype = .failure) :
    Inv files { s with
      clients := s.clients.set index
        { client with pc := .failed msg.data, received := client.received ++ [msg] }
      queues := removeQueue (s.queues.set id (some rest)) id } := by
  have waiting : client.pc.waiting = true := by rw [first]; rfl
  have empty : client.received = [] := by
    have ok := inv.clientsOk index client lookup
    rwa [first] at ok
  have updated := client_update_inv s inv index client
    { client with pc := .failed msg.data, received := client.received ++ [msg] }
    (removeQueue (s.queues.set id (some rest)) id) none
    lookup rfl (by simp [removeQueue]) ?_ ?_ ?_ nofun nofun (fun _ => Or.inl (Or.inl waiting))
  · simpa using updated
  · intro other different
    have apart : id ≠ other := by
      rintro rfl
      exact different owned
    rw [removeQueue, List.getElem?_set_ne apart, List.getElem?_set_ne apart]
  · rw [empty]
    exact congrArg (fun mtype => [Response.mk mtype msg.data]) failure
  · intro child childOk served
    have stream := waiting_stream _ client child msg rest id owned found waiting served
    obtain ⟨exited, drained, _⟩ := nondata_last _ _ _ _ _ _ childOk stream (by simp [failure])
    exact ⟨received_served _ _ client _ child msg rest id owned found waiting served
      (Or.inr ⟨rfl, rfl, drained, exited⟩), rfl⟩

theorem client_finish_inv (s : System) (inv : Inv files s) (index id : Nat) (client : Client)
    (mtype : RespType) (totBytes numMsgs : Nat) (lookup : s.clients[index]? = some client)
    (owned : client.clientId = some id) (looping : client.pc = .loop mtype totBytes numMsgs)
    (nondata : mtype ≠ .data) :
    Inv files { s with
      clients := s.clients.set index { client with pc := .finished totBytes numMsgs }
      queues := removeQueue s.queues id } := by
  have waiting : client.pc.waiting = true := by rw [looping]; rfl
  have ok := inv.clientsOk index client lookup
  rw [looping] at ok
  obtain ⟨nofailure, bytes, count, earlier, last, split, kind⟩ := ok
  have updated := client_update_inv s inv index client
    { client with pc := .finished totBytes numMsgs } (removeQueue s.queues id) none
    lookup rfl (by simp [removeQueue]) ?_ ?_ ?_ nofun nofun (fun _ => Or.inl (Or.inl waiting))
  · simpa using updated
  · intro other different
    apply List.getElem?_set_ne
    rintro rfl
    exact different owned
  · refine ⟨bytes, count, earlier, last, split, ?_⟩
    rw [kind]
    cases mtype <;> first | rfl | exact absurd rfl nondata | exact absurd rfl nofailure
  · intro child childOk served
    obtain ⟨queue, _, stream⟩ := served.flow waiting
    obtain ⟨exited, drained, _⟩ := nondata_last _ _ earlier queue last _ childOk
      (by rw [← stream, split]; simp) (by rw [kind]; exact nondata)
    refine ⟨⟨served.id, served.pathname, Or.inr rfl, nofun, fun _ => ⟨?_, exited⟩⟩, rfl⟩
    rw [← stream, drained, List.append_nil]

theorem client_send_inv (s : System) (inv : Inv files s) (index id : Nat) (client : Client)
    (lookup : s.clients[index]? = some client) (owned : client.clientId = some id)
    (sends : client.pc = .send) :
    Inv files { s with
      clients := s.clients.set index { client with pc := .first }
      serverQueue := s.serverQueue ++ [⟨id, client.pathname⟩] } := by
  have empty : client.received = [] := by
    have ok := inv.clientsOk index client lookup
    rwa [sends] at ok
  obtain ⟨_, same, queue⟩ := inv.sending index client lookup sends
  rw [owned] at same
  cases same
  have updated := client_update_inv s inv index client { client with pc := .first } s.queues
    (some ⟨id, client.pathname⟩) lookup rfl rfl (fun _ _ => rfl) empty ?_ ?_ nofun
    (fun _ => Or.inr nofun)
  · simpa using updated
  · intro child _ served
    have active := served.active
    simp [sends, ClientAt.waiting, ClientAt.answered] at active
  · intro req new
    cases new
    exact ⟨owned, rfl, Or.inl rfl, fun _ => ⟨[], queue, by simp [empty, Child.fresh]⟩,
      nofun⟩

theorem received_next (s : System) (inv : Inv files s) (index id : Nat) (client : Client)
    (msg : Response) (rest : List Response) (lookup : s.clients[index]? = some client)
    (owned : client.clientId = some id) (waiting : client.pc.waiting = true)
    (found : s.queues[id]? = some (some (msg :: rest))) (failure : msg.mtype = .failure) :
    client.received = [] := by
  obtain ⟨k, child, job, mine⟩ := inv.asked index client lookup (Or.inl waiting)
  obtain ⟨childOk, j, owner, at_j, served⟩ := inv.jobsOk k child job
  have here := inv.clientIds j index owner client _ at_j lookup served.id mine
  subst here
  rw [lookup] at at_j
  cases at_j
  have stream := waiting_stream _ client child msg rest id owned found waiting served
  exact (nondata_last _ _ _ _ _ _ childOk stream (by simp [failure])).2.2 failure

theorem client_step_inv (index : Nat) (s t : System) (inv : Inv files s)
    (taken : clientStep qbytes index s = some t) : Inv files t := by
  unfold clientStep at taken
  cases lookup : s.clients[index]? with
  | none => simp [lookup] at taken
  | some client =>
      simp only [lookup, Option.map_eq_some_iff] at taken
      obtain ⟨⟨next, after, serverQueue⟩, moved, rfl⟩ := taken
      have ok := inv.clientsOk index client lookup
      rcases client with ⟨pathname, clientId, pc, received⟩
      unfold clientMove at moved
      cases pc with
      | start =>
          dsimp only at moved
          split at moved
          · next long =>
            cases moved
            have updated :=
              client_update_inv s inv index _ ⟨pathname, clientId, .tooLong, received⟩
                s.queues none lookup rfl rfl (fun _ _ => rfl)
                ⟨ok, by simp only [PATH_MAX] at long ⊢; omega⟩
                (fun child _ served => nomatch served.active) nofun nofun nofun
            simpa using updated
          · cases moved
            exact client_start_inv s inv index _ lookup rfl
      | tooLong => cases moved
      | failed text => cases moved
      | finished totBytes numMsgs => cases moved
      | send =>
          cases clientId with
          | none => cases moved
          | some id =>
              dsimp only at moved
              split at moved <;> cases moved
              exact client_send_inv s inv index id _ lookup rfl rfl
      | first =>
          cases clientId with
          | none => cases moved
          | some id =>
              simp only [Option.map_eq_some_iff] at moved
              obtain ⟨⟨resp, queues⟩, got, answer⟩ := moved
              obtain ⟨rest, found, rfl⟩ := msgrcv_spec _ _ _ _ got
              have none : received = [] := ok
              cases kind : resp.mtype with
              | failure =>
                  simp only [kind] at answer
                  cases answer
                  exact client_failed_inv s inv index id _ resp rest lookup rfl rfl found kind
              | data | finish =>
                  simp only [kind] at answer
                  cases answer
                  refine client_receive_inv s inv index id _ _ resp rest lookup rfl rfl found rfl ?_
                  refine ⟨nofun, ?_, ?_, received, resp, rfl, kind⟩ <;> simp [none, payload]
      | loop mtype totBytes numMsgs =>
          cases clientId with
          | none => cases mtype <;> cases moved
          | some id =>
              cases mtype with
              | failure | finish =>
                  cases moved
                  exact client_finish_inv s inv index id _ _ totBytes numMsgs lookup rfl rfl nofun
              | data =>
                  simp only [Option.map_eq_some_iff] at moved
                  obtain ⟨⟨resp, queues⟩, got, answer⟩ := moved
                  obtain ⟨rest, found, rfl⟩ := msgrcv_spec _ _ _ _ got
                  cases answer
                  refine client_receive_inv s inv index id _ _ resp rest lookup rfl rfl found rfl ?_
                  obtain ⟨_, bytes, count, earlier, last, split, _⟩ := ok
                  refine ⟨?_, ?_, ?_, received, resp, rfl, rfl⟩
                  · intro failure
                    have empty : received = [] :=
                      received_next s inv index id _ resp rest lookup rfl rfl found failure
                    simp [empty] at split
                  · simp [bytes]
                  · simp [count]

theorem step_inv (choice : Choice) (s t : System) (inv : Inv files s)
    (taken : step qbytes files choice s = some t) : Inv files t := by
  cases choice with
  | client index => exact client_step_inv index s t inv taken
  | server => exact server_step_inv files s t inv taken
  | serverInterrupted =>
      simp only [step, Option.ite_none_right_eq_some, Option.some.injEq] at taken
      exact taken.2 ▸ inv
  | child index count => exact child_step_inv index count s t inv taken

theorem reachable_inv (pathnames : List (List UInt8)) (s : System)
    (reached : Reachable (Started pathnames) (step qbytes files) s) : Inv files s :=
  reachable_invariant (started_inv files pathnames) step_inv reached

/-! Every move is paid for: a message costs its receipt, a block its reading
and sending, a request its whole service. -/

def openRank : Option (List UInt8) → Nat
  | none => 6
  | some content => 4 * content.length + 8

def ChildAt.rank (file : Option (List UInt8)) : ChildAt → Nat
  | .openFile => openRank file
  | .sendFailure => 4
  | .read rest => 4 * rest.length + 5
  | .sendData _ rest => 4 * rest.length + 8
  | .sendEnd => 4
  | .exited => 0

def ClientAt.rank (file : Option (List UInt8)) : ClientAt → Nat
  | .start => openRank file + 8
  | .send => openRank file + 7
  | .first => 3
  | .loop .. => 2
  | _ => 0

def queueRank : Option (List Response) → Nat
  | none => 0
  | some queue => 2 * queue.length

def ServerAt.rank : ServerAt → Nat
  | .receive => 0
  | .fork _ => 1

def System.rank (files : List UInt8 → Option (List UInt8)) (s : System) : Nat :=
  (s.clients.map fun client => client.pc.rank (files client.pathname)).sum +
    (s.queues.map queueRank).sum +
    (s.jobs.map fun child => child.pc.rank (files child.req.pathname)).sum +
    2 * s.serverQueue.length + s.server.rank

def Choice.moves : Choice → Bool
  | .serverInterrupted => false
  | _ => true

theorem server_lowers (s t : System) (taken : serverStep s = some t) :
    t.rank files < s.rank files := by
  obtain ⟨jobs, clients, queues⟩ := server_keeps_jobs s t taken
  simp only [System.rank, jobs, clients, queues]
  rcases s with ⟨_, _, serverQueue, server, children⟩
  cases server with
  | receive =>
      cases serverQueue with
      | nil => cases taken
      | cons req rest =>
          cases taken
          simp only [ServerAt.rank, List.length_cons]
          omega
  | fork req =>
      cases taken
      simp only [ServerAt.rank]
      omega

theorem serves_rank (count : Nat) (queues after : List (Option (List Response)))
    (child next : Child)
    (taken : serveRequest qbytes files count queues child = some (next, after)) :
    (after.map queueRank).sum + next.pc.rank (files next.req.pathname) <
      (queues.map queueRank).sum + child.pc.rank (files child.req.pathname) := by
  have posted : ∀ (msg : Response) (queues' : List (Option (List Response))),
      msgsnd qbytes queues child.req.clientId msg = some queues' →
      (queues'.map queueRank).sum = (queues.map queueRank).sum + 2 := by
    intro msg queues' sent
    obtain ⟨queue, found, rfl⟩ := msgsnd_spec queues queues' _ msg sent
    have changed := sum_set queueRank queues child.req.clientId _ (some (queue ++ [msg])) found
    simp only [queueRank, List.length_append, List.length_singleton] at changed ⊢
    omega
  rcases child with ⟨req, pc, sent⟩
  unfold serveRequest at taken
  cases pc with
  | openFile =>
      dsimp only at taken
      split at taken <;> cases taken <;> simp_all [ChildAt.rank, openRank]
  | read rest =>
      cases rest with
      | nil =>
          cases taken
          simp [ChildAt.rank]
      | cons byte rest =>
          dsimp only at taken
          split at taken <;> cases taken
          simp only [ChildAt.rank, List.length_drop]
          omega
  | sendFailure | sendData block rest | sendEnd =>
      simp only [Option.map_eq_some_iff, Prod.mk.injEq] at taken
      obtain ⟨queues', sent', rfl, rfl⟩ := taken
      have cost := posted _ _ sent'
      simp only [ChildAt.rank]
      omega
  | exited => cases taken

theorem child_lowers (index count : Nat) (s t : System)
    (taken : childStep qbytes files index count s = some t) : t.rank files < s.rank files := by
  obtain ⟨child, next, job, moved, jobs, clients, waiting, server⟩ :=
    child_step_spec index count s t taken
  have paid := serves_rank count s.queues t.queues child next moved
  have changed := sum_set (fun child : Child => child.pc.rank (files child.req.pathname)) s.jobs
    index child next job
  simp only [System.rank, jobs, clients, waiting, server]
  omega

theorem client_move_lowers (files : List UInt8 → Option (List UInt8)) (s : System)
    (client next : Client) (after : List (Option (List Response))) (serverQueue : List Request)
    (moved : clientMove qbytes s client = some (next, after, serverQueue)) :
    ∃ request : Option Request, serverQueue = s.serverQueue ++ request.toList ∧
      next.pathname = client.pathname ∧
      next.pc.rank (files client.pathname) + (after.map queueRank).sum +
          (request.toList.map fun req => openRank (files req.pathname) + 2).sum <
        client.pc.rank (files client.pathname) + (s.queues.map queueRank).sum := by
  have dropped : ∀ (queues : List (Option (List Response))) (id : Nat),
      ((removeQueue queues id).map queueRank).sum ≤ (queues.map queueRank).sum := by
    intro queues id
    cases found : queues[id]? with
    | none =>
        have missing : removeQueue queues id = queues :=
          List.set_eq_of_length_le (by simpa using found)
        exact Nat.le_of_eq (congrArg (fun left => (left.map queueRank).sum) missing)
    | some queue =>
        have changed := sum_set queueRank queues id queue none found
        simp only [queueRank] at changed
        simp only [removeQueue]
        omega
  have got : ∀ (id : Nat) (msg : Response) (queues : List (Option (List Response))),
      msgrcv s.queues id = some (msg, queues) →
      (queues.map queueRank).sum + 2 = (s.queues.map queueRank).sum := by
    intro id msg queues received
    obtain ⟨rest, found, rfl⟩ := msgrcv_spec _ _ _ _ received
    have changed := sum_set queueRank s.queues id _ (some rest) found
    simp only [queueRank, List.length_cons] at changed ⊢
    omega
  rcases client with ⟨pathname, clientId, pc, received⟩
  unfold clientMove at moved
  cases pc with
  | start =>
      dsimp only at moved
      split at moved <;> cases moved <;>
        exact ⟨none, by simp, rfl, by simp [ClientAt.rank, queueRank]⟩
  | tooLong => cases moved
  | failed text => cases moved
  | finished totBytes numMsgs => cases moved
  | send =>
      cases clientId with
      | none => cases moved
      | some id =>
          dsimp only at moved
          split at moved <;> cases moved
          refine ⟨some ⟨id, pathname⟩, rfl, rfl, ?_⟩
          simp only [ClientAt.rank, Option.toList_some, List.map_cons, List.map_nil,
            List.sum_cons, List.sum_nil]
          omega
  | first =>
      cases clientId with
      | none => cases moved
      | some id =>
          simp only [Option.map_eq_some_iff] at moved
          obtain ⟨⟨resp, queues⟩, taken, answer⟩ := moved
          have cost := got id resp queues taken
          have removal := dropped queues id
          refine ⟨none, ?_⟩
          cases kind : resp.mtype <;> simp only [kind] at answer <;> cases answer <;>
            refine ⟨by simp, rfl, ?_⟩ <;> simp [ClientAt.rank] <;> omega
  | loop mtype totBytes numMsgs =>
      cases clientId with
      | none => cases mtype <;> cases moved
      | some id =>
          refine ⟨none, ?_⟩
          cases mtype with
          | failure | finish =>
              cases moved
              have removal := dropped s.queues id
              refine ⟨by simp, rfl, ?_⟩
              simp [ClientAt.rank]
              omega
          | data =>
              simp only [Option.map_eq_some_iff] at moved
              obtain ⟨⟨resp, queues⟩, taken, answer⟩ := moved
              have cost := got id resp queues taken
              cases answer
              refine ⟨by simp, rfl, ?_⟩
              simp [ClientAt.rank]
              omega

theorem client_lowers (index : Nat) (s t : System)
    (taken : clientStep qbytes index s = some t) : t.rank files < s.rank files := by
  unfold clientStep at taken
  cases lookup : s.clients[index]? with
  | none => simp [lookup] at taken
  | some client =>
      simp only [lookup, Option.map_eq_some_iff] at taken
      obtain ⟨⟨next, after, serverQueue⟩, moved, rfl⟩ := taken
      obtain ⟨request, rfl, pathname, paid⟩ :=
        client_move_lowers files s client next after serverQueue moved
      have changed := sum_set (fun client : Client => client.pc.rank (files client.pathname))
        s.clients index client next lookup
      simp only [pathname] at changed
      simp only [System.rank, jobs_append, List.map_append, List.sum_append, List.length_append]
      cases request with
      | none =>
          simp only [Option.toList_none, List.map_nil, List.sum_nil, List.length_nil] at paid ⊢
          omega
      | some req =>
          simp only [Option.toList_some, List.map_cons, List.map_nil, List.sum_cons, List.sum_nil,
            List.length_singleton, Child.fresh, ChildAt.rank] at paid ⊢
          omega

theorem moves_bounded (choices : List Choice) (s t : System)
    (replayed : replay (step qbytes files) choices s = some t) :
    (choices.filter Choice.moves).length ≤ s.rank files := by
  have bound := counted_choices_bounded (step qbytes files) (System.rank files) Choice.moves ?_ ?_
    choices replayed
  · omega
  · intro choice before after moves taken
    cases choice with
    | client index => exact client_lowers index before after taken
    | server => exact server_lowers before after taken
    | serverInterrupted => cases moves
    | child index count => exact child_lowers index count before after taken
  · intro choice before after stays taken
    cases choice with
    | client index => cases stays
    | server => cases stays
    | child index count => cases stays
    | serverInterrupted =>
        simp only [step, Option.ite_none_right_eq_some, Option.some.injEq] at taken
        exact taken.2 ▸ Nat.le_refl _

def ClientAt.ended : ClientAt → Bool
  | .tooLong | .failed _ | .finished .. => true
  | _ => false

theorem server_moves (s : System) (busy : s.inServer ≠ []) : (serverStep s).isSome = true := by
  rcases s with ⟨clients, queues, serverQueue, server, children⟩
  cases server with
  | receive =>
      cases serverQueue with
      | nil => exact absurd rfl busy
      | cons req rest => rfl
  | fork req => rfl

/-- A child whose client has emptied its queue can move unless it has ended. -/
theorem child_moves (large : RESP_MSG_SIZE ≤ qbytes) (queues : List (Option (List Response)))
    (child : Child) (ok : ChildOk (files child.req.pathname) child.sent child.pc)
    (running : child.pc ≠ .exited) (empty : queues[child.req.clientId]? = some (some [])) :
    ∃ count, (serveRequest qbytes files count queues child).isSome = true := by
  have sends : ∀ msg : Response, msg.data.length ≤ RESP_MSG_SIZE →
      (msgsnd qbytes queues child.req.clientId msg).isSome = true := by
    intro msg short
    have room : hasRoom qbytes [] msg.data.length = true := by
      simp only [RESP_MSG_SIZE] at short large
      simp only [hasRoom, List.sum_nil, List.length_nil, Nat.add_zero, Bool.and_eq_true,
        decide_eq_true_eq]
      exact ⟨decide_eq_true (Nat.le_trans short large), Nat.le_trans (by decide) large⟩
    simp [msgsnd, empty, room]
  rcases child with ⟨req, pc, sent⟩
  cases pc with
  | openFile =>
      refine ⟨0, ?_⟩
      cases file : files req.pathname <;> simp [serveRequest, file]
  | sendFailure =>
      exact ⟨0, by simpa [serveRequest] using sends ⟨.failure, couldntOpen⟩ (by decide)⟩
  | read rest =>
      cases rest with
      | nil => exact ⟨0, rfl⟩
      | cons byte rest => exact ⟨1, by simp [serveRequest, RESP_MSG_SIZE]⟩
  | sendData block rest =>
      exact ⟨0, by simpa [serveRequest] using sends ⟨.data, block⟩ ok.2.1⟩
  | sendEnd => exact ⟨0, by simpa [serveRequest] using sends ⟨.finish, []⟩ (by decide)⟩
  | exited => exact absurd rfl running

/-- The job of a client that still waits with an empty queue has not ended. -/
theorem waiting_job_running (client : Client) (child : Child)
    (ok : ClientOk client.pathname client.received client.pc)
    (childOk : ChildOk (files child.req.pathname) child.sent child.pc)
    (sent : client.received = child.sent)
    (open_loop : client.pc = .first ∨ ∃ totBytes numMsgs,
      client.pc = .loop .data totBytes numMsgs) :
    child.pc ≠ .exited := by
  intro exited
  rw [exited] at childOk
  rcases open_loop with first | ⟨totBytes, numMsgs, loop⟩
  · rw [first] at ok
    have none : child.sent = [] := sent.symm.trans ok
    rw [none] at childOk
    cases file : files child.req.pathname <;> simp [ChildOk, Complete, file] at childOk
  · rw [loop] at ok
    obtain ⟨_, _, _, earlier, last, split, kind⟩ := ok
    rw [← sent, split] at childOk
    cases file : files child.req.pathname with
    | none =>
        simp only [ChildOk, Complete, file] at childOk
        have whole : earlier ++ [last] = [] ++ [⟨.failure, couldntOpen⟩] := childOk
        have same := List.append_inj_right' whole rfl
        simp only [List.cons.injEq, and_true] at same
        simp [same] at kind
    | some content =>
        simp only [ChildOk, Complete, file] at childOk
        obtain ⟨blocks, _, _, whole⟩ := childOk
        have same := List.append_inj_right' whole rfl
        simp only [List.cons.injEq, and_true] at same
        simp [same] at kind

theorem own_job (s : System) (inv : Inv files s) (index k : Nat) (client : Client) (child : Child)
    (lookup : s.clients[index]? = some client) (job : s.jobs[k]? = some child)
    (mine : client.clientId = some child.req.clientId) :
    ChildOk (files child.req.pathname) child.sent child.pc ∧ Served s.queues client child := by
  obtain ⟨childOk, j, owner, at_j, served⟩ := inv.jobsOk k child job
  have here := inv.clientIds j index owner client _ at_j lookup served.id mine
  subst here
  rw [lookup] at at_j
  cases at_j
  exact ⟨childOk, served⟩

theorem waiting_queue (s : System) (inv : Inv files s) (index : Nat) (client : Client)
    (lookup : s.clients[index]? = some client) (waiting : client.pc.waiting = true) :
    ∃ id queue, client.clientId = some id ∧ s.queues[id]? = some (some queue) := by
  obtain ⟨k, child, job, mine⟩ := inv.asked index client lookup (Or.inl waiting)
  obtain ⟨_, served⟩ := own_job s inv index k client child lookup job mine
  obtain ⟨queue, found, _⟩ := served.flow waiting
  exact ⟨_, queue, mine, found⟩

/-- A waiting client with an empty queue has its job in the server or in a
child that can move. -/
theorem waiting_moves (large : RESP_MSG_SIZE ≤ qbytes) (s : System) (inv : Inv files s)
    (index id : Nat) (client : Client) (lookup : s.clients[index]? = some client)
    (owned : client.clientId = some id) (empty : s.queues[id]? = some (some []))
    (open_loop : client.pc = .first ∨ ∃ totBytes numMsgs,
      client.pc = .loop .data totBytes numMsgs) :
    (serverStep s).isSome = true ∨
      ∃ k count, (childStep qbytes files k count s).isSome = true := by
  have waiting : client.pc.waiting = true := by
    rcases open_loop with first | ⟨totBytes, numMsgs, loop⟩
    · rw [first]; rfl
    · rw [loop]; rfl
  obtain ⟨k, child, job, mine⟩ := inv.asked index client lookup (Or.inl waiting)
  obtain ⟨childOk, served⟩ := own_job s inv index k client child lookup job mine
  have same : child.req.clientId = id := Option.some.inj (mine.symm.trans owned)
  by_cases inside : k < s.children.length
  · right
    have position : s.children[k]? = some child := by
      rw [System.jobs, List.getElem?_append_left inside] at job
      exact job
    obtain ⟨queue, found, stream⟩ := served.flow waiting
    rw [same, empty] at found
    cases found
    have running := waiting_job_running client child (inv.clientsOk index client lookup)
      childOk (by simpa using stream) open_loop
    obtain ⟨count, moves⟩ :=
      child_moves large s.queues child childOk running (by rw [same]; exact empty)
    exact ⟨k, count, by simpa [childStep, position] using moves⟩
  · left
    apply server_moves
    intro idle
    rw [System.jobs, idle, List.map_nil, List.append_nil] at job
    exact inside (List.getElem?_eq_some_iff.mp job).1

theorem some_move (large : RESP_MSG_SIZE ≤ qbytes) (s : System) (inv : Inv files s)
    (index : Nat) (client : Client) (lookup : s.clients[index]? = some client)
    (going : client.pc.ended = false) :
    ∃ choice, choice.moves = true ∧ (step qbytes files choice s).isSome = true := by
  have enabled : (clientMove qbytes s client).isSome = true ∨ (serverStep s).isSome = true ∨
      ∃ k count, (childStep qbytes files k count s).isSome = true := by
    cases at_pc : client.pc with
    | start =>
        left
        simp only [clientMove, at_pc]
        split <;> rfl
    | send =>
        obtain ⟨id, owned, _⟩ := inv.sending index client lookup at_pc
        by_cases idle : s.serverQueue = []
        · left
          have room : REQ_MSG_SIZE ≤ qbytes := Nat.le_trans (by decide) large
          simp [clientMove, at_pc, owned, idle, hasRoom, room]
          simp only [RESP_MSG_SIZE] at large
          omega
        · right
          left
          apply server_moves
          cases server : s.server <;> simp [System.inServer, server, idle]
    | first =>
        have waiting : client.pc.waiting = true := by rw [at_pc]; rfl
        obtain ⟨id, queue, owned, found⟩ := waiting_queue s inv index client lookup waiting
        cases queue with
        | nil => exact Or.inr (waiting_moves large s inv index id client lookup owned found
            (Or.inl at_pc))
        | cons msg rest => exact Or.inl (by simp [clientMove, at_pc, owned, msgrcv, found])
    | loop mtype totBytes numMsgs =>
        have waiting : client.pc.waiting = true := by rw [at_pc]; rfl
        obtain ⟨id, queue, owned, found⟩ := waiting_queue s inv index client lookup waiting
        cases mtype with
        | failure | finish => exact Or.inl (by simp [clientMove, at_pc, owned])
        | data =>
            cases queue with
            | nil => exact Or.inr (waiting_moves large s inv index id client lookup owned found
                (Or.inr ⟨totBytes, numMsgs, at_pc⟩))
            | cons msg rest => exact Or.inl (by simp [clientMove, at_pc, owned, msgrcv, found])
    | tooLong => simp [at_pc, ClientAt.ended] at going
    | failed text => simp [at_pc, ClientAt.ended] at going
    | finished totBytes numMsgs => simp [at_pc, ClientAt.ended] at going
  rcases enabled with client_moves | server | ⟨k, count, child⟩
  · exact ⟨.client index, rfl, by simpa [step, clientStep, lookup] using client_moves⟩
  · exact ⟨.server, rfl, server⟩
  · exact ⟨.child k count, rfl, child⟩

/-- What a client has received came from the child that serves its own
request, and from no other. -/
theorem received_from_own_child (s : System) (inv : Inv files s) (index : Nat) (client : Client)
    (lookup : s.clients[index]? = some client) (some_message : client.received ≠ []) :
    ∃ child ∈ s.children, client.clientId = some child.req.clientId ∧
      client.pathname = child.req.pathname ∧ client.received <+: child.sent := by
  have ok := inv.clientsOk index client lookup
  have active : client.pc.waiting = true ∨ client.pc.answered = true := by
    cases at_pc : client.pc <;> simp only [at_pc, ClientOk] at ok <;>
      first | exact Or.inl rfl | exact Or.inr rfl | exact absurd ok some_message |
        exact absurd ok.1 some_message
  obtain ⟨k, child, job, mine⟩ := inv.asked index client lookup active
  obtain ⟨_, served⟩ := own_job s inv index k client child lookup job mine
  have part : client.received <+: child.sent := by
    rcases active with waiting | answered
    · obtain ⟨queue, _, stream⟩ := served.flow waiting
      exact ⟨queue, stream⟩
    · exact ⟨[], (List.append_nil _).trans (served.ended answered).1⟩
  refine ⟨child, ?_, mine, served.pathname, part⟩
  rcases List.mem_append.mp (List.mem_of_getElem? job) with inside | fresh
  · exact inside
  · obtain ⟨req, _, rfl⟩ := List.mem_map.mp fresh
    exact absurd (List.prefix_nil.mp part) some_message

theorem answered_complete (s : System) (inv : Inv files s) (index : Nat) (client : Client)
    (lookup : s.clients[index]? = some client) (answered : client.pc.answered = true) :
    Complete (files client.pathname) client.received := by
  obtain ⟨k, child, job, mine⟩ := inv.asked index client lookup (Or.inr answered)
  obtain ⟨childOk, served⟩ := own_job s inv index k client child lookup job mine
  obtain ⟨whole, exited⟩ := served.ended answered
  rw [exited] at childOk
  rw [served.pathname, whole]
  exact childOk

theorem finished_content (s : System) (inv : Inv files s) (index totBytes numMsgs : Nat)
    (client : Client) (lookup : s.clients[index]? = some client)
    (finished : client.pc = .finished totBytes numMsgs) :
    ∃ content, files client.pathname = some content ∧
      Complete (some content) client.received ∧
      totBytes = content.length := by
  have complete := answered_complete s inv index client lookup (by rw [finished]; rfl)
  have ok := inv.clientsOk index client lookup
  rw [finished] at ok
  obtain ⟨bytes, _, earlier, last, split, kind⟩ := ok
  cases file : files client.pathname with
  | none =>
      rw [file] at complete
      have whole : earlier ++ [last] = [] ++ [⟨.failure, couldntOpen⟩] :=
        split.symm.trans complete
      have same := List.append_inj_right' whole rfl
      simp only [List.cons.injEq, and_true] at same
      simp [same] at kind
  | some content =>
      rw [file] at complete
      refine ⟨content, rfl, complete, ?_⟩
      obtain ⟨blocks, _, joined, whole⟩ := complete
      rw [bytes, whole, payload_snoc, joined, List.append_nil]

theorem failed_content (s : System) (inv : Inv files s) (index : Nat) (text : List UInt8)
    (client : Client) (lookup : s.clients[index]? = some client)
    (failed : client.pc = .failed text) :
    files client.pathname = none ∧ client.received = [⟨.failure, couldntOpen⟩] ∧
      text = couldntOpen := by
  have complete := answered_complete s inv index client lookup (by rw [failed]; rfl)
  have ok := inv.clientsOk index client lookup
  rw [failed] at ok
  cases file : files client.pathname with
  | none =>
      rw [file] at complete
      have whole : client.received = [⟨.failure, couldntOpen⟩] := complete
      refine ⟨rfl, whole, ?_⟩
      have only : client.received = [⟨.failure, text⟩] := ok
      rw [whole] at only
      simpa using only.symm
  | some content =>
      rw [file] at complete
      obtain ⟨blocks, _, _, whole⟩ := complete
      have only : [] ++ [Response.mk .failure text] = blocks ++ [⟨.finish, []⟩] :=
        ok.symm.trans whole
      have same := List.append_inj_right' only rfl
      simp at same

/-- Every interleaving gives each client the answer to its own request and
nothing else, and every client gets it: until all have ended somebody can
move, and no run moves more often than its rank. -/
theorem file_server_correct (qbytes : Nat) (large : RESP_MSG_SIZE ≤ qbytes)
    (files : List UInt8 → Option (List UInt8)) (pathnames : List (List UInt8)) (s : System)
    (reached : Reachable (Started pathnames) (step qbytes files) s) :
    (∀ (index : Nat) client, s.clients[index]? = some client →
      (∀ totBytes numMsgs, client.pc = .finished totBytes numMsgs →
        ∃ content, files client.pathname = some content ∧
          Complete (some content) client.received ∧ totBytes = content.length) ∧
      (∀ text, client.pc = .failed text → files client.pathname = none ∧
        client.received = [⟨.failure, couldntOpen⟩] ∧ text = couldntOpen) ∧
      (client.pc = .tooLong → client.received = [] ∧ PATH_MAX ≤ client.pathname.length) ∧
      (client.received ≠ [] → ∃ child ∈ s.children,
        client.clientId = some child.req.clientId ∧ client.pathname = child.req.pathname ∧
          client.received <+: child.sent) ∧
      (client.pc.ended = false →
        ∃ choice, choice.moves = true ∧ (step qbytes files choice s).isSome = true)) ∧
    (∀ (k l : Nat) child other, s.children[k]? = some child → s.children[l]? = some other →
      child.req.clientId = other.req.clientId → k = l) ∧
    (∀ choices t, replay (step qbytes files) choices s = some t →
      (choices.filter Choice.moves).length ≤ s.rank files) := by
  have inv : Inv files s := reachable_inv pathnames s reached
  refine ⟨?_, ?_, fun choices t => moves_bounded choices s t⟩
  · intro index client lookup
    refine ⟨fun totBytes numMsgs => finished_content s inv index totBytes numMsgs client lookup,
      fun text => failed_content s inv index text client lookup, ?_,
      received_from_own_child s inv index client lookup,
      some_move large s inv index client lookup⟩
    intro long
    have ok := inv.clientsOk index client lookup
    rwa [long] at ok
  · have inJobs : ∀ (k : Nat) child, s.children[k]? = some child →
        s.jobs[k]? = some child := by
      intro k child position
      rw [System.jobs, List.getElem?_append_left (List.getElem?_eq_some_iff.mp position).1]
      exact position
    intro k l child other at_k at_l same
    exact inv.jobIds k l child other (inJobs k child at_k) (inJobs l other at_l) same

/-- Two clients, one existing file of three bytes and one missing file. -/
def twoClients : List (List UInt8) := [[0x61], [0x62]]

def oneFile (pathname : List UInt8) : Option (List UInt8) :=
  if pathname = [0x61] then some [1, 2, 3] else none

def twoClientsRun : List Choice :=
  [.client 0, .client 1, .client 1, .client 0, .serverInterrupted, .server,
   .server, .server, .server, .child 1 0, .child 0 0, .child 0 0, .child 1 2, .child 1 0,
   .client 1, .client 0, .child 1 1, .child 1 0, .child 1 0, .child 1 0, .client 0,
   .client 0, .client 0]

def twoClientsEnd : System :=
  let delivered : List Response := [⟨.data, [1, 2]⟩, ⟨.data, [3]⟩, ⟨.finish, []⟩]
  let refused : List Response := [⟨.failure, couldntOpen⟩]
  { clients := [⟨[0x61], some 0, .finished 3 3, delivered⟩,
      ⟨[0x62], some 1, .failed couldntOpen, refused⟩]
    queues := [none, none]
    serverQueue := []
    server := .receive
    children := [⟨⟨1, [0x62]⟩, .exited, refused⟩,
      ⟨⟨0, [0x61]⟩, .exited, delivered⟩] }

theorem two_clients_correct :
    Reachable (Started twoClients) (step 16384 oneFile) twoClientsEnd ∧
      oneFile [0x61] = some [1, 2, 3] ∧ oneFile [0x62] = none ∧
      (∃ client, twoClientsEnd.clients[0]? = some client ∧
        Complete (oneFile [0x61]) client.received) := by
  have replayed : replay (step 16384 oneFile) twoClientsRun
      ⟨twoClients.map fun pathname => ⟨pathname, none, .start, []⟩, [], [], .receive, []⟩ =
        some twoClientsEnd := by decide
  have reached : Reachable (Started twoClients) (step 16384 oneFile) twoClientsEnd :=
    replay_reachable twoClientsRun (Reachable.start rfl) replayed
  have correct := (file_server_correct 16384 (by decide) oneFile twoClients twoClientsEnd reached).1
  obtain ⟨content, file, complete, _⟩ := (correct 0 _ rfl).1 3 3 rfl
  have missing := ((correct 1 _ rfl).2.1 couldntOpen rfl).1
  exact ⟨reached, rfl, missing, _, rfl, file ▸ complete⟩

end Tlpi.FileServer
