import Mathlib.Data.List.Basic
import Mathlib.Data.List.Perm.Subperm
import Tlpi.CStrings

/-!
sockets/inet_sockets.c: the first address of a list at which a socket can be connected or bound.
`getaddrinfo` is a parameter. Each address of its list comes with what the system calls made
for it answer; a socket gets the lowest unused descriptor of the process.
-/

namespace Tlpi.InetSockets

open CStrings

def AF_UNSPEC : Int := 0
def SOCK_STREAM : Int := 1
def AI_PASSIVE : Int := 1
def ENOSYS : Int := 38

/-- The members of the hints that are not zero or NULL throughout. -/
structure Hints where
  ai_flags : Int
  ai_family : Int
  ai_socktype : Int
  deriving DecidableEq

/-- One `struct addrinfo`, and the calls made for it: the errno of a call that fails. -/
structure Address where
  ai_addrlen : Nat
  socket : Option Int
  setsockopt : Option Int
  connect : Option Int
  bind : Option Int
  listen : Option Int
  deriving DecidableEq

abbrev Getaddrinfo := Option Str → Str → Hints → Except Int (List Address)

inductive File where
  | other
  | socket (owner : Address)
  deriving DecidableEq

structure Process where
  table : List (Nat × File)
  freed : Nat
  errno : Int
  deriving DecidableEq

def used (table : List (Nat × File)) : List Nat := table.map Prod.fst

def lowestUnused (table : List (Nat × File)) : Nat :=
  ((List.range (table.length + 1)).find? fun fd => fd ∉ used table).getD 0

/-- A call that leaves the descriptors as they are. -/
def call (answer : Option Int) (process : Process) : Int × Process :=
  match answer with
  | none => (0, process)
  | some errno => (-1, { process with errno := errno })

def socket (rp : Address) (process : Process) : Int × Process :=
  match rp.socket with
  | some errno => (-1, { process with errno := errno })
  | none =>
      let fd := lowestUnused process.table
      (fd, { process with table := (fd, .socket rp) :: process.table })

def close (sfd : Int) (process : Process) : Process :=
  { process with table := process.table.filter fun entry => decide ((entry.1 : Int) ≠ sfd) }

def freeaddrinfo (process : Process) : Process := { process with freed := process.freed + 1 }

/-- The socket at which the loop breaks, if `rp` does not become NULL. -/
def connectLoop : List Address → Process → Option Int × Process
  | [], process => (none, process)
  | rp :: rest, process =>
      let (sfd, process) := socket rp process
      if sfd = -1 then connectLoop rest process
      else
        let (answer, process) := call rp.connect process
        if answer ≠ -1 then (some sfd, process) else connectLoop rest (close sfd process)

def inetConnect (getaddrinfo : Getaddrinfo) (host service : Str) (type : Int) (process : Process) :
    Int × Process :=
  match getaddrinfo (some host) service ⟨0, AF_UNSPEC, type⟩ with
  | .error _ => (-1, { process with errno := ENOSYS })
  | .ok result =>
      let (found, process) := connectLoop result process
      (found.getD (-1), freeaddrinfo process)

inductive Walk where
  | given_up
  | ended
  | stopped (rp : Address) (sfd : Int)
  deriving DecidableEq

def bindLoop (doListen : Bool) : List Address → Process → Walk × Process
  | [], process => (.ended, process)
  | rp :: rest, process =>
      let (sfd, process) := socket rp process
      if sfd = -1 then bindLoop doListen rest process
      else
        let (answer, process) := if doListen then call rp.setsockopt process else (0, process)
        if answer = -1 then (.given_up, freeaddrinfo (close sfd process))
        else
          let (answer, process) := call rp.bind process
          if answer = 0 then (.stopped rp sfd, process)
          else bindLoop doListen rest (close sfd process)

/-- The result, the integer at `addrlen` if that is not NULL, and the process. -/
def inetPassiveSocket (getaddrinfo : Getaddrinfo) (service : Str) (type : Int)
    (addrlen : Option Nat) (doListen : Bool) (process : Process) : Int × Option Nat × Process :=
  match getaddrinfo none service ⟨AI_PASSIVE, AF_UNSPEC, type⟩ with
  | .error _ => (-1, addrlen, process)
  | .ok result =>
      match bindLoop doListen result process with
      | (.given_up, process) => (-1, addrlen, process)
      | (.ended, process) => (-1, addrlen, freeaddrinfo process)
      | (.stopped rp sfd, process) =>
          let (answer, process) := if doListen then call rp.listen process else (0, process)
          if answer = -1 then (-1, addrlen, freeaddrinfo process)
          else (sfd, addrlen.map fun _ => rp.ai_addrlen, freeaddrinfo process)

def inetListen (getaddrinfo : Getaddrinfo) (service : Str) (addrlen : Option Nat)
    (process : Process) : Int × Option Nat × Process :=
  inetPassiveSocket getaddrinfo service SOCK_STREAM addrlen true process

def inetBind (getaddrinfo : Getaddrinfo) (service : Str) (type : Int) (addrlen : Option Nat)
    (process : Process) : Int × Option Nat × Process :=
  inetPassiveSocket getaddrinfo service type addrlen false process

/-- The steps that a socket of `inetConnect` has to pass. -/
def connects (rp : Address) : Bool := rp.socket.isNone && rp.connect.isNone

/-- The steps that a socket of `inetPassiveSocket` has to pass. -/
def serves (doListen : Bool) (rp : Address) : Bool :=
  rp.socket.isNone && (!doListen || rp.setsockopt.isNone) && rp.bind.isNone &&
    (!doListen || rp.listen.isNone)

/-- What a call owes its caller: at most the socket that it returns, and no list of addresses. -/
structure Clean (passes : Address → Bool) (result : List Address) (before : Process)
    (returned : Int) (after : Process) : Prop where
  kind : returned = -1 ∨ 0 ≤ returned
  opened : 0 ≤ returned → ∃ rp,
    result.find? passes = some rp ∧ returned.toNat ∉ used before.table ∧
    after.table = (returned.toNat, .socket rp) :: before.table
  closed : returned = -1 → after.table = before.table
  freed : after.freed = before.freed + 1

theorem clean_failed (passes : Address → Bool) (result : List Address) (before after : Process)
    (closed : after.table = before.table) (freed : after.freed = before.freed + 1) :
    Clean passes result before (-1) after :=
  ⟨.inl rfl, fun bad => absurd bad (by decide), fun _ => closed, freed⟩

theorem clean_opened (passes : Address → Bool) (result : List Address) (before after : Process)
    (rp : Address) (fd : Nat) (first : result.find? passes = some rp)
    (unused : fd ∉ used before.table) (opened : after.table = (fd, .socket rp) :: before.table)
    (freed : after.freed = before.freed + 1) : Clean passes result before fd after :=
  ⟨.inr (Int.natCast_nonneg fd), fun _ => ⟨rp, first, unused, opened⟩,
    fun bad => absurd bad (by omega), freed⟩

theorem lowest_unused (table : List (Nat × File)) : lowestUnused table ∉ used table := by
  unfold lowestUnused
  cases found : (List.range (table.length + 1)).find? fun fd => fd ∉ used table with
  | some fd => simpa using List.find?_some found
  | none =>
      have covered : List.range (table.length + 1) ⊆ used table := by
        intro fd small
        simpa using List.find?_eq_none.mp found fd small
      have crowded := (List.subperm_of_subset List.nodup_range covered).length_le
      rw [List.length_range, used, List.length_map] at crowded
      omega

theorem close_opened (fd : Nat) (file : File) (process : Process)
    (unused : fd ∉ used process.table) :
    close fd { process with table := (fd, file) :: process.table } = process := by
  have kept : process.table.filter (fun entry => decide ((entry.1 : Int) ≠ fd)) =
      process.table := by
    refine List.filter_eq_self.mpr fun entry member => decide_eq_true fun same => unused ?_
    exact List.mem_map.mpr ⟨entry, member, Int.ofNat_inj.mp same⟩
  rw [close, List.filter_cons_of_neg (by simp), kept]

/-- `socket` fails, or adds one descriptor. -/
theorem socket_cases (rp : Address) (process : Process) :
    (∃ errno, rp.socket = some errno ∧
      socket rp process = (-1, { process with errno := errno })) ∨
      ∃ fd : Nat, rp.socket = none ∧ fd ∉ used process.table ∧
        socket rp process =
          ((fd : Int), { process with table := (fd, .socket rp) :: process.table }) := by
  cases answer : rp.socket with
  | some errno => exact .inl ⟨errno, rfl, by simp only [socket, answer]⟩
  | none => exact .inr ⟨_, rfl, lowest_unused process.table, by simp only [socket, answer]⟩

/-- One turn goes on without the socket, or stops with it. -/
theorem connect_step (rp : Address) (rest : List Address) (process : Process) :
    (connects rp = false ∧
      ∃ errno, connectLoop (rp :: rest) process =
        connectLoop rest { process with errno := errno }) ∨
    (connects rp = true ∧ ∃ fd : Nat, fd ∉ used process.table ∧
      connectLoop (rp :: rest) process =
        (some (fd : Int), { process with table := (fd, .socket rp) :: process.table })) := by
  rcases socket_cases rp process with ⟨errno, answer, failed⟩ | ⟨fd, answer, unused, opened⟩
  · refine .inl ⟨by simp [connects, answer], errno, ?_⟩
    simp only [connectLoop, failed, if_pos]
  · have valid : ¬ (fd : Int) = -1 := by omega
    cases reached : rp.connect with
    | none =>
        refine .inr ⟨by simp [connects, answer, reached], fd, unused, ?_⟩
        simp only [connectLoop, opened, if_neg valid, reached, call]
        rfl
    | some errno =>
        refine .inl ⟨by simp [connects, reached], errno, ?_⟩
        simp only [connectLoop, opened, if_neg valid, reached, call]
        rw [if_neg (by decide)]
        exact congrArg (connectLoop rest) (close_opened fd _ { process with errno := errno } unused)

theorem connect_loop (result : List Address) (process : Process) :
    ∃ errno,
      connectLoop result process = (none, { process with errno := errno }) ∨
      ∃ (rp : Address) (fd : Nat), result.find? connects = some rp ∧
        fd ∉ used process.table ∧
        connectLoop result process =
          (some (fd : Int), ⟨(fd, .socket rp) :: process.table, process.freed, errno⟩) := by
  induction result generalizing process with
  | nil => exact ⟨process.errno, .inl rfl⟩
  | cons rp rest ih =>
      rcases connect_step rp rest process with ⟨skipped, errno, same⟩ |
        ⟨passed, fd, unused, stopped⟩
      · rw [same, List.find?_cons_of_neg (by simp [skipped])]
        exact ih { process with errno := errno }
      · exact ⟨process.errno, .inr ⟨rp, fd, List.find?_cons_of_pos passed,
          unused, stopped⟩⟩

theorem connect_clean (getaddrinfo : Getaddrinfo) (host service : Str) (type : Int)
    (process : Process) (result : List Address)
    (given : getaddrinfo (some host) service ⟨0, AF_UNSPEC, type⟩ = .ok result) :
    Clean connects result process (inetConnect getaddrinfo host service type process).1
      (inetConnect getaddrinfo host service type process).2 := by
  simp only [inetConnect, given]
  obtain ⟨errno, ended | ⟨rp, fd, first, unused, stopped⟩⟩ := connect_loop result process
  · rw [ended]
    exact clean_failed _ _ _ _ rfl rfl
  · rw [stopped]
    exact clean_opened _ _ _ _ rp fd first unused rfl rfl

/-- The address is left behind: no socket, or one that cannot be bound. -/
def Passed (doListen : Bool) (rp : Address) : Prop :=
  rp.socket ≠ none ∨ (doListen = true → rp.setsockopt = none) ∧ rp.bind ≠ none

/-- The loop breaks at the address. -/
def Bound (doListen : Bool) (rp : Address) : Prop :=
  rp.socket = none ∧ (doListen = true → rp.setsockopt = none) ∧ rp.bind = none

/-- The socket of the first address that can be bound cannot be made to listen. -/
def ListenFails (result : List Address) : Prop :=
  ∃ earlier rp later, result = earlier ++ rp :: later ∧
    (∀ passed ∈ earlier, Passed true passed) ∧
    Bound true rp ∧ rp.listen ≠ none

/-- A call that is only made for a socket that listens. -/
theorem optional_call (doListen : Bool) (answer : Option Int) (process : Process) :
    ((doListen = true → answer = none) ∧
      (if doListen then call answer process else (0, process)) = (0, process)) ∨
    ∃ errno, doListen = true ∧ answer = some errno ∧
      (if doListen then call answer process else (0, process)) =
        (-1, { process with errno := errno }) := by
  cases doListen with
  | false => exact .inl ⟨fun bad => (by cases bad), rfl⟩
  | true =>
      cases answer with
      | none => exact .inl ⟨fun _ => rfl, rfl⟩
      | some errno => exact .inr ⟨errno, rfl, rfl, rfl⟩

/-- One turn goes on without the socket, gives up without it, or stops with it. -/
theorem bind_step (doListen : Bool) (rp : Address) (rest : List Address) (process : Process) :
    (Passed doListen rp ∧
      ∃ errno, bindLoop doListen (rp :: rest) process =
        bindLoop doListen rest { process with errno := errno }) ∨
    (¬ Passed doListen rp ∧ ¬ Bound doListen rp ∧ ∃ errno,
      bindLoop doListen (rp :: rest) process =
      (.given_up, ⟨process.table, process.freed + 1, errno⟩)) ∨
    (Bound doListen rp ∧ ∃ fd : Nat, fd ∉ used process.table ∧
      bindLoop doListen (rp :: rest) process =
        (.stopped rp fd, { process with table := (fd, .socket rp) :: process.table })) := by
  rcases socket_cases rp process with ⟨errno, answer, failed⟩ | ⟨fd, answer, unused, opened⟩
  · refine .inl ⟨.inl (by simp [answer]), errno, ?_⟩
    simp only [bindLoop, failed, if_pos]
  · have valid : ¬ (fd : Int) = -1 := by omega
    rcases optional_call doListen rp.setsockopt { process with
      table := (fd, .socket rp) :: process.table } with
      ⟨set, kept⟩ | ⟨errno, listens, unset, failed⟩
    · cases named : rp.bind with
      | none =>
          refine .inr (.inr ⟨⟨answer, set, named⟩, fd, unused, ?_⟩)
          simp only [bindLoop, opened, if_neg valid, kept, named]
          rfl
      | some errno =>
          refine .inl ⟨.inr ⟨set, by simp [named]⟩, errno, ?_⟩
          simp only [bindLoop, opened, if_neg valid, kept, named]
          exact congrArg (bindLoop doListen rest) (close_opened fd _ { process with
            errno := errno } unused)
    · refine .inr (.inl ⟨?_, ?_, errno, ?_⟩)
      · simp [Passed, answer, listens, unset]
      · simp [Bound, listens, unset]
      · simp only [bindLoop, opened, if_neg valid, failed, if_pos]
        rw [close_opened fd _ { process with errno := errno } unused]
        rfl

theorem bind_loop (doListen : Bool) (result : List Address) (process : Process) :
    ∃ errno,
      bindLoop doListen result process =
        (.given_up, ⟨process.table, process.freed + 1, errno⟩) ∨
      bindLoop doListen result process = (.ended, { process with errno := errno }) ∨
      ∃ (earlier later : List Address) (rp : Address) (fd : Nat),
        result = earlier ++ rp :: later ∧
        (∀ passed ∈ earlier, Passed doListen passed) ∧ Bound doListen rp ∧
          fd ∉ used process.table ∧
        bindLoop doListen result process =
          (.stopped rp fd, ⟨(fd, .socket rp) :: process.table, process.freed, errno⟩) := by
  induction result generalizing process with
  | nil => exact ⟨process.errno, .inr (.inl rfl)⟩
  | cons rp rest ih =>
      rcases bind_step doListen rp rest process with
        ⟨skipped, errno, same⟩ | ⟨_, _, errno, failed⟩ | ⟨bound, fd, unused, stopped⟩
      · obtain ⟨errno,
          failed | ended | ⟨earlier, later, last, fd, rfl, all, bound, unused, stopped⟩⟩ :=
          ih { process with errno := errno }
        · exact ⟨errno, .inl (same.trans failed)⟩
        · exact ⟨errno, .inr (.inl (same.trans ended))⟩
        · refine ⟨errno, .inr (.inr ⟨rp :: earlier, later, last, fd, rfl, ?_, bound, unused,
            same.trans stopped⟩)⟩
          exact List.forall_mem_cons.mpr ⟨skipped, all⟩
      · exact ⟨errno, .inl failed⟩
      · exact ⟨process.errno,
          .inr (.inr ⟨[], rest, rp, fd, rfl, by simp, bound, unused, stopped⟩)⟩

/-- The loop always reaches the first address that can be bound. -/
theorem bind_loop_stops (doListen : Bool) (earlier later : List Address) (rp : Address)
    (process : Process) (all : ∀ passed ∈ earlier, Passed doListen passed)
    (bound : Bound doListen rp) :
    ∃ (errno : Int) (fd : Nat), bindLoop doListen (earlier ++ rp :: later) process =
      (.stopped rp fd, ⟨(fd, .socket rp) :: process.table, process.freed, errno⟩) := by
  induction earlier generalizing process with
  | nil =>
      rcases bind_step doListen rp later process with
        ⟨⟨absent⟩ | ⟨_, unbound⟩, _⟩ | ⟨_, other, _⟩ | ⟨_, fd, _, stopped⟩
      · exact absurd bound.1 absent
      · exact absurd bound.2.2 unbound
      · exact absurd bound other
      · exact ⟨process.errno, fd, stopped⟩
  | cons first rest ih =>
      obtain ⟨skipped, all⟩ := List.forall_mem_cons.mp all
      rcases bind_step doListen first (rest ++ rp :: later) process with
        ⟨_, errno, same⟩ | ⟨other, _⟩ | ⟨⟨present, _, named⟩, _⟩
      · rw [List.cons_append, same]
        exact ih { process with errno := errno } all
      · exact absurd skipped other
      · rcases skipped with absent | ⟨_, unbound⟩
        · exact absurd present absent
        · exact absurd named unbound

theorem serves_first (doListen : Bool) (earlier later : List Address) (rp : Address)
    (all : ∀ passed ∈ earlier, Passed doListen passed) (bound : Bound doListen rp)
    (listens : doListen = true → rp.listen = none) :
    (earlier ++ rp :: later).find? (serves doListen) = some rp := by
  obtain ⟨present, set, named⟩ := bound
  refine List.find?_eq_some_iff_append.mpr ⟨?_, earlier, later, rfl, ?_⟩
  · cases doListen with
    | false => simp [serves, present, named]
    | true => simp [serves, present, named, set rfl, listens rfl]
  · intro passed member
    rcases all passed member with absent | ⟨_, unbound⟩
    · simp [serves, Option.isSome_iff_ne_none.mpr absent]
    · simp [serves, Option.isSome_iff_ne_none.mpr unbound]

theorem passive_clean_iff (getaddrinfo : Getaddrinfo) (service : Str) (type : Int)
    (addrlen : Option Nat) (doListen : Bool) (process : Process) (result : List Address)
    (given : getaddrinfo none service ⟨AI_PASSIVE, AF_UNSPEC, type⟩ = .ok result) :
    Clean (serves doListen) result process
        (inetPassiveSocket getaddrinfo service type addrlen doListen process).1
        (inetPassiveSocket getaddrinfo service type addrlen doListen process).2.2 ↔
      ¬ (doListen = true ∧ ListenFails result) := by
  simp only [inetPassiveSocket, given]
  constructor
  · rintro clean ⟨rfl, earlier, rp, later, rfl, all, bound, failing⟩
    obtain ⟨errno, fd, stopped⟩ := bind_loop_stops true earlier later rp process all bound
    obtain ⟨bad, answer⟩ := Option.ne_none_iff_exists'.mp failing
    -- the socket is still open although -1 is returned
    rw [stopped] at clean
    simp only [answer, call] at clean
    exact absurd (clean.closed rfl) (List.cons_ne_self _ _)
  · intro fine
    obtain ⟨errno,
      failed | ended | ⟨earlier, later, rp, fd, rfl, all, bound, unused, stopped⟩⟩ :=
      bind_loop doListen result process
    · rw [failed]
      exact clean_failed _ _ _ _ rfl rfl
    · rw [ended]
      exact clean_failed _ _ _ _ rfl rfl
    · rw [stopped]
      rcases optional_call doListen rp.listen ⟨(fd, .socket rp) :: process.table,
        process.freed, errno⟩ with
        ⟨listens, kept⟩ | ⟨bad, on, answer, _⟩
      · simp only [kept]
        exact clean_opened _ _ _ _ rp fd (serves_first doListen earlier later rp all bound listens)
          unused rfl rfl
      · subst on
        exact absurd ⟨rfl, earlier, rp, later, rfl, all, bound, by simp [answer]⟩ fine

/-- `inetConnect` never leaks; `inetPassiveSocket` does so exactly when `listen` fails. -/
theorem sockets_kept_iff (getaddrinfo : Getaddrinfo) (host service : Str) (type : Int)
    (addrlen : Option Nat) (doListen : Bool) (process : Process) :
    (∀ result, getaddrinfo (some host) service ⟨0, AF_UNSPEC, type⟩ = .ok result →
      Clean connects result process (inetConnect getaddrinfo host service type process).1
        (inetConnect getaddrinfo host service type process).2) ∧
    ∀ result, getaddrinfo none service ⟨AI_PASSIVE, AF_UNSPEC, type⟩ = .ok result →
      (Clean (serves doListen) result process
          (inetPassiveSocket getaddrinfo service type addrlen doListen process).1
          (inetPassiveSocket getaddrinfo service type addrlen doListen process).2.2 ↔
        ¬ (doListen = true ∧ ListenFails result)) := by
  constructor
  · intro result given
    exact connect_clean getaddrinfo host service type process result given
  · intro result given
    exact passive_clean_iff getaddrinfo service type addrlen doListen process result given

-- The first address has no socket, the second serves: descriptor 1 is returned.
theorem second_address_serves :
    let result : List Address :=
      [⟨28, some 97, none, none, none, none⟩, ⟨16, none, none, none, none, none⟩]
    let process : Process := ⟨[(0, .other), (2, .other)], 0, 0⟩
    inetListen (fun _ _ _ => .ok result) (literal "echo") (some 0) process =
        (1, some 16,
          ⟨[(1, .socket ⟨16, none, none, none, none, none⟩), (0, .other), (2, .other)],
            1, 97⟩) ∧
      Clean (serves true) result process
        (inetListen (fun _ _ _ => .ok result) (literal "echo") (some 0) process).1
        (inetListen (fun _ _ _ => .ok result) (literal "echo") (some 0) process).2.2 := by
  intro result process
  refine ⟨by decide, ?_⟩
  have kept := sockets_kept_iff (fun _ _ _ => .ok result) (literal "host")
    (literal "echo") SOCK_STREAM (some 0) true process
  apply (kept.2 result rfl).mpr
  rintro ⟨_, earlier, rp, later, same, _, _, fails⟩
  have member : rp ∈ result := by
    rw [same]
    simp
  exact fails ((show ∀ rp ∈ result, rp.listen = none by decide) rp member)

-- Two servers bind the port and the other one listens first: -1, and descriptor 3 stays open.
theorem unheard_socket_stays_open :
    ¬ ∀ (getaddrinfo : Getaddrinfo) (service : Str) (addrlen : Option Nat) (process : Process)
      (result : List Address), getaddrinfo none service ⟨AI_PASSIVE, AF_UNSPEC, SOCK_STREAM⟩ =
        .ok result →
        Clean (serves true) result process (inetListen getaddrinfo service addrlen process).1
          (inetListen getaddrinfo service addrlen process).2.2 := by
  intro claimed
  have clean :=
    claimed (fun _ _ _ => .ok [⟨16, none, none, none, none, some 98⟩]) (literal "echo") none
      ⟨[(0, .other), (1, .other), (2, .other)], 0, 0⟩ _ rfl
  exact absurd (clean.closed (by decide)) (by decide)

end Tlpi.InetSockets
