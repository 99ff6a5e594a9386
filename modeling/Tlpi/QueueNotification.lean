import Mathlib.Algebra.Order.Ring.Int
import Tlpi.Transition
import Tlpi.Indexed

/-!
pmsg/mq_notify_via_thread.c and pmsg/mq_notify_via_signal.c: reading a POSIX
message queue whenever `mq_notify` says that a message has arrived. A process has
at most one registration; it is used up when a message arrives on the empty queue.
`mq_receive` never blocks in either program. Senders may act between any two steps.
-/

namespace Tlpi.QueueNotification

variable {Message : Type}

structure MessageQueue (Message : Type) where
  messages : List Message
  registered : Bool

/-- Fails with EBUSY if the process is registered already. -/
def mqNotify (queue : MessageQueue Message) : Option (MessageQueue Message) :=
  if queue.registered then none else some { queue with registered := true }

/-- The first message and the rest, or EAGAIN. -/
def mqReceive (queue : MessageQueue Message) : Option (Message × MessageQueue Message) :=
  match queue.messages with
  | [] => none
  | message :: rest => some (message, { queue with messages := rest })

/-- A message goes in behind those of the same or a higher priority. -/
def mqSend (queue : MessageQueue Message) (message : Message) (ahead : Nat) :
    MessageQueue Message :=
  ⟨queue.messages.take ahead ++ message :: queue.messages.drop ahead,
    queue.registered && !queue.messages.isEmpty⟩

/-- The registration is used up by this arrival. -/
def notifies (queue : MessageQueue Message) : Bool := queue.registered && queue.messages.isEmpty

namespace ViaThread

/-- What a thread does next; `main` runs `notifySetup` and `drainQueue` like `threadFunc`. -/
inductive Place where
  | notifySetup
  | drainQueue
  | finished
  deriving DecidableEq

/-- `failed` means that `mq_notify` has failed and the program has exited. -/
structure State (Message : Type) where
  queue : MessageQueue Message
  threads : List Place
  failed : Bool

inductive Choice (Message : Type) where
  | send (message : Message) (ahead : Nat)
  | thread (index : Nat)

def stepThread (state : State Message) (index : Nat) : Place → Option (State Message)
  | .notifySetup =>
      match mqNotify state.queue with
      | none => some { state with failed := true }
      | some queue =>
          some { state with queue := queue, threads := state.threads.set index .drainQueue }
  | .drainQueue =>
      match mqReceive state.queue with
      | some (_, queue) => some { state with queue := queue }
      | none => some { state with threads := state.threads.set index .finished }
  | .finished => none

def step (choice : Choice Message) (state : State Message) : Option (State Message) :=
  if state.failed then none
  else
    match choice with
    | .send message ahead =>
        some { state with
          queue := mqSend state.queue message ahead
          threads :=
            if notifies state.queue then state.threads ++ [.notifySetup]
            else state.threads }
    | .thread index => state.threads[index]?.bind (stepThread state index)

def start (messages : List Message) : State Message :=
  ⟨⟨messages, false⟩, [.notifySetup], false⟩

def unregistered (place : Place) : Nat := if place = .notifySetup then 1 else 0

/-- Registrations and threads that are still to register. -/
def turns (state : State Message) : Nat :=
  (if state.queue.registered then 1 else 0) + (state.threads.map unregistered).sum

structure Attended (state : State Message) : Prop where
  one : turns state = 1
  running : state.failed = false
  busy : state.queue.messages ≠ [] → .notifySetup ∈ state.threads ∨
    .drainQueue ∈ state.threads

theorem sum_positive (threads : List Place) :
    0 < (threads.map unregistered).sum ↔ .notifySetup ∈ threads := by
  constructor
  · intro positive
    by_contra absent
    have zero : ∀ weight ∈ threads.map unregistered, weight = 0 := by
      intro weight listed
      obtain ⟨place, member, rfl⟩ := List.mem_map.mp listed
      refine if_neg ?_
      rintro rfl
      exact absent member
    rw [List.sum_eq_zero_iff_forall_eq_nat.mpr zero] at positive
    exact Nat.lt_irrefl 0 positive
  · intro member
    by_contra none_
    have zero := List.sum_eq_zero_iff_forall_eq_nat.mp (Nat.eq_zero_of_not_pos none_) _
      (List.mem_map.mpr ⟨_, member, rfl⟩)
    cases zero

theorem send_attended (state : State Message) (message : Message) (ahead : Nat)
    (sound : Attended state) :
    Attended { state with
      queue := mqSend state.queue message ahead
      threads :=
        if notifies state.queue then state.threads ++ [.notifySetup]
        else state.threads } := by
  obtain ⟨one, running, busy⟩ := sound
  unfold turns at one
  cases empty : state.queue.messages.isEmpty with
  | false =>
      -- the registration stays, and whoever was busy still is
      have quiet : notifies state.queue = false := by simp [notifies, empty]
      have kept : (mqSend state.queue message ahead).registered = state.queue.registered := by
        simp [mqSend, empty]
      rw [quiet]
      refine ⟨?_, running, fun _ => busy ?_⟩
      · unfold turns
        dsimp only
        rw [kept]
        exact one
      · intro none_
        rw [none_] at empty
        cases empty
  | true =>
      have used : (mqSend state.queue message ahead).registered = false := by simp [mqSend, empty]
      cases registered : state.queue.registered with
      | true =>
          have loud : notifies state.queue = true := by simp [notifies, empty, registered]
          rw [loud]
          refine ⟨?_, running, fun _ => Or.inl (by simp)⟩
          unfold turns
          simp only [registered, if_true] at one
          simp only [used, Bool.false_eq_true, if_false, if_true, List.map_append, List.sum_append,
            List.map_singleton, List.sum_singleton, unregistered]
          omega
      | false =>
          have quiet : notifies state.queue = false := by simp [notifies, registered]
          simp only [registered, Bool.false_eq_true, if_false] at one
          rw [quiet]
          refine ⟨?_, running, fun _ => Or.inl ?_⟩
          · unfold turns
            simp only [used, Bool.false_eq_true, if_false]
            exact one
          · exact (sum_positive state.threads).mp (by omega)

theorem thread_attended (before after : State Message) (index : Nat) (place : Place)
    (there : before.threads[index]? = some place) (sound : Attended before)
    (taken : stepThread before index place = some after) : Attended after := by
  obtain ⟨one, running, busy⟩ := sound
  unfold turns at one
  cases place with
  | notifySetup =>
      have member : Place.notifySetup ∈ before.threads := List.mem_of_getElem? there
      have waiting := (sum_positive before.threads).mpr member
      have free : before.queue.registered = false := by
        cases registered : before.queue.registered with
        | false => rfl
        | true =>
            simp only [registered, if_true] at one
            omega
      simp only [stepThread, mqNotify, free, Bool.false_eq_true, if_false] at taken
      cases taken
      refine ⟨?_, running, fun _ => Or.inr ?_⟩
      · have sum :=
          Indexed.sum_set unregistered before.threads index .notifySetup .drainQueue there
        simp only [free, Bool.false_eq_true, if_false] at one
        simp only [unregistered, if_true, reduceCtorEq, if_false] at sum
        unfold turns
        simp only [if_true]
        omega
      · exact List.mem_of_getElem? (Indexed.set_self before.threads index .notifySetup
          .drainQueue there)
  | drainQueue =>
      have drains : Place.drainQueue ∈ before.threads := List.mem_of_getElem? there
      simp only [stepThread, mqReceive] at taken
      cases messages : before.queue.messages with
      | cons message rest =>
          simp only [messages] at taken
          cases taken
          exact ⟨one, running, fun _ => Or.inr drains⟩
      | nil =>
          simp only [messages] at taken
          cases taken
          refine ⟨?_, running, fun more => absurd messages more⟩
          have sum := Indexed.sum_set unregistered before.threads index .drainQueue .finished there
          simp only [unregistered, reduceCtorEq, if_false] at sum
          unfold turns
          dsimp only
          omega
  | finished => cases taken

theorem step_attended (choice : Choice Message) (before after : State Message)
    (sound : Attended before) (taken : step choice before = some after) : Attended after := by
  have running : ¬ before.failed = true := by
    rw [sound.running]
    exact Bool.false_ne_true
  unfold step at taken
  rw [if_neg running] at taken
  cases choice with
  | send message ahead =>
      cases taken
      exact send_attended before message ahead sound
  | thread index =>
      obtain ⟨place, there, moved⟩ := Option.bind_eq_some_iff.mp taken
      exact thread_attended before after index place there sound moved

/-- In every interleaving: one registration or one thread that is about to register, so
that `mq_notify` never fails; and someone is left to read what is in the queue. -/
theorem threads_lose_no_message (messages : List Message) (state : State Message)
    (reached : Transition.Reachable (· = start messages) step state) :
    turns state = 1 ∧ state.failed = false ∧
    (.notifySetup ∈ state.threads → mqNotify state.queue ≠ none) ∧
    (state.queue.messages ≠ [] → .notifySetup ∈ state.threads ∨
      .drainQueue ∈ state.threads) := by
  have sound : Attended state := by
    refine Transition.reachable_invariant ?_ step_attended reached
    rintro state rfl
    exact ⟨rfl, rfl, fun _ => Or.inl List.mem_cons_self⟩
  refine ⟨sound.one, sound.running, fun member => ?_, sound.busy⟩
  have one := sound.one
  have waiting := (sum_positive state.threads).mpr member
  unfold turns at one
  cases registered : state.queue.registered with
  | false => simp [mqNotify, registered]
  | true =>
      simp only [registered, if_true] at one
      omega

-- A message arrives while the first drain is over and the second thread has not started.
theorem late_message_is_attended :
    ∃ state : State Nat, Transition.replay step [.thread 0, .thread 0, .send 7 0,
      .send 8 1] (start []) =
        some state ∧
      state.queue.messages = [7, 8] ∧
        (.notifySetup ∈ state.threads ∨ .drainQueue ∈ state.threads) := by
  obtain ⟨state, replayed, messages⟩ : ∃ state : State Nat, Transition.replay step
      [.thread 0, .thread 0, .send 7 0, .send 8 1] (start []) = some state ∧
        state.queue.messages = [7, 8] :=
    ⟨_, rfl, rfl⟩
  have reached : Transition.Reachable (· = start []) step state :=
    Transition.replay_reachable _ (.start rfl) replayed
  refine ⟨state, replayed, messages, (threads_lose_no_message [] state reached).2.2.2 ?_⟩
  rw [messages]
  exact List.cons_ne_nil _ _

end ViaThread

namespace ViaSignal

/-- What the main loop does next; `clear`, `notify` and `receive` are its drain block. -/
inductive Place where
  | test
  | clear
  | notify
  | receive
  | work
  deriving DecidableEq

/-- `printed` holds the messages that were read, `failed` says that `mq_notify` has failed. -/
structure State (Message : Type) where
  place : Place
  queue : MessageQueue Message
  gotSig : Bool
  pending : Bool
  j : Nat
  printed : List Message
  failed : Bool

inductive Choice (Message : Type) where
  | send (message : Message) (ahead : Nat)
  | deliver
  | main

def stepMain (state : State Message) : State Message :=
  match state.place with
  | .test => { state with place := if state.gotSig then .clear else .work }
  | .clear => { state with gotSig := false, place := .notify }
  | .notify =>
      match mqNotify state.queue with
      | none => { state with failed := true }
      | some queue => { state with queue := queue, place := .receive }
  | .receive =>
      match mqReceive state.queue with
      | some (message, queue) =>
          { state with queue := queue, printed := state.printed ++ [message] }
      | none => { state with place := .work }
  | .work => { state with place := .test, j := state.j + 1 }

/-- The handler runs between any two steps of the main loop. -/
def step (choice : Choice Message) (state : State Message) : Option (State Message) :=
  if state.failed then none
  else
    match choice with
    | .send message ahead =>
        some { state with
          queue := mqSend state.queue message ahead
          pending := state.pending || notifies state.queue }
    | .deliver =>
        if state.pending then some { state with pending := false, gotSig := true } else none
    | .main => some (stepMain state)

def start (messages : List Message) : State Message :=
  ⟨.test, ⟨messages, false⟩, true, false, 0, [], false⟩

def outside (state : State Message) : Prop := state.place = .test ∨ state.place = .work

def flag (holds : Bool) : Nat := if holds then 1 else 0

/-- The registration, the pending signal, the flag and the call of `mq_notify` that follows
from the flag are one thing in four shapes. -/
structure Attended (state : State Message) : Prop where
  one : flag state.queue.registered + flag state.pending + flag state.gotSig +
    flag (decide (state.place = .notify)) = 1
  cleared : state.place = .clear → state.gotSig = true
  running : state.failed = false
  busy : state.queue.messages ≠ [] → outside state → state.gotSig = true ∨
    state.pending = true

theorem send_attended (state : State Message) (message : Message) (ahead : Nat)
    (sound : Attended state) :
    Attended { state with
      queue := mqSend state.queue message ahead
      pending := state.pending || notifies state.queue } := by
  obtain ⟨one, cleared, running, busy⟩ := sound
  cases empty : state.queue.messages.isEmpty with
  | false =>
      have quiet : notifies state.queue = false := by simp [notifies, empty]
      have kept : (mqSend state.queue message ahead).registered = state.queue.registered := by
        simp [mqSend, empty]
      have before : state.queue.messages ≠ [] := by
        intro none_
        rw [none_] at empty
        cases empty
      rw [quiet, Bool.or_false]
      refine ⟨?_, cleared, running, fun _ => busy before⟩
      dsimp only
      rw [kept]
      exact one
  | true =>
      have used : (mqSend state.queue message ahead).registered = false := by simp [mqSend, empty]
      cases registered : state.queue.registered with
      | true =>
          -- the registration turns into the signal
          have loud : notifies state.queue = true := by simp [notifies, empty, registered]
          rw [loud, Bool.or_true]
          refine ⟨?_, cleared, running, fun _ _ => Or.inr rfl⟩
          dsimp only
          rw [used]
          rw [registered] at one
          simp only [flag, if_true, Bool.false_eq_true, if_false] at one ⊢
          omega
      | false =>
          have quiet : notifies state.queue = false := by simp [notifies, registered]
          rw [quiet, Bool.or_false]
          refine ⟨?_, cleared, running, fun _ away => ?_⟩
          · dsimp only
            rw [used, ← registered]
            exact one
          · have elsewhere : ¬ state.place = .notify := by
              rcases away with place | place <;> rw [show state.place = _ from place] <;> decide
            dsimp only
            cases set : state.gotSig with
            | true => exact Or.inl rfl
            | false =>
                cases held : state.pending with
                | true => exact Or.inr rfl
                | false =>
                    simp only [registered, set, held, elsewhere, flag, decide_false,
                      Bool.false_eq_true, if_false] at one
                    omega

theorem main_attended (state : State Message) (sound : Attended state) :
    Attended (stepMain state) := by
  obtain ⟨one, cleared, running, busy⟩ := sound
  unfold stepMain
  split
  · next place =>
      simp only [place, reduceCtorEq] at one
      by_cases set : state.gotSig = true
      · rw [if_pos set]
        refine ⟨?_, fun _ => set, running, ?_⟩
        · simpa using one
        · rintro _ (bad | bad) <;> cases bad
      · rw [if_neg set]
        refine ⟨?_, (fun bad => by cases bad), running, fun more _ => busy more (Or.inl place)⟩
        simpa using one
  · next place =>
      have set := cleared place
      refine ⟨?_, (fun bad => by cases bad), running, ?_⟩
      · simp only [place, set, flag, reduceCtorEq, decide_false, Bool.false_eq_true,
          if_true, if_false] at one
        simp only [flag, decide_true, Bool.false_eq_true, if_true, if_false]
        omega
      · rintro _ (bad | bad) <;> cases bad
  · next place =>
      have free : state.queue.registered = false := by
        cases registered : state.queue.registered with
        | false => rfl
        | true =>
            simp only [place, registered, flag, decide_true, if_true] at one
            omega
      simp only [mqNotify, free, Bool.false_eq_true, if_false]
      refine ⟨?_, (fun bad => by cases bad), running, ?_⟩
      · simp only [place, free, flag, decide_true, Bool.false_eq_true, if_true, if_false] at one
        simp only [flag, reduceCtorEq, decide_false, Bool.false_eq_true, if_true, if_false]
        omega
      · rintro _ (bad | bad) <;> cases bad
  · next place =>
      simp only [place, reduceCtorEq] at one
      cases messages : state.queue.messages with
      | cons message rest =>
          simp only [mqReceive, messages]
          refine ⟨?_, fun bad => ?_, running, fun _ away => ?_⟩
          · simpa only [place, reduceCtorEq] using one
          · rw [show state.place = _ from bad] at place
            cases place
          · rcases away with bad | bad
            · rw [show state.place = _ from bad] at place
              cases place
            · rw [show state.place = _ from bad] at place
              cases place
      | nil =>
          simp only [mqReceive, messages]
          refine ⟨?_, (fun bad => by cases bad), running, fun more => absurd messages more⟩
          simpa using one
  · next place =>
      refine ⟨?_, (fun bad => by cases bad), running, fun more _ => busy more (Or.inr place)⟩
      simp only [place, reduceCtorEq] at one
      simpa using one

theorem step_attended (choice : Choice Message) (before after : State Message)
    (sound : Attended before) (taken : step choice before = some after) : Attended after := by
  have running : ¬ before.failed = true := by
    rw [sound.running]
    exact Bool.false_ne_true
  unfold step at taken
  rw [if_neg running] at taken
  cases choice with
  | send message ahead =>
      cases taken
      exact send_attended before message ahead sound
  | deliver =>
      dsimp only at taken
      split at taken
      · next held =>
          cases taken
          obtain ⟨one, cleared, running, busy⟩ := sound
          refine ⟨?_, fun _ => rfl, running, fun _ _ => Or.inl rfl⟩
          simp only [held, flag, if_true, Bool.false_eq_true, if_false] at one ⊢
          omega
      · cases taken
  | main =>
      cases taken
      exact main_attended before sound

theorem start_attended (messages : List Message) : Attended (start messages) :=
  ⟨rfl, (fun bad => by cases bad), rfl, fun _ _ => Or.inl rfl⟩

/-! From the flag to the empty queue, with no sender in between. -/

def own (choice : Choice Message) : Prop := choice = .deliver ∨ choice = .main

theorem main_step (state : State Message) (running : state.failed = false) :
    step .main state = some (stepMain state) := by
  simp [step, running]

theorem drain_reads (messages : List Message) (state : State Message)
    (running : state.failed = false) (place : state.place = .receive)
    (waiting : state.queue.messages = messages) :
    ∃ choices after, (∀ choice ∈ choices, own choice) ∧
      Transition.replay step choices state = some after ∧
      after.printed = state.printed ++ messages ∧ after.queue.messages = [] ∧
        after.j = state.j := by
  induction messages generalizing state with
  | nil =>
      have last : stepMain state = { state with place := .work } := by
        simp [stepMain, place, mqReceive, waiting]
      refine ⟨[.main], { state with place := .work }, ?_, ?_,
        (List.append_nil _).symm, waiting, rfl⟩
      · intro choice member
        exact Or.inr (List.mem_singleton.mp member)
      · exact Transition.replay_cons _ _ ((main_step state running).trans (congrArg some last)) rfl
  | cons message rest ih =>
      let next : State Message :=
        { state with
          queue := { state.queue with messages := rest }, printed := state.printed ++ [message] }
      have first : stepMain state = next := by
        simp [stepMain, place, mqReceive, waiting, next]
      obtain ⟨choices, after, owned, replayed, printed, empty, same⟩ :=
        ih next running place rfl
      refine ⟨.main :: choices, after, ?_, ?_, ?_, empty, same⟩
      · intro choice member
        rcases List.mem_cons.mp member with rfl | later
        · exact Or.inr rfl
        · exact owned choice later
      · exact Transition.replay_cons _ _ ((main_step state running).trans
          (congrArg some first)) replayed
      · rw [printed]
        simp [next]

theorem test_reads (state : State Message) (sound : Attended state) (place : state.place = .test)
    (set : state.gotSig = true) :
    ∃ choices after, (∀ choice ∈ choices, own choice) ∧
      Transition.replay step choices state = some after ∧
      after.printed = state.printed ++ state.queue.messages ∧ after.queue.messages = [] ∧
        after.j = state.j := by
  have running := sound.running
  have free : state.queue.registered = false := by
    have one := sound.one
    cases registered : state.queue.registered with
    | false => rfl
    | true =>
        simp only [registered, set, flag, if_true] at one
        omega
  let cleared : State Message := { state with place := .clear }
  let notifying : State Message := { state with place := .notify, gotSig := false }
  let receiving : State Message :=
    { notifying with place := .receive, queue := { state.queue with registered := true } }
  have first : stepMain state = cleared := by simp [stepMain, place, set, cleared]
  have second : stepMain cleared = notifying := rfl
  have third : stepMain notifying = receiving := by
    simp [stepMain, notifying, receiving, mqNotify, free]
  obtain ⟨choices, after, owned, replayed, facts⟩ :=
    drain_reads state.queue.messages receiving running rfl rfl
  refine ⟨.main :: .main :: .main :: choices, after, ?_, ?_, facts⟩
  · intro choice member
    simp only [List.mem_cons] at member
    rcases member with rfl | rfl | rfl | later
    · exact Or.inr rfl
    · exact Or.inr rfl
    · exact Or.inr rfl
    · exact owned choice later
  · refine Transition.replay_cons _ _ ((main_step state running).trans (congrArg some first)) ?_
    refine Transition.replay_cons _ _ ((main_step cleared running).trans (congrArg some second)) ?_
    exact Transition.replay_cons _ _ ((main_step notifying running).trans
      (congrArg some third)) replayed

/-- Once the flag is set, the next iteration reads everything. -/
theorem flag_reads (state : State Message) (sound : Attended state) (away : outside state)
    (set : state.gotSig = true) :
    ∃ choices after, (∀ choice ∈ choices, own choice) ∧
      Transition.replay step choices state = some after ∧
      after.printed = state.printed ++ state.queue.messages ∧ after.queue.messages = [] ∧
      after.j ≤ state.j + 1 := by
  rcases away with place | place
  · obtain ⟨choices, after, owned, replayed, printed, empty, same⟩ :=
      test_reads state sound place set
    exact ⟨choices, after, owned, replayed, printed, empty, by omega⟩
  · have moved : stepMain state = { state with place := .test, j := state.j + 1 } := by
      simp [stepMain, place]
    have still := main_attended state sound
    rw [moved] at still
    obtain ⟨choices, after, owned, replayed, printed, empty, same⟩ := test_reads _ still rfl set
    refine ⟨.main :: choices, after, ?_, ?_, printed, empty, ?_⟩
    · intro choice member
      rcases List.mem_cons.mp member with rfl | later
      · exact Or.inr rfl
      · exact owned choice later
    · exact Transition.replay_cons _ _ ((main_step state sound.running).trans
        (congrArg some moved)) replayed
    · dsimp only at same
      omega

/-- In every interleaving: `mq_notify` is called only when unregistered, and outside the
drain block a message in the queue has its signal, so that the program's own next steps
read all of it by the end of the next iteration. -/
theorem signals_lose_no_message (messages : List Message) (state : State Message)
    (reached : Transition.Reachable (· = start messages) step state) :
    (state.place = .notify → state.queue.registered = false) ∧ state.failed = false ∧
    (outside state → state.queue.messages ≠ [] →
      (state.gotSig = true ∨ state.pending = true) ∧
      ∃ choices after, (∀ choice ∈ choices, own choice) ∧
      Transition.replay step choices state = some after ∧
        after.printed = state.printed ++ state.queue.messages ∧ after.queue.messages = [] ∧
        after.j ≤ state.j + 1) := by
  have sound : Attended state := by
    refine Transition.reachable_invariant ?_ step_attended reached
    rintro state rfl
    exact start_attended messages
  refine ⟨fun place => ?_, sound.running, fun away more => ⟨sound.busy more away, ?_⟩⟩
  · have one := sound.one
    cases registered : state.queue.registered with
    | false => rfl
    | true =>
        simp only [place, registered, flag, decide_true, if_true] at one
        omega
  · by_cases set : state.gotSig = true
    · exact flag_reads state sound away set
    · have held := (sound.busy more away).resolve_left set
      have delivered :
          step .deliver state = some { state with pending := false, gotSig := true } := by
        simp [step, sound.running, held]
      have still := step_attended .deliver state _ sound delivered
      obtain ⟨choices, after, owned, replayed, facts⟩ := flag_reads _ still away rfl
      refine ⟨.deliver :: choices, after, ?_,
        Transition.replay_cons _ _ delivered replayed, facts⟩
      intro choice member
      rcases List.mem_cons.mp member with rfl | later
      · exact Or.inl rfl
      · exact owned choice later

-- A message arrives right after the drain has found the queue empty.
theorem late_message_has_its_signal :
    ∃ state : State Nat, Transition.replay step [.main, .main, .main, .main, .send 7 0]
      (start []) = some state ∧
      state.queue.messages = [7] ∧ state.place = .work ∧
        (state.gotSig = true ∨ state.pending = true) := by
  obtain ⟨state, replayed, messages, place⟩ : ∃ state : State Nat, Transition.replay step
      [.main, .main, .main, .main, .send 7 0] (start []) = some state ∧
        state.queue.messages = [7] ∧
      state.place = .work := ⟨_, rfl, rfl, rfl⟩
  have reached : Transition.Reachable (· = start []) step state :=
    Transition.replay_reachable _ (.start rfl) replayed
  refine ⟨state, replayed, messages, place, ?_⟩
  refine ((signals_lose_no_message [] state reached).2.2 (Or.inr place) ?_).1
  rw [messages]
  exact List.cons_ne_nil _ _

end ViaSignal

end Tlpi.QueueNotification
