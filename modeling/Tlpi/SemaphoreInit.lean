import Mathlib.Algebra.Order.Ring.Int
import Tlpi.Transition
import Tlpi.Indexed

/-!
svsem/svsem_good_init.c: any number of processes that share a semaphore which the
first of them creates and initialises. A new set has no defined value; the others
wait until `sem_otime` shows that somebody has performed a `semop`. svsem_bad_init.c
is the same program without the no-op and the wait.
-/

namespace Tlpi.SemaphoreInit

def MAX_TRIES : Nat := 10

def SEMVMX : Int := 32767

/-- `initialised` records that SETVAL has been done. -/
structure Semaphore where
  value : Int
  otime : Nat
  initialised : Bool
  deriving DecidableEq

/-- What a process does next; `stat j` is a turn of the waiting loop. -/
inductive Place where
  | create
  | setval
  | mark
  | get
  | stat (j : Nat)
  | operate
  | done
  | failed
  deriving DecidableEq

/-- `arg` is the number on the command line. -/
structure Process where
  arg : Int
  place : Place
  deriving DecidableEq

structure State where
  processes : List Process
  semaphore : Option Semaphore
  deriving DecidableEq

/-- The field `sem_op` is a short. -/
def semOp (arg : Int) : Int := arg.bmod (2 ^ 16)

inductive Result where
  | ok (semaphore : Semaphore)
  | blocked
  | error

/-- `semop` with one operation and no flags, at a time after the Epoch. -/
def semop (semaphore : Semaphore) (op : Int) (time : Nat) : Result :=
  if op = 0 then
    if semaphore.value = 0 then .ok { semaphore with otime := time + 1 } else .blocked
  else if semaphore.value + op < 0 then .blocked
  else if SEMVMX < semaphore.value + op then .error
  else .ok { semaphore with value := semaphore.value + op, otime := time + 1 }

/-- Who moves, what a set is born with, and the time. -/
structure Choice where
  index : Nat
  initial : Int
  time : Nat
  deriving DecidableEq

def State.moved (state : State) (index : Nat) (process : Process) (place : Place)
    (semaphore : Option Semaphore) : State :=
  ⟨state.processes.set index { process with place := place }, semaphore⟩

/-- No successor while the process is blocked or has ended. -/
def stepProcess (state : State) (choice : Choice) (process : Process) : Option State :=
  let move := state.moved choice.index process
  match process.place, state.semaphore with
  | .create, none => some (move .setval (some ⟨choice.initial, 0, false⟩))
  | .create, some semaphore => some (move .get (some semaphore))
  | .setval, some semaphore =>
      some (move .mark (some { semaphore with value := 0, initialised := true }))
  | .mark, some semaphore =>
      match semop semaphore 0 choice.time with
      | .ok after => some (move .operate (some after))
      | .blocked => none
      | .error => some (move .failed (some semaphore))
  | .get, some semaphore => some (move (.stat 0) (some semaphore))
  | .stat j, some semaphore =>
      let next :=
        if semaphore.otime ≠ 0 then .operate
        else if j + 1 < MAX_TRIES then .stat (j + 1)
        else .failed
      some (move next (some semaphore))
  | .operate, some semaphore =>
      match semop semaphore (semOp process.arg) choice.time with
      | .ok after => some (move .done (some after))
      | .blocked => none
      | .error => some (move .failed (some semaphore))
  | _, _ => none

def step (choice : Choice) (state : State) : Option State :=
  state.processes[choice.index]?.bind (stepProcess state choice)

def start (args : List Int) : State := ⟨args.map (⟨·, .create⟩), none⟩

def contribution (process : Process) : Int := if process.place = .done then semOp process.arg else 0

/-- The sum of the final operations completed so far. -/
def completed (state : State) : Int := (state.processes.map contribution).sum

/-! What each place says about the semaphore. -/

def Ready (semaphore : Option Semaphore) : Place → Prop
  | .create => True
  | .setval => ∃ there, semaphore = some there ∧ there.initialised = false
  | .mark => ∃ there, semaphore = some there ∧ there.initialised = true ∧ there.otime = 0
  | .operate => ∃ there, semaphore = some there ∧ there.initialised = true ∧ there.otime ≠ 0
  | .done => ∃ there, semaphore = some there ∧ there.initialised = true ∧ there.otime ≠ 0
  | .get => semaphore.isSome
  | .stat _ => semaphore.isSome
  | .failed => semaphore.isSome

/-- The creator, until others may go on. -/
def initialising : Place → Bool
  | .setval => true
  | .mark => true
  | _ => false

structure Ordered (state : State) : Prop where
  ready : ∀ process ∈ state.processes, Ready state.semaphore process.place
  alone : ∀ (one other : Nat) first second, state.processes[one]? = some first →
    state.processes[other]? = some second → initialising first.place = true →
    initialising second.place = true → one = other
  shown : ∀ semaphore, state.semaphore = some semaphore → semaphore.otime ≠ 0 →
    semaphore.initialised = true
  value : ∀ semaphore, state.semaphore = some semaphore → semaphore.initialised = true →
    semaphore.value = completed state

theorem completed_moved (state : State) (index : Nat) (process : Process) (place : Place)
    (semaphore : Option Semaphore) (there : state.processes[index]? = some process)
    (unfinished : process.place ≠ .done) :
    completed (state.moved index process place semaphore) =
      completed state + contribution { process with place := place } := by
  have sum :=
    Indexed.sum_set contribution state.processes index process { process with place := place } there
  have none_ : contribution process = 0 := if_neg unfinished
  rw [none_] at sum
  unfold completed State.moved
  dsimp only
  omega

/-- Nobody is done as long as nobody may operate. -/
theorem completed_zero (state : State)
    (none_ : ∀ process ∈ state.processes, process.place ≠ .done) : completed state = 0 := by
  have zero : ∀ processes : List Process, (∀ process ∈ processes, process.place ≠ .done) →
      (processes.map contribution).sum = 0 := by
    intro processes
    induction processes with
    | nil => exact fun _ => rfl
    | cons head rest ih =>
        intro each
        rw [List.map_cons, List.sum_cons, ih fun process member =>
            each process (List.mem_cons_of_mem _ member),
          contribution, if_neg (each head List.mem_cons_self)]
        rfl
  exact zero state.processes none_

section Moves
variable (state : State) (sound : Ordered state) (index : Nat) (process : Process)
  (there : state.processes[index]? = some process)

include sound there in
theorem ordered_moved (place : Place) (semaphore : Option Semaphore) (ready : Ready semaphore place)
    (kept : ∀ (other : Nat) one, other ≠ index → state.processes[other]? = some one →
      Ready semaphore one.place)
    (first : initialising place = true → initialising process.place = true ∨
      ∀ one ∈ state.processes, initialising one.place = false)
    (shown : ∀ one, semaphore = some one → one.otime ≠ 0 → one.initialised = true)
    (value : ∀ one, semaphore = some one → one.initialised = true →
      one.value = completed (state.moved index process place semaphore)) :
    Ordered (state.moved index process place semaphore) := by
  refine ⟨?_, ?_, shown, value⟩
  · intro one member
    obtain ⟨other, found⟩ := List.getElem?_of_mem member
    rcases Indexed.set_cases _ _ _ _ _ found with ⟨_, rfl⟩ | ⟨different, old⟩
    · exact ready
    · exact kept other one different old
  · -- whoever is initialising now was so before, or is the first one
    have source : ∀ (other : Nat) one,
      (state.moved index process place semaphore).processes[other]? = some one →
        initialising one.place = true → other = index ∨
          ∃ earlier, state.processes[other]? = some earlier ∧
            initialising earlier.place = true := by
      intro other one found busy
      rcases Indexed.set_cases _ _ _ _ _ found with ⟨same, _⟩ | ⟨_, old⟩
      · exact Or.inl same
      · exact Or.inr ⟨one, old, busy⟩
    have mine : ∀ (other : Nat) one earlier, state.processes[other]? = some earlier →
        initialising earlier.place = true →
        (state.moved index process place semaphore).processes[index]? = some one →
        initialising one.place = true → other = index := by
      intro other one earlier old was found busy
      rcases Indexed.set_cases _ _ _ _ _ found with ⟨_, rfl⟩ | ⟨bad, _⟩
      · rcases first busy with before | nobody
        · exact sound.alone other index earlier process old there was before
        · rw [nobody earlier (List.mem_of_getElem? old)] at was
          cases was
      · exact absurd rfl bad
    intro one other left right found home busy working
    rcases source one left found busy with rfl | ⟨early, old, was⟩ <;>
      rcases source other right home working with same | ⟨late, past, had⟩
    · exact same.symm
    · exact (mine other left late past had found busy).symm
    · subst same
      exact mine one right early old was home working
    · exact sound.alone one other early late old past was had

include sound there in
/-- Steps that leave the semaphore as it is. -/
theorem ordered_same (place : Place) (ready : Ready state.semaphore place)
    (calm : initialising place = false) (open_ : place ≠ .done)
    (unfinished : process.place ≠ .done) :
    Ordered (state.moved index process place state.semaphore) := by
  refine ordered_moved state sound index process there place state.semaphore ready
    (fun other one _ found => sound.ready one (List.mem_of_getElem? found))
      (fun busy => ?_) sound.shown ?_
  · rw [calm] at busy
    cases busy
  · intro one same initialised
    have zero : contribution { process with place := place } = 0 := if_neg open_
    rw [completed_moved state index process place _ there unfinished, zero, Int.add_zero]
    exact sound.value one same initialised

include sound there

theorem create_ordered (initial : Int) (absent : state.semaphore = none) :
    Ordered (state.moved index process .setval (some ⟨initial, 0, false⟩)) := by
  have early : ∀ one ∈ state.processes, one.place = .create := by
    intro one member
    have ready := sound.ready one member
    rw [absent] at ready
    cases here : one.place <;> simp [here, Ready] at ready
    rfl
  refine ordered_moved state sound index process there .setval _ ⟨_, rfl, rfl⟩ ?_
    (fun _ => Or.inr ?_) ?_ ?_
  · intro other one _ found
    rw [early one (List.mem_of_getElem? found)]
    trivial
  · intro one member
    rw [early one member]
    rfl
  · intro one same shown
    cases same
    exact absurd rfl shown
  · intro one same bad
    cases same
    cases bad

theorem setval_ordered (semaphore : Semaphore) (present : state.semaphore = some semaphore)
    (place : process.place = .setval) :
    Ordered (state.moved index process .mark
      (some { semaphore with value := 0, initialised := true })) := by
  have own := sound.ready process (List.mem_of_getElem? there)
  rw [place, present] at own
  obtain ⟨_, same, fresh⟩ := own
  cases same
  have untouched : semaphore.otime = 0 := by
    by_contra shown
    rw [sound.shown semaphore present shown] at fresh
    cases fresh
  have waiting : ∀ one ∈ state.processes, one.place ≠ .done := by
    intro one member bad
    have ready := sound.ready one member
    rw [bad, present] at ready
    obtain ⟨_, same, initialised, _⟩ := ready
    cases same
    rw [fresh] at initialised
    cases initialised
  have unfinished : process.place ≠ .done := waiting process (List.mem_of_getElem? there)
  refine ordered_moved state sound index process there .mark _ ⟨_, rfl, rfl, untouched⟩ ?_
    (fun _ => Or.inl (by rw [place]; rfl)) ?_ ?_
  · intro other one different found
    have ready := sound.ready one (List.mem_of_getElem? found)
    rw [present] at ready
    cases here : one.place with
    | create => trivial
    | setval =>
        -- there is one creator
        exact absurd (sound.alone other index one process found there (by rw [here]; rfl)
          (by rw [place]; rfl)) different
    | mark =>
        rw [here] at ready
        obtain ⟨_, same, initialised, _⟩ := ready
        cases same
        rw [fresh] at initialised
        cases initialised
    | operate =>
        rw [here] at ready
        obtain ⟨_, same, initialised, _⟩ := ready
        cases same
        rw [fresh] at initialised
        cases initialised
    | done => exact absurd here (waiting one (List.mem_of_getElem? found))
    | get => rfl
    | stat j => rfl
    | failed => rfl
  · intro one same _
    cases same
    rfl
  · intro one same _
    cases same
    have zero : contribution { process with place := .mark } = 0 := rfl
    rw [completed_moved state index process .mark _ there unfinished,
        completed_zero state waiting, zero]
    rfl

/-- The no-op finds the value that SETVAL has left. -/
theorem mark_value (semaphore : Semaphore) (present : state.semaphore = some semaphore)
    (place : process.place = .mark) :
    semaphore.value = 0 ∧ semaphore.initialised = true ∧ semaphore.otime = 0 := by
  have own := sound.ready process (List.mem_of_getElem? there)
  rw [place, present] at own
  obtain ⟨_, same, initialised, untouched⟩ := own
  cases same
  refine ⟨?_, initialised, untouched⟩
  rw [sound.value semaphore present initialised]
  refine completed_zero state fun one member bad => ?_
  have ready := sound.ready one member
  rw [bad, present] at ready
  obtain ⟨_, same, _, shown⟩ := ready
  cases same
  exact shown untouched

/-- A successful `semop` after the initialisation. -/
theorem semop_ordered (semaphore after : Semaphore) (present : state.semaphore = some semaphore)
    (initialised : semaphore.initialised = true) (still : after.initialised = true)
    (shown : after.otime ≠ 0) (place : Place) (next : place = .operate ∨ place = .done)
    (unfinished : process.place ≠ .done)
    (marking : initialising process.place = true ∨ semaphore.otime ≠ 0)
    (value : after.value = semaphore.value + contribution { process with place := place }) :
    Ordered (state.moved index process place (some after)) := by
  refine ordered_moved state sound index process there place _ ?_ ?_ (fun busy => ?_) ?_ ?_
  · rcases next with rfl | rfl
    · exact ⟨after, rfl, still, shown⟩
    · exact ⟨after, rfl, still, shown⟩
  · intro other one different found
    have ready := sound.ready one (List.mem_of_getElem? found)
    rw [present] at ready
    cases here : one.place with
    | create => trivial
    | setval =>
        rw [here] at ready
        obtain ⟨_, same, bad⟩ := ready
        cases same
        rw [initialised] at bad
        cases bad
    | mark =>
        rw [here] at ready
        obtain ⟨_, same, _, untouched⟩ := ready
        cases same
        rcases marking with busy | bad
        · exact absurd (sound.alone other index one process found there
            (by rw [here]; rfl) busy) different
        · exact absurd untouched bad
    | operate => exact ⟨after, rfl, still, shown⟩
    | done => exact ⟨after, rfl, still, shown⟩
    | get => rfl
    | stat j => rfl
    | failed => rfl
  · rcases next with rfl | rfl <;> cases busy
  · intro one same _
    cases same
    exact still
  · intro one same _
    cases same
    rw [completed_moved state index process place _ there unfinished, value,
      sound.value semaphore present initialised]

end Moves

theorem semop_cases (semaphore : Semaphore) (op : Int) (time : Nat) (after : Semaphore)
    (done : semop semaphore op time = .ok after) :
    after.value = semaphore.value + op ∧ after.initialised = semaphore.initialised ∧
      after.otime ≠ 0 := by
  unfold semop at done
  split at done
  · next zero =>
      split at done
      · cases done
        exact ⟨by rw [zero, Int.add_zero], rfl, Nat.succ_ne_zero time⟩
      · cases done
  · split at done
    · cases done
    · split at done
      · cases done
      · cases done
        exact ⟨rfl, rfl, Nat.succ_ne_zero time⟩

theorem step_ordered (choice : Choice) (before after : State) (sound : Ordered before)
    (taken : step choice before = some after) : Ordered after := by
  obtain ⟨process, there, moved⟩ := Option.bind_eq_some_iff.mp taken
  have own := sound.ready process (List.mem_of_getElem? there)
  unfold stepProcess at moved
  dsimp only at moved
  split at moved
  · next absent =>
      cases moved
      exact create_ordered before sound choice.index process there choice.initial absent
  · next semaphore place present =>
      cases moved
      rw [← present]
      exact ordered_same before sound choice.index process there .get
        (by rw [present]; rfl) rfl (by decide) (by rw [place]; decide)
  · next semaphore place present =>
      cases moved
      exact setval_ordered before sound choice.index process there semaphore present place
  · next semaphore place present =>
      obtain ⟨_, initialised, _⟩ :=
        mark_value before sound choice.index process there semaphore present place
      split at moved
      · next marked done =>
          cases moved
          obtain ⟨value, same, shown⟩ := semop_cases semaphore 0 choice.time marked done
          exact semop_ordered before sound choice.index process there semaphore marked
            present initialised
            (same.trans initialised) shown .operate (Or.inl rfl) (by rw [place]; decide)
            (Or.inl (by rw [place]; rfl)) value
      · cases moved
      · cases moved
        rw [← present]
        exact ordered_same before sound choice.index process there .failed
          (by rw [present]; rfl) rfl (by decide) (by rw [place]; decide)
  · next semaphore place present =>
      cases moved
      rw [← present]
      exact ordered_same before sound choice.index process there (.stat 0)
        (by rw [present]; rfl) rfl (fun bad => by cases bad) (by rw [place]; decide)
  · next j semaphore place present =>
      cases moved
      have unfinished : process.place ≠ .done := by
        rw [place]
        exact fun bad => by cases bad
      rw [← present]
      split
      · next shown =>
          exact ordered_same before sound choice.index process there .operate
            ⟨semaphore, present, sound.shown semaphore present shown, shown⟩ rfl
              (by decide) unfinished
      · split
        · exact ordered_same before sound choice.index process there (.stat (j + 1))
            (by rw [present]; rfl) rfl (fun bad => by cases bad) unfinished
        · exact ordered_same before sound choice.index process there .failed
            (by rw [present]; rfl) rfl (by decide) unfinished
  · next semaphore place present =>
      rw [place, present] at own
      obtain ⟨_, same, initialised, shown⟩ := own
      cases same
      split at moved
      · next operated done =>
          cases moved
          obtain ⟨value, same, later⟩ :=
            semop_cases semaphore (semOp process.arg) choice.time operated done
          exact semop_ordered before sound choice.index process there semaphore operated
            present initialised
            (same.trans initialised) later .done (Or.inr rfl) (by rw [place]; decide)
              (Or.inr shown) value
      · cases moved
      · cases moved
        rw [← present]
        exact ordered_same before sound choice.index process there .failed
          (by rw [present]; rfl) rfl (by decide) (by rw [place]; decide)
  · cases moved

theorem start_ordered (args : List Int) : Ordered (start args) := by
  have first : ∀ process ∈ (start args).processes, process.place = .create := by
    intro process member
    obtain ⟨arg, _, rfl⟩ := List.mem_map.mp member
    rfl
  refine ⟨?_, ?_, (fun _ bad => by cases bad), (fun _ bad => by cases bad)⟩
  · intro process member
    rw [first process member]
    trivial
  · intro one other left right found _ busy
    rw [first left (List.mem_of_getElem? found)] at busy
    cases busy

/-- In every interleaving: the final operations come after SETVAL, the creator's no-op
finds the value 0 and goes through, and the value is the sum of the completed operations. -/
theorem initialisation_loses_no_operation (args : List Int) (state : State)
    (reached : Transition.Reachable (· = start args) step state) :
    (∀ process ∈ state.processes, process.place = .operate ∨ process.place = .done →
      ∃ semaphore, state.semaphore = some semaphore ∧ semaphore.initialised = true) ∧
    (∀ (index : Nat) process, state.processes[index]? = some process → process.place = .mark →
      (∃ semaphore, state.semaphore = some semaphore ∧ semaphore.value = 0) ∧
      ∀ initial time, ∃ after, step ⟨index, initial, time⟩ state = some after ∧
        after.processes = state.processes.set index { process with place := .operate }) ∧
    ∀ semaphore, state.semaphore = some semaphore → semaphore.initialised = true →
      semaphore.value = completed state := by
  have sound : Ordered state := by
    refine Transition.reachable_invariant ?_ step_ordered reached
    rintro state rfl
    exact start_ordered args
  refine ⟨?_, ?_, sound.value⟩
  · rintro process member (place | place)
    · have ready := sound.ready process member
      rw [place] at ready
      obtain ⟨semaphore, present, initialised, _⟩ := ready
      exact ⟨semaphore, present, initialised⟩
    · have ready := sound.ready process member
      rw [place] at ready
      obtain ⟨semaphore, present, initialised, _⟩ := ready
      exact ⟨semaphore, present, initialised⟩
  · intro index process there place
    have ready := sound.ready process (List.mem_of_getElem? there)
    rw [place] at ready
    obtain ⟨semaphore, present, _⟩ := ready
    obtain ⟨zero, _⟩ := mark_value state sound index process there semaphore present place
    refine ⟨⟨semaphore, present, zero⟩, fun initial time => ?_⟩
    refine ⟨state.moved index process .operate (some { semaphore with otime := time + 1 }),
      ?_, rfl⟩
    simp [step, there, stepProcess, place, present, semop, zero]

-- The second process asks for the set while the first has not initialised it yet.
theorem waiting_process_operates_in_time :
    ∃ state, Transition.replay step
        [⟨0, 99, 0⟩, ⟨1, 0, 0⟩, ⟨1, 0, 0⟩, ⟨1, 0, 0⟩, ⟨0, 0, 0⟩, ⟨0, 0, 0⟩,
          ⟨1, 0, 0⟩, ⟨1, 0, 0⟩] (start [2, 3]) =
        some state ∧
      state.semaphore = some ⟨3, 1, true⟩ ∧ completed state = 3 := by
  obtain ⟨state, replayed, present⟩ : ∃ state, Transition.replay step
      [⟨0, 99, 0⟩, ⟨1, 0, 0⟩, ⟨1, 0, 0⟩, ⟨1, 0, 0⟩, ⟨0, 0, 0⟩, ⟨0, 0, 0⟩,
        ⟨1, 0, 0⟩, ⟨1, 0, 0⟩] (start [2, 3]) =
      some state ∧ state.semaphore = some ⟨3, 1, true⟩ := ⟨_, rfl, by decide⟩
  have reached : Transition.Reachable (· = start [2, 3]) step state :=
    Transition.replay_reachable _ (.start rfl) replayed
  exact ⟨state, replayed, present,
    ((initialisation_loses_no_operation [2, 3] state reached).2.2 _ present rfl).symm⟩

end Tlpi.SemaphoreInit
