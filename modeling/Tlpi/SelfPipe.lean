import Mathlib.Data.List.Dedup
import Tlpi.CStrings
import Tlpi.DecimalText
import Tlpi.Transition

/-!
altio/self_pipe.c: a program waits with `select` for input and for SIGINT at once. The handler
writes to a pipe, so that a signal which comes before `select` blocks is not lost. SIGINT and input
may come at any time.
-/

namespace Tlpi.SelfPipe

open CStrings (Str literal)
open DecimalText (decimal)

/-- `room` is what fits into the pipe. The descriptors given as arguments are open when the pipe is
made, so that its read end is another one. -/
structure Setting where
  fds : List Nat
  pfd0 : Nat
  room : Nat
  timeout : Bool
  other : pfd0 ∉ fds
  some_ : 0 < room

inductive Place where
  | sigaction
  | select
  | isset
  | read
  | results
  | exited
  | killed
  deriving DecidableEq

/-- `caught` counts the calls of the handler and `early` those before `select` returned; `taken`
counts the bytes read from the pipe. -/
structure State where
  place : Place
  pipe : Nat
  readable : List Nat
  readfds : List Nat
  caught : Nat
  early : Nat
  taken : Nat
  stdout : Str
  deriving DecidableEq

inductive Choice where
  | act
  | timeout
  | sigint
  | input (readable : List Nat)
  deriving DecidableEq

def noticed (early : Nat) : Str := if 0 < early then literal "A signal was caught\n" else []

def results (setting : Setting) (readfds : List Nat) : Str :=
  let mark (fd : Nat) : Str := if fd ∈ readfds then literal "r" else []
  literal "ready = " ++ decimal readfds.length ++ literal "\n" ++
    setting.fds.flatMap (fun fd => decimal fd ++ literal ": " ++ mark fd ++ literal "\n") ++
    decimal setting.pfd0 ++ literal ": " ++ mark setting.pfd0 ++ literal "   (read end of pipe)\n"

section Program
variable (setting : Setting)

def ready (state : State) : List Nat :=
  setting.fds.dedup.filter (· ∈ state.readable) ++ if 0 < state.pipe then [setting.pfd0] else []

/-- `select` returns: a later signal is not seen in `readfds`. -/
def returned (readfds : List Nat) (state : State) : State :=
  { state with readfds := readfds, early := state.caught, place := .isset }

def act (state : State) : Option State :=
  match state.place with
  | .sigaction => some { state with place := .select }
  | .select =>
      if ready setting state = [] then none else some (returned (ready setting state) state)
  | .isset =>
      if setting.pfd0 ∈ state.readfds then
        some
          { state with stdout := state.stdout ++ literal "A signal was caught\n", place := .read }
      else some { state with place := .results }
  | .read =>
      -- an empty pipe gives EAGAIN
      if state.pipe = 0 then some { state with place := .results }
      else some { state with pipe := state.pipe - 1, taken := state.taken + 1 }
  | .results =>
      some { state with stdout := state.stdout ++ results setting state.readfds, place := .exited }
  | .exited => none
  | .killed => none

/-- A write to a full pipe fails with EAGAIN, which the handler ignores. -/
def handler (state : State) : State :=
  { state with
    caught := state.caught + 1, pipe :=
      if state.pipe < setting.room then state.pipe + 1
      else state.pipe }

/-- A blocked `select` that SIGINT interrupts is called again. -/
def sigint (state : State) : Option State :=
  match state.place with
  | .sigaction => some { state with place := .killed }
  | .exited => none
  | .killed => none
  | _ => some (handler setting state)

def step : Choice → State → Option State
  | .act, state => act setting state
  | .timeout, state =>
      if state.place = .select ∧ setting.timeout = true ∧ ready setting state = [] then
        some (returned [] state)
      else none
  | .sigint, state => sigint setting state
  | .input readable, state => some { state with readable := readable }

end Program

def start : State := ⟨.sigaction, 0, [], [], 0, 0, 0, []⟩

/-! What holds at each place. -/

section Runs
variable (setting : Setting)

theorem pfd0_ready (state : State) : setting.pfd0 ∈ ready setting state ↔ 0 < state.pipe := by
  have apart : setting.pfd0 ∉ setting.fds.dedup.filter (· ∈ state.readable) := fun bad =>
    setting.other (List.mem_dedup.mp (List.mem_of_mem_filter bad))
  rw [ready, List.mem_append]
  by_cases written : 0 < state.pipe
  · simp [written]
  · simp [written, apart]

/-- The bytes of the calls before `select` returned, as far as they went into the pipe, are in it
or have been read. -/
structure Told (state : State) : Prop where
  iff : setting.pfd0 ∈ state.readfds ↔ 0 < state.early
  kept : min state.early setting.room ≤ state.pipe + state.taken

def Fits (state : State) : Prop :=
  match state.place with
  | .sigaction => state.caught = 0 ∧ state.stdout = []
  | .select => min state.caught setting.room ≤ state.pipe ∧ state.stdout = []
  | .isset => Told setting state ∧ state.stdout = []
  | .read => Told setting state ∧ state.stdout = noticed state.early
  | .results => Told setting state ∧ min state.early setting.room ≤ state.taken ∧
      state.stdout = noticed state.early
  | .exited => Told setting state ∧ min state.early setting.room ≤ state.taken ∧
      state.stdout = noticed state.early ++ results setting state.readfds
  | .killed => state.caught = 0 ∧ state.stdout = []

structure Inv (state : State) : Prop where
  bytes : state.pipe + state.taken ≤ state.caught
  fits : Fits setting state

theorem start_inv : Inv setting start := ⟨Nat.le_refl _, rfl, rfl⟩

/-- Whether or not it timed out, `select` reports the pipe if and only if the handler was called. -/
theorem returned_inv (state : State) (inv : Inv setting state) (place : state.place = .select)
    (readfds : List Nat) (reports : setting.pfd0 ∈ readfds ↔ 0 < state.pipe) :
    Inv setting (returned readfds state) := by
  have bytes := inv.bytes
  have fits := inv.fits
  simp only [Fits, place] at fits
  obtain ⟨held, silent⟩ := fits
  have room := setting.some_
  refine ⟨bytes, ⟨reports.trans ?_, ?_⟩, silent⟩
  · -- the first byte always fits, so a handler that has run has left one
    change 0 < state.pipe ↔ 0 < state.caught
    omega
  · exact Nat.le_add_right_of_le held

theorem act_inv (before after : State) (inv : Inv setting before)
    (taken : act setting before = some after) : Inv setting after := by
  have bytes := inv.bytes
  have fits := inv.fits
  unfold act at taken
  cases place : before.place with
  | sigaction =>
      simp only [place, Fits] at taken fits
      cases taken
      refine ⟨bytes, ?_, fits.2⟩
      simp only [fits.1, Nat.zero_min, Nat.zero_le]
  | select =>
      simp only [place] at taken
      split at taken
      · cases taken
      · cases taken
        exact returned_inv setting before inv place _ (pfd0_ready setting before)
  | isset =>
      simp only [place, Fits] at taken fits
      obtain ⟨told, silent⟩ := fits
      split at taken
      · next seen =>
        cases taken
        refine ⟨bytes, ⟨told.iff, told.kept⟩, ?_⟩
        rw [noticed, if_pos (told.iff.mp seen), silent, List.nil_append]
      · next unseen =>
        cases taken
        have none : before.early = 0 :=
          Nat.eq_zero_of_not_pos fun some_ => unseen (told.iff.mpr some_)
        refine ⟨bytes, ⟨told.iff, told.kept⟩, ?_, ?_⟩
        · simp only [none, Nat.zero_min, Nat.zero_le]
        · simp only [none, noticed, Nat.lt_irrefl, ↓reduceIte, silent]
  | read =>
      simp only [place, Fits] at taken fits
      obtain ⟨told, said⟩ := fits
      have kept := told.kept
      split at taken
      · next empty =>
        cases taken
        refine ⟨bytes, ⟨told.iff, kept⟩, ?_, said⟩
        rwa [empty, Nat.zero_add] at kept
      · next some_ =>
        cases taken
        -- one byte goes over, and the sum stays
        have same : before.pipe - 1 + (before.taken + 1) = before.pipe + before.taken := by omega
        refine ⟨same.trans_le bytes, ?_⟩
        simp only [Fits]
        exact ⟨⟨told.iff, same ▸ kept⟩, said⟩
  | results =>
      simp only [place, Fits] at taken fits
      cases taken
      obtain ⟨told, read, said⟩ := fits
      exact ⟨bytes, ⟨told.iff, told.kept⟩, read, by rw [said]⟩
  | exited => simp only [place, reduceCtorEq] at taken
  | killed => simp only [place, reduceCtorEq] at taken

/-- The handler takes nothing away, and its byte is in the pipe afterwards unless that is full. -/
theorem handler_inv (state : State) (inv : Inv setting state) (set_up : state.place ≠ .sigaction)
    (running : state.place ≠ .killed) : Inv setting (handler setting state) := by
  have bytes := inv.bytes
  have fits := inv.fits
  have more : state.pipe ≤ (handler setting state).pipe ∧ (handler setting state).pipe ≤
      state.pipe + 1 := by
    unfold handler
    dsimp only
    split <;> omega
  have kept (told : Told setting state) : Told setting (handler setting state) :=
    ⟨told.iff, told.kept.trans (Nat.add_le_add_right more.1 _)⟩
  refine ⟨?_, ?_⟩
  · change (handler setting state).pipe + state.taken ≤ state.caught + 1
    omega
  · cases place : state.place with
    | sigaction => exact absurd place set_up
    | killed => exact absurd place running
    | select =>
        simp only [Fits, place] at fits
        simp only [Fits, handler, place]
        refine ⟨?_, fits.2⟩
        -- a byte that does not fit is one more than `room`
        split <;> omega
    | isset | read | results | exited =>
        have same : (handler setting state).place = state.place := rfl
        simp only [Fits, place] at fits
        simp only [Fits, same, place]
        exact ⟨kept fits.1, fits.2⟩

theorem sigint_inv (before after : State) (inv : Inv setting before)
    (taken : sigint setting before = some after) : Inv setting after := by
  unfold sigint at taken
  split at taken
  · next place =>
    cases taken
    have fits := inv.fits
    simp only [Fits, place] at fits
    exact ⟨inv.bytes, fits⟩
  · cases taken
  · cases taken
  · next early _ ended =>
    cases taken
    exact handler_inv setting before inv early ended

theorem step_inv (choice : Choice) (before after : State) (inv : Inv setting before)
    (taken : step setting choice before = some after) : Inv setting after := by
  cases choice with
  | act => exact act_inv setting before after inv taken
  | sigint => exact sigint_inv setting before after inv taken
  | timeout =>
      simp only [step] at taken
      split at taken
      · next elapsed =>
        cases taken
        refine returned_inv setting before inv elapsed.1 [] ?_
        rw [← pfd0_ready setting before, elapsed.2.2]
      · cases taken
  | input readable =>
      cases taken
      refine ⟨inv.bytes, ?_⟩
      have fits := inv.fits
      cases place : before.place with
      | sigaction | select | killed =>
          simp only [Fits, place] at fits ⊢
          exact fits
      | isset | read | results | exited =>
          simp only [Fits, place] at fits ⊢
          exact ⟨⟨fits.1.iff, fits.1.kept⟩, fits.2⟩

/-! The program's own steps. -/

def rank (state : State) : Nat :=
  match state.place with
  | .sigaction => state.pipe + 5
  | .select => state.pipe + 4
  | .isset => state.pipe + 3
  | .read => state.pipe + 2
  | .results => 1
  | .exited => 0
  | .killed => 0

theorem rank_bounded (state : State) : rank state ≤ state.pipe + 5 := by
  unfold rank
  split <;> omega

theorem act_lowers (before after : State) (taken : act setting before = some after) :
    rank after < rank before := by
  unfold act at taken
  split at taken
  · next place =>
    cases taken
    simp only [rank, place]
    omega
  · next place =>
    split at taken
    · cases taken
    · cases taken
      simp only [rank, returned, place]
      omega
  · next place =>
    split at taken <;> cases taken <;> simp only [rank, place] <;> omega
  · next place =>
    split at taken
    · cases taken
      simp only [rank, place]
      omega
    · cases taken
      simp only [rank, place]
      omega
  · next place =>
    cases taken
    simp only [rank, place]
    omega
  · cases taken
  · cases taken

/-- The program waits only in `select`, without a signal or input there. -/
theorem stuck_waits (state : State) (inv : Inv setting state) (stuck : act setting state = none)
    (waits : step setting .timeout state = none) :
    state.place = .exited ∨ state.place = .killed ∨
      (state.place = .select ∧ state.caught = 0 ∧
        (∀ fd ∈ setting.fds, fd ∉ state.readable) ∧ setting.timeout = false) := by
  unfold act at stuck
  split at stuck
  · cases stuck
  · next place =>
    split at stuck
    · next empty =>
      obtain ⟨none, quiet⟩ := List.append_eq_nil_iff.mp empty
      -- with an empty pipe, what holds at `select` leaves no call of the handler
      have nothing : ¬ 0 < state.pipe := fun written => by
        rw [if_pos written] at quiet; cases quiet
      have fits := inv.fits
      simp only [Fits, place] at fits
      have room := setting.some_
      refine .inr (.inr ⟨place, by omega, fun fd given there => ?_, ?_⟩)
      · exact List.filter_eq_nil_iff.mp none fd (List.mem_dedup.mpr given) (decide_eq_true there)
      · simpa only [step, place, empty, true_and, and_true, ite_eq_right_iff,
          reduceCtorEq, imp_false, Bool.not_eq_true] using waits
    · cases stuck
  · split at stuck <;> cases stuck
  · split at stuck <;> cases stuck
  · cases stuck
  · next place => exact .inl place
  · next place => exact .inr (.inl place)

/-- At its end the program has said that a signal was caught if and only if one came before `select`
returned, and has read the bytes of these signals that went into the pipe. While it waits in
`select` no signal has been caught yet, and its own steps come to an end. -/
theorem signals_are_noticed (state : State)
    (reached : Transition.Reachable (· = start) (step setting) state) :
    (state.place = .exited → state.stdout = noticed state.early ++
      results setting state.readfds ∧
      (setting.pfd0 ∈ state.readfds ↔ 0 < state.early) ∧
      min state.early setting.room ≤ state.taken) ∧
      state.pipe + state.taken ≤ state.caught ∧
      (act setting state = none → step setting .timeout state = none → state.place = .exited ∨
        state.place = .killed ∨
        (state.place = .select ∧ state.caught = 0 ∧
          (∀ fd ∈ setting.fds, fd ∉ state.readable) ∧
          setting.timeout = false)) ∧
      ∀ (turns : List Unit) after,
        Transition.replay (fun _ => act setting) turns state = some after →
        turns.length ≤ state.pipe + 5 := by
  have inv : Inv setting state :=
    Transition.reachable_invariant (fun _ here => here ▸ start_inv setting)
      (step_inv setting) reached
  refine ⟨fun place => ?_, inv.bytes, stuck_waits setting state inv,
    fun turns after replayed => ?_⟩
  · have fits := inv.fits
    simp only [Fits, place] at fits
    exact ⟨fits.2.2, fits.1.iff, fits.2.1⟩
  · have bounded := Transition.choices_bounded (fun _ => act setting) rank
      (fun _ => act_lowers setting) turns replayed
    exact bounded.trans (rank_bounded state)

end Runs

/-- Only standard input, without a timeout. -/
def stdinOnly : Setting := ⟨[0], 3, 65536, false, by decide, by decide⟩

/-- One signal comes before `select` and one while the pipe is read. -/
theorem early_signal_is_noticed : ∃ state,
    Transition.replay (step stdinOnly) [.act, .sigint, .act, .act, .act, .sigint, .act, .act,
      .act] start = some state ∧
      state.caught = 2 ∧ state.early = 1 ∧
      state.stdout =
        literal "A signal was caught\nready = 1\n0: \n3: r   (read end of pipe)\n" := by
  refine ⟨_, rfl, rfl, rfl, ?_⟩
  have told := (signals_are_noticed stdinOnly _
    (Transition.replay_reachable [.act, .sigint, .act, .act, .act, .sigint, .act, .act, .act]
      (.start rfl) rfl)).1 rfl
  exact told.1.trans (by decide)

end Tlpi.SelfPipe
