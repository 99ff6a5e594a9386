import Mathlib.Algebra.Order.Ring.Int
import Mathlib.Data.List.Basic
import Tlpi.Indexed
import Tlpi.RandomAccess
import Tlpi.Transition

/-!
fileio/atomic_append.c: any number of processes add bytes to one file, each either with O_APPEND
or, given an `x`, with an `lseek` to the end before every `write`. A process that dies or whose
call fails takes no further step.
-/

namespace Tlpi.AtomicAppend

open RandomAccess

structure Process where
  useLseek : Bool
  numBytes : Int
  j : Nat
  seeked : Bool
  offset : Nat
  dead : Bool
  deriving DecidableEq

structure State where
  file : List UInt8
  processes : List Process
  deriving DecidableEq

inductive Choice where
  | act (index : Nat)
  | kill (index : Nat)
  deriving DecidableEq

/-- Where a `write` puts its byte. -/
def Process.target (process : Process) (file : List UInt8) : Nat :=
  if process.useLseek then process.offset else file.length

def act (file : List UInt8) (process : Process) : Option (List UInt8 × Process) :=
  if process.dead = true ∨ process.numBytes ≤ process.j then none
  else if process.useLseek && !process.seeked then
    some (file, { process with offset := file.length, seeked := true })
  else some (store 0 file (process.target file) [120],
    { process with j := process.j + 1, offset := process.target file + 1, seeked := false })

def step : Choice → State → Option State
  | .act index, state =>
      match state.processes[index]? with
      | none => none
      | some process =>
          (act state.file process).map fun moved => ⟨moved.1, state.processes.set index moved.2⟩
  | .kill index, state =>
      match state.processes[index]? with
      | none => none
      | some process =>
          if process.dead then none
          else
            some { state with
              processes := state.processes.set index { process with dead := true } }

/-- Each process has a flag for its `x` and its `num-bytes`. -/
def start (initial : List UInt8) (arguments : List (Bool × Int)) : State :=
  ⟨initial, arguments.map fun argument => ⟨argument.1, argument.2, 0, false, 0, false⟩⟩

def Process.argument (process : Process) : Bool × Int := (process.useLseek, process.numBytes)

def Process.appended (process : Process) : Nat := if process.useLseek then 0 else process.j

/-- A process that has looked for the end found it behind all its own bytes. -/
structure Fits (initial : List UInt8) (count : Nat) (process : Process) : Prop where
  own : process.j ≤ count
  bounded : process.j ≤ process.numBytes.toNat
  ahead : process.useLseek = true → process.seeked = true →
    initial.length + process.j ≤ process.offset ∧ process.offset ≤ initial.length + count

structure Inv (initial : List UInt8) (arguments : List (Bool × Int)) (count : Nat)
    (state : State) : Prop where
  file : state.file = initial ++ List.replicate count 120
  given : state.processes.map Process.argument = arguments
  fits : ∀ process ∈ state.processes, Fits initial count process
  appended : (state.processes.map Process.appended).sum ≤ count
  total : count ≤ (state.processes.map Process.j).sum

theorem start_inv (initial : List UInt8) (arguments : List (Bool × Int)) :
    Inv initial arguments 0 (start initial arguments) := by
  have none : ((start initial arguments).processes.map Process.appended).sum = 0 := by
    rw [start, List.map_map, List.sum_eq_zero]
    intro number member
    obtain ⟨argument, _, rfl⟩ := List.mem_map.mp member
    simp [Process.appended]
  refine ⟨(List.append_nil initial).symm, ?_, ?_, none.le, Nat.zero_le _⟩
  · rw [start, List.map_map]
    exact List.map_id arguments
  · intro process member
    obtain ⟨argument, _, rfl⟩ := List.mem_map.mp member
    exact ⟨Nat.zero_le _, Nat.zero_le _, fun _ bad => by cases bad⟩

/-- A byte is added at the end or replaces one like it. -/
theorem store_grows (initial : List UInt8) (count place : Nat) (least : initial.length ≤ place)
    (most : place ≤ initial.length + count) :
    store 0 (initial ++ List.replicate count 120) place [120] =
      initial ++ List.replicate (max count (place - initial.length + 1)) 120 := by
  have length := store_length (0 : UInt8) (initial ++ List.replicate count 120) ⟨place, [120]⟩
  simp only [Write.ending, List.length_append, List.length_replicate,
    List.length_singleton, reduceCtorEq, if_false] at length
  refine List.ext_getElem ?_ fun index first second => ?_
  · rw [length, List.length_append, List.length_replicate]
    omega
  · have cell :=
      store_get (0 : UInt8) (initial ++ List.replicate count 120) ⟨place, [120]⟩ index
    rw [List.getD_eq_getElem _ _ first] at cell
    rw [cell, Write.at]
    rcases Nat.lt_trichotomy index place with before | rfl | after
    · have inside : index < (initial ++ List.replicate count (120 : UInt8)).length := by
        rw [List.length_append, List.length_replicate]
        omega
      rw [if_neg (Nat.not_le.mpr before), Option.getD_none, List.getD_eq_getElem _ _ inside]
      rcases Nat.lt_or_ge index initial.length with old | added
      · rw [List.getElem_append_left old, List.getElem_append_left old]
      · rw [List.getElem_append_right added, List.getElem_append_right added,
          List.getElem_replicate, List.getElem_replicate]
    · rw [if_pos (Nat.le_refl _), Nat.sub_self, List.getElem_append_right least,
          List.getElem_replicate]
      rfl
    · have inside : index < (initial ++ List.replicate count (120 : UInt8)).length := by
        rw [List.length_append, List.length_replicate] at second ⊢
        omega
      have beyond : index - place ≠ 0 := by omega
      rw [if_pos after.le, List.getElem?_eq_none_iff.mpr (Nat.pos_of_ne_zero beyond),
        Option.getD_none, List.getD_eq_getElem _ _ inside, List.getElem_append_right (by omega),
        List.getElem_append_right (by omega), List.getElem_replicate, List.getElem_replicate]

theorem fits_later (initial : List UInt8) (before after : Nat) (process : Process)
    (fits : Fits initial before process) (more : before ≤ after) : Fits initial after process :=
  ⟨fits.own.trans more, fits.bounded, fun seeks seeked =>
    ⟨(fits.ahead seeks seeked).1,
      (fits.ahead seeks seeked).2.trans (Nat.add_le_add_left more _)⟩⟩

/-- A step of one process, which leaves the file with `added` bytes. -/
theorem updated_inv (initial : List UInt8) (arguments : List (Bool × Int)) (count added : Nat)
    (before : State) (inv : Inv initial arguments count before) (index : Nat) (old new : Process)
    (there : before.processes[index]? = some old) (same : new.argument = old.argument)
    (fits : Fits initial added new) (more : count ≤ added)
    (appended : count + new.appended ≤ added + old.appended)
    (total : added + old.j ≤ count + new.j) :
    Inv initial arguments added ⟨initial ++ List.replicate added 120,
      before.processes.set index new⟩ := by
  refine ⟨rfl, ?_, fun process member => ?_, ?_, ?_⟩
  · rw [Indexed.map_set_same _ _ _ _ _ there same]
    exact inv.given
  · rcases List.mem_or_eq_of_mem_set member with earlier | rfl
    · exact fits_later initial count added process (inv.fits process earlier) more
    · exact fits
  · have sum := Indexed.sum_set Process.appended before.processes index old new there
    have least := inv.appended
    dsimp only
    omega
  · have sum := Indexed.sum_set Process.j before.processes index old new there
    have most := inv.total
    dsimp only
    omega

theorem act_inv (initial : List UInt8) (arguments : List (Bool × Int))
    (count : Nat) (before : State) (inv : Inv initial arguments count before) (index : Nat)
    (process : Process) (there : before.processes[index]? = some process)
    (moved : List UInt8 × Process) (taken : act before.file process = some moved) :
    ∃ added, Inv initial arguments added ⟨moved.1, before.processes.set index moved.2⟩ := by
  have fits := inv.fits process (List.mem_of_getElem? there)
  have length : before.file.length = initial.length + count := by
    rw [inv.file, List.length_append, List.length_replicate]
  unfold act at taken
  split at taken
  · cases taken
  · next going =>
      rw [not_or] at going
      have bounded : process.j + 1 ≤ process.numBytes.toNat := by omega
      split at taken
      · cases taken
        refine ⟨count, ?_⟩
        have moved := updated_inv initial arguments count count before inv index process
          { process with offset := before.file.length, seeked := true } there rfl ?_
            (Nat.le_refl _) (Nat.le_refl _)
          (Nat.le_refl _)
        · rwa [← inv.file] at moved
        · exact ⟨fits.own, fits.bounded, fun _ _ => by
            dsimp only
            have own := fits.own
            omega⟩
      · next writes =>
          cases taken
          dsimp only
          have place : initial.length + process.j ≤ process.target before.file ∧
              process.target before.file ≤ initial.length + count := by
            unfold Process.target
            split
            · next seeks =>
                rw [seeks, Bool.true_and, Bool.not_eq_true', Bool.not_eq_false] at writes
                exact fits.ahead seeks writes
            · have own := fits.own
              omega
          have grown := store_grows initial count (process.target before.file) (by omega) place.2
          rw [inv.file] at grown place ⊢
          rw [grown]
          refine ⟨_, updated_inv initial arguments count _ before inv index process _ there rfl ?_
            (Nat.le_max_left _ _) ?_ ?_⟩
          · refine ⟨?_, bounded, fun _ bad => by cases bad⟩
            dsimp only
            omega
          · unfold Process.appended
            split
            · omega
            · next appends =>
                rw [Process.target, if_neg appends, List.length_append, List.length_replicate]
                dsimp only
                omega
          · dsimp only
            omega

theorem step_inv (initial : List UInt8) (arguments : List (Bool × Int)) (choice : Choice)
    (before after : State) (earlier : ∃ count, Inv initial arguments count before)
    (taken : step choice before = some after) : ∃ count, Inv initial arguments count after := by
  obtain ⟨count, inv⟩ := earlier
  cases choice with
  | act index =>
      simp only [step] at taken
      split at taken
      · cases taken
      · next process there =>
          obtain ⟨moved, made, rfl⟩ := Option.map_eq_some_iff.mp taken
          exact act_inv initial arguments count before inv index process there moved made
  | kill index =>
      simp only [step] at taken
      split at taken
      · cases taken
      · next process there =>
          rw [Option.ite_none_left_eq_some, Option.some.injEq] at taken
          obtain ⟨_, rfl⟩ := taken
          have fits := inv.fits process (List.mem_of_getElem? there)
          have moved := updated_inv initial arguments count count before inv index process
            { process with dead := true } there rfl ⟨fits.own, fits.bounded, fits.ahead⟩
              (Nat.le_refl _) (Nat.le_refl _)
            (Nat.le_refl _)
          rw [← inv.file] at moved
          exact ⟨count, moved⟩

/-! Two processes that seek may lose as many bytes as the shorter one writes. -/

def added (initial : List UInt8) (count : Nat) : List UInt8 := initial ++ List.replicate count 120

theorem added_length (initial : List UInt8) (count : Nat) :
    (added initial count).length = initial.length + count := by
  rw [added, List.length_append, List.length_replicate]

/-- A process with an `x`, before or after an `lseek`. -/
def seeking (numBytes j offset : Nat) (seeked : Bool) : Process :=
  ⟨true, numBytes, j, seeked, offset, false⟩

section Seeking
variable (file : List UInt8) (processes : List Process) (index numBytes j offset : Nat)
  (less : j < numBytes)
include less

theorem still_going (seeked : Bool) : ¬ ((seeking numBytes j offset seeked).dead = true ∨
    (seeking numBytes j offset seeked).numBytes ≤ (seeking numBytes j offset seeked).j) := by
  rintro (bad | bad)
  · cases bad
  · exact absurd (Int.ofNat_le.mp bad) (Nat.not_le.mpr less)

theorem step_seeks (found : processes[index]? = some (seeking numBytes j offset false)) :
    step (.act index) ⟨file, processes⟩ =
      some ⟨file, processes.set index (seeking numBytes j file.length true)⟩ := by
  simp only [step, found, act, if_neg (still_going numBytes j offset less false)]
  rfl

theorem step_writes (found : processes[index]? = some (seeking numBytes j offset true)) :
    step (.act index) ⟨file, processes⟩ =
      some ⟨store 0 file offset [120],
        processes.set index (seeking numBytes (j + 1) (offset + 1) false)⟩ := by
  simp only [step, found, act, if_neg (still_going numBytes j offset less true)]
  rfl

end Seeking

section Pair
variable (initial : List UInt8) (count first second done written : Nat)

theorem grows_at_end :
    store 0 (added initial count) (initial.length + count) [120] = added initial (count + 1) := by
  unfold added
  rw [store_grows initial count _ (Nat.le_add_right _ _) (Nat.le_refl _)]
  congr 2
  omega

theorem stays_before_end :
    store 0 (added initial (count + 1)) (initial.length + count) [120] =
      added initial (count + 1) := by
  unfold added
  rw [store_grows initial (count + 1) _ (Nat.le_add_right _ _) (by omega)]
  congr 2
  omega

def pair (offsets : Nat × Nat) : State :=
  ⟨added initial count, [seeking first done offsets.1 false,
    seeking second written offsets.2 false]⟩

/-- Both look for the end before either writes, and one byte is lost. -/
theorem collides (offsets : Nat × Nat) (short : done < first) (less : written < second) :
    ∃ later, Transition.replay step [.act 0, .act 1, .act 0, .act 1]
      (pair initial count first second done written offsets) =
        some (pair initial (count + 1) first second (done + 1) (written + 1) later) := by
  refine ⟨(initial.length + count + 1, initial.length + count + 1), ?_⟩
  refine Transition.replay_cons _ _ (step_seeks _ _ 0 first done offsets.1 short rfl) ?_
  refine Transition.replay_cons _ _ (step_seeks _ _ 1 second written offsets.2 less rfl) ?_
  refine Transition.replay_cons _ _ (step_writes _ _ 0 first done _ short rfl) ?_
  refine Transition.replay_cons _ _ (step_writes _ _ 1 second written _ less rfl) ?_
  rw [added_length, grows_at_end, stays_before_end]
  rfl

theorem first_adds (offsets : Nat × Nat) (short : done < first) :
    ∃ later, Transition.replay step [.act 0, .act 0]
      (pair initial count first second done written offsets) =
        some (pair initial (count + 1) first second (done + 1) written later) := by
  refine ⟨(initial.length + count + 1, offsets.2), ?_⟩
  refine Transition.replay_cons _ _ (step_seeks _ _ 0 first done offsets.1 short rfl) ?_
  refine Transition.replay_cons _ _ (step_writes _ _ 0 first done _ short rfl) ?_
  rw [added_length, grows_at_end]
  rfl

theorem second_adds (offsets : Nat × Nat) (less : written < second) :
    ∃ later, Transition.replay step [.act 1, .act 1]
      (pair initial count first second done written offsets) =
        some (pair initial (count + 1) first second done (written + 1) later) := by
  refine ⟨(offsets.1, initial.length + count + 1), ?_⟩
  refine Transition.replay_cons _ _ (step_seeks _ _ 1 second written offsets.2 less rfl) ?_
  refine Transition.replay_cons _ _ (step_writes _ _ 1 second written _ less rfl) ?_
  rw [added_length, grows_at_end]
  rfl

end Pair

/-- The two can end with any number of bytes between the larger and the sum. -/
theorem pair_reaches (initial : List UInt8) (first second more : Nat) :
    ∀ (count done written : Nat) (offsets : Nat × Nat), done ≤ first → written ≤ second →
      first - done ≤ more → second - written ≤ more →
    more ≤ (first - done) + (second - written) →
    ∃ choices later, Transition.replay step choices
      (pair initial count first second done written offsets) =
      some (pair initial (count + more) first second first second later) := by
  induction more with
  | zero =>
      intro count done written offsets within inside least fewest _
      obtain rfl : done = first := by omega
      obtain rfl : written = second := by omega
      exact ⟨[], offsets, rfl⟩
  | succ more ih =>
      intro count done written offsets within inside least fewest most
      have goOn (choices : List Choice) (done' written' : Nat) (later : Nat × Nat)
          (run : Transition.replay step choices (pair initial count first second done written
            offsets) =
            some (pair initial (count + 1) first second done' written' later))
          (rest : ∃ choices last,
            Transition.replay step choices
              (pair initial (count + 1) first second done' written' later) =
              some (pair initial (count + 1 + more) first second first second last)) :
          ∃ choices later, Transition.replay step choices
            (pair initial count first second done written offsets) =
            some (pair initial (count + (more + 1)) first second first second later) := by
        obtain ⟨others, last, ended⟩ := rest
        rw [Nat.add_comm more 1, ← Nat.add_assoc]
        exact ⟨choices ++ others, last, Transition.replay_append choices others run ended⟩
      -- a collision where more is left to write than may be added
      by_cases crowded : more + 1 < (first - done) + (second - written)
      · obtain ⟨later, run⟩ :=
          collides initial count first second done written offsets (by omega) (by omega)
        exact goOn _ _ _ _ run (ih _ _ _ _ (by omega) (by omega) (by omega) (by omega) (by omega))
      · by_cases open_ : done < first
        · obtain ⟨later, run⟩ :=
            first_adds initial count first second done written offsets open_
          exact goOn _ _ _ _ run (ih _ _ _ _ (by omega) (by omega) (by omega) (by omega) (by omega))
        · obtain ⟨later, run⟩ :=
            second_adds initial count first second done written offsets (by omega)
          exact goOn _ _ _ _ run (ih _ _ _ _ (by omega) (by omega) (by omega) (by omega) (by omega))

/-- What a process that can go no further has written. -/
theorem act_none (file : List UInt8) (process : Process) (alive : process.dead = false)
    (bounded : process.j ≤ process.numBytes.toNat) (stuck : act file process = none) :
    process.j = process.numBytes.toNat := by
  unfold act at stuck
  split at stuck
  · next ended =>
      rcases ended with bad | left
      · rw [alive] at bad
        cases bad
      · omega
  · split at stuck
    · cases stuck
    · cases stuck

theorem all_written (initial : List UInt8) (arguments : List (Bool × Int))
    (count : Nat) (state : State) (inv : Inv initial arguments count state)
    (alive : ∀ process ∈ state.processes, process.dead = false)
    (stuck : ∀ index, step (.act index) state = none) :
    state.processes.map Process.j = arguments.map fun argument => argument.2.toNat := by
  rw [← inv.given, List.map_map]
  refine List.map_congr_left fun process member => ?_
  obtain ⟨index, there⟩ := List.getElem?_of_mem member
  have none := stuck index
  simp only [step, there, Option.map_eq_none_iff] at none
  exact act_none state.file process (alive process member) (inv.fits process member).bounded none

theorem appended_all (processes : List Process)
    (append : ∀ process ∈ processes, process.useLseek = false) :
    processes.map Process.appended = processes.map Process.j := by
  refine List.map_congr_left fun process member => ?_
  rw [Process.appended, append process member]
  rfl

/-- Nothing that was in the file is lost, nor is any byte of a process that appends; no process
finds less than its own bytes. Where all append, the file grows by exactly what they write;
but two that seek can leave any number of bytes from the larger of theirs to the sum. -/
theorem appends_lose_nothing (initial : List UInt8) (arguments : List (Bool × Int)) :
    (∀ state, Transition.Reachable (· = start initial arguments) step state →
      ∃ count, state.file = initial ++ List.replicate count 120 ∧
        (∀ process ∈ state.processes, process.j ≤ count) ∧
        (state.processes.map Process.appended).sum ≤ count ∧
        count ≤ (state.processes.map Process.j).sum ∧
        ((∀ process ∈ state.processes, process.dead = false) →
          (∀ index, step (.act index) state = none) →
          (∀ argument ∈ arguments, argument.1 = false) →
            count = (arguments.map fun argument => argument.2.toNat).sum)) ∧
      ∀ first second total : Nat, max first second ≤ total → total ≤ first + second →
        ∃ choices state,
          Transition.replay step choices (start initial [(true, (first : Int)),
            (true, (second : Int))]) = some state ∧
          state.processes.map Process.j = [first, second] ∧
            state.file = initial ++ List.replicate total 120 := by
  constructor
  · intro state reached
    have earlier : ∃ count, Inv initial arguments count state := by
      refine Transition.reachable_invariant ?_ (step_inv initial arguments) reached
      rintro _ rfl
      exact ⟨0, start_inv initial arguments⟩
    obtain ⟨count, inv⟩ := earlier
    refine ⟨count, inv.file, fun process member => (inv.fits process member).own,
      inv.appended, inv.total, ?_⟩
    intro alive stuck append
    have each : ∀ process ∈ state.processes, process.useLseek = false := by
      intro process member
      refine append process.argument ?_
      rw [← inv.given]
      exact List.mem_map_of_mem member
    have least := inv.appended
    have most := inv.total
    rw [appended_all state.processes each] at least
    rw [← all_written initial arguments count state inv alive stuck]
    exact Nat.le_antisymm most least
  · intro first second total least most
    obtain ⟨choices, later, run⟩ :=
      pair_reaches initial first second total 0 0 0 (0, 0) (Nat.zero_le _) (Nat.zero_le _)
        (by omega) (by omega) (by omega)
    rw [Nat.zero_add] at run
    refine ⟨choices, pair initial total first second first second later, ?_, rfl, rfl⟩
    rw [← run, pair, added, List.replicate_zero, List.append_nil]
    rfl

end Tlpi.AtomicAppend
