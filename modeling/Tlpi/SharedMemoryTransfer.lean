import Mathlib.Data.List.Basic
import Tlpi.Transition

/-!
svshm/svshm_xfr_writer.c and svshm/svshm_xfr_reader.c over svsem/binary_sems.c.
One choice moves one process past one semaphore operation, one access to the
shared segment or one library call. A read answers with any number of bytes
that the buffer and the remaining input allow. An interrupted `semop` is
retried by `reserveSem`, so it moves nobody. `int` totals wrap at 32 bits.
-/

namespace Tlpi.SharedMemoryTransfer

open Transition

def initSemAvailable : Nat := 1

def initSemInUse : Nat := 0

def reserveSem : Nat → Option Nat
  | 0 => none
  | value + 1 => some value

def releaseSem (value : Nat) : Nat := value + 1

structure Segment where
  cnt : Nat
  buf : List UInt8
  deriving DecidableEq

structure Totals where
  bytes : BitVec 32
  xfrs : BitVec 32
  deriving DecidableEq

/-- The writer's next action. `store` carries what `read` returned and has
not yet been assigned to `shmp->cnt`. -/
inductive WriterAt where
  | reserve
  | read
  | store (count : Nat)
  | release
  | testEof
  | advance
  | reserveLast
  | removeSems
  | detach
  | removeShm
  | report
  | finished
  deriving DecidableEq

inductive ReaderAt where
  | reserve
  | testEof
  | addBytes
  | write
  | release
  | advance
  | detach
  | releaseLast
  | report
  | finished
  deriving DecidableEq

structure System where
  stdin : List UInt8
  writeSem : Nat
  readSem : Nat
  segment : Segment
  semsRemoved : Bool
  shmRemoved : Bool
  writer : WriterAt
  reader : ReaderAt
  sent : Totals
  received : Totals
  stdout : List UInt8
  deriving DecidableEq

inductive Choice where
  | writer (count : Nat)
  | writerInterrupted
  | reader
  | readerInterrupted
  deriving DecidableEq

def readAllowed (bufSize : Nat) (stdin : List UInt8) (count : Nat) : Bool :=
  count ≤ bufSize && count ≤ stdin.length && (count == 0) == stdin.isEmpty

def readInto (segment : Segment) (stdin : List UInt8) (count : Nat) : Segment :=
  { segment with buf := stdin.take count ++ segment.buf.drop count }

def writerStep (bufSize count : Nat) (s : System) : Option System :=
  match s.writer with
  | .reserve => (reserveSem s.writeSem).map fun value =>
      { s with writeSem := value, writer := .read }
  | .read =>
      if readAllowed bufSize s.stdin count then
        some { s with
          segment := readInto s.segment s.stdin count
          stdin := s.stdin.drop count
          writer := .store count }
      else none
  | .store got => some { s with segment := { s.segment with cnt := got }, writer := .release }
  | .release => some { s with readSem := releaseSem s.readSem, writer := .testEof }
  -- The test and the byte count read `shmp->cnt` again, after the reader's turn began.
  | .testEof => some { s with writer := if s.segment.cnt = 0 then .reserveLast else .advance }
  | .advance => some { s with
      sent := ⟨s.sent.bytes + BitVec.ofNat 32 s.segment.cnt, s.sent.xfrs + 1⟩
      writer := .reserve }
  | .reserveLast => (reserveSem s.writeSem).map fun value =>
      { s with writeSem := value, writer := .removeSems }
  | .removeSems => some { s with semsRemoved := true, writer := .detach }
  | .detach => some { s with writer := .removeShm }
  | .removeShm => some { s with shmRemoved := true, writer := .report }
  | .report => some { s with writer := .finished }
  | .finished => none

def readerStep (s : System) : Option System :=
  match s.reader with
  | .reserve => (reserveSem s.readSem).map fun value =>
      { s with readSem := value, reader := .testEof }
  | .testEof => some { s with reader := if s.segment.cnt = 0 then .detach else .addBytes }
  | .addBytes => some { s with
      received := { s.received with
        bytes := s.received.bytes + BitVec.ofNat 32 s.segment.cnt }
      reader := .write }
  | .write => some { s with
      stdout := s.stdout ++ s.segment.buf.take s.segment.cnt
      reader := .release }
  | .release => some { s with writeSem := releaseSem s.writeSem, reader := .advance }
  | .advance => some { s with
      received := { s.received with xfrs := s.received.xfrs + 1 }
      reader := .reserve }
  | .detach => some { s with reader := .releaseLast }
  | .releaseLast => some { s with writeSem := releaseSem s.writeSem, reader := .report }
  | .report => some { s with reader := .finished }
  | .finished => none

def step (bufSize : Nat) (choice : Choice) (s : System) : Option System :=
  match choice with
  | .writer count => writerStep bufSize count s
  | .reader => readerStep s
  | .writerInterrupted =>
      if s.writer = .reserve ∨ s.writer = .reserveLast then some s else none
  | .readerInterrupted => if s.reader = .reserve then some s else none

/-- The writer has initialised the semaphores and attached the segment, whose
old contents are arbitrary. -/
def Started (input : List UInt8) (s : System) : Prop :=
  ∃ segment, s = ⟨input, initSemAvailable, initSemInUse, segment, false, false,
    .reserve, .reserve, ⟨0, 0⟩, ⟨0, 0⟩, []⟩

def WriterAt.modifies : WriterAt → Bool
  | .read | .store _ => true
  | _ => false

/-- From a successful `reserveSem(READ_SEM)` up to the next
`releaseSem(WRITE_SEM)`. -/
def ReaderAt.inTurn : ReaderAt → Bool
  | .testEof | .addBytes | .write | .release | .detach | .releaseLast => true
  | _ => false

def ReaderAt.leftLoop : ReaderAt → Bool
  | .detach | .releaseLast | .report | .finished => true
  | _ => false

def ReaderAt.doneWithIpc : ReaderAt → Bool
  | .report | .finished => true
  | _ => false

/-! The single permit is in one of four places: either semaphore or either
process. Each place fixes where the two programs can stand. -/

inductive Between : ReaderAt → Prop where
  | advance : Between .advance
  | reserve : Between .reserve

inductive Reading (cnt : Nat) : ReaderAt → Prop where
  | testEof : Reading cnt .testEof
  | addBytes (data : cnt ≠ 0) : Reading cnt .addBytes
  | write (data : cnt ≠ 0) : Reading cnt .write
  | release (data : cnt ≠ 0) : Reading cnt .release
  | detach (eof : cnt = 0) : Reading cnt .detach
  | releaseLast (eof : cnt = 0) : Reading cnt .releaseLast

inductive Done : ReaderAt → Prop where
  | report : Done .report
  | finished : Done .finished

inductive Resting (cnt : Nat) : WriterAt → Prop where
  | reserve : Resting cnt .reserve
  | testEof (data : cnt ≠ 0) : Resting cnt .testEof
  | advance (data : cnt ≠ 0) : Resting cnt .advance

inductive Writing (stdin : List UInt8) (cnt : Nat) : WriterAt → Prop where
  | read : Writing stdin cnt .read
  | store (count : Nat) (eof : count = 0 → stdin = []) : Writing stdin cnt (.store count)
  | release (eof : cnt = 0 → stdin = []) : Writing stdin cnt .release

inductive Away (stdin : List UInt8) (cnt : Nat) : WriterAt → Prop where
  | testEof (eof : cnt = 0 → stdin = []) : Away stdin cnt .testEof
  | advance (data : cnt ≠ 0) : Away stdin cnt .advance
  | reserve (data : cnt ≠ 0) : Away stdin cnt .reserve
  | reserveLast (eof : cnt = 0) (drained : stdin = []) : Away stdin cnt .reserveLast

inductive Leaving : WriterAt → Prop where
  | testEof : Leaving .testEof
  | reserveLast : Leaving .reserveLast

inductive Cleaning : WriterAt → Prop where
  | removeSems : Cleaning .removeSems
  | detach : Cleaning .detach
  | removeShm : Cleaning .removeShm
  | report : Cleaning .report
  | finished : Cleaning .finished

inductive Phase (stdin : List UInt8) (cnt : Nat) :
    (writeSem readSem : Nat) → WriterAt → ReaderAt → Prop where
  | free {writer reader} :
      Resting cnt writer → Between reader → Phase stdin cnt 1 0 writer reader
  | writing {writer reader} :
      Writing stdin cnt writer → Between reader → Phase stdin cnt 0 0 writer reader
  | handed {writer reader} :
      Away stdin cnt writer → Between reader → Phase stdin cnt 0 1 writer reader
  | reading {writer reader} :
      Away stdin cnt writer → Reading cnt reader → Phase stdin cnt 0 0 writer reader
  | returned {writer reader} (eof : cnt = 0) (drained : stdin = []) :
      Leaving writer → Done reader → Phase stdin cnt 1 0 writer reader
  | cleaning {writer reader} (eof : cnt = 0) (drained : stdin = []) :
      Cleaning writer → Done reader → Phase stdin cnt 0 0 writer reader

/-- Bytes taken from the input that the reader has not yet written out. -/
def System.inFlight (s : System) : List UInt8 :=
  match s.writer with
  | .store count => s.segment.buf.take count
  | .release => s.segment.buf.take s.segment.cnt
  | _ =>
      if s.readSem = 1 ∨ s.reader = .testEof ∨ s.reader = .addBytes ∨ s.reader = .write then
        s.segment.buf.take s.segment.cnt
      else []

/-- What each side has still to add for blocks already handed over. The
reader can owe two transfers: it counts one only after giving the turn back. -/
def System.writerOwes (s : System) : Totals :=
  match s.writer with
  | .testEof => ⟨BitVec.ofNat 32 s.segment.cnt, if s.segment.cnt = 0 then 0 else 1⟩
  | .advance => ⟨BitVec.ofNat 32 s.segment.cnt, 1⟩
  | _ => ⟨0, 0⟩

def System.readerOwes (s : System) : Totals :=
  let block : Totals :=
    if s.readSem = 1 ∨ s.reader = .testEof then
      ⟨BitVec.ofNat 32 s.segment.cnt, if s.segment.cnt = 0 then 0 else 1⟩
    else ⟨0, 0⟩
  match s.reader with
  | .addBytes => ⟨BitVec.ofNat 32 s.segment.cnt, 1⟩
  | .write | .release => ⟨0, 1⟩
  | .advance => ⟨block.bytes, 1 + block.xfrs⟩
  | _ => block

structure Inv (input : List UInt8) (s : System) : Prop where
  phase : Phase s.stdin s.segment.cnt s.writeSem s.readSem s.writer s.reader
  stream : s.stdout ++ s.inFlight ++ s.stdin = input
  bytes : s.sent.bytes + s.writerOwes.bytes = s.received.bytes + s.readerOwes.bytes
  xfrs : s.sent.xfrs + s.writerOwes.xfrs = s.received.xfrs + s.readerOwes.xfrs
  removal : s.semsRemoved ∨ s.shmRemoved → Cleaning s.writer

theorem started_inv (input : List UInt8) (s : System) (started : Started input s) :
    Inv input s := by
  obtain ⟨segment, rfl⟩ := started
  refine ⟨Phase.free Resting.reserve Between.reserve, ?_, ?_, ?_, ?_⟩ <;>
    simp [System.inFlight, System.writerOwes, System.readerOwes, initSemInUse]

attribute [local simp] System.inFlight System.writerOwes System.readerOwes

/-- What lies in the segment, unless the writer is about to hand it over. -/
theorem in_flight_handed (s : System) (stored : ∀ count, s.writer ≠ .store count)
    (released : s.writer ≠ .release) :
    s.inFlight =
      if s.readSem = 1 ∨ s.reader = .testEof ∨ s.reader = .addBytes ∨ s.reader = .write then
        s.segment.buf.take s.segment.cnt
      else [] := by
  cases writer : s.writer with
  | store count => exact absurd writer (stored count)
  | release => exact absurd writer released
  | _ => rw [System.inFlight, writer]

theorem away_handed (stdin : List UInt8) (cnt : Nat) (writer : WriterAt)
    (away : Away stdin cnt writer) :
    (∀ count, writer ≠ .store count) ∧ writer ≠ .release := by
  cases away <;> exact ⟨(fun _ bad => by cases bad), (fun bad => by cases bad)⟩

theorem reader_phase (s t : System)
    (phase : Phase s.stdin s.segment.cnt s.writeSem s.readSem s.writer s.reader)
    (taken : readerStep s = some t) :
    Phase t.stdin t.segment.cnt t.writeSem t.readSem t.writer t.reader := by
  rcases s with ⟨stdin, writeSem, readSem, ⟨cnt, buf⟩, semsRemoved,
    shmRemoved, writer, reader, sent, received, stdout⟩
  cases phase with
  | free resting between =>
      cases between with
      | advance =>
          cases taken
          exact Phase.free resting Between.reserve
      | reserve => simp [readerStep, reserveSem] at taken
  | writing writing between =>
      cases between with
      | advance =>
          cases taken
          exact Phase.writing writing Between.reserve
      | reserve => simp [readerStep, reserveSem] at taken
  | handed away between =>
      cases between with
      | advance =>
          cases taken
          exact Phase.handed away Between.reserve
      | reserve =>
          cases taken
          exact Phase.reading away Reading.testEof
  | reading away reading =>
      cases reading with
      | testEof =>
          cases taken
          by_cases eof : cnt = 0
          · simp only [eof, if_true]
            exact Phase.reading (eof ▸ away) (Reading.detach rfl)
          · simp only [eof, if_false]
            exact Phase.reading away (Reading.addBytes eof)
      | addBytes data =>
          cases taken
          exact Phase.reading away (Reading.write data)
      | write data =>
          cases taken
          exact Phase.reading away (Reading.release data)
      | release data =>
          cases taken
          cases away with
          | reserveLast eof => exact absurd eof data
          | testEof | advance | reserve =>
              exact Phase.free (by constructor <;> assumption) Between.advance
      | detach eof =>
          cases taken
          exact Phase.reading away (Reading.releaseLast eof)
      | releaseLast eof =>
          cases taken
          cases away with
          | testEof drained => exact Phase.returned eof (drained eof) Leaving.testEof Done.report
          | reserveLast _ drained =>
              exact Phase.returned eof drained Leaving.reserveLast Done.report
          | advance data => exact absurd eof data
          | reserve data => exact absurd eof data
  | returned eof drained leaving done =>
      cases done with
      | report =>
          cases taken
          exact Phase.returned eof drained leaving Done.finished
      | finished => cases taken
  | cleaning eof drained cleaning done =>
      cases done with
      | report =>
          cases taken
          exact Phase.cleaning eof drained cleaning Done.finished
      | finished => cases taken

/-- What the reader leaves alone. -/
theorem reader_keeps (s t : System) (taken : readerStep s = some t) :
    t.stdin = s.stdin ∧ t.writer = s.writer ∧ t.segment = s.segment ∧ t.sent = s.sent ∧
      t.semsRemoved = s.semsRemoved ∧ t.shmRemoved = s.shmRemoved := by
  unfold readerStep at taken
  split at taken
  · obtain ⟨value, _, rfl⟩ := Option.map_eq_some_iff.mp taken
    exact ⟨rfl, rfl, rfl, rfl, rfl, rfl⟩
  all_goals
    cases taken
    try exact ⟨rfl, rfl, rfl, rfl, rfl, rfl⟩

/-- The reader's steps only turn what it owes into what it has counted. -/
theorem reader_totals (s t : System)
    (phase : Phase s.stdin s.segment.cnt s.writeSem s.readSem s.writer s.reader)
    (taken : readerStep s = some t) :
    t.received.bytes + t.readerOwes.bytes = s.received.bytes + s.readerOwes.bytes ∧
    t.received.xfrs + t.readerOwes.xfrs = s.received.xfrs + s.readerOwes.xfrs := by
  rcases s with ⟨stdin, writeSem, readSem, ⟨cnt, buf⟩, semsRemoved,
    shmRemoved, writer, reader, sent, received, stdout⟩
  cases phase with
  | free resting between | writing writing between =>
      cases between with
      | advance =>
          cases taken
          simp
      | reserve => simp [readerStep, reserveSem] at taken
  | handed away between =>
      cases between with
      | advance =>
          cases taken
          simp [BitVec.add_assoc]
      | reserve =>
          cases taken
          simp
  | reading away reading =>
      cases reading with
      | testEof =>
          cases taken
          by_cases eof : cnt = 0 <;> simp [eof]
      | addBytes _ | write _ | release _ | detach _ | releaseLast _ =>
          cases taken
          simp
  | returned _ _ _ done | cleaning _ _ _ done =>
      cases done with
      | report =>
          cases taken
          simp
      | finished => cases taken

/-- The bytes in the segment are written out in one step. -/
theorem reader_stream (s t : System)
    (phase : Phase s.stdin s.segment.cnt s.writeSem s.readSem s.writer s.reader)
    (taken : readerStep s = some t) : t.stdout ++ t.inFlight = s.stdout ++ s.inFlight := by
  rcases s with ⟨stdin, writeSem, readSem, ⟨cnt, buf⟩, semsRemoved,
    shmRemoved, writer, reader, sent, received, stdout⟩
  cases phase with
  | free resting between | writing writing between =>
      cases between with
      | advance =>
          cases taken
          simp
      | reserve => simp [readerStep, reserveSem] at taken
  | handed away between =>
      obtain ⟨stored, released⟩ := away_handed stdin cnt writer away
      cases between <;>
        cases taken <;>
        rw [in_flight_handed _ stored released, in_flight_handed _ stored released] <;> simp
  | reading away reading =>
      obtain ⟨stored, released⟩ := away_handed stdin cnt writer away
      cases reading with
      | testEof =>
          cases taken
          rw [in_flight_handed _ stored released, in_flight_handed _ stored released]
          by_cases eof : cnt = 0 <;> simp [eof]
      | addBytes _ | write _ | release _ | detach _ | releaseLast _ =>
          cases taken
          rw [in_flight_handed _ stored released, in_flight_handed _ stored released]
          simp
  | returned _ _ _ done | cleaning _ _ _ done =>
      cases done with
      | report =>
          cases taken
          simp
      | finished => cases taken

theorem reader_step_inv (input : List UInt8) (s t : System) (inv : Inv input s)
    (taken : readerStep s = some t) : Inv input t := by
  obtain ⟨stdin, writer, segment, sent, sems, shm⟩ := reader_keeps s t taken
  obtain ⟨bytes, xfrs⟩ := reader_totals s t inv.phase taken
  have owes : t.writerOwes = s.writerOwes := by
    unfold System.writerOwes
    rw [writer, segment]
  refine ⟨reader_phase s t inv.phase taken, ?_, ?_, ?_, ?_⟩
  · rw [reader_stream s t inv.phase taken, stdin]
    exact inv.stream
  · rw [sent, owes, bytes]
    exact inv.bytes
  · rw [sent, owes, xfrs]
    exact inv.xfrs
  · rw [sems, shm, writer]
    exact inv.removal

theorem read_empty (bufSize count : Nat) (stdin : List UInt8)
    (allowed : readAllowed bufSize stdin count = true) : count = 0 → stdin = [] := by
  intro none
  simp_all [readAllowed]

theorem read_length (bufSize count : Nat) (stdin : List UInt8)
    (allowed : readAllowed bufSize stdin count = true) : count ≤ stdin.length := by
  simp only [readAllowed, Bool.and_eq_true, decide_eq_true_eq] at allowed
  exact allowed.1.2

theorem read_block (segment : Segment) (stdin : List UInt8) (count : Nat)
    (enough : count ≤ stdin.length) :
    (readInto segment stdin count).buf.take count = stdin.take count := by
  simp [readInto, enough]

theorem writer_phase (bufSize count : Nat) (s t : System)
    (phase : Phase s.stdin s.segment.cnt s.writeSem s.readSem s.writer s.reader)
    (taken : writerStep bufSize count s = some t) :
    Phase t.stdin t.segment.cnt t.writeSem t.readSem t.writer t.reader := by
  rcases s with ⟨stdin, writeSem, readSem, ⟨cnt, buf⟩, semsRemoved,
    shmRemoved, writer, reader, sent, received, stdout⟩
  cases phase with
  | free resting between =>
      cases resting with
      | reserve =>
          cases taken
          exact Phase.writing Writing.read between
      | testEof data =>
          cases taken
          simp only [data, if_false]
          exact Phase.free (Resting.advance data) between
      | advance data =>
          cases taken
          exact Phase.free Resting.reserve between
  | writing writing between =>
      cases writing with
      | read =>
          simp only [writerStep, Option.ite_none_right_eq_some, Option.some.injEq] at taken
          obtain ⟨allowed, rfl⟩ := taken
          refine Phase.writing (Writing.store count fun none => ?_) between
          simp [read_empty _ _ _ allowed none]
      | store got eof =>
          cases taken
          exact Phase.writing (Writing.release eof) between
      | release eof =>
          cases taken
          exact Phase.handed (Away.testEof eof) between
  | handed away between =>
      cases away with
      | testEof drained =>
          cases taken
          by_cases eof : cnt = 0
          · simp only [eof, if_true]
            exact Phase.handed (Away.reserveLast rfl (drained eof)) between
          · simp only [eof, if_false]
            exact Phase.handed (Away.advance eof) between
      | advance data =>
          cases taken
          exact Phase.handed (Away.reserve data) between
      | reserve data => simp [writerStep, reserveSem] at taken
      | reserveLast eof drained => simp [writerStep, reserveSem] at taken
  | reading away reading =>
      cases away with
      | testEof drained =>
          cases taken
          by_cases eof : cnt = 0
          · simp only [eof, if_true]
            exact Phase.reading (Away.reserveLast rfl (drained eof)) (eof ▸ reading)
          · simp only [eof, if_false]
            exact Phase.reading (Away.advance eof) reading
      | advance data =>
          cases taken
          exact Phase.reading (Away.reserve data) reading
      | reserve data => simp [writerStep, reserveSem] at taken
      | reserveLast eof drained => simp [writerStep, reserveSem] at taken
  | returned eof drained leaving done =>
      cases leaving with
      | testEof =>
          cases taken
          subst eof
          exact Phase.returned rfl drained Leaving.reserveLast done
      | reserveLast =>
          cases taken
          exact Phase.cleaning eof drained Cleaning.removeSems done
  | cleaning eof drained cleaning done =>
      cases cleaning with
      | finished => cases taken
      | removeSems | detach | removeShm | report =>
          cases taken
          exact Phase.cleaning eof drained (by constructor) done

/-- The block that the writer reads is in flight until the reader writes it. -/
theorem writer_stream (bufSize count : Nat) (s t : System)
    (phase : Phase s.stdin s.segment.cnt s.writeSem s.readSem s.writer s.reader)
    (taken : writerStep bufSize count s = some t) :
    t.stdout = s.stdout ∧ t.inFlight ++ t.stdin = s.inFlight ++ s.stdin := by
  rcases s with ⟨stdin, writeSem, readSem, ⟨cnt, buf⟩, semsRemoved,
    shmRemoved, writer, reader, sent, received, stdout⟩
  cases phase with
  | free resting between =>
      cases resting with
      | reserve | advance _ =>
          cases taken
          simp
      | testEof data =>
          cases taken
          have more : cnt ≠ 0 := data
          simp [more]
  | writing writing between =>
      cases writing with
      | read =>
          simp only [writerStep, Option.ite_none_right_eq_some, Option.some.injEq] at taken
          obtain ⟨allowed, rfl⟩ := taken
          have block := read_block ⟨cnt, buf⟩ stdin count (read_length _ _ _ allowed)
          cases between <;> simp [block]
      | store got eof =>
          cases taken
          simp
      | release eof =>
          cases taken
          simp [releaseSem]
  | handed away between =>
      cases away with
      | testEof drained =>
          cases taken
          by_cases eof : cnt = 0 <;> simp [eof]
      | advance data =>
          cases taken
          simp
      | reserve data => simp [writerStep, reserveSem] at taken
      | reserveLast eof drained => simp [writerStep, reserveSem] at taken
  | reading away reading =>
      cases away with
      | testEof drained =>
          cases taken
          by_cases eof : cnt = 0 <;> simp [eof]
      | advance data =>
          cases taken
          simp
      | reserve data => simp [writerStep, reserveSem] at taken
      | reserveLast eof drained => simp [writerStep, reserveSem] at taken
  | returned eof drained leaving done =>
      have ended : cnt = 0 := eof
      cases leaving <;> cases taken <;> simp [ended]
  | cleaning eof drained cleaning done =>
      cases cleaning with
      | finished => cases taken
      | removeSems | detach | removeShm | report =>
          cases taken
          simp

theorem writer_removal (bufSize count : Nat) (s t : System)
    (removal : s.semsRemoved ∨ s.shmRemoved → Cleaning s.writer)
    (taken : writerStep bufSize count s = some t) :
    t.semsRemoved ∨ t.shmRemoved → Cleaning t.writer := by
  rcases s with ⟨stdin, writeSem, readSem, segment, semsRemoved, shmRemoved, writer, reader,
    sent, received, stdout⟩
  cases writer with
  | reserve =>
      obtain ⟨_, _, rfl⟩ := Option.map_eq_some_iff.mp taken
      exact fun removed => nomatch removal removed
  | read =>
      simp only [writerStep, Option.ite_none_right_eq_some, Option.some.injEq] at taken
      obtain ⟨_, rfl⟩ := taken
      exact fun removed => nomatch removal removed
  | store _ | release | testEof | advance =>
      cases taken
      exact fun removed => nomatch removal removed
  | reserveLast =>
      obtain ⟨_, _, rfl⟩ := Option.map_eq_some_iff.mp taken
      exact fun _ => Cleaning.removeSems
  | removeSems | detach | removeShm | report =>
      cases taken
      exact fun _ => by constructor
  | finished => cases taken

/-- Outside of its turn the writer only turns what it owes into what it has counted. -/
theorem writer_counts (bufSize count : Nat) (s t : System)
    (taken : writerStep bufSize count s = some t) (stored : ∀ got, s.writer ≠ .store got)
    (released : s.writer ≠ .release) :
    t.sent.bytes + t.writerOwes.bytes = s.sent.bytes + s.writerOwes.bytes ∧
    t.sent.xfrs + t.writerOwes.xfrs = s.sent.xfrs + s.writerOwes.xfrs ∧
    t.received = s.received ∧ t.readerOwes = s.readerOwes := by
  rcases s with ⟨stdin, writeSem, readSem, segment, semsRemoved, shmRemoved, writer, reader,
    sent, received, stdout⟩
  cases writer with
  | store got => exact absurd rfl (stored got)
  | release => exact absurd rfl released
  | reserve | reserveLast =>
      obtain ⟨_, _, rfl⟩ := Option.map_eq_some_iff.mp taken
      exact ⟨rfl, rfl, rfl, rfl⟩
  | read =>
      simp only [writerStep, Option.ite_none_right_eq_some, Option.some.injEq] at taken
      obtain ⟨_, rfl⟩ := taken
      exact ⟨rfl, rfl, rfl, rfl⟩
  | testEof =>
      cases taken
      by_cases eof : segment.cnt = 0
      · exact ⟨by simp [System.writerOwes, eof], by simp [System.writerOwes, eof], rfl, rfl⟩
      · exact ⟨by simp [System.writerOwes, eof], by simp [System.writerOwes, eof], rfl, rfl⟩
  | advance =>
      cases taken
      exact ⟨by simp [System.writerOwes], by simp [System.writerOwes], rfl, rfl⟩
  | removeSems | detach | removeShm | report =>
      cases taken
      exact ⟨rfl, rfl, rfl, rfl⟩
  | finished => cases taken

/-- With `releaseSem` both sides come to owe the block. -/
theorem writer_totals (bufSize count : Nat) (s t : System)
    (phase : Phase s.stdin s.segment.cnt s.writeSem s.readSem s.writer s.reader)
    (taken : writerStep bufSize count s = some t)
    (bytes : s.sent.bytes + s.writerOwes.bytes = s.received.bytes + s.readerOwes.bytes)
    (xfrs : s.sent.xfrs + s.writerOwes.xfrs = s.received.xfrs + s.readerOwes.xfrs) :
    t.sent.bytes + t.writerOwes.bytes = t.received.bytes + t.readerOwes.bytes ∧
    t.sent.xfrs + t.writerOwes.xfrs = t.received.xfrs + t.readerOwes.xfrs := by
  have counted : (∀ got, s.writer ≠ .store got) → s.writer ≠ .release →
      t.sent.bytes + t.writerOwes.bytes = t.received.bytes + t.readerOwes.bytes ∧
      t.sent.xfrs + t.writerOwes.xfrs = t.received.xfrs + t.readerOwes.xfrs := by
    intro stored released
    obtain ⟨first, second, received, owes⟩ :=
      writer_counts bufSize count s t taken stored released
    rw [first, second, received, owes]
    exact ⟨bytes, xfrs⟩
  rcases s with ⟨stdin, writeSem, readSem, ⟨cnt, buf⟩, semsRemoved,
    shmRemoved, writer, reader, sent, received, stdout⟩
  cases phase with
  | writing writing between =>
      cases writing with
      | read => exact counted (fun _ bad => nomatch bad) (fun bad => nomatch bad)
      | store got eof =>
          cases taken
          cases between <;> exact ⟨by simpa using bytes, by simpa using xfrs⟩
      | release eof =>
          cases taken
          cases between <;>
            · simp at bytes xfrs
              simp [releaseSem, bytes, xfrs, BitVec.add_assoc]
  | free resting _ =>
      cases resting <;> exact counted (fun _ bad => nomatch bad) (fun bad => nomatch bad)
  | handed away _ | reading away _ =>
      obtain ⟨stored, released⟩ := away_handed stdin cnt writer away
      exact counted stored released
  | returned _ _ leaving _ =>
      cases leaving <;> exact counted (fun _ bad => nomatch bad) (fun bad => nomatch bad)
  | cleaning _ _ cleaning _ =>
      cases cleaning <;> exact counted (fun _ bad => nomatch bad) (fun bad => nomatch bad)

theorem writer_step_inv (input : List UInt8) (bufSize count : Nat) (s t : System)
    (inv : Inv input s) (taken : writerStep bufSize count s = some t) : Inv input t := by
  obtain ⟨stdout, stream⟩ := writer_stream bufSize count s t inv.phase taken
  obtain ⟨bytes, xfrs⟩ := writer_totals bufSize count s t inv.phase taken inv.bytes inv.xfrs
  refine ⟨writer_phase bufSize count s t inv.phase taken, ?_, bytes, xfrs,
    writer_removal bufSize count s t inv.removal taken⟩
  rw [stdout, List.append_assoc, stream, ← List.append_assoc]
  exact inv.stream

theorem step_inv (input : List UInt8) (bufSize : Nat) (choice : Choice) (s t : System)
    (inv : Inv input s) (taken : step bufSize choice s = some t) : Inv input t := by
  cases choice with
  | writer count => exact writer_step_inv input bufSize count s t inv taken
  | reader => exact reader_step_inv input s t inv taken
  | writerInterrupted | readerInterrupted =>
      simp only [step, Option.ite_none_right_eq_some, Option.some.injEq] at taken
      exact taken.2 ▸ inv

theorem reachable_inv (input : List UInt8) (bufSize : Nat) (s : System)
    (reached : Reachable (Started input) (step bufSize) s) : Inv input s :=
  reachable_invariant (started_inv input) (step_inv input bufSize) reached

/-- A block costs at most twenty steps of both programs together, and every
block but the last consumes input. -/
def WriterAt.rank (cnt : Nat) : WriterAt → Nat
  | .reserve => 26
  | .read => 25
  | .store count => if count = 0 then 24 else 40
  | .release => if cnt = 0 then 23 else 39
  | .testEof => if cnt = 0 then 12 else 28
  | .advance => 27
  | .reserveLast => 11
  | .removeSems => 10
  | .detach => 9
  | .removeShm => 8
  | .report => 7
  | .finished => 6

def ReaderAt.rank : ReaderAt → Nat
  | .testEof => 14
  | .addBytes => 13
  | .write => 12
  | .release => 11
  | .advance => 10
  | .reserve => 5
  | .detach => 4
  | .releaseLast => 3
  | .report => 2
  | .finished => 1

def System.rank (s : System) : Nat :=
  20 * s.stdin.length + s.writer.rank s.segment.cnt + 10 * s.readSem + s.reader.rank

def Choice.moves : Choice → Bool
  | .writer _ | .reader => true
  | _ => false

theorem reserved (value left : Nat) (taken : reserveSem value = some left) :
    value = left + 1 := by
  cases value with
  | zero => cases taken
  | succ before =>
      cases taken
      rfl

theorem reader_lowers (s t : System) (taken : readerStep s = some t) : t.rank < s.rank := by
  rcases s with ⟨stdin, writeSem, readSem, ⟨cnt, buf⟩, semsRemoved,
    shmRemoved, writer, reader, sent, received, stdout⟩
  cases reader with
  | finished => cases taken
  | reserve =>
      simp only [readerStep, Option.map_eq_some_iff] at taken
      obtain ⟨left, got, rfl⟩ := taken
      have full := reserved _ _ got
      simp only [System.rank, ReaderAt.rank]
      omega
  | testEof =>
      cases taken
      by_cases eof : cnt = 0 <;> simp [System.rank, ReaderAt.rank, eof]
  | addBytes | write | release | advance | detach | releaseLast | report =>
      cases taken
      simp [System.rank, ReaderAt.rank]

theorem writer_lowers (bufSize count : Nat) (s t : System)
    (taken : writerStep bufSize count s = some t) : t.rank < s.rank := by
  rcases s with ⟨stdin, writeSem, readSem, ⟨cnt, buf⟩, semsRemoved,
    shmRemoved, writer, reader, sent, received, stdout⟩
  cases writer with
  | finished => cases taken
  | reserve | reserveLast =>
      simp only [writerStep, Option.map_eq_some_iff] at taken
      obtain ⟨left, got, rfl⟩ := taken
      simp [System.rank, WriterAt.rank]
  | read =>
      simp only [writerStep, Option.ite_none_right_eq_some, Option.some.injEq] at taken
      obtain ⟨allowed, rfl⟩ := taken
      have enough := read_length _ _ _ allowed
      by_cases eof : count = 0
      · simp [System.rank, WriterAt.rank, eof]
      · simp only [System.rank, WriterAt.rank, eof, if_false, List.length_drop]
        omega
  | testEof =>
      cases taken
      by_cases eof : cnt = 0 <;> simp [System.rank, WriterAt.rank, eof]
  | store got =>
      cases taken
      by_cases eof : got = 0 <;> simp [System.rank, WriterAt.rank, eof]
  | release =>
      cases taken
      by_cases eof : cnt = 0 <;> simp only [System.rank, WriterAt.rank, releaseSem, eof] <;>
        simp <;> omega
  | advance | removeSems | detach | removeShm | report =>
      cases taken
      simp [System.rank, WriterAt.rank]

/-- No choice moves either program more often than the input allows. -/
theorem moves_bounded (bufSize : Nat) (choices : List Choice) (s t : System)
    (replayed : replay (step bufSize) choices s = some t) :
    (choices.filter Choice.moves).length ≤ s.rank := by
  have bound := counted_choices_bounded (step bufSize) System.rank Choice.moves ?_ ?_
    choices replayed
  · omega
  · intro choice before after moves taken
    cases choice with
    | writer count => exact writer_lowers bufSize count before after taken
    | reader => exact reader_lowers before after taken
    | writerInterrupted | readerInterrupted => cases moves
  · intro choice before after stays taken
    cases choice with
    | writer count => cases stays
    | reader => cases stays
    | writerInterrupted | readerInterrupted =>
        simp only [step, Option.ite_none_right_eq_some, Option.some.injEq] at taken
        exact taken.2 ▸ Nat.le_refl _

theorem read_possible (bufSize : Nat) (room : 0 < bufSize) (stdin : List UInt8) :
    ∃ count, readAllowed bufSize stdin count = true := by
  cases stdin with
  | nil => exact ⟨0, by simp [readAllowed]⟩
  | cons byte rest => exact ⟨1, by simp [readAllowed]; omega⟩

/-- Until both programs have ended, one of them can move: neither waits for a
permit that is not coming. -/
theorem some_move (input : List UInt8) (bufSize : Nat) (room : 0 < bufSize) (s : System)
    (inv : Inv input s) (running : ¬ (s.writer = .finished ∧ s.reader = .finished)) :
    ∃ choice t, choice.moves = true ∧ step bufSize choice s = some t := by
  have phase := inv.phase
  rcases s with ⟨stdin, writeSem, readSem, ⟨cnt, buf⟩, semsRemoved,
    shmRemoved, writer, reader, sent, received, stdout⟩
  cases phase with
  | free resting between =>
      refine ⟨.writer 0, ?_⟩
      cases resting <;> exact ⟨_, rfl, rfl⟩
  | writing writing between =>
      obtain ⟨count, allowed⟩ := read_possible bufSize room stdin
      refine ⟨.writer count, ?_⟩
      cases writing with
      | read => exact ⟨_, rfl, if_pos allowed⟩
      | store got => exact ⟨_, rfl, rfl⟩
      | release => exact ⟨_, rfl, rfl⟩
  | handed away between =>
      refine ⟨.reader, ?_⟩
      cases between <;> exact ⟨_, rfl, rfl⟩
  | reading away reading =>
      refine ⟨.reader, ?_⟩
      cases reading <;> exact ⟨_, rfl, rfl⟩
  | returned eof drained leaving done =>
      refine ⟨.writer 0, ?_⟩
      cases leaving <;> exact ⟨_, rfl, rfl⟩
  | cleaning eof drained cleaning done =>
      cases done with
      | report => exact ⟨.reader, _, rfl, rfl⟩
      | finished =>
          refine ⟨.writer 0, ?_⟩
          cases cleaning with
          | finished => exact absurd ⟨rfl, rfl⟩ running
          | removeSems | detach | removeShm | report => exact ⟨_, rfl, rfl⟩

theorem modifies_outside_turn (input : List UInt8) (s : System) (inv : Inv input s)
    (modifies : s.writer.modifies = true) : s.reader.inTurn = false := by
  have phase := inv.phase
  rcases s with ⟨stdin, writeSem, readSem, ⟨cnt, buf⟩, semsRemoved,
    shmRemoved, writer, reader, sent, received, stdout⟩
  cases phase with
  | writing writing between => cases between <;> rfl
  | free resting between => cases resting <;> cases modifies
  | handed away between => cases away <;> cases modifies
  | reading away reading => cases away <;> cases modifies
  | returned eof drained leaving done => cases leaving <;> cases modifies
  | cleaning eof drained cleaning done => cases cleaning <;> cases modifies

theorem left_loop_complete (input : List UInt8) (s : System) (inv : Inv input s)
    (left : s.reader.leftLoop = true) : s.stdout = input := by
  obtain ⟨phase, stream, _, _, _⟩ := inv
  rcases s with ⟨stdin, writeSem, readSem, ⟨cnt, buf⟩, semsRemoved,
    shmRemoved, writer, reader, sent, received, stdout⟩
  cases phase with
  | free resting between => cases between <;> cases left
  | writing writing between => cases between <;> cases left
  | handed away between => cases between <;> cases left
  | reading away reading =>
      cases reading with
      | testEof | addBytes | write | release => cases left
      | detach eof | releaseLast eof => cases away <;> simp_all
  | returned eof drained leaving done => cases leaving <;> cases done <;> simp_all
  | cleaning eof drained cleaning done => cases cleaning <;> cases done <;> simp_all

theorem finished_totals (input : List UInt8) (s : System) (inv : Inv input s)
    (writer : s.writer = .finished) (reader : s.reader = .finished) :
    s.sent = s.received := by
  obtain ⟨phase, _, bytes, xfrs, _⟩ := inv
  rcases s with ⟨stdin, writeSem, readSem, ⟨cnt, buf⟩, semsRemoved, shmRemoved,
    writerAt, readerAt, ⟨sentBytes, sentXfrs⟩, ⟨receivedBytes, receivedXfrs⟩, stdout⟩
  subst writer
  subst reader
  cases phase with
  | returned eof drained leaving done => cases leaving
  | cleaning eof drained cleaning done => simp_all
  | free resting between => cases between
  | writing writing between => cases between
  | handed away between => cases between
  | reading away reading => cases reading

theorem removed_after_reader (input : List UInt8) (s : System) (inv : Inv input s)
    (removed : s.semsRemoved ∨ s.shmRemoved) : s.reader.doneWithIpc = true := by
  have cleaning := inv.removal removed
  have phase := inv.phase
  rcases s with ⟨stdin, writeSem, readSem, ⟨cnt, buf⟩, semsRemoved,
    shmRemoved, writer, reader, sent, received, stdout⟩
  cases phase with
  | cleaning eof drained at_clean done => cases done <;> rfl
  | free resting between => cases resting <;> cases cleaning
  | writing writing between => cases writing <;> cases cleaning
  | handed away between => cases away <;> cases cleaning
  | reading away reading => cases away <;> cases cleaning
  | returned eof drained leaving done => cases leaving <;> cases cleaning

/-- Every interleaving hands the segment over cleanly, copies the input and
ends: the number of moves is bounded and no state before the end is stuck. -/
theorem transfer_correct (bufSize : Nat) (room : 0 < bufSize) (input : List UInt8)
    (s : System) (reached : Reachable (Started input) (step bufSize) s) :
    (s.writer.modifies = true → s.reader.inTurn = false) ∧
    s.stdout <+: input ∧
    (s.reader.leftLoop = true → s.stdout = input) ∧
    (s.writer = .finished → s.reader = .finished → s.sent = s.received) ∧
    (s.semsRemoved ∨ s.shmRemoved → s.reader.doneWithIpc = true) ∧
    (¬ (s.writer = .finished ∧ s.reader = .finished) →
      ∃ choice t, choice.moves = true ∧ step bufSize choice s = some t) ∧
    (∀ choices t, replay (step bufSize) choices s = some t →
      (choices.filter Choice.moves).length ≤ s.rank) := by
  have inv := reachable_inv input bufSize s reached
  refine ⟨modifies_outside_turn input s inv, ?_, left_loop_complete input s inv,
    finished_totals input s inv, removed_after_reader input s inv,
    some_move input bufSize room s inv, fun choices t => moves_bounded bufSize choices s t⟩
  exact ⟨s.inFlight ++ s.stdin, by rw [← List.append_assoc]; exact inv.stream⟩

def oneByteRun : List Choice :=
  List.replicate 6 (Choice.writer 1) ++ List.replicate 6 Choice.reader ++
    List.replicate 5 (Choice.writer 0) ++
    List.replicate 4 Choice.reader ++ List.replicate 5 (Choice.writer 0) ++ [Choice.reader]

def oneByteStart : System :=
  ⟨[7], 1, 0, ⟨3, [0]⟩, false, false, .reserve, .reserve, ⟨0, 0⟩, ⟨0, 0⟩, []⟩

def oneByteEnd : System :=
  ⟨[], 0, 0, ⟨0, [7]⟩, true, true, .finished, .finished, ⟨1, 1⟩, ⟨1, 1⟩, [7]⟩

theorem one_byte_transfer_correct :
    replay (step 1) oneByteRun oneByteStart = some oneByteEnd ∧ oneByteEnd.stdout = [7] ∧
      oneByteEnd.sent = oneByteEnd.received ∧ oneByteEnd.reader.doneWithIpc = true := by
  have replayed : replay (step 1) oneByteRun oneByteStart = some oneByteEnd := by decide
  have correct := transfer_correct 1 (by decide) [7] oneByteEnd
    (replay_reachable oneByteRun (Reachable.start ⟨⟨3, [0]⟩, rfl⟩) replayed)
  exact ⟨replayed, correct.2.2.1 rfl, correct.2.2.2.1 rfl rfl, correct.2.2.2.2.1 (Or.inl rfl)⟩

end Tlpi.SharedMemoryTransfer
