import Mathlib.Algebra.Order.Ring.Int
import Mathlib.Order.BooleanAlgebra.Set

/-!
sockets/sendfile.c: `sendfile` with `read`, `write` and `lseek`. A schedule says what the
system calls of one call answer; a schedule that the calls cannot have given, and one that
stops before the function does, has no result.
-/

namespace Tlpi.FileSending

def BUF_SIZE : Nat := 8192

/-- One turn of the loop: what `read` and `write` answer. -/
inductive Round where
  | moved (numRead numSent : Nat)
  | readFailed
  | writeFailed (numRead : Nat)
  deriving DecidableEq

/-- Whether the calls of `lseek` fail, in the order of the source, and the turns between. -/
structure Schedule where
  tellFails : Bool
  seekFails : Bool
  rounds : List Round
  tellAgainFails : Bool
  restoreFails : Bool
  deriving DecidableEq

/-- `fatal` ends the process. -/
inductive Result where
  | returned (totSent : Nat)
  | failed
  | fatal
  deriving DecidableEq

/-- The descriptors and `*offset` when the function ends; `position` is the file offset of
`in_fd`. -/
structure After where
  result : Result
  position : Int
  out : List UInt8
  offset : Option Int
  deriving DecidableEq

/-- Where the loop ends, and how if it is the end of the call. -/
structure Copied where
  stop : Option Result
  position : Nat
  out : List UInt8
  totSent : Nat
  deriving DecidableEq

/-- What `read` can answer when the file is not at its end. -/
def readable (contents : List UInt8) (position count numRead : Nat) : Bool :=
  0 < numRead && numRead ≤ min (min BUF_SIZE count) (contents.length - position)

def copyLoop (contents : List UInt8) :
    List Round → Nat → Nat → Nat → List UInt8 → Option Copied
  | [], position, count, totSent, out =>
      if count = 0 ∨ contents.length ≤ position then some ⟨none, position, out, totSent⟩
      else none
  | round :: rest, position, count, totSent, out =>
      if count = 0 then none
      else
        match round with
        | .readFailed => if rest = [] then some ⟨some .failed, position, out, totSent⟩ else none
        | .writeFailed numRead =>
            if readable contents position count numRead ∧ rest = [] then
              some ⟨some .failed, position + numRead, out, totSent⟩
            else none
        | .moved numRead numSent =>
            if readable contents position count numRead ∧ numSent ≤ numRead then
              if numSent = 0 then
                if rest = [] then some ⟨some .fatal, position + numRead, out, totSent⟩ else none
              else
                let buf := (contents.drop position).take numRead
                copyLoop contents rest (position + numRead) (count - numSent) (totSent + numSent)
                  (out ++ buf.take numSent)
            else none

def sendfile (contents : List UInt8) (position : Nat) (out : List UInt8)
    (offset : Option Int) (count : Nat) (schedule : Schedule) : Option After :=
  match offset with
  | none =>
      (copyLoop contents schedule.rounds position count 0 out).map fun copied =>
        ⟨copied.stop.getD (.returned copied.totSent), copied.position, copied.out, none⟩
  | some start =>
      if schedule.tellFails then some ⟨.failed, position, out, offset⟩
      -- a negative offset is refused
      else if schedule.seekFails ∨ start < 0 then some ⟨.failed, position, out, offset⟩
      else
        (copyLoop contents schedule.rounds start.toNat count 0 out).map fun copied =>
          match copied.stop with
          | some result => ⟨result, copied.position, copied.out, offset⟩
          | none =>
              if schedule.tellAgainFails then ⟨.failed, copied.position, copied.out, some (-1)⟩
              else if schedule.restoreFails then
                ⟨.failed, copied.position, copied.out, some copied.position⟩
              else ⟨.returned copied.totSent, position, copied.out, some copied.position⟩

/-! What a schedule reads and writes. -/

def Round.numRead : Round → Nat
  | .moved numRead _ => numRead
  | .readFailed => 0
  | .writeFailed numRead => numRead

def Round.numSent : Round → Nat
  | .moved _ numSent => numSent
  | _ => 0

/-- Short reads and short writes of at least one byte, and no errors. -/
structure Schedule.Faultless (schedule : Schedule) : Prop where
  tell : schedule.tellFails = false
  seek : schedule.seekFails = false
  rounds : ∀ round ∈ schedule.rounds, ∃ numRead numSent,
    round = .moved numRead numSent ∧ 0 < numSent
  tellAgain : schedule.tellAgainFails = false
  restore : schedule.restoreFails = false

def bytesRead (rounds : List Round) : Nat := (rounds.map Round.numRead).sum

def bytesSent (rounds : List Round) : Nat := (rounds.map Round.numSent).sum

section Loop
variable (contents : List UInt8)

/-- The file offset follows the reads, however the loop ends. -/
theorem copy_position (rounds : List Round) (position count totSent : Nat) (out : List UInt8)
    (copied : Copied) (done : copyLoop contents rounds position count totSent out = some copied) :
    copied.position = position + bytesRead rounds ∧ ∀ round ∈ rounds,
      round.numSent ≤ round.numRead := by
  induction rounds generalizing position count totSent out with
  | nil =>
      unfold copyLoop at done
      split at done
      · cases done
        exact ⟨rfl, by simp⟩
      · cases done
  | cons round rest ih =>
      unfold copyLoop at done
      split at done
      · cases done
      · cases round with
        | readFailed =>
            dsimp only at done
            split at done
            · next last =>
                cases done
                exact ⟨by simp [last, bytesRead, Round.numRead], by simp [last, Round.numSent]⟩
            · cases done
        | writeFailed numRead =>
            dsimp only at done
            split at done
            · next lawful =>
                cases done
                exact ⟨by simp [lawful.2, bytesRead, Round.numRead], by
                  simp [lawful.2, Round.numSent]⟩
            · cases done
        | moved numRead numSent =>
            dsimp only at done
            split at done
            · next lawful =>
                split at done
                · split at done
                  · next last =>
                      cases done
                      exact ⟨by simp [last, bytesRead, Round.numRead],
                        by simp [last, Round.numSent, Round.numRead, lawful.2]⟩
                  · cases done
                · obtain ⟨place, each⟩ := ih _ _ _ _ done
                  constructor
                  · rw [place, bytesRead, bytesRead, List.map_cons, List.sum_cons, Nat.add_assoc]
                    rfl
                  · intro other member
                    rcases List.mem_cons.mp member with rfl | later
                    · exact lawful.2
                    · exact each other later
            · cases done

theorem copy_sent (rounds : List Round) (position count totSent : Nat) (out : List UInt8)
    (copied : Copied)
    (sends : ∀ round ∈ rounds, ∃ numRead numSent, round = .moved numRead numSent ∧
      0 < numSent) (done : copyLoop contents rounds position count totSent out = some copied) :
    copied.stop = none ∧ copied.totSent = totSent + bytesSent rounds := by
  induction rounds generalizing position count totSent out with
  | nil =>
      unfold copyLoop at done
      split at done
      · cases done
        exact ⟨rfl, rfl⟩
      · cases done
  | cons round rest ih =>
      obtain ⟨numRead, numSent, rfl, some_⟩ := sends round List.mem_cons_self
      unfold copyLoop at done
      split at done
      · cases done
      · dsimp only at done
        split at done
        · rw [if_neg (Nat.pos_iff_ne_zero.mp some_)] at done
          obtain ⟨stop, total⟩ :=
            ih _ _ _ _ (fun other member => sends other (List.mem_cons_of_mem _ member)) done
          refine ⟨stop, ?_⟩
          rw [total, bytesSent, bytesSent, List.map_cons, List.sum_cons, Nat.add_assoc]
          rfl
        · cases done

/-- Turns that write all they have read. -/
theorem copy_exact (rounds : List Round) (position count totSent : Nat) (out : List UInt8)
    (copied : Copied)
    (sends : ∀ round ∈ rounds, ∃ numRead numSent, round = .moved numRead numSent ∧
      0 < numSent) (full : ∀ round ∈ rounds, round.numSent = round.numRead)
    (done : copyLoop contents rounds position count totSent out = some copied) :
    bytesSent rounds = min count (contents.length - position) ∧
      copied.out = out ++ (contents.drop position).take (bytesSent rounds) := by
  induction rounds generalizing position count totSent out with
  | nil =>
      unfold copyLoop at done
      split at done
      · next ended =>
          cases done
          have none : bytesSent [] = 0 := rfl
          rw [none]
          exact ⟨by omega, by simp⟩
      · cases done
  | cons round rest ih =>
      obtain ⟨numRead, numSent, rfl, some_⟩ := sends round List.mem_cons_self
      have same : numSent = numRead := full _ List.mem_cons_self
      subst same
      have total : bytesSent (.moved numSent numSent :: rest) = numSent + bytesSent rest := rfl
      unfold copyLoop at done
      split at done
      · cases done
      · dsimp only at done
        split at done
        · next lawful =>
            rw [if_neg (Nat.pos_iff_ne_zero.mp some_)] at done
            obtain ⟨least, sent⟩ :=
              ih _ _ _ _ (fun other member => sends other (List.mem_cons_of_mem _ member))
                (fun other member => full other (List.mem_cons_of_mem _ member)) done
            have room : numSent ≤ min (min BUF_SIZE count) (contents.length - position) := by
              have both := lawful.1
              simp only [readable, Bool.and_eq_true, decide_eq_true_eq] at both
              exact both.2
            constructor
            · omega
            · rw [sent, total, List.take_take, Nat.min_self, List.take_add, List.drop_drop,
                  List.append_assoc]
        · cases done

end Loop

/-- As much sent as read, or less in some turn. -/
theorem sent_eq_read (rounds : List Round)
    (each : ∀ round ∈ rounds, round.numSent ≤ round.numRead) :
    bytesSent rounds ≤ bytesRead rounds ∧
      (bytesSent rounds = bytesRead rounds ↔ ∀ round ∈ rounds,
        round.numSent = round.numRead) := by
  induction rounds with
  | nil => exact ⟨Nat.le_refl _, by simp [bytesSent, bytesRead]⟩
  | cons round rest ih =>
      obtain ⟨less, iff⟩ :=
        ih fun other member => each other (List.mem_cons_of_mem round member)
      have first := each round List.mem_cons_self
      have sent : bytesSent (round :: rest) = round.numSent + bytesSent rest := rfl
      have read : bytesRead (round :: rest) = round.numRead + bytesRead rest := rfl
      rw [List.forall_mem_cons, ← iff]
      constructor <;> omega

/-- The offset that the transfer starts from. -/
def origin (position : Nat) (offset : Option Int) : Nat := (offset.map Int.toNat).getD position

/-- The bytes reported have been sent, and both file offsets agree with them. -/
def Exact (contents : List UInt8) (position : Nat) (out : List UInt8)
    (offset : Option Int) (count : Nat) (after : After) : Prop :=
  ∃ totSent : Nat, after.result = .returned totSent ∧
    after.out = out ++ (contents.drop (origin position offset)).take totSent ∧
    totSent = min count (contents.length - origin position offset) ∧
    match offset with
    | some start => after.offset = some (start + totSent) ∧ after.position = position
    | none => after.position = position + totSent

/-- The loop of a schedule without errors, seen from its end. -/
structure Looped (contents : List UInt8) (start : Nat) (out : List UInt8) (count : Nat)
    (rounds : List Round) (copied : Copied) : Prop where
  stop : copied.stop = none
  total : copied.totSent = bytesSent rounds
  place : copied.position = start + bytesRead rounds
  full : bytesSent rounds = bytesRead rounds ↔ ∀ round ∈ rounds, round.numSent = round.numRead
  exact : (∀ round ∈ rounds, round.numSent = round.numRead) →
    bytesSent rounds = min count (contents.length - start) ∧
    copied.out = out ++ (contents.drop start).take (bytesSent rounds)

theorem copy_looped (contents : List UInt8) (start : Nat) (out : List UInt8) (count : Nat)
    (rounds : List Round) (copied : Copied)
    (sends : ∀ round ∈ rounds, ∃ numRead numSent,
      round = .moved numRead numSent ∧ 0 < numSent) (done : copyLoop contents rounds start count
        0 out = some copied) : Looped contents start out count rounds copied := by
  obtain ⟨place, each⟩ := copy_position contents rounds start count 0 out copied done
  obtain ⟨stop, total⟩ := copy_sent contents rounds start count 0 out copied sends done
  rw [Nat.zero_add] at total
  exact ⟨stop, total, place, (sent_eq_read rounds each).2,
    fun full => copy_exact contents rounds start count 0 out copied sends full done⟩

theorem sendfile_exact_iff (contents : List UInt8) (position : Nat) (out : List UInt8)
    (offset : Option Int) (count : Nat)
    (schedule : Schedule) (valid : ∀ start, offset = some start → 0 ≤ start)
    (faultless : schedule.Faultless) (after : After)
    (done : sendfile contents position out offset count schedule = some after) :
    Exact contents position out offset count after ↔ ∀ round ∈ schedule.rounds,
      round.numSent = round.numRead := by
  cases offset with
  | none =>
      obtain ⟨copied, called, rfl⟩ := Option.map_eq_some_iff.mp done
      have looped :=
        copy_looped contents position out count schedule.rounds copied faultless.rounds called
      constructor
      · rintro ⟨totSent, returned, _, _, moved⟩
        simp only [looped.stop, Option.getD_none, looped.total, Result.returned.injEq] at returned
        simp only [looped.place] at moved
        exact looped.full.mp (by omega)
      · intro full
        obtain ⟨least, sent⟩ := looped.exact full
        refine ⟨copied.totSent, by rw [looped.stop]; rfl, ?_, looped.total.trans least, ?_⟩
        · rw [looped.total]
          exact sent
        · rw [looped.total, looped.full.mpr full]
          exact congrArg Int.ofNat looped.place
  | some start =>
      have positive := valid start rfl
      simp only [sendfile, faultless.tell, faultless.seek, Bool.false_eq_true, if_false, false_or,
        Int.not_lt.mpr positive,
        faultless.tellAgain, faultless.restore] at done
      obtain ⟨copied, called, rfl⟩ := Option.map_eq_some_iff.mp done
      have looped :=
        copy_looped contents start.toNat out count schedule.rounds copied faultless.rounds called
      rw [looped.stop]
      constructor
      · rintro ⟨totSent, returned, _, _, moved, _⟩
        simp only [looped.total, Result.returned.injEq] at returned
        simp only [looped.place, Option.some.injEq] at moved
        exact looped.full.mp (by omega)
      · intro full
        obtain ⟨least, sent⟩ := looped.exact full
        have equal := looped.full.mpr full
        refine ⟨copied.totSent, rfl, ?_, looped.total.trans least, ?_, rfl⟩
        · rw [looped.total]
          exact sent
        · rw [looped.total, looped.place]
          simp only [Option.some.injEq]
          omega

-- Three bytes from the second on, in two turns.
theorem full_writes_are_exact :
    ∃ after, sendfile [10, 20, 30, 40, 50] 4 [] (some 1) 3
      ⟨false, false, [.moved 2 2, .moved 1 1], false, false⟩ = some after ∧
      Exact [10, 20, 30, 40, 50] 4 [] (some 1) 3 after := by
  obtain ⟨after, done⟩ : ∃ after,
      sendfile [10, 20, 30, 40, 50] 4 [] (some 1) 3
        ⟨false, false, [.moved 2 2, .moved 1 1], false, false⟩ = some after := ⟨_, rfl⟩
  refine ⟨after, done, ?_⟩
  have faultless :
      Schedule.Faultless ⟨false, false, [.moved 2 2, .moved 1 1], false, false⟩ := by
    refine ⟨rfl, rfl, ?_, rfl, rfl⟩
    intro round member
    simp only [List.mem_cons, List.not_mem_nil, or_false] at member
    rcases member with rfl | rfl
    · exact ⟨2, 2, rfl, by decide⟩
    · exact ⟨1, 1, rfl, by decide⟩
  exact (sendfile_exact_iff [10, 20, 30, 40, 50] 4 [] (some 1) 3 _ (by simp) faultless after
    done).mpr (by decide)

-- Four bytes are read and two of them written; the file has ended before the others are read again.
theorem short_write_is_lost :
    ¬ ∀ (contents : List UInt8) (position : Nat) (out : List UInt8) (offset : Option Int)
      (count : Nat) (schedule : Schedule) (after : After),
      (∀ start, offset = some start → 0 ≤ start) → schedule.Faultless →
      sendfile contents position out offset count schedule = some after →
        Exact contents position out offset count after := by
  intro claimed
  obtain ⟨totSent, returned, _, least, _⟩ := claimed [10, 20, 30, 40] 0 [] none 4
    ⟨false, false, [.moved 4 2], false, false⟩
    ⟨.returned 2, 4, [10, 20], none⟩ (by simp) ⟨rfl, rfl, by simp, rfl, rfl⟩ rfl
  cases returned
  exact absurd least (by decide)

/-! Errors. -/

theorem sendfile_restores_iff (contents : List UInt8) (position : Nat) (out : List UInt8)
    (start : Int) (count : Nat) (schedule : Schedule) (restored : schedule.restoreFails = false)
    (after : After) (done : sendfile contents position out (some start) count schedule = some after)
    (failed : after.result = .failed) :
    after.position = position ↔ schedule.tellFails = true ∨
      schedule.seekFails = true ∨ start < 0 ∨
      start + bytesRead schedule.rounds = position := by
  unfold sendfile at done
  dsimp only at done
  split at done
  · next told =>
      cases done
      exact ⟨fun _ => Or.inl told, fun _ => rfl⟩
  · next told =>
      split at done
      · next sought =>
          cases done
          refine ⟨fun _ => Or.inr ?_, fun _ => rfl⟩
          rcases sought with seek | negative
          · exact Or.inl seek
          · exact Or.inr (Or.inl negative)
      · next sought =>
          push Not at sought
          obtain ⟨copied, looped, rfl⟩ := Option.map_eq_some_iff.mp done
          obtain ⟨place, _⟩ := copy_position contents _ _ _ _ _ copied looped
          -- whichever call has failed since, the file offset is where the reads have left it
          have left : ∀ result offset,
            (⟨result, copied.position, copied.out, offset⟩ : After).position = position ↔
              schedule.tellFails = true ∨ schedule.seekFails = true ∨ start < 0 ∨
                start + bytesRead schedule.rounds = position := by
            intro result offset
            simp only [place, told, sought.1, Int.not_lt.mpr sought.2, Bool.false_eq_true, false_or]
            omega
          revert failed
          split
          · exact fun _ => left _ _
          · split
            · exact fun _ => left _ _
            · rw [restored]
              intro failed
              cases failed

-- The first lseek fails, before anything has been moved.
theorem early_failure_restores :
    ∃ after, sendfile [10, 20, 30] 1 [] (some 2) 1
      ⟨true, false, [], false, false⟩ = some after ∧ after.result = .failed ∧
      after.position = 1 := by
  obtain ⟨after, done, failed⟩ : ∃ after, sendfile [10, 20, 30] 1 [] (some 2) 1
    ⟨true, false, [], false, false⟩ = some after ∧
      after.result = .failed := ⟨_, rfl, rfl⟩
  exact ⟨after, done, failed,
    (sendfile_restores_iff [10, 20, 30] 1 [] 2 1 _ rfl after done failed).mpr (Or.inl rfl)⟩

-- The first read fails, and the file offset stays at *offset.
theorem failed_read_is_not_undone :
    ¬ ∀ (contents : List UInt8) (position : Nat) (out : List UInt8) (start : Int)
      (count : Nat) (schedule : Schedule) (after : After), schedule.restoreFails = false →
      sendfile contents position out (some start) count schedule = some after →
      after.result = .failed → after.position = position := by
  intro claimed
  have same := claimed [10, 20, 30] 0 [] 2 1 ⟨false, false, [.readFailed], false, false⟩
    ⟨.failed, 2, [], some 2⟩ rfl rfl rfl
  cases same

end Tlpi.FileSending
