import Mathlib.Data.List.Basic

/-!
sockets/rdwrn.c: `readn` and `writen` repeat their system call until all bytes have been
moved. A schedule lists what the calls of one run answer; a loop that would need one more
answer has no result.
-/

namespace Tlpi.FullTransfers

/-- `count` bytes, or as many as were asked for or are there if these are fewer. -/
inductive Answer where
  | count (count : Nat)
  | interrupted
  | failed
  deriving DecidableEq

/-- What is left when a function returns; no number stands for -1. -/
structure Outcome where
  returned : Option Nat
  buffer : List UInt8
  stream : List UInt8
  deriving DecidableEq

/-- `memory` with `bytes` stored from `offset` on. -/
def store (memory : List UInt8) (offset : Nat) (bytes : List UInt8) : List UInt8 :=
  memory.take offset ++ bytes ++ memory.drop (offset + bytes.length)

/-- The loop of `readn`; `read` answers 0 exactly when the stream has ended. -/
def readLoop (n : Nat) (answers : List Answer) (totRead buf : Nat) (buffer stream : List UInt8) :
    Option Outcome :=
  if totRead < n then
    match answers with
    | [] => none
    | .interrupted :: rest => readLoop n rest totRead buf buffer stream
    | .failed :: _ => some ⟨none, buffer, stream⟩
    | .count count :: rest =>
        let numRead := min count (min (n - totRead) stream.length)
        if numRead = 0 then some ⟨some totRead, buffer, stream⟩
        else readLoop n rest (totRead + numRead) (buf + numRead)
          (store buffer buf (stream.take numRead)) (stream.drop numRead)
  else some ⟨some totRead, buffer, stream⟩

def readn (answers : List Answer) (buffer : List UInt8) (n : Nat) (stream : List UInt8) :
    Option Outcome :=
  readLoop n answers 0 0 buffer stream

/-- The loop of `writen`; the stream gets what is in memory from `buf` on. -/
def writeLoop (n : Nat) (buffer : List UInt8) (answers : List Answer) (totWritten buf : Nat)
    (stream : List UInt8) : Option Outcome :=
  if totWritten < n then
    match answers with
    | [] => none
    | .interrupted :: rest => writeLoop n buffer rest totWritten buf stream
    | .failed :: _ => some ⟨none, buffer, stream⟩
    | .count count :: rest =>
        let numWritten := min count (n - totWritten)
        if numWritten ≤ 0 then some ⟨none, buffer, stream⟩
        else writeLoop n buffer rest (totWritten + numWritten) (buf + numWritten)
          (stream ++ (buffer.drop buf).take numWritten)
  else some ⟨some totWritten, buffer, stream⟩

def writen (answers : List Answer) (buffer : List UInt8) (n : Nat) (stream : List UInt8) :
    Option Outcome :=
  writeLoop n buffer answers 0 0 stream

/-! Schedules without errors. -/

/-- Every call that is not interrupted moves a byte, if there is one. -/
def Lawful (answers : List Answer) : Prop :=
  ∀ answer ∈ answers, answer ≠ .failed ∧ answer ≠ .count 0

/-- How many calls are not interrupted. -/
def calls (answers : List Answer) : Nat := answers.countP fun answer => answer ≠ .interrupted

theorem lawful_tail (answer : Answer) (rest : List Answer) (lawful : Lawful (answer :: rest)) :
    Lawful rest :=
  fun other member => lawful other (List.mem_cons_of_mem answer member)

theorem lawful_count (count : Nat) (rest : List Answer) (lawful : Lawful (.count count :: rest)) :
    0 < count := by
  have some_ := (lawful (.count count) List.mem_cons_self).2
  exact Nat.pos_of_ne_zero fun zero => some_ (by rw [zero])

theorem length_store (memory : List UInt8) (offset : Nat) (bytes : List UInt8)
    (room : offset + bytes.length ≤ memory.length) :
    (store memory offset bytes).length = memory.length := by
  simp only [store, List.length_append, List.length_take, List.length_drop]
  omega

/-- Bytes stored one part after the other. -/
theorem store_store (memory : List UInt8) (offset : Nat) (first second : List UInt8)
    (room : offset ≤ memory.length) :
    store (store memory offset first) (offset + first.length) second =
      store memory offset (first ++ second) := by
  have front : (memory.take offset ++ first).length = offset + first.length := by
    rw [List.length_append, List.length_take, Nat.min_eq_left room]
  unfold store
  rw [List.take_append_of_le_length (Nat.le_of_eq front.symm),
    List.take_of_length_le (Nat.le_of_eq front), List.drop_append,
    front, List.drop_of_length_le (by omega), List.nil_append, List.drop_drop, List.length_append]
  have rest : offset + first.length + (offset + first.length + second.length -
    (offset + first.length)) =
      offset + (first.length + second.length) := by omega
  rw [rest]
  simp only [List.append_assoc]

theorem store_nothing (memory : List UInt8) (offset : Nat) : store memory offset [] = memory := by
  simp [store]

section Reading
variable (n : Nat)

theorem read_complete (answers : List Answer) (totRead buf : Nat) (buffer stream : List UInt8)
    (all : ¬ totRead < n) :
    readLoop n answers totRead buf buffer stream = some ⟨some totRead, buffer, stream⟩ := by
  rw [readLoop.eq_def, if_neg all]

theorem read_exact (answers : List Answer) (lawful : Lawful answers) (totRead : Nat)
    (buffer stream : List UInt8) (room : n ≤ buffer.length) (inside : totRead ≤ n)
    (out : Outcome) (done : readLoop n answers totRead totRead buffer stream = some out) :
    out = ⟨some (totRead + min (n - totRead) stream.length),
      store buffer totRead (stream.take (n - totRead)), stream.drop (n - totRead)⟩ := by
  induction answers generalizing totRead buffer stream with
  | nil =>
      by_cases more : totRead < n
      · rw [readLoop.eq_def, if_pos more] at done
        cases done
      · rw [read_complete n _ _ _ _ _ more] at done
        cases done
        simp [Nat.sub_eq_zero_of_le (Nat.not_lt.mp more), store_nothing]
  | cons answer rest ih =>
      have later := lawful_tail answer rest lawful
      by_cases more : totRead < n
      · rw [readLoop.eq_def, if_pos more] at done
        cases answer with
        | interrupted => exact ih later totRead buffer stream room inside done
        | failed => exact absurd rfl (lawful .failed List.mem_cons_self).1
        | count count =>
            have some_ := lawful_count count rest lawful
            dsimp only at done
            split at done
            · next none =>
                -- nothing was read although there was room, so the stream has ended
                have ended : stream = [] := List.length_eq_zero_iff.mp (by omega)
                cases done
                subst ended
                simp [store_nothing]
            · next moved =>
                generalize size : min count (min (n - totRead) stream.length) =
                  numRead at done moved
                have taken : (stream.take numRead).length = numRead := by
                  rw [List.length_take]; omega
                have stored := store_store buffer totRead (stream.take numRead)
                  ((stream.drop numRead).take (n - (totRead + numRead))) (by omega)
                rw [taken] at stored
                have parts : n - totRead = numRead + (n - (totRead + numRead)) := by omega
                rw [ih later (totRead + numRead) _ _
                    (by rw [length_store _ _ _ (by omega)]; exact room)
                  (by omega) done, stored]
                rw [parts, List.take_add, List.drop_drop, List.length_drop]
                congr 2
                omega
      · rw [read_complete n _ _ _ _ _ more] at done
        cases done
        simp [Nat.sub_eq_zero_of_le (Nat.not_lt.mp more), store_nothing]

theorem read_finishes (answers : List Answer) (lawful : Lawful answers) (totRead buf : Nat)
    (buffer stream : List UInt8) (enough : n - totRead ≤ calls answers) :
    (readLoop n answers totRead buf buffer stream).isSome = true := by
  induction answers generalizing totRead buf buffer stream with
  | nil =>
      have all : ¬ totRead < n := Nat.not_lt.mpr (Nat.le_of_sub_eq_zero (Nat.le_zero.mp enough))
      rw [read_complete n _ _ _ _ _ all]
      rfl
  | cons answer rest ih =>
      have later := lawful_tail answer rest lawful
      by_cases more : totRead < n
      · rw [readLoop.eq_def, if_pos more]
        cases answer with
        | interrupted => exact ih later totRead buf buffer stream enough
        | failed => rfl
        | count count =>
            have fewer : calls (.count count :: rest) = calls rest + 1 := by simp [calls]
            dsimp only
            split
            · rfl
            · exact ih later _ _ _ _ (by omega)
      · rw [read_complete n _ _ _ _ _ more]
        rfl

end Reading

section Writing
variable (n : Nat) (buffer : List UInt8)

theorem write_complete (answers : List Answer) (totWritten buf : Nat) (stream : List UInt8)
    (all : ¬ totWritten < n) :
    writeLoop n buffer answers totWritten buf stream =
      some ⟨some totWritten, buffer, stream⟩ := by
  rw [writeLoop.eq_def, if_neg all]

theorem write_exact (answers : List Answer) (lawful : Lawful answers) (totWritten : Nat)
    (stream : List UInt8) (inside : totWritten ≤ n) (out : Outcome)
    (done : writeLoop n buffer answers totWritten totWritten stream = some out) :
    out = ⟨some n, buffer, stream ++ (buffer.drop totWritten).take (n - totWritten)⟩ := by
  induction answers generalizing totWritten stream with
  | nil =>
      by_cases more : totWritten < n
      · rw [writeLoop.eq_def, if_pos more] at done
        cases done
      · rw [write_complete n _ _ _ _ _ more] at done
        cases done
        simp [Nat.le_antisymm inside (Nat.not_lt.mp more)]
  | cons answer rest ih =>
      have later := lawful_tail answer rest lawful
      by_cases more : totWritten < n
      · rw [writeLoop.eq_def, if_pos more] at done
        cases answer with
        | interrupted => exact ih later totWritten stream inside done
        | failed => exact absurd rfl (lawful .failed List.mem_cons_self).1
        | count count =>
            have some_ := lawful_count count rest lawful
            dsimp only at done
            split at done
            · next none => omega
            · next moved =>
                generalize size : min count (n - totWritten) = numWritten at done moved
                have parts : n - totWritten = numWritten + (n - (totWritten + numWritten)) := by
                  omega
                rw [ih later (totWritten + numWritten) _ (by omega) done, parts,
                  List.take_add, List.drop_drop, List.append_assoc]
      · rw [write_complete n _ _ _ _ _ more] at done
        cases done
        simp [Nat.le_antisymm inside (Nat.not_lt.mp more)]

theorem write_finishes (answers : List Answer) (lawful : Lawful answers) (totWritten buf : Nat)
    (stream : List UInt8) (enough : n - totWritten ≤ calls answers) :
    (writeLoop n buffer answers totWritten buf stream).isSome = true := by
  induction answers generalizing totWritten buf stream with
  | nil =>
      have all : ¬ totWritten < n := Nat.not_lt.mpr (Nat.le_of_sub_eq_zero (Nat.le_zero.mp enough))
      rw [write_complete n _ _ _ _ _ all]
      rfl
  | cons answer rest ih =>
      have later := lawful_tail answer rest lawful
      by_cases more : totWritten < n
      · rw [writeLoop.eq_def, if_pos more]
        cases answer with
        | interrupted => exact ih later totWritten buf stream enough
        | failed => rfl
        | count count =>
            have fewer : calls (.count count :: rest) = calls rest + 1 := by simp [calls]
            dsimp only
            split
            · rfl
            · exact ih later _ _ _ (by omega)
      · rw [write_complete n _ _ _ _ _ more]
        rfl

end Writing

theorem transfers_are_exact (sends receives : List Answer) (sending : Lawful sends)
    (receiving : Lawful receives) (data before memory stream : List UInt8) (n : Nat)
    (room : n ≤ memory.length) :
    ((data.length ≤ calls sends → (writen sends data data.length before).isSome = true) ∧
      ∀ out, writen sends data data.length before = some out →
      out.returned = some data.length ∧ out.stream = before ++ data) ∧
    ((n ≤ calls receives → (readn receives memory n stream).isSome = true) ∧
      ∀ out, readn receives memory n stream = some out →
      out.returned = some (min n stream.length) ∧
        out.buffer = stream.take n ++ memory.drop (min n stream.length) ∧
        out.stream = stream.drop n) ∧
    (∀ sent got, data.length ≤ memory.length →
      writen sends data data.length [] = some sent →
      readn receives memory data.length sent.stream = some got →
      got.returned = some data.length ∧ got.buffer.take data.length = data ∧
      got.stream = []) := by
  refine ⟨⟨fun enough => ?_, fun out done => ?_⟩, ⟨fun enough => ?_, fun out done => ?_⟩,
    fun sent got fits written read => ?_⟩
  · exact write_finishes data.length data sends sending 0 0 before (by omega)
  · rw [write_exact data.length data sends sending 0 before (Nat.zero_le _) out done]
    simp
  · exact read_finishes n receives receiving 0 0 memory stream (by omega)
  · rw [read_exact n receives receiving 0 memory stream room (Nat.zero_le n) out done]
    simp [store]
  · rw [write_exact data.length data sends sending 0 [] (Nat.zero_le _) sent written] at read
    rw [read_exact data.length receives receiving 0 memory _ fits (Nat.zero_le _) got read]
    simp [store]

-- Three bytes go out in two parts and come in as one and two, with an interruption on either side.
theorem three_bytes_are_moved :
    ∃ sent got, writen [.count 2, .interrupted, .count 5] [7, 8, 9] 3 [] = some sent ∧
      readn [.interrupted, .count 1, .count 9] [0, 0, 0, 0] 3 sent.stream = some got ∧
        got.buffer.take 3 = [7, 8, 9] := by
  obtain ⟨sent, got, written, read⟩ : ∃ sent got,
    writen [.count 2, .interrupted, .count 5] [7, 8, 9] 3 [] = some sent ∧
      readn [.interrupted, .count 1, .count 9] [0, 0, 0, 0] 3 sent.stream = some got :=
        ⟨_, _, rfl, rfl⟩
  have both :=
    transfers_are_exact [.count 2, .interrupted, .count 5] [.interrupted, .count 1, .count 9]
      (by simp [Lawful])
      (by simp [Lawful]) [7, 8, 9] [] [0, 0, 0, 0] [] 0 (by decide)
  exact ⟨sent, got, written, read, (both.2.2 sent got (by decide) written read).2.1⟩

end Tlpi.FullTransfers
