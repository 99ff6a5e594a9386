import Mathlib.Data.List.Basic

/-!
sockets/read_line.c: `readLine` takes one byte at a time from a descriptor until a
newline, and keeps what fits into the caller's buffer.
-/

namespace Tlpi.ReadLine

def newline : UInt8 := 10

/-- What one `read` of one byte gives; where the list ends is the end of file. -/
inductive Read where
  | byte (ch : UInt8)
  | interrupted
  | failed
  deriving DecidableEq

/-- The bytes stored, which the returned count counts; none stands for -1. -/
def readLoop (n : Nat) : List Read → List UInt8 → Option (List UInt8) × List Read
  | [], buf => (some buf, [])
  | .interrupted :: rest, buf => readLoop n rest buf
  | .failed :: rest, _ => (none, rest)
  | .byte ch :: rest, buf =>
      -- bytes beyond the first n - 1 are discarded
      let buf := if buf.length < n - 1 then buf ++ [ch] else buf
      if ch = newline then (some buf, rest) else readLoop n rest buf

def readLine (n : Nat) (reads : List Read) : Option (List UInt8) × List Read :=
  if n = 0 then (none, reads) else readLoop n reads []

/-- The first line that arrives, without its newline. -/
def firstLine : List Read → Option (List UInt8)
  | [] => some []
  | .interrupted :: rest => firstLine rest
  | .failed :: _ => none
  | .byte ch :: rest => if ch = newline then some [] else (firstLine rest).map (ch :: ·)

theorem read_loop_line (n : Nat) (reads : List Read) (buf line : List UInt8)
    (first : firstLine reads = some line) (room : buf.length + line.length + 1 ≤ n - 1) :
    ∃ tail rest, readLoop n reads buf = (some (buf ++ (line ++ tail)), rest) ∧
      (tail = [] ∨ tail = [newline]) := by
  induction reads generalizing buf line with
  | nil =>
      cases first
      exact ⟨[], [], by simp [readLoop], Or.inl rfl⟩
  | cons read others ih =>
      cases read with
      | interrupted =>
          obtain ⟨tail, rest, done, ends⟩ := ih buf line first room
          exact ⟨tail, rest, done, ends⟩
      | failed => cases first
      | byte ch =>
          unfold firstLine at first
          unfold readLoop
          have inside : buf.length < n - 1 := by omega
          rw [if_pos inside]
          split at first
          · next stop =>
              cases first
              rw [if_pos stop, stop]
              exact ⟨[newline], others, rfl, Or.inr rfl⟩
          · next go =>
              obtain ⟨more, found, rfl⟩ := Option.map_eq_some_iff.mp first
              have left : (buf ++ [ch]).length + more.length + 1 ≤ n - 1 := by
                simp only [List.length_append, List.length_cons, List.length_nil] at room ⊢
                omega
              obtain ⟨tail, rest, done, ends⟩ := ih (buf ++ [ch]) more found left
              rw [if_neg go]
              refine ⟨tail, rest, ?_, ends⟩
              rw [done, List.append_assoc]
              rfl

/-- A line that fits with its newline is read as it is. -/
theorem read_line_whole (n : Nat) (reads : List Read) (line : List UInt8)
    (first : firstLine reads = some line) (room : line.length + 2 ≤ n) :
    ∃ tail rest, readLine n reads = (some (line ++ tail), rest) ∧
      (tail = [] ∨ tail = [newline]) := by
  obtain ⟨tail, rest, done, ends⟩ :=
    read_loop_line n reads [] line first (by rw [List.length_nil]; omega)
  refine ⟨tail, rest, ?_, ends⟩
  rw [readLine, if_neg (by omega), done, List.nil_append]

/-! The same function down to the caller's memory. -/

inductive Errno where
  | EINTR
  | EINVAL
  | other
  deriving DecidableEq

def fillLoop (n : Nat) :
    List Read → Nat → Nat → List UInt8 → Except Errno Nat × List UInt8 × List Read
  | [], totRead, buf, buffer =>
      if totRead = 0 then (.ok 0, buffer, []) else (.ok totRead, buffer.set buf 0, [])
  | .interrupted :: rest, totRead, buf, buffer => fillLoop n rest totRead buf buffer
  | .failed :: rest, _, _, buffer => (.error .other, buffer, rest)
  | .byte ch :: rest, totRead, buf, buffer =>
      let (totRead, buf, buffer) :=
        if totRead < n - 1 then (totRead + 1, buf + 1, buffer.set buf ch)
        else (totRead, buf, buffer)
      if ch = newline then (.ok totRead, buffer.set buf 0, rest)
      else fillLoop n rest totRead buf buffer

def readLineInto (n : Nat) (buffer : List UInt8) (reads : List Read) :
    Except Errno Nat × List UInt8 × List Read :=
  if n = 0 then (.error .EINVAL, buffer, reads) else fillLoop n reads 0 0 buffer

/-- One more byte behind those that are stored. -/
theorem take_stored (buffer stored : List UInt8) (ch : UInt8)
    (here : buffer.take stored.length = stored) (room : stored.length < buffer.length) :
    (buffer.set stored.length ch).take
    (stored.length + 1) = stored ++ [ch] := by
  rw [List.take_add_one, List.take_set_of_le (Nat.le_refl _), here, List.getElem?_set_self room]
  rfl

/-- What a buffer of `size` bytes keeps of a line that grows. -/
theorem take_grown (size : Nat) (got : List UInt8) (ch : UInt8) :
    (if (got.take size).length < size then got.take size ++ [ch] else got.take size) =
      (got ++ [ch]).take size := by
  rw [List.length_take]
  rcases Nat.lt_or_ge got.length size with short | long
  · rw [if_pos (by omega), List.take_of_length_le (Nat.le_of_lt short),
        List.take_of_length_le (by simp; omega)]
  · rw [if_neg (by omega), List.take_append_of_le_length long]

/-- The buffer ends up with the bytes that `readLine` returns, and a null byte behind them. -/
theorem fill_loop_bytes (n : Nat) (reads : List Read) (stored buffer bytes : List UInt8)
    (rest : List Read) (some_ : 0 < n)
    (room : n ≤ buffer.length) (fits : stored.length ≤ n - 1)
    (here : buffer.take stored.length = stored)
    (read : readLoop n reads stored = (some bytes, rest)) :
    ∃ after, fillLoop n reads stored.length stored.length buffer =
      (.ok bytes.length, after, rest) ∧
      after.take bytes.length = bytes ∧ (bytes ≠ [] → after[bytes.length]? = some 0) := by
  have ended : ∀ (memory kept : List UInt8), memory.take kept.length = kept →
    kept.length < memory.length →
      (memory.set kept.length 0).take kept.length = kept ∧
        (kept ≠ [] → (memory.set kept.length 0)[kept.length]? = some 0) := by
    intro memory kept same inside
    exact ⟨by rw [List.take_set_of_le (Nat.le_refl _), same],
      fun _ => List.getElem?_set_self inside⟩
  induction reads generalizing stored buffer with
  | nil =>
      cases read
      unfold fillLoop
      by_cases none : bytes.length = 0
      · rw [if_pos none]
        cases List.length_eq_zero_iff.mp none
        exact ⟨buffer, rfl, rfl, fun bad => absurd rfl bad⟩
      · rw [if_neg none]
        exact ⟨_, rfl, ended buffer bytes here (by omega)⟩
  | cons one others ih =>
      cases one with
      | interrupted => exact ih stored buffer room fits here read
      | failed => cases read
      | byte ch =>
          unfold readLoop at read
          unfold fillLoop
          by_cases more : stored.length < n - 1
          · have longer : (stored ++ [ch]).length = stored.length + 1 := List.length_append
            have kept : (buffer.set stored.length ch).take (stored ++ [ch]).length =
                stored ++ [ch] := by
              rw [longer]
              exact take_stored buffer stored ch here (by omega)
            rw [if_pos more] at read ⊢
            dsimp only
            by_cases stop : ch = newline
            · rw [if_pos stop] at read ⊢
              cases read
              rw [← longer]
              exact ⟨_, rfl, ended _ _ kept (by rw [longer, List.length_set]; omega)⟩
            · rw [if_neg stop] at read ⊢
              have next := ih (stored ++ [ch]) (buffer.set stored.length ch)
                (by rw [List.length_set]; exact room) (by omega) kept read
              rw [longer] at next
              exact next
          · rw [if_neg more] at read ⊢
            dsimp only
            by_cases stop : ch = newline
            · rw [if_pos stop] at read ⊢
              cases read
              exact ⟨_, rfl, ended _ _ here (by omega)⟩
            · rw [if_neg stop] at read ⊢
              exact ih stored buffer room fits here read

/-- A read that is interrupted is made again, and nothing else comes of it. -/
theorem fill_loop_restarts (n : Nat) (reads : List Read) (totRead buf : Nat) (buffer : List UInt8) :
    fillLoop n (reads.filter fun read => read ≠ .interrupted) totRead buf buffer =
      ((fillLoop n reads totRead buf buffer).1, (fillLoop n reads totRead buf buffer).2.1,
        (fillLoop n reads totRead buf buffer).2.2.filter fun read => read ≠ .interrupted) := by
  induction reads generalizing totRead buf buffer with
  | nil =>
      rw [List.filter_nil, fillLoop]
      split <;> rfl
  | cons read rest ih =>
      cases read with
      | interrupted => exact ih totRead buf buffer
      | failed => rfl
      | byte ch =>
          rw [List.filter_cons_of_pos (by simp), fillLoop, fillLoop]
          generalize (if totRead < n - 1 then (totRead + 1, buf + 1, buffer.set buf ch) else
            (totRead, buf, buffer)) = put
          dsimp only
          split
          · rfl
          · exact ih _ _ _

theorem read_line_restarts (n : Nat) (buffer : List UInt8) (reads : List Read) :
    readLineInto n buffer (reads.filter fun read => read ≠ .interrupted) =
      ((readLineInto n buffer reads).1, (readLineInto n buffer reads).2.1,
        (readLineInto n buffer reads).2.2.filter fun read => read ≠ .interrupted) := by
  unfold readLineInto
  split
  · rfl
  · exact fill_loop_restarts n reads 0 0 buffer

/-- The next line with its newline, and what follows it. -/
def takeLine : List UInt8 → List UInt8 × List UInt8
  | [] => ([], [])
  | ch :: rest =>
      if ch = newline then ([ch], rest) else (ch :: (takeLine rest).1, (takeLine rest).2)

theorem read_loop_stream (n : Nat) (stream got : List UInt8) :
    readLoop n (stream.map .byte) (got.take (n - 1)) =
    (some ((got ++ (takeLine stream).1).take (n - 1)), (takeLine stream).2.map .byte) := by
  induction stream generalizing got with
  | nil => simp [readLoop, takeLine]
  | cons ch rest ih =>
      rw [List.map_cons, readLoop, take_grown, takeLine]
      split
      · rfl
      · rw [ih]
        simp

theorem read_line_stream (n : Nat) (some_ : 0 < n) (stream buffer : List UInt8)
    (room : n ≤ buffer.length) :
    ∃ after, readLineInto n buffer (stream.map .byte) =
        (.ok (((takeLine stream).1.take (n - 1)).length), after, (takeLine stream).2.map .byte) ∧
      after.take ((takeLine stream).1.take (n - 1)).length = (takeLine stream).1.take (n - 1) ∧
      ((takeLine stream).1.take (n - 1) ≠ [] →
        after[((takeLine stream).1.take (n - 1)).length]? = some 0) := by
  have read := read_loop_stream n stream []
  rw [List.take_nil, List.nil_append] at read
  rw [readLineInto, if_neg (Nat.pos_iff_ne_zero.mp some_)]
  exact fill_loop_bytes n (stream.map .byte) [] buffer _ _ some_ room (Nat.zero_le _) rfl read

end Tlpi.ReadLine
