import Mathlib.Data.List.GetD
import Mathlib.Data.Nat.Init
import Tlpi.ReadLine

/-!
sockets/read_line_buf.c: `readLineBuf` takes lines out of a buffer that it refills with
one `read` at a time. What the reads of a run answer is given as a list of arrivals;
where it ends is the end of file.
-/

namespace Tlpi.BufferedLines

open ReadLine

def RL_MAX_BUF : Nat := 10

/-- What one `read` into the buffer brings. -/
structure Chunk where
  bytes : List UInt8
  some_ : 0 < bytes.length
  fits : bytes.length ≤ RL_MAX_BUF

inductive Arrival where
  | chunk (chunk : Chunk)
  | failed (errno : Errno)

structure ReadLineBuf where
  buf : List UInt8
  next : Nat
  len : Int
  deriving DecidableEq

/-- The buffer itself is left as it is. -/
def readLineBufInit (buf : List UInt8) : ReadLineBuf := ⟨buf, 0, 0⟩

/-- What a call returns and leaves behind. -/
structure Call where
  returned : Except Errno Nat
  buffer : List UInt8
  rlbuf : ReadLineBuf
  arrivals : List Arrival

/-- The iterations of the loop that find characters in the buffer, `left` of them; whether
they came to a newline, and `next`, `cnt` and the caller's buffer after them. -/
def drain (n : Nat) (buf : List UInt8) :
    Nat → Nat → Nat → List UInt8 → Bool × Nat × Nat × List UInt8
  | 0, next, cnt, buffer => (false, next, cnt, buffer)
  | left + 1, next, cnt, buffer =>
      let c := buf.getD next 0
      let (cnt, buffer) := if cnt < n then (cnt + 1, buffer.set cnt c) else (cnt, buffer)
      if c = newline then (true, next + 1, cnt, buffer) else drain n buf left (next + 1) cnt buffer

/-- The loop, from one refill to the next. -/
def lineLoop (n : Nat) (arrivals : List Arrival) (rlbuf : ReadLineBuf) (cnt : Nat)
    (buffer : List UInt8) : Call :=
  match drain n rlbuf.buf (rlbuf.len - rlbuf.next).toNat rlbuf.next cnt buffer with
  | (true, next, cnt, buffer) => ⟨.ok cnt, buffer, { rlbuf with next := next }, arrivals⟩
  | (false, next, cnt, buffer) =>
      match arrivals with
      | [] => ⟨.ok cnt, buffer, { rlbuf with next := next, len := 0 }, []⟩
      | .failed errno :: rest =>
          ⟨.error errno, buffer, { rlbuf with next := next, len := -1 }, rest⟩
      | .chunk chunk :: rest =>
          lineLoop n rest ⟨chunk.bytes ++ rlbuf.buf.drop chunk.bytes.length, 0,
            chunk.bytes.length⟩ cnt buffer

def readLineBuf (n : Nat) (rlbuf : ReadLineBuf) (arrivals : List Arrival)
    (buffer : List UInt8) : Call :=
  if n = 0 then ⟨.error .EINVAL, buffer, rlbuf, arrivals⟩
  else lineLoop n arrivals rlbuf 0 buffer

/-- The count and the bytes that a caller gets. -/
def got (returned : Except Errno Nat) (buffer : List UInt8) : Except Errno (Nat × List UInt8) :=
  returned.map fun cnt => (cnt, buffer.take cnt)

/-- Successive calls, each with a buffer of its own. -/
def readLineBufs (n : Nat) :
    List (List UInt8) → ReadLineBuf → List Arrival → List (Except Errno (Nat × List UInt8))
  | [], _, _ => []
  | buffer :: more, rlbuf, arrivals =>
      let call := readLineBuf n rlbuf arrivals buffer
      got call.returned call.buffer :: readLineBufs n more call.rlbuf call.arrivals

def readLines (n : Nat) :
    List (List UInt8) → List Read → List (Except Errno (Nat × List UInt8))
  | [], _ => []
  | buffer :: more, reads =>
      let (returned, after, reads) := readLineInto n buffer reads
      got returned after :: readLines n more reads

/-! What is still to come: bytes, and errors between them. -/

inductive Token where
  | byte (ch : UInt8)
  | failed (errno : Errno)
  deriving DecidableEq

def Arrival.tokens : Arrival → List Token
  | .chunk piece => piece.bytes.map .byte
  | .failed errno => [.failed errno]

def ReadLineBuf.pending (rlbuf : ReadLineBuf) : List UInt8 :=
  (rlbuf.buf.drop rlbuf.next).take (rlbuf.len - rlbuf.next).toNat

def tokens (rlbuf : ReadLineBuf) (arrivals : List Arrival) : List Token :=
  rlbuf.pending.map .byte ++ arrivals.flatMap Arrival.tokens

def ReadLineBuf.Fits (rlbuf : ReadLineBuf) : Prop :=
  rlbuf.next + (rlbuf.len - rlbuf.next).toNat ≤ rlbuf.buf.length

/-- One call, on what is still to come; `line` has been taken already. -/
def nextLine : List Token → List UInt8 → Except Errno (List UInt8) × List Token
  | [], line => (.ok line, [])
  | .failed errno :: rest, _ => (.error errno, rest)
  | .byte ch :: rest, line =>
      if ch = newline then (.ok (line ++ [ch]), rest) else nextLine rest (line ++ [ch])

/-- What the caller's buffer holds when `line` has been taken. -/
structure Holds (n : Nat) (line : List UInt8) (cnt : Nat) (buffer : List UInt8) : Prop where
  count : cnt = (line.take n).length
  bytes : buffer.take cnt = line.take n
  room : n ≤ buffer.length

theorem holds_more (n : Nat) (line : List UInt8) (cnt : Nat) (buffer : List UInt8) (ch : UInt8)
    (holds : Holds n line cnt buffer) :
    Holds n (line ++ [ch]) (if cnt < n then (cnt + 1, buffer.set cnt ch) else (cnt, buffer)).1
      (if cnt < n then (cnt + 1, buffer.set cnt ch) else (cnt, buffer)).2 := by
  obtain ⟨rfl, bytes, room⟩ := holds
  have grown := take_grown n line ch
  by_cases more : (line.take n).length < n
  · rw [if_pos more] at grown ⊢
    refine ⟨by rw [← grown, List.length_append]; rfl, ?_, by rw [List.length_set]; exact room⟩
    rw [take_stored buffer (line.take n) ch bytes (by omega), grown]
  · rw [if_neg more] at grown ⊢
    exact ⟨by rw [grown], by rw [bytes, grown], room⟩

/-- What a caller gets to see of a line. -/
def seen (n : Nat) (line : List UInt8) : Nat × List UInt8 := ((line.take n).length, line.take n)

theorem drain_line (n : Nat) (buf : List UInt8) (left next cnt : Nat) (buffer line : List UInt8)
    (rest : List Token) (inside : next + left ≤ buf.length) (holds : Holds n line cnt buffer) :
    (∃ after taken filled whole,
      drain n buf left next cnt buffer = (true, after, taken, filled) ∧ after ≤ next + left ∧
      Holds n whole taken filled ∧ nextLine (((buf.drop next).take left).map .byte ++ rest) line =
        (.ok whole, ((buf.drop after).take (next + left - after)).map .byte ++ rest)) ∨
    (∃ taken filled, drain n buf left next cnt buffer = (false, next + left, taken, filled) ∧
      Holds n (line ++ (buf.drop next).take left) taken filled ∧
      nextLine (((buf.drop next).take left).map .byte ++ rest) line = nextLine rest
        (line ++ (buf.drop next).take left)) := by
  induction left generalizing next cnt buffer line with
  | zero => exact Or.inr ⟨cnt, buffer, rfl, by simpa using holds, by simp⟩
  | succ left ih =>
      have here : next < buf.length := by omega
      have first : (buf.drop next).take (left + 1) = buf.getD next 0 ::
          (buf.drop (next + 1)).take left := by
        rw [List.drop_eq_getElem_cons here, List.take_succ_cons, List.getD_eq_getElem buf 0 here]
      have more := holds_more n line cnt buffer (buf.getD next 0) holds
      rw [first, drain]
      generalize (if cnt < n then (cnt + 1, buffer.set cnt (buf.getD next 0)) else (cnt, buffer)) =
        put at more ⊢
      obtain ⟨count, memory⟩ := put
      dsimp only at more ⊢
      rw [List.map_cons, List.cons_append, nextLine]
      by_cases stop : buf.getD next 0 = newline
      · rw [if_pos stop, if_pos stop]
        refine Or.inl ⟨next + 1, count, memory, line ++ [buf.getD next 0], rfl,
          by omega, more, ?_⟩
        have size : next + (left + 1) - (next + 1) = left := by omega
        rw [size]
      · rw [if_neg stop, if_neg stop]
        have sum : next + 1 + left = next + (left + 1) := by omega
        have later := ih (next + 1) count memory (line ++ [buf.getD next 0]) (by omega) more
        rw [sum, List.append_assoc] at later
        exact later

/-- What a call leaves behind and what its caller gets, against what was still to come. -/
structure Takes (n : Nat) (call : Call) (next : Except Errno (List UInt8) × List Token) :
    Prop where
  fits : call.rlbuf.Fits
  size : RL_MAX_BUF ≤ call.rlbuf.buf.length
  room : n ≤ call.buffer.length
  got : got call.returned call.buffer = next.1.map (seen n)
  rest : tokens call.rlbuf call.arrivals = next.2

theorem got_holds (n : Nat) (line : List UInt8) (cnt : Nat) (buffer : List UInt8)
    (holds : Holds n line cnt buffer) : got (.ok cnt) buffer = (Except.ok line).map (seen n) := by
  rw [got, Except.map, holds.bytes, holds.count]
  rfl

/-- The buffer held the rest of the line. -/
theorem stopped_takes (n : Nat) (arrivals : List Arrival) (rlbuf : ReadLineBuf) (cnt : Nat)
    (buffer line : List UInt8) (fits : rlbuf.Fits) (size : RL_MAX_BUF ≤ rlbuf.buf.length)
    (after taken : Nat) (filled whole : List UInt8)
    (drained : drain n rlbuf.buf (rlbuf.len - rlbuf.next).toNat rlbuf.next cnt buffer =
      (true, after, taken, filled)) (inside : after ≤ rlbuf.next + (rlbuf.len - rlbuf.next).toNat)
        (holds : Holds n whole taken filled)
    (next : nextLine (tokens rlbuf arrivals) line = (.ok whole,
      ((rlbuf.buf.drop after).take (rlbuf.next + (rlbuf.len - rlbuf.next).toNat -
        after)).map .byte ++
        arrivals.flatMap Arrival.tokens)) :
    Takes n (lineLoop n arrivals rlbuf cnt buffer) (nextLine (tokens rlbuf arrivals) line) := by
  have some_ : 0 < (rlbuf.len - rlbuf.next).toNat := by
    by_contra none
    rw [Nat.eq_zero_of_not_pos none] at drained
    cases drained
  have left : (rlbuf.len - after).toNat = rlbuf.next + (rlbuf.len - rlbuf.next).toNat - after := by
    omega
  rw [lineLoop.eq_def, drained, next]
  refine ⟨?_, size, holds.room, got_holds n whole taken filled holds, ?_⟩
  · simp only [ReadLineBuf.Fits] at fits ⊢
    omega
  · simp only [tokens, ReadLineBuf.pending, left]

theorem ended_pending (rlbuf : ReadLineBuf) (after : Nat) (len : Int) (none : len ≤ 0)
    (inside : after ≤ rlbuf.buf.length) :
    ReadLineBuf.Fits { rlbuf with next := after, len := len } ∧
      ReadLineBuf.pending { rlbuf with next := after, len := len } = [] := by
  have left : (len - after).toNat = 0 := by omega
  simp only [ReadLineBuf.Fits, ReadLineBuf.pending, left, List.take_zero, Nat.add_zero, and_true]
  exact inside

theorem refilled_pending (chunk : Chunk) (buf : List UInt8) (size : RL_MAX_BUF ≤ buf.length) :
    ReadLineBuf.Fits ⟨chunk.bytes ++ buf.drop chunk.bytes.length, 0, chunk.bytes.length⟩ ∧
      RL_MAX_BUF ≤ (chunk.bytes ++ buf.drop chunk.bytes.length).length ∧
      ReadLineBuf.pending ⟨chunk.bytes ++ buf.drop chunk.bytes.length, 0, chunk.bytes.length⟩ =
        chunk.bytes := by
  have fits := chunk.fits
  refine ⟨?_, ?_, ?_⟩
  · simp only [ReadLineBuf.Fits, List.length_append, List.length_drop]
    omega
  · simp only [List.length_append, List.length_drop]
    omega
  · simp [ReadLineBuf.pending]

theorem loop_line (n : Nat) (arrivals : List Arrival) (rlbuf : ReadLineBuf) (cnt : Nat)
    (buffer line : List UInt8) (fits : rlbuf.Fits) (size : RL_MAX_BUF ≤ rlbuf.buf.length)
    (holds : Holds n line cnt buffer) :
    Takes n (lineLoop n arrivals rlbuf cnt buffer) (nextLine (tokens rlbuf arrivals) line) := by
  induction arrivals generalizing rlbuf cnt buffer line with
  | nil =>
      rcases drain_line n rlbuf.buf _ rlbuf.next cnt buffer line [] fits holds with
        ⟨after, taken, filled, whole, drained, inside, more, next⟩ |
          ⟨taken, filled, drained, more, next⟩
      · exact stopped_takes n [] rlbuf cnt buffer line fits size after taken filled whole
          drained inside more next
      · obtain ⟨still, none⟩ := ended_pending rlbuf _ 0 (Int.le_refl 0) fits
        rw [lineLoop.eq_def, drained, tokens, ReadLineBuf.pending, List.flatMap_nil, next]
        exact ⟨still, size, more.room, got_holds n _ taken filled more,
          by rw [tokens, none]; rfl⟩
  | cons arrival rest ih =>
      rcases drain_line n rlbuf.buf _ rlbuf.next cnt buffer line
        ((arrival :: rest).flatMap Arrival.tokens) fits holds with
        ⟨after, taken, filled, whole, drained, inside, more, next⟩ |
          ⟨taken, filled, drained, more, next⟩
      · exact stopped_takes n
          (arrival :: rest) rlbuf cnt buffer line fits size after taken filled whole
            drained inside more next
      · rw [lineLoop.eq_def, drained, tokens, ReadLineBuf.pending, next]
        cases arrival with
        | failed errno =>
            obtain ⟨still, none⟩ := ended_pending rlbuf _ (-1) (by decide) fits
            exact ⟨still, size, more.room, rfl, by rw [tokens, none]; rfl⟩
        | chunk piece =>
            obtain ⟨still, wide, pending⟩ := refilled_pending piece rlbuf.buf size
            have later := ih _ taken filled _ still wide more
            rw [tokens, pending] at later
            exact later

theorem read_line_buf (n : Nat) (some_ : 0 < n) (rlbuf : ReadLineBuf) (arrivals : List Arrival)
    (buffer : List UInt8) (fits : rlbuf.Fits) (size : RL_MAX_BUF ≤ rlbuf.buf.length)
    (room : n ≤ buffer.length) :
    Takes n (readLineBuf n rlbuf arrivals buffer) (nextLine (tokens rlbuf arrivals) []) := by
  rw [readLineBuf, if_neg (Nat.pos_iff_ne_zero.mp some_)]
  exact loop_line n arrivals rlbuf 0 buffer [] fits size ⟨by simp, by simp, room⟩

/-! No read fails. -/

theorem next_line_stream (stream line : List UInt8) : nextLine (stream.map .byte) line =
    (.ok (line ++ (takeLine stream).1), (takeLine stream).2.map .byte) := by
  induction stream generalizing line with
  | nil => simp [nextLine, takeLine]
  | cons ch rest ih =>
      rw [List.map_cons, nextLine, takeLine]
      split
      · rfl
      · rw [ih]
        simp

theorem chunk_tokens (chunks : List Chunk) (memory : List UInt8) :
    tokens (readLineBufInit memory) (chunks.map .chunk) =
      (chunks.flatMap Chunk.bytes).map .byte := by
  induction chunks with
  | nil => simp [tokens, ReadLineBuf.pending, readLineBufInit]
  | cons chunk rest ih =>
      simp only [tokens, ReadLineBuf.pending, readLineBufInit] at ih
      simp [tokens, ReadLineBuf.pending, readLineBufInit, Arrival.tokens] at ih ⊢
      exact ih

theorem lines_agree (n : Nat) (enough : 2 ≤ n) (buffers others : List (List UInt8))
    (same : buffers.length = others.length)
    (room : ∀ buffer ∈ buffers, n - 1 ≤ buffer.length)
    (wide : ∀ buffer ∈ others, n ≤ buffer.length) (rlbuf : ReadLineBuf)
    (arrivals : List Arrival) (fits : rlbuf.Fits) (size : RL_MAX_BUF ≤ rlbuf.buf.length)
    (stream : List UInt8) (left : tokens rlbuf arrivals = stream.map .byte) :
    readLineBufs (n - 1) buffers rlbuf arrivals = readLines n others (stream.map .byte) := by
  induction buffers generalizing others rlbuf arrivals stream with
  | nil =>
      rw [List.length_eq_zero_iff.mp same.symm]
      rfl
  | cons buffer more ih =>
      obtain ⟨other, fewer, rfl⟩ : ∃ other fewer, others = other :: fewer := by
        cases others with
        | nil => cases same
        | cons other fewer => exact ⟨other, fewer, rfl⟩
      have takes := read_line_buf (n - 1) (by omega) rlbuf arrivals buffer fits size
        (room buffer List.mem_cons_self)
      rw [left, next_line_stream, List.nil_append] at takes
      obtain ⟨after, read, bytes, _⟩ :=
        read_line_stream n (by omega) stream other (wide other List.mem_cons_self)
      rw [readLineBufs, readLines, read]
      refine List.cons_eq_cons.mpr ⟨?_, ?_⟩
      · rw [takes.got]
        simp only [got, Except.map, seen, bytes]
      · exact ih fewer (Nat.succ.inj same) (fun one member =>
          room one (List.mem_cons_of_mem buffer member))
            (fun one member => wide one (List.mem_cons_of_mem other member)) _ _ takes.fits
              takes.size _ takes.rest

theorem line_empty (stream : List UInt8) : (takeLine stream).1 = [] ↔ stream = [] := by
  cases stream with
  | nil => simp [takeLine]
  | cons ch rest =>
      rw [takeLine]
      split <;> simp

theorem buffered_lines_agree (n : Nat) (enough : 2 ≤ n) (chunks : List Chunk)
    (memory : List UInt8) (size : memory.length = RL_MAX_BUF) (buffers others : List (List UInt8))
    (same : buffers.length = others.length) (room : ∀ buffer ∈ buffers, n - 1 ≤ buffer.length)
    (wide : ∀ buffer ∈ others, n ≤ buffer.length) :
    readLineBufs (n - 1) buffers (readLineBufInit memory) (chunks.map .chunk) =
      readLines n others ((chunks.flatMap Chunk.bytes).map .byte) ∧
    ∀ stream buffer, n ≤ buffer.length → ∃ after, readLineInto n buffer (stream.map .byte) =
        (.ok (min (n - 1) (takeLine stream).1.length), after, (takeLine stream).2.map .byte) ∧
      after.take (min (n - 1) (takeLine stream).1.length) = (takeLine stream).1.take (n - 1) ∧
      (stream ≠ [] → after[min (n - 1) (takeLine stream).1.length]? = some 0) := by
  constructor
  · exact lines_agree n enough buffers others same room wide (readLineBufInit memory) _
      (Nat.zero_le _) (Nat.le_of_eq size.symm) _
      (chunk_tokens chunks memory)
  · intro stream buffer fits
    obtain ⟨after, read, bytes, ended⟩ := read_line_stream n (by omega) stream buffer fits
    rw [List.length_take] at read bytes ended
    refine ⟨after, read, bytes, fun some_ => ended fun none => ?_⟩
    rcases List.take_eq_nil_iff.mp none with zero | empty
    · omega
    · exact some_ ((line_empty stream).mp empty)

-- The first line is cut off, the second spans two chunks, and then the file has ended.
theorem two_lines_agree :
    readLineBufs 2 [[0, 0], [0, 0], [0, 0]] (readLineBufInit (List.replicate 10 0))
        [.chunk ⟨[97, 98, 10, 99], by decide, by decide⟩,
          .chunk ⟨[100], by decide, by decide⟩] =
      [.ok (2, [97, 98]), .ok (2, [99, 100]), .ok (0, [])] :=
  (buffered_lines_agree 3 (by decide) [⟨[97, 98, 10, 99], by decide, by decide⟩,
    ⟨[100], by decide, by decide⟩]
    (List.replicate 10 0) rfl [[0, 0], [0, 0], [0, 0]] [[0, 0, 0], [0, 0, 0],
      [0, 0, 0]] rfl (by decide) (by decide)).1.trans rfl

/-! Reads that are interrupted. -/

/-- A caller that repeats an interrupted call, at most `again` times. -/
def readAgain (n : Nat) : Nat → ReadLineBuf → List Arrival → List UInt8 → Call
  | 0, rlbuf, arrivals, buffer => readLineBuf n rlbuf arrivals buffer
  | again + 1, rlbuf, arrivals, buffer =>
      let call := readLineBuf n rlbuf arrivals buffer
      match call.returned with
      | .error .EINTR => readAgain n again call.rlbuf call.arrivals call.buffer
      | _ => call

/-- Successive lines; no call is interrupted more often than there are arrivals. -/
def readLinesAgain (n : Nat) :
    List (List UInt8) → ReadLineBuf → List Arrival → List (Except Errno (Nat × List UInt8))
  | [], _, _ => []
  | buffer :: more, rlbuf, arrivals =>
      let call := readAgain n arrivals.length rlbuf arrivals buffer
      got call.returned call.buffer :: readLinesAgain n more call.rlbuf call.arrivals

def Arrival.brings : Arrival → Bool
  | .chunk _ => true
  | .failed _ => false

def Token.byte? : Token → Option UInt8
  | .byte ch => some ch
  | .failed _ => none

def bytesOf (tokens : List Token) : List UInt8 := tokens.filterMap Token.byte?

/-- The next line with the interruptions in it, and what follows. -/
def cut : List Token → List Token × List Token
  | [] => ([], [])
  | token :: rest =>
      if token = .byte newline then ([token], rest) else (token :: (cut rest).1, (cut rest).2)

/-- All lines, each with the interruptions in it. -/
def segments : List Token → List (List Token)
  | [] => []
  | token :: rest =>
      if token = .byte newline then [token] :: segments rest
      else
        match segments rest with
        | [] => [[token]]
        | first :: more => (token :: first) :: more

/-- What has been taken of a line since it was last interrupted. -/
def since (line : List UInt8) (segment : List Token) : List UInt8 :=
  segment.foldl
    (fun line token => match token with | .byte ch => line ++ [ch] | .failed _ => []) line

theorem segments_cut (token : Token) (rest : List Token) :
    segments (token :: rest) = (cut (token :: rest)).1 :: segments (cut (token :: rest)).2 := by
  induction rest generalizing token with
  | nil =>
      rw [segments, cut]
      split <;> simp [segments, cut]
  | cons next rest ih =>
      rw [segments, cut]
      split
      · rfl
      · rw [ih next]

theorem cut_bytes (toks : List Token) :
    takeLine (bytesOf toks) = (bytesOf (cut toks).1, bytesOf (cut toks).2) := by
  induction toks with
  | nil => rfl
  | cons token rest ih =>
      cases token with
      | failed errno =>
          rw [cut, if_neg (by simp)]
          exact ih
      | byte ch =>
          have head : bytesOf (.byte ch :: rest) = ch :: bytesOf rest := rfl
          rw [head, takeLine, cut]
          by_cases stop : ch = newline
          · rw [if_pos stop, if_pos (by rw [stop])]
            rfl
          · rw [if_neg stop, if_neg (by simpa using stop), ih]
            rfl

def interruptions (toks : List Token) : Nat := toks.countP fun token => token.byte?.isNone

/-- One call either ends its line or is interrupted in it. -/
theorem next_since (toks : List Token) (line : List UInt8)
    (lawful : ∀ errno, .failed errno ∈ toks → errno = .EINTR) :
    nextLine toks line = (.ok (since line (cut toks).1), (cut toks).2) ∨
    ∃ rest, nextLine toks line = (.error .EINTR, rest) ∧ since line (cut toks).1 =
      since [] (cut rest).1 ∧
      (cut toks).2 = (cut rest).2 ∧ interruptions rest < interruptions toks ∧
        ∀ token ∈ rest, token ∈ toks := by
  induction toks generalizing line with
  | nil => exact Or.inl rfl
  | cons token rest ih =>
      cases token with
      | failed errno =>
          rw [lawful errno List.mem_cons_self, cut, if_neg (by simp)]
          exact Or.inr ⟨rest, rfl, rfl, rfl,
            by simp [interruptions, Token.byte?], fun token => List.mem_cons_of_mem _⟩
      | byte ch =>
          have same : interruptions (.byte ch :: rest) = interruptions rest := by
            simp [interruptions, Token.byte?]
          rw [nextLine, cut, same]
          by_cases stop : ch = newline
          · rw [if_pos stop, if_pos (by rw [stop])]
            exact Or.inl rfl
          · rw [if_neg stop, if_neg (by simpa using stop)]
            rcases ih (line ++ [ch]) (fun errno member =>
              lawful errno (List.mem_cons_of_mem _ member)) with
                done | ⟨later, failed, lines, rests, fewer, inside⟩
            · exact Or.inl done
            · exact Or.inr ⟨later, failed, lines, rests, fewer,
                fun token member => List.mem_cons_of_mem _ (inside token member)⟩

theorem read_again (n : Nat) (some_ : 0 < n) (again : Nat) (rlbuf : ReadLineBuf)
    (arrivals : List Arrival) (buffer : List UInt8)
    (fits : rlbuf.Fits) (size : RL_MAX_BUF ≤ rlbuf.buf.length) (room : n ≤ buffer.length)
    (lawful : ∀ errno, .failed errno ∈ tokens rlbuf arrivals → errno = .EINTR)
    (enough : interruptions (tokens rlbuf arrivals) ≤ again) :
    Takes n (readAgain n again rlbuf arrivals buffer)
      (.ok (since [] (cut (tokens rlbuf arrivals)).1), (cut (tokens rlbuf arrivals)).2) := by
  induction again generalizing rlbuf arrivals buffer with
  | zero =>
      have takes := read_line_buf n some_ rlbuf arrivals buffer fits size room
      rcases next_since (tokens rlbuf arrivals) [] lawful with done | ⟨_, _, _, _, fewer, _⟩
      · rw [done] at takes
        exact takes
      · omega
  | succ again ih =>
      have takes := read_line_buf n some_ rlbuf arrivals buffer fits size room
      rw [readAgain]
      rcases next_since (tokens rlbuf arrivals) [] lawful with done |
        ⟨rest, failed, lines, rests, fewer, inside⟩
      · rw [done] at takes
        have got_ := takes.got
        split
        · next interrupted =>
            rw [interrupted] at got_
            cases got_
        · exact takes
      · rw [failed] at takes
        have got_ := takes.got
        have left := takes.rest
        have interrupted : (readLineBuf n rlbuf arrivals buffer).returned = .error .EINTR := by
          cases returned : (readLineBuf n rlbuf arrivals buffer).returned with
          | ok cnt =>
              rw [returned] at got_
              cases got_
          | error errno =>
              rw [returned] at got_
              cases got_
              rfl
        dsimp only at left ⊢
        rw [interrupted, lines, rests, ← left]
        exact ih _ _ _ takes.fits takes.size takes.room
          (fun errno member => lawful errno (inside _ (left ▸ member))) (by rw [left]; omega)

theorem interruptions_arrivals (rlbuf : ReadLineBuf) (arrivals : List Arrival) :
    interruptions (tokens rlbuf arrivals) ≤ arrivals.length := by
  have none : ∀ bytes : List UInt8, interruptions (bytes.map .byte) = 0 := by
    intro bytes
    simp [interruptions, Token.byte?]
  rw [tokens, interruptions, List.countP_append]
  have buffered := none rlbuf.pending
  rw [interruptions] at buffered
  rw [buffered, Nat.zero_add]
  induction arrivals with
  | nil => simp
  | cons arrival rest ih =>
      rw [List.flatMap_cons, List.countP_append, List.length_cons]
      cases arrival with
      | chunk piece =>
          have held := none piece.bytes
          rw [interruptions] at held
          rw [Arrival.tokens, held]
          omega
      | failed errno =>
          have one : (Arrival.failed errno).tokens.countP (fun token => token.byte?.isNone) = 1 :=
            rfl
          omega

/-- The first lines to come, as they are left by `taken`. -/
def lines (taken : List Token → List UInt8) : Nat → List Token → List (List UInt8)
  | 0, _ => []
  | count + 1, toks => taken (cut toks).1 :: lines taken count (cut toks).2

theorem cut_rest (toks : List Token) : ∀ token ∈ (cut toks).2, token ∈ toks := by
  induction toks with
  | nil => exact fun _ => id
  | cons first rest ih =>
      rw [cut]
      split
      · exact fun token => List.mem_cons_of_mem first
      · exact fun token member => List.mem_cons_of_mem first (ih token member)

theorem lines_again (n : Nat) (some_ : 0 < n) (buffers : List (List UInt8))
    (room : ∀ buffer ∈ buffers, n ≤ buffer.length)
    (rlbuf : ReadLineBuf) (arrivals : List Arrival) (fits : rlbuf.Fits)
    (size : RL_MAX_BUF ≤ rlbuf.buf.length)
    (lawful : ∀ errno, .failed errno ∈ tokens rlbuf arrivals → errno = .EINTR) :
    readLinesAgain n buffers rlbuf arrivals =
      (lines (since []) buffers.length (tokens rlbuf arrivals)).map fun line =>
        .ok (seen n line) := by
  induction buffers generalizing rlbuf arrivals with
  | nil => rfl
  | cons buffer more ih =>
      have takes := read_again n some_ arrivals.length rlbuf arrivals buffer fits size
        (room buffer List.mem_cons_self) lawful
        (interruptions_arrivals rlbuf arrivals)
      rw [readLinesAgain, takes.got, List.length_cons, lines, List.map_cons]
      refine List.cons_eq_cons.mpr ⟨rfl, ?_⟩
      rw [ih (fun one member => room one (List.mem_cons_of_mem buffer member)) _ _ takes.fits
          takes.size, takes.rest]
      intro errno member
      rw [takes.rest] at member
      exact lawful errno (cut_rest _ _ member)

theorem lines_whole (n : Nat) (some_ : 0 < n) (buffers : List (List UInt8))
    (room : ∀ buffer ∈ buffers, n ≤ buffer.length)
    (rlbuf : ReadLineBuf) (arrivals : List Arrival) (fits : rlbuf.Fits)
    (size : RL_MAX_BUF ≤ rlbuf.buf.length) (toks : List Token)
    (left : tokens rlbuf arrivals = (bytesOf toks).map .byte) :
    readLineBufs n buffers rlbuf arrivals = (lines bytesOf buffers.length toks).map fun line =>
      .ok (seen n line) := by
  induction buffers generalizing rlbuf arrivals toks with
  | nil => rfl
  | cons buffer more ih =>
      have takes :=
        read_line_buf n some_ rlbuf arrivals buffer fits size (room buffer List.mem_cons_self)
      rw [left, next_line_stream, cut_bytes, List.nil_append] at takes
      rw [readLineBufs, takes.got, List.length_cons, lines, List.map_cons]
      refine List.cons_eq_cons.mpr ⟨rfl, ?_⟩
      exact ih (fun one member => room one (List.mem_cons_of_mem buffer member)) _ _ takes.fits
        takes.size _ takes.rest

/-- The condition on what arrives: of every line, the first `n` bytes after its last
interruption are its first `n` bytes. -/
def Undamaged (n : Nat) (toks : List Token) : Prop :=
  ∀ segment ∈ segments toks, (since [] segment).take n = (bytesOf segment).take n

theorem undamaged_cons (n : Nat) (token : Token) (rest : List Token) :
    Undamaged n (token :: rest) ↔
    (since [] (cut (token :: rest)).1).take n = (bytesOf (cut (token :: rest)).1).take n ∧
      Undamaged n (cut (token :: rest)).2 := by
  rw [Undamaged, segments_cut, List.forall_mem_cons]
  rfl

theorem seen_iff (n : Nat) (one other : List UInt8) :
    seen n one = seen n other ↔ one.take n = other.take n := by
  constructor
  · exact fun same => congrArg Prod.snd same
  · intro same
    rw [seen, seen, same]

theorem cut_shorter (token : Token) (rest : List Token) :
    (cut (token :: rest)).2.length ≤ rest.length := by
  induction rest generalizing token with
  | nil =>
      rw [cut]
      split <;> simp [cut]
  | cons next rest ih =>
      rw [cut]
      split
      · exact Nat.le_refl _
      · exact Nat.le_succ_of_le (ih next)

theorem lines_iff (n : Nat) (toks : List Token) :
    (∀ count, (lines (since []) count toks).map (seen n) = (lines bytesOf count toks).map
    (seen n)) ↔ Undamaged n toks := by
  constructor
  · intro same
    induction size : toks.length using Nat.strong_induction_on generalizing toks with
    | h length ih =>
        cases toks with
        | nil => simp [Undamaged, segments]
        | cons token rest =>
            rw [undamaged_cons]
            constructor
            · have first := same 1
              simp only [lines, List.map_cons, List.map_nil, List.cons.injEq, and_true] at first
              exact (seen_iff n _ _).mp first
            · refine ih _ ?_ _ (fun count => ?_) rfl
              · rw [← size]
                exact Nat.lt_succ_of_le (cut_shorter token rest)
              · have later := same (count + 1)
                simp only [lines, List.map_cons, List.cons.injEq] at later
                exact later.2
  · intro kept count
    induction count generalizing toks with
    | zero => rfl
    | succ count ih =>
        rw [lines, lines, List.map_cons, List.map_cons]
        cases toks with
        | nil => exact List.cons_eq_cons.mpr ⟨rfl, ih [] kept⟩
        | cons token rest =>
            obtain ⟨first, later⟩ := (undamaged_cons n token rest).mp kept
            exact List.cons_eq_cons.mpr ⟨(seen_iff n _ _).mpr first, ih _ later⟩

theorem lines_refused (buffers : List (List UInt8)) (rlbuf : ReadLineBuf)
    (arrivals others : List Arrival) :
    readLinesAgain 0 buffers rlbuf arrivals = readLineBufs 0 buffers rlbuf others := by
  induction buffers with
  | nil => rfl
  | cons buffer more ih =>
      have refused : readAgain 0 arrivals.length rlbuf arrivals buffer =
          ⟨.error .EINVAL, buffer, rlbuf, arrivals⟩ := by
        cases arrivals.length <;> rfl
      rw [readLinesAgain, refused]
      exact List.cons_eq_cons.mpr ⟨rfl, ih⟩

theorem brought_tokens (memory : List UInt8) (arrivals : List Arrival) :
    tokens (readLineBufInit memory) (arrivals.filter Arrival.brings) =
      (bytesOf (arrivals.flatMap Arrival.tokens)).map .byte := by
  have empty : (readLineBufInit memory).pending = [] := by
    simp [ReadLineBuf.pending, readLineBufInit]
  rw [tokens, empty, List.map_nil, List.nil_append]
  induction arrivals with
  | nil => rfl
  | cons arrival rest ih =>
      rw [List.flatMap_cons, bytesOf, List.filterMap_append, List.map_append]
      cases arrival with
      | failed errno => exact ih
      | chunk piece =>
          rw [List.filter_cons_of_pos rfl, List.flatMap_cons, ih]
          have whole : (Arrival.chunk piece).tokens.filterMap Token.byte? = piece.bytes := by
            simp [Arrival.tokens, List.filterMap_map, Function.comp_def, Token.byte?]
          rw [whole]
          rfl

theorem interrupted_lines_are_kept (n : Nat) (memory : List UInt8)
    (size : memory.length = RL_MAX_BUF) (arrivals : List Arrival)
    (lawful : ∀ errno, Arrival.failed errno ∈ arrivals → errno = .EINTR) :
    (∀ buffers : List (List UInt8), (∀ buffer ∈ buffers, n ≤ buffer.length) →
      readLinesAgain n buffers (readLineBufInit memory) arrivals =
        readLineBufs n buffers (readLineBufInit memory) (arrivals.filter Arrival.brings)) ↔
      Undamaged n (arrivals.flatMap Arrival.tokens) := by
  rcases Nat.eq_zero_or_pos n with rfl | some_
  · exact ⟨fun _ segment _ => by simp, fun _ buffers _ => lines_refused buffers _ _ _⟩
  · have left : tokens (readLineBufInit memory) arrivals = arrivals.flatMap Arrival.tokens := by
      simp [tokens, ReadLineBuf.pending, readLineBufInit]
    have interrupted : ∀ errno, .failed errno ∈ tokens (readLineBufInit memory) arrivals →
        errno = .EINTR := by
      intro errno member
      rw [left] at member
      obtain ⟨arrival, present, inside⟩ := List.mem_flatMap.mp member
      cases arrival with
      | chunk piece => simp [Arrival.tokens] at inside
      | failed number =>
          cases List.mem_singleton.mp inside
          exact lawful errno present
    have both : ∀ buffers : List (List UInt8), (∀ buffer ∈ buffers, n ≤ buffer.length) →
        (readLinesAgain n buffers (readLineBufInit memory) arrivals =
          readLineBufs n buffers (readLineBufInit memory) (arrivals.filter Arrival.brings) ↔
        (lines (since []) buffers.length (arrivals.flatMap Arrival.tokens)).map (seen n) =
          (lines bytesOf buffers.length (arrivals.flatMap Arrival.tokens)).map (seen n)) := by
      intro buffers room
      have injective : Function.Injective (Except.ok : Nat × List UInt8 →
          Except Errno (Nat × List UInt8)) := by
        intro one other same
        cases same
        rfl
      rw [lines_again n some_ buffers room _ _ (Nat.zero_le _) (Nat.le_of_eq size.symm) interrupted,
        left, lines_whole n some_ buffers room _ _ (Nat.zero_le _) (Nat.le_of_eq size.symm) _
          (brought_tokens memory arrivals),
        ← (List.map_injective_iff.mpr injective).eq_iff, List.map_map, List.map_map]
      rfl
    rw [← lines_iff]
    constructor
    · intro same count
      have agree :=
        (both (List.replicate count (List.replicate n 0)) (by simp)).mp (same _ (by simp))
      rw [List.length_replicate] at agree
      exact agree
    · intro same buffers room
      exact (both buffers room).mpr (same buffers.length)

-- The interruption falls between two lines.
theorem pause_between_lines :
    readLinesAgain 5 [[0, 0, 0, 0, 0], [0, 0, 0, 0, 0]] (readLineBufInit (List.replicate 10 0))
        [.chunk ⟨[97, 98, 10], by decide, by decide⟩, .failed .EINTR,
          .chunk ⟨[99, 10], by decide, by decide⟩] =
      [.ok (3, [97, 98, 10]), .ok (2, [99, 10])] :=
  ((interrupted_lines_are_kept 5 (List.replicate 10 0) rfl
    [.chunk ⟨[97, 98, 10], by decide, by decide⟩, .failed .EINTR,
      .chunk ⟨[99, 10], by decide, by decide⟩] (by simp)).mpr
    (by unfold Undamaged; decide) [[0, 0, 0, 0, 0], [0, 0, 0, 0, 0]] (by decide)).trans rfl

-- "ab" has been taken out of the buffer when the next read is interrupted.
theorem pause_within_line :
    ¬ ∀ (n : Nat) (memory : List UInt8) (arrivals : List Arrival), memory.length = RL_MAX_BUF →
      (∀ errno, Arrival.failed errno ∈ arrivals → errno = .EINTR) →
      ∀ buffers : List (List UInt8), (∀ buffer ∈ buffers, n ≤ buffer.length) →
        readLinesAgain n buffers (readLineBufInit memory) arrivals =
          readLineBufs n buffers (readLineBufInit memory) (arrivals.filter Arrival.brings) := by
  intro claimed
  have same := claimed 5 (List.replicate 10 0)
    [.chunk ⟨[97, 98], by decide, by decide⟩, .failed .EINTR,
      .chunk ⟨[99, 10], by decide, by decide⟩] rfl (by simp)
    [[0, 0, 0, 0, 0]] (by decide)
  have lost : readLinesAgain 5 [[0, 0, 0, 0, 0]] (readLineBufInit (List.replicate 10 0))
      [.chunk ⟨[97, 98], by decide, by decide⟩, .failed .EINTR,
        .chunk ⟨[99, 10], by decide, by decide⟩] =
    [.ok (2, [99, 10])] := rfl
  have whole : readLineBufs 5 [[0, 0, 0, 0, 0]] (readLineBufInit (List.replicate 10 0))
      ([.chunk ⟨[97, 98], by decide, by decide⟩, .failed .EINTR,
        .chunk ⟨[99, 10], by decide, by decide⟩].filter
        Arrival.brings) = [.ok (4, [97, 98, 99, 10])] := rfl
  rw [lost, whole] at same
  cases same

end Tlpi.BufferedLines
