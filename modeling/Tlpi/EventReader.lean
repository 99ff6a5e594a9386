import Mathlib.Data.List.Basic
import Mathlib.Data.BitVec
import Mathlib.Logic.Function.Iterate
import Tlpi.TreeMonitor

/-!
inotify/inotify_dtree.c: `processInotifyEvents` on the bytes that `read` puts into
its buffer. The buffer is the memory of INOTIFY_READ_BUF_LEN bytes; events are
decoded from it wherever the loop points. A fixed sequence of events waits on the
descriptor; `choices` says for every `read` how many of them it returns and, for
a read under the alarm, whether it is interrupted first. Closing the descriptor
drops the events that were not read.
-/

namespace Tlpi.EventReader

open WatchCache TreeMonitor

/-- An event with the length of its null-padded name. -/
structure Record where
  event : Event
  len : Nat
  deriving DecidableEq

def sizeofEvent : Nat := 16

def NAME_MAX : Nat := 255

def INOTIFY_READ_BUF_LEN : Nat := 100 * (sizeofEvent + NAME_MAX + 1)

def Record.size (record : Record) : Nat := sizeofEvent + record.len

/-- What inotify delivers. Only directory entries have names, and these have one. -/
structure Record.Ok (record : Record) : Prop where
  descriptor : -2 ^ 31 ≤ record.event.wd ∧ record.event.wd < 2 ^ 31
  cookies : record.event.cookie < 2 ^ 32
  bounded : record.len ≤ NAME_MAX + 1
  padded : record.event.name.length < record.len ∨ record.len = 0 ∧ record.event.name = []
  terminated : 0 ∉ record.event.name
  named : has record.event.mask (IN_CREATE ||| IN_MOVED_FROM ||| IN_MOVED_TO) → record.len ≠ 0

/-! The layout of `struct inotify_event`. -/

def bytes32 (word : BitVec 32) : List UInt8 :=
  [UInt8.ofNat (word.toNat % 256), UInt8.ofNat (word.toNat / 256 % 256),
    UInt8.ofNat (word.toNat / 65536 % 256), UInt8.ofNat (word.toNat / 16777216 % 256)]

def encode (record : Record) : List UInt8 :=
  bytes32 (BitVec.ofInt 32 record.event.wd) ++ bytes32 record.event.mask ++
    bytes32 (BitVec.ofNat 32 record.event.cookie) ++ bytes32 (BitVec.ofNat 32 record.len) ++
    (record.event.name ++ List.replicate (record.len - record.event.name.length) 0)

def word (buf : List UInt8) (offset : Nat) : BitVec 32 :=
  let byte (index : Nat) : Nat := (buf.getD (offset + index) 0).toNat
  BitVec.ofNat 32 (byte 0 + byte 1 * 256 + byte 2 * 65536 + byte 3 * 16777216)

/-- The event at an address of the buffer; the name ends at its first null byte. -/
def recordAt (buf : List UInt8) (offset : Nat) : Record :=
  let len := (word buf (offset + 12)).toNat
  ⟨⟨(word buf offset).toInt, word buf (offset + 4), (word buf (offset + 8)).toNat,
    if len = 0 then [] else (buf.drop (offset + sizeofEvent)).takeWhile (· ≠ 0)⟩, len⟩

/-! The program. -/

/-- One call of `processNextInotifyEvent`; no result when the program exits in it. -/
structure Call where
  ev : Record
  next : Option Record
  firstTry : Bool
  consumed : Option Consumed
  deriving DecidableEq

inductive Phase where
  | waiting
  | looping
  | exited
  deriving DecidableEq

structure Choice where
  amount : Nat
  interrupted : Bool

structure Reader (State : Type) where
  world : World State
  queue : List Record
  reads : Nat
  calls : List Call
  phase : Phase
  buf : List UInt8
  evp : Nat
  numRead : Int
  firstTry : Bool

/-- The longest part of a sequence that fits into `count` bytes. -/
def fit : Nat → List Record → List Record
  | _, [] => []
  | count, record :: rest =>
      if record.size ≤ count then record :: fit (count - record.size) rest else []

def store (buf : List UInt8) (offset : Nat) (data : List UInt8) : List UInt8 :=
  buf.take offset ++ data ++ buf.drop (offset + data.length)

/-- The loop that moves the remaining bytes to the start of the buffer. -/
def shuffle (buf : List UInt8) (evp count : Nat) : List UInt8 :=
  (List.range count).foldl (fun memory j => memory.set j (memory.getD (evp + j) 0)) buf

def returned (ev : Record) (next : Option Record) : Consumed → Int
  | .one => ev.size
  | .pair => ev.size + (next.map Record.size).getD 0
  | .again => -1
  | .discard => INOTIFY_READ_BUF_LEN

section Program
variable {State : Type} (kernel : Kernel State) (choices : Nat → Choice)

/-- The `read` at the start of `processInotifyEvents`. -/
def primaryRead (reader : Reader State) : Reader State :=
  let block := fit INOTIFY_READ_BUF_LEN (reader.queue.take ((choices reader.reads).amount + 1))
  { reader with
    queue := reader.queue.drop block.length
    reads := reader.reads + 1
    phase := .looping
    buf := store reader.buf 0 (block.flatMap encode)
    evp := 0
    numRead := ((block.flatMap encode).length : Nat)
    firstTry := true }

/-- An event was left hanging: move it to the start and read on under the alarm.
An interrupted read returns -1, which is added to the count as well. -/
def secondaryRead (reader : Reader State) : Reader State :=
  let numRead := reader.numRead - reader.evp
  let buf := shuffle reader.buf reader.evp numRead.toNat
  let choice := choices reader.reads
  let block := fit (INOTIFY_READ_BUF_LEN - numRead.toNat) (reader.queue.take (choice.amount + 1))
  let reader := { reader with reads := reader.reads + 1, firstTry := false, evp := 0 }
  if choice.interrupted ∨ reader.queue = [] then
    { reader with buf := buf, numRead := numRead + -1 }
  else { reader with
    queue := reader.queue.drop block.length
    buf := store buf numRead.toNat (block.flatMap encode)
    numRead := numRead + ((block.flatMap encode).length : Nat) }

/-- The body of the loop over the buffer, for the event at `evp`. -/
def callHandler (reader : Reader State) (ev : Record) (next : Option Record) : Reader State :=
  match handle kernel reader.world ev.event (next.map Record.event) reader.firstTry with
  | none =>
      { reader with
        calls := reader.calls ++ [⟨ev, next, reader.firstTry, none⟩], phase := .exited }
  | some (world, consumed) =>
      let evLen := returned ev next consumed
      let reader := { reader with
        world := world
        calls := reader.calls ++ [⟨ev, next, reader.firstTry, some consumed⟩]
        queue := if consumed = .discard then [] else reader.queue }
      if evLen > 0 then { reader with evp := reader.evp + evLen.toNat, firstTry := true }
      else secondaryRead choices reader

def loopTurn (reader : Reader State) : Reader State :=
  let ev := recordAt reader.buf reader.evp
  let bufSize := reader.numRead - reader.evp
  callHandler kernel choices reader ev
    (if (ev.size : Int) < bufSize then some (recordAt reader.buf (reader.evp + ev.size)) else none)

/-- The main loop calls `processInotifyEvents` as long as there is something to read. -/
def advance (reader : Reader State) : Option (Reader State) :=
  match reader.phase with
  | .exited => none
  | .waiting => if reader.queue = [] then none else some (primaryRead choices reader)
  | .looping =>
      if (reader.evp : Int) < reader.numRead then some (loopTurn kernel choices reader)
      else some { reader with phase := .waiting }

/-- The program is stuck only where it has nothing left to do. -/
def run (count : Nat) (reader : Reader State) : Reader State :=
  (fun reader => (advance kernel choices reader).getD reader)^[count] reader

def start (world : World State) (records : List Record) (buf : List UInt8) : Reader State :=
  ⟨world, records, 0, [], .waiting, buf, 0, 0, true⟩

end Program

/-! What a run has to look like. -/

/-- The events that calls have completed; a hanging event is not one of them. -/
def completed (calls : List Call) : List Record :=
  calls.flatMap fun call =>
    match call.consumed with
    | some .pair => call.ev :: call.next.toList
    | some .again => []
    | some .one => [call.ev]
    | some .discard => [call.ev]
    | none => [call.ev]

/-- Handling the sequence in one go, every event seeing the one after it. -/
def handleAll {State : Type} (kernel : Kernel State) :
    World State → List Record → Option (World State)
  | world, [] => some world
  | world, [ev] => (handle kernel world ev.event none false).map Prod.fst
  | world, ev :: next :: rest =>
      match handle kernel world ev.event (some next.event) false with
      | none => none
      | some (world, .discard) => some world
      | some (world, .pair) => handleAll kernel world rest
      | some (world, _) => handleAll kernel world (next :: rest)

/-! Decoding gives back what was encoded. -/

theorem word_bytes (buf rest : List UInt8) (offset : Nat) (value : BitVec 32)
    (here : buf.drop offset = bytes32 value ++ rest) : word buf offset = value := by
  have byte : ∀ index, buf.getD (offset + index) 0 = (bytes32 value ++ rest).getD index 0 := by
    intro index
    rw [List.getD_eq_getElem?_getD, List.getD_eq_getElem?_getD, ← here, List.getElem?_drop]
  unfold word
  simp only [byte]
  apply BitVec.eq_of_toNat_eq
  have bound := value.isLt
  simp only [bytes32, List.cons_append, List.getD_cons_zero, List.getD_cons_succ,
    UInt8.toNat_ofNat', BitVec.toNat_ofNat]
  omega

theorem length_bytes32 (value : BitVec 32) : (bytes32 value).length = 4 := rfl

theorem length_encode (record : Record) (ok : record.Ok) :
    (encode record).length = record.size := by
  have padded : record.event.name.length ≤ record.len := by
    rcases ok.padded with shorter | ⟨_, empty⟩
    · exact Nat.le_of_lt shorter
    · simp [empty]
  simp only [encode, List.length_append, length_bytes32, List.length_replicate,
    Record.size, sizeofEvent]
  omega

theorem drop_word (buf rest : List UInt8) (offset : Nat) (value : BitVec 32)
    (here : buf.drop offset = bytes32 value ++ rest) : buf.drop (offset + 4) = rest := by
  rw [← List.drop_drop, here]
  rfl

theorem name_of_padded (name rest : List UInt8) (count : Nat) (positive : 0 < count)
    (plain : 0 ∉ name) :
    (name ++ List.replicate count 0 ++ rest).takeWhile (· ≠ 0) = name := by
  obtain ⟨count, rfl⟩ : ∃ before, count = before + 1 := ⟨count - 1, by omega⟩
  rw [List.replicate_succ, List.append_assoc, List.takeWhile_append_of_pos]
  · simp
  · intro byte member
    rw [decide_eq_true_eq]
    rintro rfl
    exact plain member

theorem record_at_encode (buf rest : List UInt8) (offset : Nat) (record : Record) (ok : record.Ok)
    (here : buf.drop offset = encode record ++ rest) : recordAt buf offset = record := by
  unfold encode at here
  simp only [List.append_assoc] at here
  have fourth : buf.drop (offset + 4) = _ := drop_word buf _ offset _ here
  have eighth : buf.drop (offset + 4 + 4) = _ := drop_word buf _ (offset + 4) _ fourth
  have twelfth : buf.drop (offset + 4 + 4 + 4) = _ := drop_word buf _ (offset + 4 + 4) _ eighth
  have tail : buf.drop (offset + 4 + 4 + 4 + 4) = _ :=
    drop_word buf _ (offset + 4 + 4 + 4) _ twelfth
  have wds : (BitVec.ofInt 32 record.event.wd).toInt = record.event.wd := by
    rw [BitVec.toInt_ofInt]
    have range := ok.descriptor
    apply Int.bmod_eq_of_le <;> omega
  have lens : (BitVec.ofNat 32 record.len).toNat = record.len := by
    have bound := ok.bounded
    rw [BitVec.toNat_ofNat, Nat.mod_eq_of_lt]
    unfold NAME_MAX at bound
    omega
  have cookies : (BitVec.ofNat 32 record.event.cookie).toNat = record.event.cookie := by
    rw [BitVec.toNat_ofNat, Nat.mod_eq_of_lt ok.cookies]
  have names : (if record.len = 0 then [] else
      (buf.drop (offset + sizeofEvent)).takeWhile (· ≠ 0)) = record.event.name := by
    rcases ok.padded with shorter | ⟨none_left, empty⟩
    · rw [if_neg (by omega)]
      change (buf.drop (offset + 4 + 4 + 4 + 4)).takeWhile _ = _
      rw [tail, ← List.append_assoc]
      exact name_of_padded _ rest _ (by omega) ok.terminated
    · rw [if_pos none_left, empty]
  unfold recordAt
  rw [word_bytes buf _ offset _ here, word_bytes buf _ (offset + 4) _ fourth,
    word_bytes buf _ (offset + 8) _ eighth, word_bytes buf _ (offset + 12) _ twelfth]
  simp only [wds, lens, cookies, names]

/-! When the handler looks at the next event. -/

section Lookahead
variable {State : Type} (kernel : Kernel State)

theorem perform_consumed (plan : Plan) (world after : World State) (consumed : Consumed)
    (done : perform kernel plan world = some (after, consumed)) :
    consumed = plan.consumed ∨ consumed = .discard := by
  unfold perform at done
  dsimp only at done
  split at done
  · cases done
    exact Or.inl rfl
  · obtain ⟨_, _, same⟩ := Option.map_eq_some_iff.mp done
    exact Or.inl (Prod.mk.inj same).2.symm
  · split at done
    · cases done
      exact Or.inl rfl
    · obtain ⟨_, _, same⟩ := Option.map_eq_some_iff.mp done
      exact Or.inr (Prod.mk.inj same).2.symm
  · obtain ⟨_, _, same⟩ := Option.map_eq_some_iff.mp done
    exact Or.inr (Prod.mk.inj same).2.symm

/-- Only a directory that has left its place makes the handler look ahead. -/
theorem lookahead_cases (cache : Cache) (roots : RootDirPaths) (ev : Event) :
    (∃ slot, eventSlot cache ev = some slot ∧ ∀ next firstTry,
      processNextInotifyEvent cache roots ev next firstTry =
        directoryMoved cache roots slot ev next firstTry) ∨
    ∃ plan, (∀ next firstTry, processNextInotifyEvent cache roots ev next firstTry = plan) ∧
      ∀ made, plan = some made → made.consumed = .one ∨ made.consumed = .discard := by
  unfold processNextInotifyEvent
  cases eventSlot cache ev with
  | none =>
      refine Or.inr ⟨rebuild cache roots, fun _ _ => rfl, ?_⟩
      rintro made ⟨⟩
      exact Or.inr rfl
  | some slot =>
      simp only
      split
      · refine Or.inr ⟨_, fun _ _ => rfl, ?_⟩
        rintro made ⟨⟩
        exact Or.inl rfl
      split
      · refine Or.inr ⟨_, fun _ _ => rfl, ?_⟩
        intro made planned
        unfold directoryDeleted at planned
        dsimp only at planned
        split at planned
        · obtain ⟨_, _, rfl⟩ := Option.map_eq_some_iff.mp planned
          exact Or.inl rfl
        · cases planned
          exact Or.inl rfl
      split
      · exact Or.inl ⟨slot, rfl, fun _ _ => rfl⟩
      split
      · refine Or.inr ⟨_, fun _ _ => rfl, ?_⟩
        rintro made ⟨⟩
        exact Or.inr rfl
      split
      · refine Or.inr ⟨_, fun _ _ => rfl, ?_⟩
        rintro made ⟨⟩
        exact Or.inl rfl
      split
      · refine Or.inr ⟨_, fun _ _ => rfl, ?_⟩
        intro made planned
        obtain ⟨_, _, rfl⟩ := Option.map_eq_some_iff.mp planned
        exact Or.inl rfl
      · refine Or.inr ⟨_, fun _ _ => rfl, ?_⟩
        rintro made ⟨⟩
        exact Or.inl rfl

theorem moved_again (cache : Cache) (roots : RootDirPaths) (slot : Nat) (ev : Event)
    (next : Option Event) (firstTry : Bool) (plan : Plan)
    (planned : directoryMoved cache roots slot ev next firstTry = some plan)
    (again : plan.consumed = .again) :
    next = none ∧ firstTry = true ∧ plan = ⟨cache, roots, .nothing, .again⟩ := by
  unfold directoryMoved movedOut rebuild at planned
  split at planned
  · split at planned
    · split at planned
      · cases planned
        cases again
      · cases planned
        cases again
    · cases planned
      cases again
  · split at planned
    · next first =>
        cases planned
        exact ⟨rfl, first, rfl⟩
    · cases planned
      cases again

theorem moved_pair (cache : Cache) (roots : RootDirPaths) (slot : Nat) (ev : Event)
    (firstTry : Bool) (plan : Plan)
    (planned : directoryMoved cache roots slot ev none firstTry = some plan) :
    plan.consumed ≠ .pair := by
  unfold directoryMoved movedOut at planned
  dsimp only at planned
  split at planned
  · cases planned
    exact Consumed.noConfusion
  · cases planned
    exact Consumed.noConfusion

/-- An event is left hanging only at the end of the buffer and at the first try. -/
theorem handle_again (world after : World State) (ev : Event) (next : Option Event)
    (firstTry : Bool) (done : handle kernel world ev next firstTry = some (after, .again)) :
    next = none ∧ firstTry = true ∧ after = world := by
  obtain ⟨plan, planned, worked⟩ := Option.bind_eq_some_iff.mp done
  have again : plan.consumed = .again := by
    rcases perform_consumed kernel plan world after _ worked with same | bad
    · exact same.symm
    · cases bad
  rcases lookahead_cases world.cache world.roots ev with ⟨slot, _, moved⟩ |
    ⟨_, fixed, kinds⟩
  · rw [moved] at planned
    obtain ⟨last, first, rfl⟩ := moved_again _ _ _ _ _ _ plan planned again
    cases worked
    exact ⟨last, first, rfl⟩
  · rw [fixed] at planned
    rcases kinds plan planned with one | discard
    · rw [again] at one
      cases one
    · rw [again] at discard
      cases discard

theorem handle_pair (world after : World State) (ev : Event) (next : Option Event) (firstTry : Bool)
    (done : handle kernel world ev next firstTry = some (after, .pair)) : next ≠ none := by
  rintro rfl
  obtain ⟨plan, planned, worked⟩ := Option.bind_eq_some_iff.mp done
  have pair : plan.consumed = .pair := by
    rcases perform_consumed kernel plan world after _ worked with same | bad
    · exact same.symm
    · cases bad
  rcases lookahead_cases world.cache world.roots ev with ⟨slot, _, moved⟩ |
    ⟨_, fixed, kinds⟩
  · rw [moved] at planned
    exact moved_pair _ _ _ _ _ plan planned pair
  · rw [fixed] at planned
    rcases kinds plan planned with one | discard
    · rw [pair] at one
      cases one
    · rw [pair] at discard
      cases discard

/-- With the next event in sight it does not matter which try it is. -/
theorem handle_in_sight (world : World State) (ev next : Event) (firstTry : Bool) :
    handle kernel world ev (some next) firstTry = handle kernel world ev (some next) false := by
  unfold handle
  rcases lookahead_cases world.cache world.roots ev with ⟨slot, _, moved⟩ | ⟨_, fixed, _⟩
  · rw [moved, moved]
    rfl
  · rw [fixed, fixed]

/-- An event that is not left hanging did not need the next one. -/
theorem handle_alone (world : World State) (ev : Event) (next : Option Event) (firstTry : Bool)
    (settled : ∀ after, handle kernel world ev none true ≠ some (after, .again)) :
    handle kernel world ev next firstTry = handle kernel world ev none true := by
  rcases lookahead_cases world.cache world.roots ev with ⟨slot, _, moved⟩ | ⟨_, fixed, _⟩
  · refine absurd ?_ (settled world)
    unfold handle
    rw [moved]
    rfl
  · unfold handle
    rw [fixed, fixed]

theorem handle_all_cons (world : World State) (ev : Record) (rest : List Record) :
    handleAll kernel world (ev :: rest) =
      match handle kernel world ev.event (rest.head?.map Record.event) false with
      | none => none
      | some (world, .discard) => some world
      | some (world, .pair) => handleAll kernel world rest.tail
      | some (world, _) => handleAll kernel world rest := by
  cases rest with
  | cons next rest => rfl
  | nil =>
      change (handle kernel world ev.event none false).map Prod.fst = _
      simp only [List.head?_nil, Option.map_none]
      cases done : handle kernel world ev.event none false with
      | none => rfl
      | some result =>
          obtain ⟨after, consumed⟩ := result
          cases consumed with
          | one => rfl
          | discard => rfl
          | pair => exact absurd rfl (handle_pair kernel world after ev.event none false done)
          | again => cases (handle_again kernel world after ev.event none false done).2.1

end Lookahead

/-! The buffer's memory. -/

theorem fit_leading (count : Nat) (records : List Record) :
    ∃ rest, records = fit count records ++ rest := by
  induction records generalizing count with
  | nil => exact ⟨[], rfl⟩
  | cons record rest ih =>
      unfold fit
      split
      · obtain ⟨left, whole⟩ := ih (count - record.size)
        exact ⟨left, by rw [List.cons_append, ← whole]⟩
      · exact ⟨record :: rest, rfl⟩

theorem fit_bytes (count : Nat) (records : List Record) (ok : ∀ record ∈ records, record.Ok) :
    ((fit count records).flatMap encode).length ≤ count := by
  induction records generalizing count with
  | nil => exact Nat.zero_le _
  | cons record rest ih =>
      have first := ok record List.mem_cons_self
      have later :=
        ih (count - record.size) fun other member => ok other (List.mem_cons_of_mem _ member)
      unfold fit
      split
      · rw [List.flatMap_cons, List.length_append, length_encode record first]
        omega
      · exact Nat.zero_le _

theorem fit_first (count : Nat) (record : Record) (rest : List Record)
    (small : record.size ≤ count) : ∃ more, fit count (record :: rest) = record :: more := by
  unfold fit
  rw [if_pos small]
  exact ⟨_, rfl⟩

/-- What a read takes from the queue. -/
theorem block_split (count amount : Nat) (queue : List Record) :
    queue = fit count (queue.take (amount + 1)) ++
      queue.drop (fit count (queue.take (amount + 1))).length := by
  obtain ⟨rest, whole⟩ := fit_leading count (queue.take (amount + 1))
  have leading : fit count (queue.take (amount + 1)) <+: queue := by
    refine List.IsPrefix.trans ⟨rest, whole.symm⟩ (List.take_prefix _ _)
  obtain ⟨left, same⟩ := leading
  generalize fit count (queue.take (amount + 1)) = block at same ⊢
  rw [← same, List.drop_left]

theorem block_nonempty (count amount : Nat) (queue : List Record) (waiting : queue ≠ [])
    (ok : ∀ record ∈ queue, record.Ok) (room : sizeofEvent + NAME_MAX + 1 ≤ count) :
    fit count (queue.take (amount + 1)) ≠ [] := by
  cases queue with
  | nil => exact absurd rfl waiting
  | cons record rest =>
      have bound := (ok record List.mem_cons_self).bounded
      obtain ⟨more, taken⟩ := fit_first count record (rest.take amount) (by
        unfold Record.size
        omega)
      rw [List.take_succ_cons, taken]
      exact List.cons_ne_nil _ _

theorem length_store (buf data : List UInt8) (offset : Nat)
    (room : offset + data.length ≤ buf.length) : (store buf offset data).length = buf.length := by
  simp only [store, List.length_append, List.length_take, List.length_drop]
  omega

theorem shuffle_cells (buf : List UInt8) (evp count : Nat) :
    (shuffle buf evp count).length = buf.length ∧
    (∀ index, index < count → evp + index < buf.length →
      (shuffle buf evp count)[index]? = buf[evp + index]?) ∧
    ∀ index, count ≤ index → (shuffle buf evp count)[index]? = buf[index]? := by
  induction count with
  | zero => exact ⟨rfl, fun index low => absurd low (Nat.not_lt_zero _), fun _ _ => rfl⟩
  | succ count ih =>
      obtain ⟨size, moved, kept⟩ := ih
      have turn : shuffle buf evp (count + 1) =
          (shuffle buf evp count).set count ((shuffle buf evp count).getD (evp + count) 0) := by
        unfold shuffle
        rw [List.range_succ, List.foldl_append]
        rfl
      -- the byte to copy lies at or behind the place it goes to, so it is still there
      have source : (shuffle buf evp count)[evp + count]? = buf[evp + count]? :=
        kept _ (Nat.le_add_left _ _)
      rw [turn]
      refine ⟨by rw [List.length_set, size], ?_, ?_⟩
      · intro index low inside
        by_cases last : index = count
        · subst last
          rw [List.getElem?_set_self (by omega), List.getD_eq_getElem?_getD, source,
            List.getElem?_eq_getElem inside]
          rfl
        · rw [List.getElem?_set_ne (Ne.symm last)]
          exact moved index (by omega) inside
      · intro index high
        rw [List.getElem?_set_ne (by omega)]
        exact kept index (by omega)

theorem shuffle_take (buf : List UInt8) (evp count : Nat) (room : evp + count ≤ buf.length) :
    (shuffle buf evp count).take count = (buf.drop evp).take count := by
  obtain ⟨_, moved, _⟩ := shuffle_cells buf evp count
  apply List.ext_getElem?
  intro index
  by_cases low : index < count
  · rw [List.getElem?_take_of_lt low, List.getElem?_take_of_lt low, List.getElem?_drop]
    exact moved index low (by omega)
  · rw [List.getElem?_eq_none (by rw [List.length_take]; omega),
      List.getElem?_eq_none (by rw [List.length_take]; omega)]

/-- The bytes from `evp` on are the events that are still to be handled. -/
structure Holds (buf : List UInt8) (evp : Nat) (numRead : Int) (firstTry : Bool)
    (pending : List Record) : Prop where
  size : buf.length = INOTIFY_READ_BUF_LEN
  memory : ∃ rest : List UInt8, buf.drop evp = pending.flatMap encode ++ rest
  count : match pending with
    | [] => numRead ≤ evp
    | record :: rest => numRead = evp + ((pending.flatMap encode).length : Nat) ∨
        firstTry = false ∧ rest = [] ∧ numRead + 1 = evp + (record.size : Nat)

theorem holds_event (buf : List UInt8) (evp : Nat) (numRead : Int) (firstTry : Bool)
    (record : Record) (rest : List Record) (ok : ∀ other ∈ record :: rest, other.Ok)
    (holds : Holds buf evp numRead firstTry (record :: rest)) :
    (evp : Int) < numRead ∧ recordAt buf evp = record ∧
    (if (record.size : Int) < numRead - evp then some (recordAt buf (evp + record.size))
      else none) =
      rest.head? := by
  obtain ⟨more, memory⟩ := holds.memory
  have first := ok record List.mem_cons_self
  have size := length_encode record first
  have positive : 16 ≤ record.size := Nat.le_add_right _ _
  rw [List.flatMap_cons, List.append_assoc] at memory
  have count := holds.count
  simp only [List.flatMap_cons, List.length_append, size] at count
  refine ⟨by omega, record_at_encode buf _ evp record first memory, ?_⟩
  cases rest with
  | nil =>
      simp only [List.flatMap_nil, List.length_nil] at count
      exact if_neg (by omega)
  | cons next rest =>
      have second := ok next (List.mem_cons_of_mem _ List.mem_cons_self)
      have after : buf.drop (evp + record.size) = encode next ++ (rest.flatMap encode ++ more) := by
        rw [← List.drop_drop, memory, List.drop_left' size, List.flatMap_cons, List.append_assoc]
      have positive' : 16 ≤ next.size := Nat.le_add_right _ _
      simp only [List.flatMap_cons, List.length_append, length_encode next second] at count
      rw [record_at_encode buf _ _ next second after]
      refine if_pos ?_
      rcases count with exact_ | ⟨_, empty, _⟩
      · omega
      · cases empty

theorem holds_tail (buf : List UInt8) (evp : Nat) (numRead : Int) (firstTry : Bool)
    (record : Record) (rest : List Record) (ok : record.Ok)
    (holds : Holds buf evp numRead firstTry (record :: rest)) :
    Holds buf (evp + record.size) numRead true rest := by
  obtain ⟨more, memory⟩ := holds.memory
  have size := length_encode record ok
  rw [List.flatMap_cons, List.append_assoc] at memory
  have count := holds.count
  simp only [List.flatMap_cons, List.length_append, size] at count
  refine ⟨holds.size, ⟨more, ?_⟩, ?_⟩
  · rw [← List.drop_drop, memory, List.drop_left' size]
  · cases rest with
    | nil =>
        simp only [List.flatMap_nil, List.length_nil] at count
        dsimp only
        omega
    | cons next rest =>
        refine Or.inl ?_
        rcases count with exact_ | ⟨_, empty, _⟩
        · push_cast at exact_ ⊢
          omega
        · cases empty

theorem holds_primary (buf : List UInt8) (block : List Record)
    (size : buf.length = INOTIFY_READ_BUF_LEN)
    (room : (block.flatMap encode).length ≤ INOTIFY_READ_BUF_LEN) (firstTry : Bool) :
    Holds (store buf 0 (block.flatMap encode)) 0 ((block.flatMap encode).length : Nat)
      firstTry block := by
  refine ⟨?_, ⟨buf.drop (block.flatMap encode).length, ?_⟩, ?_⟩
  · rw [length_store _ _ _ (by omega), size]
  · simp [store]
  · cases block with
    | nil => simp
    | cons record rest => exact Or.inl (by push_cast; omega)

section Secondary
variable (buf : List UInt8) (evp : Nat) (numRead : Int) (record : Record) (ok : record.Ok)
  (holds : Holds buf evp numRead true [record])
include ok holds

theorem single_count : numRead = evp + (record.size : Nat) := by
  have count := holds.count
  simpa [length_encode record ok] using count

theorem single_room : evp + record.size ≤ buf.length := by
  obtain ⟨more, memory⟩ := holds.memory
  have lengths := congrArg List.length memory
  have positive : 16 ≤ record.size := Nat.le_add_right _ _
  simp only [List.length_drop, List.flatMap_cons, List.flatMap_nil, List.append_nil,
    List.length_append, length_encode record ok] at lengths
  omega

theorem shuffled_event :
    (shuffle buf evp record.size).take record.size = encode record ∧
      (shuffle buf evp record.size).length = INOTIFY_READ_BUF_LEN := by
  obtain ⟨more, memory⟩ := holds.memory
  have room := single_room buf evp numRead record ok holds
  refine ⟨?_, ?_⟩
  · rw [shuffle_take buf evp record.size room, memory, List.flatMap_cons, List.flatMap_nil,
      List.append_nil, List.take_left' (length_encode record ok)]
  · rw [(shuffle_cells buf evp record.size).1, holds.size]

/-- The interrupted read spoils only the count, and only by one. -/
theorem holds_interrupted :
    Holds (shuffle buf evp record.size) 0 ((record.size : Int) + -1) false [record] := by
  obtain ⟨leading, size⟩ := shuffled_event buf evp numRead record ok holds
  refine ⟨size, ⟨(shuffle buf evp record.size).drop record.size, ?_⟩,
    Or.inr ⟨rfl, rfl, ?_⟩⟩
  · rw [List.flatMap_cons, List.flatMap_nil, List.append_nil, ← leading, List.take_append_drop,
      List.drop_zero]
  · push_cast
    omega

theorem holds_secondary (block : List Record)
    (room : (block.flatMap encode).length ≤ INOTIFY_READ_BUF_LEN - record.size) :
    Holds (store (shuffle buf evp record.size) record.size (block.flatMap encode)) 0
      ((record.size : Int) + ((block.flatMap encode).length : Nat)) false (record :: block) := by
  obtain ⟨leading, size⟩ := shuffled_event buf evp numRead record ok holds
  have inside := single_room buf evp numRead record ok holds
  rw [holds.size] at inside
  refine ⟨?_,
    ⟨(shuffle buf evp record.size).drop (record.size + (block.flatMap encode).length), ?_⟩,
    Or.inl ?_⟩
  · rw [length_store _ _ _ (by omega), size]
  · rw [List.drop_zero, store, leading, List.flatMap_cons]
  · rw [List.flatMap_cons, List.length_append, length_encode record ok]
    push_cast
    omega

end Secondary

/-! What the calls of a run say about the sequence. `Faithful` is about the calls
so far; the last of them may have left its event hanging. -/

structure Faithful (records : List Record) (calls : List Call) (hanging : Prop) : Prop where
  whole : ∀ (before : List Call) (call : Call) (after : List Call),
    calls = before ++ call :: after →
    ∃ rest : List Record, records = completed before ++ call.ev :: rest ∧
      (call.next = none ∨ call.next = rest.head?) ∧
        (call.consumed = some .pair → call.next ≠ none)
  retried : ∀ (before : List Call) (call : Call) (after : List Call),
    calls = before ++ call :: after → call.consumed = some .again →
    call.firstTry = true ∧ (after = [] ∧ hanging ∨ ∃ (retry : Call) (later : List Call),
      after = retry :: later ∧
      retry.ev = call.ev ∧ retry.firstTry = false ∧ retry.consumed ≠ some .again)
  once : ∀ (before : List Call) (call : Call) (after : List Call),
    calls = before ++ call :: after → call.firstTry = false →
    ∃ (earlier : List Call) (hung : Call), before = earlier ++ [hung] ∧ hung.ev = call.ev ∧
      hung.consumed = some .again
  last : ∀ (before : List Call) (call : Call) (after : List Call),
    calls = before ++ call :: after →
    call.consumed = some .discard ∨ call.consumed = none → after = []

theorem append_split (calls before after : List Call) (last call : Call)
    (same : calls ++ [last] = before ++ call :: after) :
    before = calls ∧ call = last ∧ after = [] ∨
      ∃ later, after = later ++ [last] ∧ calls = before ++ call :: later := by
  rcases List.eq_nil_or_concat after with rfl | ⟨later, final, rfl⟩
  · obtain ⟨front, back⟩ := List.append_inj' same rfl
    exact Or.inl ⟨front.symm, (List.cons.inj back).1.symm, rfl⟩
  · rw [List.concat_eq_append, ← List.cons_append, ← List.append_assoc] at same
    obtain ⟨front, back⟩ := List.append_inj' same rfl
    obtain rfl := (List.cons.inj back).1
    exact Or.inr ⟨later, by simp, front⟩

theorem completed_append (calls : List Call) (call : Call) :
    completed (calls ++ [call]) = completed calls ++ completed [call] := by
  simp [completed]

/-- A further call on the event that comes next. -/
theorem faithful_append (records rest : List Record) (calls : List Call)
    (call : Call) (hanging : Prop) (faithful : Faithful records calls (call.firstTry = false))
    (upcoming : records = completed calls ++ call.ev :: rest)
    (sight : call.next = none ∨ call.next = rest.head?)
    (paired : call.consumed = some .pair → call.next ≠ none)
    (hangs : call.consumed = some .again → call.firstTry = true ∧ hanging)
    (retry : call.firstTry = false → ∃ (earlier : List Call) (hung : Call),
      calls = earlier ++ [hung] ∧ hung.ev = call.ev ∧
      hung.consumed = some .again)
    (open_ : ∀ earlier ∈ calls, earlier.consumed ≠ some .discard ∧
      earlier.consumed ≠ none) :
    Faithful records (calls ++ [call]) hanging := by
  constructor
  · intro before one after same
    rcases append_split calls before after call one same with ⟨rfl, rfl, rfl⟩ |
      ⟨later, rfl, split⟩
    · exact ⟨rest, upcoming, sight, paired⟩
    · exact faithful.whole before one later split
  · intro before one after same again
    rcases append_split calls before after call one same with ⟨rfl, rfl, rfl⟩ |
      ⟨later, rfl, split⟩
    · exact ⟨(hangs again).1, Or.inl ⟨rfl, (hangs again).2⟩⟩
    · obtain ⟨first, ⟨rfl, second⟩ | ⟨again', later', rfl, rest'⟩⟩ :=
        faithful.retried before one later split again
      · refine ⟨first, Or.inr ⟨call, [], rfl, ?_, second, ?_⟩⟩
        · obtain ⟨earlier, hung, cut, evs, _⟩ := retry second
          rw [split] at cut
          obtain ⟨_, back⟩ := List.append_inj' cut rfl
          rw [(List.cons.inj back).1, evs]
        · intro twice
          rw [(hangs twice).1] at second
          cases second
      · exact ⟨first, Or.inr ⟨again', later' ++ [call], rfl, rest'⟩⟩
  · intro before one after same second
    rcases append_split calls before after call one same with ⟨rfl, rfl, rfl⟩ |
      ⟨later, rfl, split⟩
    · exact retry second
    · exact faithful.once before one later split second
  · intro before one after same final
    rcases append_split calls before after call one same with ⟨rfl, rfl, rfl⟩ |
      ⟨later, rfl, split⟩
    · rfl
    · have inside : one ∈ calls := by
        rw [split]
        simp
      obtain ⟨kept, running⟩ := open_ one inside
      exact final.elim (fun bad => absurd bad kept) (fun bad => absurd bad running)

section Run
variable {State : Type} (kernel : Kernel State) (choices : Nat → Choice)

def Discarded (calls : List Call) : Prop := ∃ call ∈ calls, call.consumed = some .discard

def Honest (choices : Nat → Choice) : Prop := ∀ count, (choices count).interrupted = false

/-- The state of a run that has `pending` events left in its buffer. The result of
handling the rest in one go stays what it was at the start. -/
structure Sound (records : List Record) (result : Option (World State)) (reader : Reader State)
    (pending : List Record) : Prop where
  ok : ∀ record ∈ pending ++ reader.queue, record.Ok
  size : reader.buf.length = INOTIFY_READ_BUF_LEN
  waiting : reader.phase = .waiting → pending = []
  holds : reader.phase = .looping →
    Holds reader.buf reader.evp reader.numRead reader.firstTry pending
  stream : reader.phase ≠ .exited → ¬ Discarded reader.calls →
    records = completed reader.calls ++ (pending ++ reader.queue)
  discarded : Discarded reader.calls → pending ++ reader.queue = []
  faithful : Faithful records reader.calls (reader.phase = .looping ∧ reader.firstTry = false)
  hanging : reader.phase = .looping → reader.firstTry = false →
    ∃ earlier hung, reader.calls = earlier ++ [hung] ∧ pending.head? = some hung.ev ∧
      hung.consumed = some .again
  running : reader.phase ≠ .exited → ∀ call ∈ reader.calls, call.consumed ≠ none
  visible : Honest choices → reader.phase = .looping → reader.firstTry = false →
    2 ≤ pending.length ∨ reader.queue = []
  settled : Honest choices →
    (if reader.phase = .exited then none
      else handleAll kernel reader.world (pending ++ reader.queue)) = result

/-- The turn of the loop, in terms of the events in the buffer. -/
theorem loop_turn_event (reader : Reader State) (record : Record) (rest : List Record)
    (ok : ∀ other ∈ record :: rest, other.Ok)
    (holds : Holds reader.buf reader.evp reader.numRead reader.firstTry (record :: rest)) :
    loopTurn kernel choices reader = callHandler kernel choices reader record rest.head? := by
  obtain ⟨_, here, after⟩ := holds_event _ _ _ _ record rest ok holds
  unfold loopTurn
  dsimp only
  rw [here, after]

variable (records : List Record) (result : Option (World State)) (reader : Reader State)

theorem faithful_mono (calls : List Call) (first second : Prop) (weaker : first → second)
    (faithful : Faithful records calls first) : Faithful records calls second := by
  refine ⟨faithful.whole, ?_, faithful.once, faithful.last⟩
  intro before call after same again
  obtain ⟨try_, rest⟩ := faithful.retried before call after same again
  exact ⟨try_, rest.imp_left fun both => ⟨both.1, weaker both.2⟩⟩

theorem call_handler_consumed (ev : Record) (next : Option Record) (world : World State)
    (consumed : Consumed)
    (handled : handle kernel reader.world ev.event (next.map Record.event) reader.firstTry =
      some (world, consumed)) (kept : consumed ≠ .again) :
    callHandler kernel choices reader ev next =
      { reader with
        world := world
        calls := reader.calls ++ [⟨ev, next, reader.firstTry, some consumed⟩]
        queue := if consumed = .discard then [] else reader.queue
        evp := reader.evp + (returned ev next consumed).toNat
        firstTry := true } := by
  have positive : returned ev next consumed > 0 := by
    unfold returned
    have header : 16 ≤ ev.size := Nat.le_add_right _ _
    cases consumed with
    | one => dsimp only; omega
    | pair => dsimp only; omega
    | again => exact absurd rfl kept
    | discard => dsimp only; decide
  unfold callHandler
  rw [handled]
  dsimp only
  rw [if_pos positive]

section Turn
variable (record : Record) (rest : List Record) (looping : reader.phase = .looping)
  (sound : Sound kernel choices records result reader (record :: rest))
include looping sound

theorem pending_open : ¬ Discarded reader.calls ∧
    records = completed reader.calls ++ record :: (rest ++ reader.queue) ∧
    ∀ earlier ∈ reader.calls,
      earlier.consumed ≠ some .discard ∧ earlier.consumed ≠ none := by
  have going : reader.phase ≠ .exited := by
    rw [looping]
    exact Phase.noConfusion
  have kept : ¬ Discarded reader.calls := fun lost =>
    absurd (sound.discarded lost) (List.cons_ne_nil _ _)
  exact ⟨kept, sound.stream going kept, fun earlier member =>
    ⟨fun lost => kept ⟨earlier, member, lost⟩, sound.running going earlier member⟩⟩

theorem call_faithful (consumed : Option Consumed) (hanging : Prop)
    (paired : consumed = some .pair → rest.head? ≠ none)
    (hangs : consumed = some .again → reader.firstTry = true ∧ hanging) :
    Faithful records (reader.calls ++
      [⟨record, rest.head?, reader.firstTry, consumed⟩]) hanging := by
  obtain ⟨_, upcoming, closed⟩ :=
    pending_open kernel choices records result reader record rest looping sound
  refine faithful_append records (rest ++ reader.queue) reader.calls _ hanging ?_ upcoming ?_ paired
    hangs ?_ closed
  · exact faithful_mono records reader.calls _ _ (fun both => both.2) sound.faithful
  · cases rest with
    | nil => exact Or.inl rfl
    | cons next more => exact Or.inr rfl
  · intro second
    obtain ⟨earlier, hung, calls, head, again⟩ := sound.hanging looping second
    exact ⟨earlier, hung, calls, (Option.some.inj head).symm, again⟩

/-- In an honest run the handler decides as if it saw the whole sequence. -/
theorem call_in_sight (honest : Honest choices)
    (kept : ∀ after, handle kernel reader.world record.event (rest.head?.map Record.event)
      reader.firstTry ≠ some (after, .again)) :
    handle kernel reader.world record.event ((rest ++ reader.queue).head?.map Record.event) false =
      handle kernel reader.world record.event (rest.head?.map Record.event) reader.firstTry := by
  cases rest with
  | cons next more => exact (handle_in_sight kernel reader.world record.event next.event _).symm
  | nil =>
      cases first : reader.firstTry with
      | true =>
          rw [first] at kept
          exact handle_alone kernel reader.world record.event _ false kept
      | false =>
          rcases sound.visible honest looping first with two | empty
          · exact absurd two (by simp)
          · rw [empty]
            rfl

theorem bytes_bound : reader.numRead ≤ reader.evp + (INOTIFY_READ_BUF_LEN : Nat) := by
  have holds := sound.holds looping
  obtain ⟨more, memory⟩ := holds.memory
  have lengths := congrArg List.length memory
  have count := holds.count
  have size := length_encode record (sound.ok record (by simp))
  rw [List.length_drop, holds.size, List.length_append, List.flatMap_cons, List.length_append,
      size] at lengths
  simp only [List.flatMap_cons, List.length_append, size] at count
  omega

theorem consumed_holds (left : List Record) (world : World State) (consumed : Consumed)
    (handled : handle kernel reader.world record.event (rest.head?.map Record.event)
      reader.firstTry =
      some (world, consumed))
    (taken : consumed = .one ∧ left = rest ∨ consumed = .pair ∧ left = rest.tail ∨
      consumed = .discard ∧ left = []) :
    Holds reader.buf (reader.evp + (returned record rest.head? consumed).toNat)
      reader.numRead true left := by
  have holds := sound.holds looping
  have first := sound.ok record (by simp)
  rcases taken with ⟨rfl, rfl⟩ | ⟨rfl, rfl⟩ | ⟨rfl, rfl⟩
  · exact holds_tail _ _ _ _ record _ first holds
  · cases rest with
    | nil => exact absurd rfl (handle_pair kernel _ _ _ _ _ handled)
    | cons next more =>
        have second := sound.ok next (by simp)
        have after := holds_tail _ _ _ _ next more second (holds_tail _ _ _ _ record _ first holds)
        rw [Nat.add_assoc] at after
        exact after
  · refine ⟨holds.size, ⟨_, rfl⟩, ?_⟩
    have bound := bytes_bound kernel choices records result reader record rest looping sound
    change reader.numRead ≤ ((reader.evp + INOTIFY_READ_BUF_LEN : Nat) : Int)
    push_cast
    exact bound

/-- A call that goes on with the next event, or with the one after the pair, or drops the rest. -/
theorem turn_consumes (left : List Record) (world : World State) (consumed : Consumed)
    (handled : handle kernel reader.world record.event (rest.head?.map Record.event)
      reader.firstTry =
      some (world, consumed))
    (taken : consumed = .one ∧ left = rest ∨ consumed = .pair ∧ left = rest.tail ∨
      consumed = .discard ∧ left = []) :
    Sound kernel choices records result (callHandler kernel choices reader record
      rest.head?) left := by
  obtain ⟨kept, upcoming, closed⟩ :=
    pending_open kernel choices records result reader record rest looping sound
  have settled : consumed ≠ .again := by
    rcases taken with ⟨rfl, _⟩ | ⟨rfl, _⟩ | ⟨rfl, _⟩ <;> exact Consumed.noConfusion
  have paired : consumed = .pair → ∃ next more, rest = next :: more := by
    rintro rfl
    cases rest with
    | nil => exact absurd rfl (handle_pair kernel _ _ _ _ _ handled)
    | cons next more => exact ⟨next, more, rfl⟩
  have smaller : ∀ other ∈ left ++ (if consumed = .discard then [] else reader.queue),
      other ∈ record :: rest ++ reader.queue := by
    intro other member
    rcases taken with ⟨rfl, rfl⟩ | ⟨rfl, rfl⟩ | ⟨rfl, rfl⟩
    · exact List.mem_cons_of_mem _ member
    · refine List.mem_cons_of_mem _ ?_
      rcases List.mem_append.mp member with inside | queued
      · exact List.mem_append_left _ (List.mem_of_mem_tail inside)
      · exact List.mem_append_right _ queued
    · simp at member
  rw [call_handler_consumed kernel choices reader record rest.head? world consumed handled settled]
  refine ⟨fun other member => sound.ok other (smaller other member), sound.size, ?_, fun _ =>
    consumed_holds kernel choices records result reader record rest looping sound
      left world consumed handled taken, ?_, ?_, ?_, ?_, ?_, ?_, ?_⟩
  · intro waits
    rw [looping] at waits
    cases waits
  · intro _ unlost
    have undropped : consumed ≠ .discard := by
      rintro rfl
      exact unlost ⟨_, List.mem_append_right _ List.mem_cons_self, rfl⟩
    rw [completed_append, upcoming]
    dsimp only
    rw [if_neg undropped]
    rcases taken with ⟨rfl, rfl⟩ | ⟨rfl, rfl⟩ | ⟨rfl, rfl⟩
    · simp [completed]
    · obtain ⟨next, more, rfl⟩ := paired rfl
      simp [completed]
    · exact absurd rfl undropped
  · rintro ⟨call, member, lost⟩
    rcases List.mem_append.mp member with old | new
    · exact absurd ⟨call, old, lost⟩ kept
    · obtain rfl := List.mem_singleton.mp new
      obtain rfl := Option.some.inj lost
      rcases taken with ⟨bad, _⟩ | ⟨bad, _⟩ | ⟨_, rfl⟩
      · cases bad
      · cases bad
      · rfl
  · refine call_faithful kernel choices records result reader record rest looping sound
      (some consumed) _ (fun same => ?_) (fun same => absurd (Option.some.inj same) settled)
    obtain ⟨next, more, rfl⟩ := paired (Option.some.inj same)
    exact Option.some_ne_none _
  · intro _ second
    cases second
  · intro _ call member
    rcases List.mem_append.mp member with old | new
    · exact (closed call old).2
    · obtain rfl := List.mem_singleton.mp new
      exact Option.some_ne_none _
  · intro _ _ second
    cases second
  · intro honest
    have before := sound.settled honest
    have same := call_in_sight kernel choices records result reader record rest looping sound honest
      (fun after hangs => settled (by rw [handled] at hangs; cases hangs; rfl))
    have going : reader.phase ≠ .exited := by
      rw [looping]
      exact Phase.noConfusion
    rw [if_neg going, List.cons_append, handle_all_cons, same, handled] at before
    dsimp only
    rw [if_neg going]
    rcases taken with ⟨rfl, rfl⟩ | ⟨rfl, rfl⟩ | ⟨rfl, rfl⟩
    · exact before
    · obtain ⟨next, more, rfl⟩ := paired rfl
      exact before
    · exact before

theorem turn_exits
    (handled : handle kernel reader.world record.event (rest.head?.map Record.event)
      reader.firstTry =
      none) :
    Sound kernel choices records result (callHandler kernel choices reader record rest.head?)
      (record :: rest) := by
  obtain ⟨kept, upcoming, closed⟩ :=
    pending_open kernel choices records result reader record rest looping sound
  unfold callHandler
  rw [handled]
  refine ⟨sound.ok, sound.size, ?_, ?_, ?_, ?_, ?_, ?_, ?_, ?_, ?_⟩
  · intro waits
    cases waits
  · intro loops
    cases loops
  · intro going
    exact absurd rfl going
  · rintro ⟨call, member, lost⟩
    rcases List.mem_append.mp member with old | new
    · exact absurd ⟨call, old, lost⟩ kept
    · obtain rfl := List.mem_singleton.mp new
      cases lost
  · exact call_faithful kernel choices records result reader record rest looping sound none _
      (fun same => by cases same) (fun same => by cases same)
  · intro loops
    cases loops
  · intro going
    exact absurd rfl going
  · intro _ loops
    cases loops
  · intro honest
    have before := sound.settled honest
    have same := call_in_sight kernel choices records result reader record rest looping sound honest
      (fun after hangs => by rw [handled] at hangs; cases hangs)
    have going : reader.phase ≠ .exited := by
      rw [looping]
      exact Phase.noConfusion
    rw [if_neg going, List.cons_append, handle_all_cons, same, handled] at before
    exact before

/-- The reader after a hanging event: in memory, and as a state of the run. -/
theorem hung_sound (after : Reader State) (block : List Record)
    (alone : rest = []) (first : reader.firstTry = true)
    (same : after.world = reader.world ∧ after.phase = .looping ∧ after.firstTry = false ∧
      after.calls = reader.calls ++ [⟨record, rest.head?, reader.firstTry, some .again⟩])
    (queue : reader.queue = block ++ after.queue)
    (holds : Holds after.buf after.evp after.numRead false (record :: block))
    (visible : Honest choices → block ≠ [] ∨ after.queue = []) :
    Sound kernel choices records result after (record :: block) := by
  obtain ⟨kept, upcoming, closed⟩ :=
    pending_open kernel choices records result reader record rest looping sound
  obtain ⟨worlds, phases, tries, calls⟩ := same
  have all : record :: block ++ after.queue = record :: rest ++ reader.queue := by
    rw [alone, queue]
    simp
  have unlost : ¬ Discarded after.calls := by
    rintro ⟨call, member, lost⟩
    rw [calls] at member
    rcases List.mem_append.mp member with old | new
    · exact kept ⟨call, old, lost⟩
    · obtain rfl := List.mem_singleton.mp new
      cases lost
  refine ⟨?_, holds.size, ?_, ?_, ?_, ?_, ?_, ?_, ?_, ?_, ?_⟩
  · rw [all]
    exact sound.ok
  · intro waits
    rw [phases] at waits
    cases waits
  · intro _
    rw [tries]
    exact holds
  · intro _ _
    rw [calls, completed_append, all, upcoming]
    simp [completed]
  · intro lost
    exact absurd lost unlost
  · rw [calls]
    exact call_faithful kernel choices records result reader record rest looping sound
      (some .again) _ (fun bad => by cases bad) (fun _ => ⟨first, phases, tries⟩)
  · intro _ _
    exact ⟨reader.calls, _, calls, rfl, rfl⟩
  · intro _ call member
    rw [calls] at member
    rcases List.mem_append.mp member with old | new
    · exact (closed call old).2
    · obtain rfl := List.mem_singleton.mp new
      exact Option.some_ne_none _
  · intro honest _ _
    rcases visible honest with delivered | empty
    · cases block with
      | nil => exact absurd rfl delivered
      | cons next more => exact Or.inl (by simp)
    · exact Or.inr empty
  · intro honest
    have before := sound.settled honest
    rw [looping, if_neg Phase.noConfusion] at before
    rw [phases, if_neg Phase.noConfusion, worlds, all]
    exact before

theorem turn_hangs (world : World State)
    (handled : handle kernel reader.world record.event (rest.head?.map Record.event)
      reader.firstTry =
      some (world, .again)) :
    reader.firstTry = true ∧ rest = [] ∧
    (callHandler kernel choices reader record rest.head?).firstTry = false ∧
    (callHandler kernel choices reader record rest.head?).phase = .looping ∧
    ∃ block, reader.queue = block ++
      (callHandler kernel choices reader record rest.head?).queue ∧
      Sound kernel choices records result (callHandler kernel choices reader record rest.head?)
        (record :: block) := by
  obtain ⟨last, first, rfl⟩ := handle_again kernel _ _ _ _ _ handled
  have alone : rest = [] := by
    cases rest with
    | nil => rfl
    | cons next more => cases last
  have ok := sound.ok record (by simp)
  have holds := sound.holds looping
  rw [first, alone] at holds
  have count : (reader.numRead - (reader.evp : Int)) = (record.size : Nat) := by
    have total := single_count _ _ _ record ok holds
    omega
  have step : callHandler kernel choices reader record rest.head? = secondaryRead choices
      { reader with
        calls := reader.calls ++ [⟨record, rest.head?, reader.firstTry, some .again⟩] } := by
    unfold callHandler
    rw [handled]
    rfl
  have room : record.size ≤ sizeofEvent + NAME_MAX + 1 := by
    have bound := ok.bounded
    unfold Record.size
    omega
  have queued : ∀ other ∈ reader.queue, other.Ok := fun other member =>
    sound.ok other (List.mem_append_right _ member)
  rw [step]
  unfold secondaryRead
  dsimp only
  rw [count, Int.toNat_natCast]
  by_cases quiet : (choices reader.reads).interrupted = true ∨ reader.queue = []
  · rw [if_pos quiet]
    refine ⟨first, alone, rfl, looping, [], rfl, ?_⟩
    refine hung_sound kernel choices records result reader record rest looping sound _ [] alone
      first ⟨rfl, looping, rfl, rfl⟩ rfl ?_ ?_
    · exact holds_interrupted _ _ _ record ok holds
    · intro honest
      refine Or.inr (quiet.resolve_left ?_)
      rw [honest]
      exact Bool.false_ne_true
  · rw [if_neg quiet]
    refine ⟨first, alone, rfl, looping, _, block_split _ _ _, ?_⟩
    refine hung_sound kernel choices records result reader record rest looping sound _ _ alone
      first ⟨rfl, looping, rfl, rfl⟩ (block_split _ _ _) ?_ ?_
    · apply holds_secondary _ _ _ record ok holds
      exact fit_bytes _ _ fun other member => queued other (List.mem_of_mem_take member)
    · intro _
      refine Or.inl (block_nonempty _ _ _ (fun empty => quiet (Or.inr empty)) queued ?_)
      unfold INOTIFY_READ_BUF_LEN
      omega

end Turn

/-- What is left to do. -/
def Reader.remaining (reader : Reader State) (pending : List Record) : Nat :=
  match reader.phase with
  | .exited => 0
  | .waiting => 5 * (pending.length + reader.queue.length) + 2
  | .looping => 5 * (pending.length + reader.queue.length) +
      if pending = [] then 3 else if reader.firstTry then 1 else 0

theorem remaining_le (pending : List Record) :
    reader.remaining pending ≤ 5 * (pending.length + reader.queue.length) + 3 := by
  unfold Reader.remaining
  split
  · exact Nat.zero_le _
  · omega
  · split
    · omega
    · split <;> omega

theorem primary_sound (waiting : reader.phase = .waiting) (unread : reader.queue ≠ [])
    (sound : Sound kernel choices records result reader []) :
    ∃ block, Sound kernel choices records result (primaryRead choices reader) block ∧
      (primaryRead choices reader).remaining block < reader.remaining [] := by
  have queued : ∀ other ∈ reader.queue, other.Ok := sound.ok
  have nonempty :=
    block_nonempty INOTIFY_READ_BUF_LEN (choices reader.reads).amount reader.queue unread
      queued (by decide)
  have split := block_split INOTIFY_READ_BUF_LEN (choices reader.reads).amount reader.queue
  have room :=
    fit_bytes INOTIFY_READ_BUF_LEN (reader.queue.take ((choices reader.reads).amount + 1))
      fun other member => queued other (List.mem_of_mem_take member)
  unfold primaryRead
  dsimp only
  generalize fit INOTIFY_READ_BUF_LEN (reader.queue.take ((choices reader.reads).amount + 1)) =
    block at *
  have going : reader.phase ≠ .exited := by
    rw [waiting]
    exact Phase.noConfusion
  refine ⟨block, ⟨?_, ?_, ?_, fun _ => holds_primary _ _ sound.size room true, ?_, ?_, ?_,
    ?_, ?_, ?_, ?_⟩, ?_⟩
  · dsimp only
    rw [← split]
    exact queued
  · exact (holds_primary _ _ sound.size room true).size
  · intro waits
    cases waits
  · intro _ kept
    dsimp only
    rw [← split]
    exact sound.stream going kept
  · intro lost
    exact absurd (sound.discarded lost) unread
  · refine faithful_mono records _ _ _ ?_ sound.faithful
    rintro ⟨loops, _⟩
    rw [waiting] at loops
    cases loops
  · intro _ second
    cases second
  · intro _
    exact sound.running going
  · intro _ _ second
    cases second
  · intro honest
    have before := sound.settled honest
    rw [if_neg going, List.nil_append] at before
    dsimp only
    rw [if_neg Phase.noConfusion, ← split]
    exact before
  · have lengths := congrArg List.length split
    rw [List.length_append] at lengths
    simp only [Reader.remaining, waiting, nonempty, if_false, if_true, List.length_nil]
    omega

theorem turn_sound (record : Record) (rest : List Record) (looping : reader.phase = .looping)
    (sound : Sound kernel choices records result reader (record :: rest)) :
    ∃ left, Sound kernel choices records result
      (callHandler kernel choices reader record rest.head?) left ∧
      (callHandler kernel choices reader record rest.head?).remaining left <
        reader.remaining (record :: rest) := by
  have before : reader.remaining (record :: rest) =
      5 * (rest.length + 1 + reader.queue.length) + if reader.firstTry then 1 else 0 := by
    simp [Reader.remaining, looping]
  rw [before]
  -- a call that consumes something shortens what is left by more than any change of phase adds
  have shorter : ∀ world consumed left, handle kernel reader.world record.event
      (rest.head?.map Record.event) reader.firstTry = some (world, consumed) →
        consumed ≠ .again →
      left.length ≤ rest.length →
      (callHandler kernel choices reader record rest.head?).remaining left <
        5 * (rest.length + 1 + reader.queue.length) + if reader.firstTry then 1 else 0 := by
    intro world consumed left handled kept fewer
    rw [call_handler_consumed kernel choices reader record _ world consumed handled kept]
    have queue : (if consumed = .discard then [] else reader.queue).length ≤
        reader.queue.length := by
      split
      · exact Nat.zero_le _
      · exact Nat.le_refl _
    refine Nat.lt_of_le_of_lt (remaining_le _ left) ?_
    dsimp only
    omega
  cases handled : handle kernel reader.world record.event (rest.head?.map Record.event)
    reader.firstTry with
  | none =>
      refine ⟨record :: rest, turn_exits kernel choices records result reader
        record rest looping sound handled, ?_⟩
      unfold callHandler
      rw [handled]
      dsimp only [Reader.remaining]
      omega
  | some outcome =>
      obtain ⟨world, consumed⟩ := outcome
      have consumes := turn_consumes kernel choices records result reader record rest looping sound
      cases consumed with
      | one =>
          exact ⟨rest, consumes rest world .one handled (Or.inl ⟨rfl, rfl⟩),
            shorter world .one rest handled Consumed.noConfusion (Nat.le_refl _)⟩
      | pair =>
          exact ⟨rest.tail, consumes rest.tail world .pair handled
            (Or.inr (Or.inl ⟨rfl, rfl⟩)),
            shorter world .pair rest.tail handled Consumed.noConfusion (by simp)⟩
      | discard =>
          exact ⟨[], consumes [] world .discard handled (Or.inr (Or.inr ⟨rfl, rfl⟩)),
            shorter world .discard [] handled Consumed.noConfusion (Nat.zero_le _)⟩
      | again =>
          obtain ⟨first, alone, second, loops, block, queue, hung⟩ :=
            turn_hangs kernel choices records result reader record rest looping sound world handled
          refine ⟨record :: block, hung, ?_⟩
          have lengths := congrArg List.length queue
          rw [List.length_append] at lengths
          subst alone
          rw [first, if_pos rfl]
          simp only [Reader.remaining, loops, second, List.length_cons, List.length_nil]
          rw [if_neg (List.cons_ne_nil _ _), if_neg Bool.false_ne_true]
          omega

/-- Every step keeps the run sound and brings its end nearer. -/
theorem advance_sound (pending : List Record) (after : Reader State)
    (sound : Sound kernel choices records result reader pending)
    (taken : advance kernel choices reader = some after) :
    ∃ left, Sound kernel choices records result after left ∧
      after.remaining left < reader.remaining pending := by
  unfold advance at taken
  split at taken
  · cases taken
  · next waiting =>
      split at taken
      · cases taken
      · next unread =>
          cases taken
          obtain rfl := sound.waiting waiting
          exact primary_sound kernel choices records result reader waiting unread sound
  · next looping =>
      cases pending with
      | nil =>
          have ended : ¬ (reader.evp : Int) < reader.numRead :=
            Int.not_lt.mpr (sound.holds looping).count
          rw [if_neg ended] at taken
          cases taken
          refine ⟨[], ⟨sound.ok, sound.size, fun _ => rfl, ?_, ?_, sound.discarded, ?_,
            ?_, ?_, ?_, ?_⟩, ?_⟩
          · intro loops
            cases loops
          · intro _
            exact sound.stream (by rw [looping]; exact Phase.noConfusion)
          · refine faithful_mono records _ _ _ ?_ sound.faithful
            rintro ⟨_, second⟩
            obtain ⟨_, _, _, head, _⟩ := sound.hanging looping second
            cases head
          · intro loops
            cases loops
          · intro _
            exact sound.running (by rw [looping]; exact Phase.noConfusion)
          · intro _ loops
            cases loops
          · intro honest
            have before := sound.settled honest
            rw [looping] at before
            exact before
          · simp [Reader.remaining, looping]
      | cons record rest =>
          have ok : ∀ other ∈ record :: rest, other.Ok := fun other member =>
            sound.ok other (List.mem_append_left _ member)
          have holds := sound.holds looping
          have going := (holds_event _ _ _ _ record rest ok holds).1
          rw [if_pos going] at taken
          cases taken
          rw [loop_turn_event kernel choices reader record rest ok holds]
          exact turn_sound kernel choices records result reader record rest looping sound

theorem start_sound (world : World State) (buf : List UInt8)
    (ok : ∀ record ∈ records, record.Ok) (size : buf.length = INOTIFY_READ_BUF_LEN) :
    Sound kernel choices records (handleAll kernel world records) (start world records buf) [] := by
  refine ⟨ok, size, fun _ => rfl, ?_, fun _ _ => rfl, ?_, ?_, ?_, ?_, ?_, fun _ => rfl⟩
  · intro loops
    cases loops
  · rintro ⟨call, member, _⟩
    cases member
  · constructor <;>
    · intro before call after same
      simp [start] at same
  · intro loops
    cases loops
  · intro _ call member
    cases member
  · intro _ loops
    cases loops

theorem run_sound (pending : List Record)
    (sound : Sound kernel choices records result reader pending) (count : Nat) :
    ∃ left, Sound kernel choices records result (run kernel choices count reader) left := by
  induction count generalizing reader pending with
  | zero => exact ⟨pending, sound⟩
  | succ count ih =>
      rw [run, Function.iterate_succ_apply, ← run]
      cases taken : advance kernel choices reader with
      | none => exact ih reader pending sound
      | some after =>
          obtain ⟨left, later, _⟩ :=
            advance_sound kernel choices records result reader pending after sound taken
          exact ih after left later

theorem run_ends (pending : List Record)
    (sound : Sound kernel choices records result reader pending) :
    ∃ count, advance kernel choices (run kernel choices count reader) = none := by
  induction measured : reader.remaining pending using Nat.strong_induction_on
    generalizing reader pending with
  | _ measure ih =>
      subst measured
      cases taken : advance kernel choices reader with
      | none => exact ⟨0, taken⟩
      | some after =>
          obtain ⟨left, later, less⟩ :=
            advance_sound kernel choices records result reader pending after sound taken
          obtain ⟨count, ended⟩ := ih _ less after left later rfl
          refine ⟨count + 1, ?_⟩
          rw [run, Function.iterate_succ_apply, ← run, taken]
          exact ended

/-- The cache, the roots, the kernel and the watch calls at the end; nothing if the
program has exited. -/
def outcome (reader : Reader State) : Option (World State) :=
  if reader.phase = .exited then none else some reader.world

theorem ended_sound (pending : List Record)
    (sound : Sound kernel choices records result reader pending)
    (ended : advance kernel choices reader = none) :
    Faithful records reader.calls False ∧
    (completed reader.calls = records ∨ Discarded reader.calls ∨ reader.phase = .exited) ∧
    (Honest choices → outcome reader = result) := by
  unfold advance at ended
  split at ended
  · next exited =>
      refine ⟨faithful_mono records _ _ _ ?_ sound.faithful, Or.inr (Or.inr exited),
        fun honest => ?_⟩
      · rintro ⟨loops, _⟩
        rw [exited] at loops
        cases loops
      · have before := sound.settled honest
        rw [if_pos exited] at before
        rw [outcome, if_pos exited, before]
  · next waiting =>
      have going : reader.phase ≠ .exited := by
        rw [waiting]
        exact Phase.noConfusion
      split at ended
      · next empty =>
          have drained := sound.waiting waiting
          refine ⟨faithful_mono records _ _ _ ?_ sound.faithful, ?_, fun honest => ?_⟩
          · rintro ⟨loops, _⟩
            rw [waiting] at loops
            cases loops
          · by_cases lost : Discarded reader.calls
            · exact Or.inr (Or.inl lost)
            · have whole := sound.stream going lost
              rw [drained, empty, List.append_nil, List.append_nil] at whole
              exact Or.inl whole.symm
          · have before := sound.settled honest
            rw [if_neg going, drained, empty] at before
            rw [outcome, if_neg going]
            exact before
      · cases ended
  · split at ended <;> cases ended

theorem finished_sound (world : World State) (buf : List UInt8)
    (ok : ∀ record ∈ records, record.Ok) (size : buf.length = INOTIFY_READ_BUF_LEN)
    (count : Nat)
    (ended : advance kernel choices (run kernel choices count (start world records buf)) = none) :
    Faithful records (run kernel choices count (start world records buf)).calls False ∧
    (completed (run kernel choices count (start world records buf)).calls = records ∨
      Discarded (run kernel choices count (start world records buf)).calls ∨
      (run kernel choices count (start world records buf)).phase = .exited) ∧
    (Honest choices →
      outcome (run kernel choices count (start world records buf)) =
        handleAll kernel world records) := by
  obtain ⟨left, sound⟩ := run_sound kernel choices records _ _ []
    (start_sound kernel choices records world buf ok size) count
  exact ended_sound kernel choices records _ _ left sound ended

/-- The reading loop ends, hands over every event whole, in order and once, and in
an honest run leaves what handling the sequence in one go leaves: the cut of the
reads does not show. -/
theorem process_inotify_events_correct (world : World State) (buf : List UInt8)
    (ok : ∀ record ∈ records, record.Ok) (size : buf.length = INOTIFY_READ_BUF_LEN) :
    (∃ count, advance kernel choices (run kernel choices count (start world records buf)) =
      none) ∧
    ∀ count, advance kernel choices (run kernel choices count (start world records buf)) =
      none →
      Faithful records (run kernel choices count (start world records buf)).calls False ∧
      (completed (run kernel choices count (start world records buf)).calls = records ∨
        Discarded (run kernel choices count (start world records buf)).calls ∨
        (run kernel choices count (start world records buf)).phase = .exited) ∧
      (Honest choices →
        outcome (run kernel choices count (start world records buf)) =
          handleAll kernel world records ∧
        ∀ other, Honest other → ∀ turns,
          advance kernel other (run kernel other turns (start world records buf)) = none →
          outcome (run kernel other turns (start world records buf)) =
            outcome (run kernel choices count (start world records buf))) := by
  refine ⟨run_ends kernel choices records _ _ []
    (start_sound kernel choices records world buf ok size), ?_⟩
  intro count ended
  obtain ⟨faithful, all, same⟩ :=
    finished_sound kernel choices records world buf ok size count ended
  refine ⟨faithful, all, fun honest => ⟨same honest, fun other fair turns stopped => ?_⟩⟩
  obtain ⟨_, _, likewise⟩ := finished_sound kernel other records world buf ok size turns stopped
  rw [likewise fair, same honest]

end Run

-- The two halves of the rename of a/x to a/y, delivered by separate reads.
theorem split_rename_correct :
    let kernel : Kernel Unit :=
      ⟨fun _ _ _ => (.watch 1, ()), fun _ _ => (true, ()), fun _ path => [path], id⟩
    let world : World Unit := ⟨[⟨1, [97]⟩, ⟨2, [97, 47, 120]⟩], [some [97]], (), []⟩
    let records : List Record :=
      [⟨⟨1, IN_MOVED_FROM ||| IN_ISDIR, 7, [120]⟩, 16⟩,
        ⟨⟨1, IN_MOVED_TO ||| IN_ISDIR, 7, [121]⟩, 16⟩]
    let reads : Nat → Choice := fun _ => ⟨0, false⟩
    let initial := start world records (List.replicate INOTIFY_READ_BUF_LEN 0)
    (∀ record ∈ records, record.Ok) ∧
    ∃ count, advance kernel reads (run kernel reads count initial) = none ∧
      outcome (run kernel reads count initial) = handleAll kernel world records := by
  intro kernel world records reads initial
  have ok : ∀ record ∈ records, record.Ok := by
    intro record member
    rcases List.mem_cons.mp member with rfl | member
    · exact ⟨by decide, by decide, by decide, by decide, by decide, by decide⟩
    · obtain rfl := List.mem_singleton.mp member
      exact ⟨by decide, by decide, by decide, by decide, by decide, by decide⟩
  have correct := process_inotify_events_correct kernel reads records world
    (List.replicate INOTIFY_READ_BUF_LEN 0) ok List.length_replicate
  obtain ⟨count, ended⟩ := correct.1
  exact ⟨ok, count, ended, ((correct.2 count ended).2.2 fun _ => rfl).1⟩

end Tlpi.EventReader
