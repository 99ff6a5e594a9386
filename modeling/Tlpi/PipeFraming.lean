import Mathlib.Data.BitVec
import Mathlib.Data.List.Basic
import Tlpi.EventReader
import Tlpi.Indexed
import Tlpi.Transition

/-!
altio/select_mq.c: children copy the messages of System V queues into one pipe, and the
parent takes them out again. It reads the fixed part of `struct pbuf` first and then as
many bytes as its field `len` says. The parent holds the write end of the pipe too, so a
`read` from the empty pipe blocks.
-/

namespace Tlpi.PipeFraming

open EventReader (bytes32 word store)

def MAX_MTEXT : Nat := 400

/-- `offsetof(struct pbuf, mtext)`. -/
def offsetofMtext : Nat := 16

def sizeofPbuf : Nat := offsetofMtext + MAX_MTEXT

/-- `mtext` is the part of the array that is in use. -/
structure Pbuf where
  msqid : BitVec 32
  len : BitVec 32
  mtype : BitVec 64
  mtext : List UInt8
  deriving DecidableEq

def bytes64 (value : BitVec 64) : List UInt8 :=
  bytes32 (value.extractLsb' 0 32) ++ bytes32 (value.extractLsb' 32 32)

def Pbuf.head (pmsg : Pbuf) : List UInt8 :=
  bytes32 pmsg.msqid ++ (bytes32 pmsg.len ++ bytes64 pmsg.mtype)

/-- The bytes that a child writes. -/
def Pbuf.encode (pmsg : Pbuf) : List UInt8 := pmsg.head ++ pmsg.mtext

/-- What the parent finds in its own variable `pmsg`. -/
def pbufAt (memory : List UInt8) : Pbuf where
  msqid := word memory 0
  len := word memory 4
  mtype := word memory 12 ++ word memory 8
  mtext := (memory.drop offsetofMtext).take (word memory 4).toNat

inductive ChildPlace where
  | msgrcv
  | write (pmsg : Pbuf)
  | ended
  deriving DecidableEq

structure Child where
  msqid : BitVec 32
  place : ChildPlace
  deriving DecidableEq

inductive ParentPlace where
  | select
  | readHeader
  | readBody
  | eof
  deriving DecidableEq

/-- `written` and `decoded` are the histories of the pipe's two ends. -/
structure State where
  children : List Child
  pipe : List UInt8
  parent : ParentPlace
  memory : List UInt8
  written : List Pbuf
  decoded : List Pbuf
  deriving DecidableEq

/-- A child receives any message, or writes the one it has. -/
inductive Choice where
  | msgrcv (child : Nat) (mtype : BitVec 64) (mtext : List UInt8)
  | write (child : Nat)
  | parent
  deriving DecidableEq

def State.moved (state : State) (index : Nat) (child : Child) (place : ChildPlace) : State :=
  { state with children := state.children.set index { child with place := place } }

/-- Without MSG_NOERROR a message that is too long is an error. -/
def stepMsgrcv (state : State) (index : Nat) (mtype : BitVec 64) (mtext : List UInt8)
    (child : Child) : Option State :=
  match child.place with
  | .msgrcv =>
      if mtext.length ≤ MAX_MTEXT then
        some (state.moved index child (.write ⟨child.msqid, BitVec.ofNat 32 mtext.length,
          mtype, mtext⟩))
      else some (state.moved index child .ended)
  | _ => none

/-- The write is atomic and waits until the pipe, of `room` bytes, can take all of it. -/
def stepWrite (room : Nat) (state : State) (index : Nat) (child : Child) : Option State :=
  match child.place with
  | .write pmsg =>
      if state.pipe.length + pmsg.encode.length ≤ room then
        some { state.moved index child .msgrcv with
          pipe := state.pipe ++ pmsg.encode, written := state.written ++ [pmsg] }
      else none
  | _ => none

/-- No result while the call blocks. -/
def read (pipe : List UInt8) (count : Nat) : Option (List UInt8 × List UInt8) :=
  if count = 0 then some ([], pipe)
  else if pipe = [] then none
  else some (pipe.take count, pipe.drop count)

/-- The branch of the parent's loop for the pipe. -/
def stepParent (state : State) : Option State :=
  match state.parent with
  | .select => if state.pipe = [] then none else some { state with parent := .readHeader }
  | .readHeader =>
      (read state.pipe offsetofMtext).map fun (data, rest) =>
        if data = [] then { state with parent := .eof }
        else { state with pipe := rest, memory := store state.memory 0 data, parent := .readBody }
  | .readBody =>
      -- the int is converted to size_t
      (read state.pipe ((word state.memory 4).signExtend 64).toNat).map fun (data, rest) =>
        if data = [] then { state with parent := .eof }
        else
          let memory := store state.memory offsetofMtext data
          { state with
            pipe := rest, memory := memory, parent := .select,
            decoded := state.decoded ++ [pbufAt memory] }
  | .eof => none

def step (room : Nat) (choice : Choice) (state : State) : Option State :=
  match choice with
  | .msgrcv index mtype mtext => state.children[index]?.bind (stepMsgrcv state index mtype mtext)
  | .write index => state.children[index]?.bind (stepWrite room state index)
  | .parent => stepParent state

/-- The parent's variable is not initialised. -/
def start (msqids : List (BitVec 32)) (memory : List UInt8) : State :=
  ⟨msqids.map (⟨·, .msgrcv⟩), [], .select, memory, [], []⟩

/-! The header gives back its fields. -/

theorem length_head (pmsg : Pbuf) : pmsg.head.length = offsetofMtext := rfl

theorem encode_nonempty (pmsg : Pbuf) : pmsg.encode ≠ [] := by
  intro empty
  have size := congrArg List.length empty
  simp only [Pbuf.encode, List.length_append, length_head, offsetofMtext, List.length_nil] at size
  omega

theorem memory_fields (memory rest : List UInt8) (pmsg : Pbuf) (here : memory = pmsg.head ++ rest) :
    word memory 0 = pmsg.msqid ∧ word memory 4 = pmsg.len ∧
      word memory 12 ++ word memory 8 = pmsg.mtype ∧
      memory.drop offsetofMtext = rest := by
  subst here
  have first : (pmsg.head ++ rest).drop 0 = bytes32 pmsg.msqid ++ (bytes32 pmsg.len ++
      (bytes32 (pmsg.mtype.extractLsb' 0 32) ++
        (bytes32 (pmsg.mtype.extractLsb' 32 32) ++ rest))) := by
    simp only [Pbuf.head, bytes64, List.append_assoc, List.drop_zero]
  have fourth := EventReader.drop_word _ _ 0 _ first
  have eighth := EventReader.drop_word _ _ (0 + 4) _ fourth
  have twelfth := EventReader.drop_word _ _ (0 + 4 + 4) _ eighth
  have tail := EventReader.drop_word _ _ (0 + 4 + 4 + 4) _ twelfth
  refine ⟨EventReader.word_bytes _ _ 0 _ first, EventReader.word_bytes _ _ 4 _ fourth, ?_, tail⟩
  rw [EventReader.word_bytes _ _ 12 _ twelfth, EventReader.word_bytes _ _ 8 _ eighth]
  apply BitVec.eq_of_getLsbD_eq
  intro position inside
  simp only [BitVec.getLsbD_append, BitVec.getLsbD_extractLsb']
  by_cases low : position < 32
  · simp [low]
  · have back : 32 + (position - 32) = position := by omega
    have room : position - 32 < 32 := by omega
    simp [low, back, room]

/-! The pipe always holds whole messages, but for the header that the parent has read. -/

structure Sent (pmsg : Pbuf) : Prop where
  len : pmsg.len = BitVec.ofNat 32 pmsg.mtext.length
  bounded : pmsg.mtext.length ≤ MAX_MTEXT

/-- The pending messages are those written and not yet decoded. -/
def Flow (pipe memory : List UInt8) (pending : List Pbuf) : ParentPlace → Prop
  | .select => pipe = pending.flatMap Pbuf.encode
  | .readHeader => pipe = pending.flatMap Pbuf.encode ∧ pending ≠ []
  | .readBody => ∃ pmsg rest,
      pending = pmsg :: rest ∧ pipe = pmsg.mtext ++ rest.flatMap Pbuf.encode ∧
      memory = pmsg.head ++ memory.drop offsetofMtext
  | .eof => ∃ pmsg rest, pending = pmsg :: rest ∧ pmsg.mtext = []

structure Framed (state : State) (pending : List Pbuf) : Prop where
  children : ∀ child ∈ state.children, ∀ pmsg, child.place = .write pmsg → Sent pmsg
  size : state.memory.length = sizeofPbuf
  order : state.written = state.decoded ++ pending
  sent : ∀ pmsg ∈ pending, Sent pmsg
  nonempty : ∀ pmsg ∈ state.decoded, pmsg.mtext ≠ []
  flow : Flow state.pipe state.memory pending state.parent

theorem moved_children (state : State) (index : Nat) (child : Child) (place : ChildPlace)
    (children : ∀ one ∈ state.children, ∀ pmsg, one.place = .write pmsg → Sent pmsg)
    (sent : ∀ pmsg, place = .write pmsg → Sent pmsg) :
    ∀ one ∈ (state.moved index child place).children,
      ∀ pmsg, one.place = .write pmsg → Sent pmsg := by
  intro one member pmsg writing
  obtain ⟨position, found⟩ := List.getElem?_of_mem member
  rcases Indexed.set_cases _ _ _ _ _ found with ⟨_, rfl⟩ | ⟨_, old⟩
  · exact sent pmsg writing
  · exact children one (List.mem_of_getElem? old) pmsg writing

theorem flow_append (pipe memory : List UInt8) (pending : List Pbuf)
    (place : ParentPlace) (pmsg : Pbuf) (flow : Flow pipe memory pending place) :
    Flow (pipe ++ pmsg.encode) memory (pending ++ [pmsg]) place := by
  have last : (pending ++ [pmsg]).flatMap Pbuf.encode = pending.flatMap Pbuf.encode ++
      pmsg.encode := by
    simp [List.flatMap_append]
  cases place with
  | select =>
      have here : pipe = _ := flow
      rw [here]
      exact last.symm
  | readHeader =>
      obtain ⟨here, _⟩ := flow
      rw [here]
      exact ⟨last.symm, List.append_ne_nil_of_right_ne_nil _ (List.cons_ne_nil _ _)⟩
  | readBody =>
      obtain ⟨first, rest, rfl, here, header⟩ := flow
      refine ⟨first, rest ++ [pmsg], rfl, ?_, header⟩
      rw [here]
      simp [List.flatMap_append]
  | eof =>
      obtain ⟨first, rest, rfl, empty⟩ := flow
      exact ⟨first, rest ++ [pmsg], rfl, empty⟩

section Steps
variable (state : State) (pending : List Pbuf) (sound : Framed state pending)
include sound

theorem msgrcv_framed (index : Nat) (mtype : BitVec 64) (mtext : List UInt8)
    (child : Child) (after : State)
    (taken : stepMsgrcv state index mtype mtext child = some after) : Framed after pending := by
  unfold stepMsgrcv at taken
  split at taken
  · split at taken
    · next fitting =>
        cases taken
        refine ⟨moved_children state index child _ sound.children ?_, sound.size,
          sound.order, sound.sent, sound.nonempty, sound.flow⟩
        intro pmsg same
        cases same
        exact ⟨rfl, fitting⟩
    · cases taken
      refine ⟨moved_children state index child _ sound.children ?_, sound.size,
        sound.order, sound.sent, sound.nonempty, sound.flow⟩
      intro pmsg bad
      cases bad
  · cases taken

theorem write_framed (room index : Nat) (child : Child)
    (there : state.children[index]? = some child) (after : State)
    (taken : stepWrite room state index child = some after) : ∃ left, Framed after left := by
  unfold stepWrite at taken
  split at taken
  · next pmsg place =>
      have fine := sound.children child (List.mem_of_getElem? there) pmsg place
      split at taken
      · cases taken
        refine ⟨pending ++ [pmsg], moved_children state index child .msgrcv sound.children ?_,
          sound.size, ?_, ?_, sound.nonempty, flow_append _ _ _ _ pmsg sound.flow⟩
        · intro _ bad
          cases bad
        · change state.written ++ [pmsg] = state.decoded ++ (pending ++ [pmsg])
          rw [sound.order, List.append_assoc]
        · intro one member
          rcases List.mem_append.mp member with old | new
          · exact sound.sent one old
          · rw [List.mem_singleton.mp new]
            exact fine
      · cases taken
  · cases taken

/-- The pipe is not empty as long as a message is pending. -/
theorem header_available (waiting : state.parent = .readHeader) :
    ∃ pmsg rest, pending = pmsg :: rest ∧
      read state.pipe offsetofMtext = some (pmsg.head, pmsg.mtext ++ rest.flatMap Pbuf.encode) := by
  have flow := sound.flow
  rw [waiting] at flow
  obtain ⟨content, some_⟩ := flow
  obtain ⟨pmsg, rest, rfl⟩ := List.exists_cons_of_ne_nil some_
  rw [List.flatMap_cons, Pbuf.encode, List.append_assoc] at content
  have unread : state.pipe ≠ [] := by
    rw [content]
    exact List.cons_ne_nil _ _
  refine ⟨pmsg, rest, rfl, ?_⟩
  rw [read, if_neg (by decide), if_neg unread, content, ← length_head pmsg,
      List.take_left, List.drop_left]

/-- The second `read` asks for the whole body, and so for nothing when there is none. -/
theorem body_available (waiting : state.parent = .readBody) :
    ∃ pmsg rest, pending = pmsg :: rest ∧
      state.memory = pmsg.head ++ state.memory.drop offsetofMtext ∧
      read state.pipe ((word state.memory 4).signExtend 64).toNat =
        some (pmsg.mtext, rest.flatMap Pbuf.encode) := by
  have flow := sound.flow
  rw [waiting] at flow
  obtain ⟨pmsg, rest, rfl, content, header⟩ := flow
  have fine := sound.sent pmsg List.mem_cons_self
  have bounded : pmsg.mtext.length ≤ 400 := fine.bounded
  have count : ((word state.memory 4).signExtend 64).toNat = pmsg.mtext.length := by
    rw [(memory_fields _ _ pmsg header).2.1, fine.len, BitVec.toNat_signExtend]
    have positive : (BitVec.ofNat 32 pmsg.mtext.length).msb = false := by
      rw [BitVec.msb_eq_false_iff_two_mul_lt, BitVec.toNat_ofNat]
      omega
    simp only [positive, Bool.false_eq_true, ↓reduceIte, BitVec.toNat_setWidth,
      BitVec.toNat_ofNat]
    omega
  refine ⟨pmsg, rest, rfl, header, ?_⟩
  rw [read, count]
  by_cases body : pmsg.mtext = []
  · rw [content, body]
    rfl
  · have unread : state.pipe ≠ [] := by
      rw [content]
      exact List.append_ne_nil_of_left_ne_nil body _
    rw [if_neg (fun zero => body (List.eq_nil_of_length_eq_zero zero)), if_neg unread,
      content, List.take_left, List.drop_left]

theorem header_framed (waiting : state.parent = .readHeader) (after : State)
    (taken : stepParent state = some after) : Framed after pending := by
  obtain ⟨pmsg, rest, rfl, got⟩ := header_available state pending sound waiting
  have some_ : pmsg.head ≠ [] := List.cons_ne_nil _ _
  rw [stepParent, waiting] at taken
  simp only [got, Option.map_some, if_neg some_] at taken
  cases taken
  have stored : store state.memory 0 pmsg.head = pmsg.head ++ state.memory.drop offsetofMtext := by
    rw [store, length_head, List.take_zero, List.nil_append, Nat.zero_add]
  refine ⟨sound.children, ?_, sound.order, sound.sent, sound.nonempty,
    ⟨pmsg, rest, rfl, rfl, ?_⟩⟩
  · refine (EventReader.length_store state.memory pmsg.head 0 ?_).trans sound.size
    rw [sound.size, length_head]
    decide
  · change store state.memory 0 pmsg.head =
      pmsg.head ++ (store state.memory 0 pmsg.head).drop offsetofMtext
    rw [stored, ← length_head pmsg, List.drop_left, length_head]

/-- A body is put behind its header and decoded; an empty one stops the parent. -/
theorem body_framed (waiting : state.parent = .readBody) (after : State)
    (taken : stepParent state = some after) : ∃ left, Framed after left := by
  obtain ⟨pmsg, rest, rfl, header, got⟩ := body_available state pending sound waiting
  have fine := sound.sent pmsg List.mem_cons_self
  rw [stepParent, waiting] at taken
  simp only [got, Option.map_some] at taken
  split at taken
  · next empty =>
      cases taken
      exact ⟨pmsg :: rest, sound.children, sound.size, sound.order, sound.sent, sound.nonempty,
        ⟨pmsg, rest, rfl, empty⟩⟩
  · next some_ =>
      cases taken
      have stored : store state.memory offsetofMtext pmsg.mtext =
          pmsg.head ++ (pmsg.mtext ++ state.memory.drop (offsetofMtext + pmsg.mtext.length)) := by
        have front : state.memory.take offsetofMtext = pmsg.head := by
          rw [header, ← length_head pmsg, List.take_left]
        rw [store, front, List.append_assoc]
      obtain ⟨msqid, len, mtype, text⟩ := memory_fields _ _ pmsg stored
      have same : pbufAt (store state.memory offsetofMtext pmsg.mtext) = pmsg := by
        have count : (BitVec.ofNat 32 pmsg.mtext.length).toNat = pmsg.mtext.length := by
          have bounded : pmsg.mtext.length ≤ 400 := fine.bounded
          rw [BitVec.toNat_ofNat, Nat.mod_eq_of_lt (by omega)]
        rw [pbufAt, msqid, len, mtype, text, fine.len, count, List.take_left, ← fine.len]
      refine ⟨rest, sound.children, ?_, ?_, ?_, ?_, rfl⟩
      · refine (EventReader.length_store state.memory pmsg.mtext offsetofMtext ?_).trans sound.size
        rw [sound.size]
        exact Nat.add_le_add_left fine.bounded _
      · dsimp only
        rw [same, sound.order, List.append_assoc]
        rfl
      · exact fun one member => sound.sent one (List.mem_cons_of_mem _ member)
      · intro one member
        dsimp only at member
        rw [same] at member
        rcases List.mem_append.mp member with old | new
        · exact sound.nonempty one old
        · rw [List.mem_singleton.mp new]
          exact some_

theorem parent_framed (after : State) (taken : stepParent state = some after) :
    ∃ left, Framed after left := by
  cases place : state.parent with
  | select =>
      have flow := sound.flow
      rw [place] at flow
      have content : state.pipe = pending.flatMap Pbuf.encode := flow
      rw [stepParent, place] at taken
      dsimp only at taken
      split at taken
      · cases taken
      · next unread =>
          cases taken
          refine ⟨pending, sound.children, sound.size, sound.order, sound.sent,
            sound.nonempty, content, ?_⟩
          rintro rfl
          exact unread content
  | readHeader => exact ⟨pending, header_framed state pending sound place after taken⟩
  | readBody => exact body_framed state pending sound place after taken
  | eof =>
      rw [stepParent, place] at taken
      cases taken

/-- A parent that cannot go on has decoded everything or has met an empty body. -/
theorem parent_blocked (stuck : stepParent state = none) :
    (state.parent = .select ∧ pending = []) ∨ state.parent = .eof := by
  cases place : state.parent with
  | select =>
      have flow := sound.flow
      rw [place] at flow
      have content : state.pipe = pending.flatMap Pbuf.encode := flow
      rw [stepParent, place] at stuck
      dsimp only at stuck
      split at stuck
      · next drained =>
          refine Or.inl ⟨rfl, ?_⟩
          cases pending with
          | nil => rfl
          | cons pmsg rest =>
              rw [drained, List.flatMap_cons] at content
              exact absurd (List.append_eq_nil_iff.mp content.symm).1 (encode_nonempty pmsg)
      · cases stuck
  | readHeader =>
      obtain ⟨pmsg, rest, _, got⟩ := header_available state pending sound place
      rw [stepParent, place] at stuck
      simp [got] at stuck
  | readBody =>
      obtain ⟨pmsg, rest, _, _, got⟩ := body_available state pending sound place
      rw [stepParent, place] at stuck
      simp [got] at stuck
  | eof => exact Or.inr rfl

theorem stopped_empty (stopped : state.parent = .eof) :
    state.decoded ≠ state.written ∧ ∃ pmsg ∈ state.written, pmsg.mtext = [] := by
  have flow := sound.flow
  rw [stopped] at flow
  obtain ⟨pmsg, rest, rfl, empty⟩ := flow
  constructor
  · intro same
    have order := sound.order
    rw [← same] at order
    exact absurd (List.self_eq_append_right.mp order) (List.cons_ne_nil _ _)
  · rw [sound.order]
    exact ⟨pmsg, List.mem_append_right _ List.mem_cons_self, empty⟩

end Steps

theorem step_framed (room : Nat) (choice : Choice) (before after : State)
    (sound : ∃ pending, Framed before pending) (taken : step room choice before = some after) :
    ∃ pending, Framed after pending := by
  obtain ⟨pending, framed⟩ := sound
  cases choice with
  | msgrcv index mtype mtext =>
      obtain ⟨child, _, moved⟩ := Option.bind_eq_some_iff.mp taken
      exact ⟨pending, msgrcv_framed before pending framed index mtype mtext child after moved⟩
  | write index =>
      obtain ⟨child, there, moved⟩ := Option.bind_eq_some_iff.mp taken
      exact write_framed before pending framed room index child there after moved
  | parent => exact parent_framed before pending framed after taken

theorem start_framed (msqids : List (BitVec 32)) (memory : List UInt8)
    (size : memory.length = sizeofPbuf) : Framed (start msqids memory) [] := by
  refine ⟨?_, size, rfl, (fun _ bad => by cases bad), (fun _ bad => by cases bad), rfl⟩
  intro child member pmsg bad
  obtain ⟨msqid, _, rfl⟩ := List.mem_map.mp member
  cases bad

/-- The parent decodes what has been written, in this order; it decodes all of it and never
stops exactly as long as no message has an empty body. -/
theorem nonempty_messages_are_decoded (room : Nat) (msqids : List (BitVec 32)) (memory : List UInt8)
    (size : memory.length = sizeofPbuf) (state : State)
    (reached : Transition.Reachable (· = start msqids memory) (step room) state) :
    state.decoded <+: state.written ∧
    ((∀ pmsg ∈ state.written, pmsg.mtext ≠ []) →
      state.parent ≠ .eof ∧ (stepParent state = none → state.decoded = state.written)) ∧
    (stepParent state = none →
      (state.parent ≠ .eof ∧ state.decoded = state.written ↔ ∀ pmsg ∈ state.written,
        pmsg.mtext ≠ [])) := by
  obtain ⟨pending, sound⟩ : ∃ pending, Framed state pending := by
    refine Transition.reachable_invariant ?_ (step_framed room) reached
    rintro state rfl
    exact ⟨[], start_framed msqids memory size⟩
  have running : (∀ pmsg ∈ state.written, pmsg.mtext ≠ []) → state.parent ≠ .eof := by
    intro full stopped
    obtain ⟨_, pmsg, member, empty⟩ := stopped_empty state pending sound stopped
    exact full pmsg member empty
  have complete : stepParent state = none → state.parent ≠ .eof →
      state.decoded = state.written := by
    intro stuck open_
    rcases parent_blocked state pending sound stuck with ⟨_, done⟩ | bad
    · rw [sound.order, done, List.append_nil]
    · exact absurd bad open_
  refine ⟨⟨pending, sound.order.symm⟩,
    fun full => ⟨running full, fun stuck => complete stuck (running full)⟩, ?_⟩
  intro stuck
  constructor
  · rintro ⟨_, same⟩
    rw [← same]
    exact sound.nonempty
  · exact fun full => ⟨running full, complete stuck (running full)⟩

-- Two children; the second message is written between the two reads of the first.
theorem interleaved_messages_are_decoded :
    ∃ state, Transition.replay (step 4096)
        [.msgrcv 0 1 [65, 66], .msgrcv 1 7 [67], .write 0, .parent, .parent, .write 1, .parent,
          .parent, .parent, .parent]
        (start [10, 20] (List.replicate sizeofPbuf 0)) = some state ∧
      state.decoded = [⟨10, 2, 1, [65, 66]⟩, ⟨20, 1, 7, [67]⟩] ∧
        state.parent ≠ .eof := by
  obtain ⟨state, replayed, decoded, written⟩ : ∃ state, Transition.replay (step 4096)
      [.msgrcv 0 1 [65, 66], .msgrcv 1 7 [67], .write 0, .parent, .parent, .write 1, .parent,
        .parent, .parent, .parent]
      (start [10, 20] (List.replicate sizeofPbuf 0)) = some state ∧
      state.decoded = [⟨10, 2, 1, [65, 66]⟩, ⟨20, 1, 7, [67]⟩] ∧
      state.written = [⟨10, 2, 1, [65, 66]⟩, ⟨20, 1, 7, [67]⟩] := ⟨_, rfl, rfl, rfl⟩
  have reached : Transition.Reachable (· = start [10, 20] (List.replicate sizeofPbuf 0))
      (step 4096) state :=
    Transition.replay_reachable _ (.start rfl) replayed
  have fine := nonempty_messages_are_decoded 4096 [10, 20] (List.replicate sizeofPbuf 0)
    (List.length_replicate) state reached
  rw [written] at fine
  exact ⟨state, replayed, decoded, (fine.2.1 (by decide)).1⟩

-- One message with an empty body stops the parent, which holds the write end itself.
theorem empty_message_stops_the_parent :
    ¬ ∀ room msqids memory state, memory.length = sizeofPbuf →
      Transition.Reachable (· = start msqids memory) (step room) state →
      state.parent ≠ .eof ∧ (stepParent state = none → state.decoded = state.written) := by
  intro claim
  obtain ⟨state, replayed, stopped⟩ : ∃ state, Transition.replay (step 4096)
      [.msgrcv 0 1 [], .write 0, .parent, .parent, .parent]
        (start [10] (List.replicate sizeofPbuf 0)) = some state ∧
      state.parent = .eof := ⟨_, rfl, rfl⟩
  have reached : Transition.Reachable (· = start [10] (List.replicate sizeofPbuf 0))
      (step 4096) state :=
    Transition.replay_reachable _ (.start rfl) replayed
  exact (claim 4096 [10] (List.replicate sizeofPbuf 0) state
    (List.length_replicate) reached).1 stopped

end Tlpi.PipeFraming
