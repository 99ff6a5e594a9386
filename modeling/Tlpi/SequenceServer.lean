import Mathlib.Algebra.Order.BigOperators.Group.List
import Mathlib.Algebra.Order.Ring.Int
import Tlpi.DecimalText
import Tlpi.Ranges
import Tlpi.ReadLine

/-!
sockets/is_seqnum_sv.c and sockets/is_seqnum_v2_sv.c, which have the same loop: a server
that takes one connection after the other, reads the length a client asks for and sends
back where its range of numbers starts. A client that neither ends its line nor closes the
connection keeps the server in `readLine`; a run is what was served before it.
-/

namespace Tlpi.SequenceServer

open DecimalText ReadLine

def INT_LEN : Nat := 30

inductive Outcome where
  | refused
  | granted (seqNumStr : List UInt8) (reqLen : Int)
  deriving DecidableEq

/-- `snprintf` with "%d\n", for which the uint32_t is taken as an int. -/
def seqNumStr (seqNum : BitVec 32) : List UInt8 :=
  (printed seqNum.toInt ++ [newline]).take (INT_LEN - 1)

/-- One turn of the loop; whether the client gets to see the answer is up to it. -/
def serve (seqNum : BitVec 32) (connection : List Read) : BitVec 32 × Outcome :=
  match (readLine INT_LEN connection).1 with
  | none => (seqNum, .refused)
  | some reqLenStr =>
      if reqLenStr.length ≤ 0 then (seqNum, .refused)
      else
        let reqLen := atoi reqLenStr
        if reqLen ≤ 0 then (seqNum, .refused)
        else (seqNum + BitVec.ofInt 32 reqLen, .granted (seqNumStr seqNum) reqLen)

def run : BitVec 32 → List (List Read) → List Outcome
  | _, [] => []
  | seqNum, connection :: rest =>
      let (next, outcome) := serve seqNum connection
      outcome :: run next rest

/-! What clients can ask for and expect. -/

/-- The number asked for by a first line of 1 to 28 digits. -/
def requested (connection : List Read) : Option Nat :=
  (firstLine connection).bind fun line =>
    if line ≠ [] ∧ line.all isdigit ∧ line.length ≤ 28 ∧ 1 ≤ value line then
      some (value line)
    else none

def Outcome.length : Outcome → Int
  | .refused => 0
  | .granted _ reqLen => reqLen

/-- The range as the client understands it. -/
def Outcome.range : Outcome → Option (Ranges.Range Int)
  | .refused => none
  | .granted seqNumStr reqLen => some ⟨strtol seqNumStr, reqLen⟩

/-- The outcomes of a run that began with `initial`. -/
structure Honoured (initial : Int) (connections : List (List Read))
    (outcomes : List Outcome) : Prop where
  exact : ∀ (index : Nat) connection outcome length, connections[index]? = some connection →
    outcomes[index]? = some outcome → requested connection = some length →
    outcome = .refused ∨ ∃ text, outcome = .granted text length
  denotes : ∀ (index : Nat) text reqLen, outcomes[index]? = some (.granted text reqLen) →
    strtol text = initial + ((outcomes.take index).map Outcome.length).sum
  disjoint : (outcomes.filterMap Outcome.range).Pairwise fun one other =>
    Disjoint one.numbers other.numbers

/-- The `reqLen` of a connection, 0 where nothing can be read. -/
def reqLen (connection : List Read) : Int :=
  match (readLine INT_LEN connection).1 with
  | none => 0
  | some reqLenStr => if reqLenStr.length ≤ 0 then 0 else atoi reqLenStr

def grantedLen (connection : List Read) : Int := max 0 (reqLen connection)

/-- No request is too large for an int unless it comes out as refused, and no range is
granted from 2^31 on. -/
structure Fitting (initial : Int) (connections : List (List Read)) : Prop where
  lengths : ∀ connection ∈ connections, ∀ length, requested connection = some length →
    length < 2 ^ 31 ∨ (min (length : Int) (2 ^ 63 - 1)).bmod (2 ^ 32) ≤ 0
  starts : ∀ (index : Nat) connection, connections[index]? = some connection →
    0 < reqLen connection →
    initial + ((connections.take index).map grantedLen).sum < 2 ^ 31

theorem serve_cases (seqNum : BitVec 32) (connection : List Read) :
    serve seqNum connection =
      if reqLen connection ≤ 0 then (seqNum, .refused)
      else (seqNum + BitVec.ofInt 32 (reqLen connection),
        .granted (seqNumStr seqNum) (reqLen connection)) := by
  unfold serve reqLen
  cases (readLine INT_LEN connection).1 with
  | none => rfl
  | some reqLenStr =>
      dsimp only
      split
      · rfl
      · rfl

/-- The counter before a turn is determined by the lengths granted before. -/
theorem run_at (initial : Int) (connections : List (List Read)) (index : Nat) :
    (run (BitVec.ofInt 32 initial) connections)[index]? = connections[index]?.map fun connection =>
      (serve (BitVec.ofInt 32 (initial + ((connections.take index).map grantedLen).sum))
        connection).2 := by
  induction connections generalizing initial index with
  | nil => simp [run]
  | cons connection rest ih =>
      cases index with
      | zero => simp [run]
      | succ index =>
          have next : (serve (BitVec.ofInt 32 initial) connection).1 =
              BitVec.ofInt 32 (initial + grantedLen connection) := by
            rw [serve_cases, grantedLen]
            split
            · next none_ => rw [max_eq_left none_, Int.add_zero]
            · next some_ => rw [max_eq_right (by omega), BitVec.ofInt_add]
          have tail := ih (initial + grantedLen connection) index
          simp only [run, List.getElem?_cons_succ, List.take_succ_cons, List.map_cons,
            List.sum_cons, next, tail, Int.add_assoc]

theorem run_lengths (seqNum : BitVec 32) (connections : List (List Read)) :
    (run seqNum connections).map Outcome.length = connections.map grantedLen := by
  induction connections generalizing seqNum with
  | nil => rfl
  | cons connection rest ih =>
      have first : (serve seqNum connection).2.length = grantedLen connection := by
        rw [serve_cases, grantedLen]
        split
        · next none_ => exact (max_eq_left none_).symm
        · next some_ =>
            have positive : 0 ≤ reqLen connection := by omega
            exact (max_eq_right positive).symm
      rw [List.map_cons, ← first, ← ih (serve seqNum connection).1]
      rfl

theorem taken_lengths (seqNum : BitVec 32) (connections : List (List Read)) (index : Nat) :
    ((run seqNum connections).take index).map Outcome.length =
      (connections.take index).map grantedLen := by
  rw [List.map_take, List.map_take, run_lengths]

/-- The client reads the counter as an int. -/
theorem text_denotes (seqNum : BitVec 32) : strtol (seqNumStr seqNum) = seqNum.toInt := by
  have least : -2 ^ 31 ≤ seqNum.toInt := BitVec.le_toInt seqNum
  have most : seqNum.toInt < 2 ^ 31 := BitVec.toInt_lt
  have short : (printed seqNum.toInt).length ≤ 10 + 1 :=
    length_printed _ 10 (by decide) (by omega)
  have whole : seqNumStr seqNum = printed seqNum.toInt ++ [newline] := by
    apply List.take_of_length_le
    simp only [List.length_append, List.length_cons, List.length_nil, INT_LEN]
    omega
  have ends : Ends [newline] := by
    intro ch rest same
    cases same
    rfl
  rw [whole]
  exact strtol_printed seqNum.toInt [newline] ends (by omega) (by omega)

theorem requested_length (connection : List Read) (length : Nat)
    (asked : requested connection = some length) :
    reqLen connection = (min (length : Int) (2 ^ 63 - 1)).bmod (2 ^ 32) := by
  obtain ⟨line, first, rest⟩ := Option.bind_eq_some_iff.mp asked
  split at rest
  · next fine =>
      obtain ⟨some_, digits, short, _⟩ := fine
      cases rest
      obtain ⟨tail, left, got, ends⟩ :=
        read_line_whole INT_LEN connection line first (Nat.add_le_add_right short 2)
      have stop : Ends tail := by
        intro ch others same
        rcases ends with rfl | rfl
        · cases same
        · cases same
          rfl
      have nonempty : ¬ (line ++ tail).length ≤ 0 := by
        rw [Nat.le_zero, List.length_eq_zero_iff, List.append_eq_nil_iff]
        exact fun empty => some_ empty.1
      simp only [reqLen, got, if_neg nonempty, atoi]
      rw [strtol_digits line tail some_ (List.all_eq_true.mp digits) stop]
  · cases rest

/-- Texts that denote the running total describe ranges without gap or overlap. -/
theorem denoted_tiles (outcomes : List Outcome) (initial : Int)
    (denotes : ∀ (index : Nat) text reqLen, outcomes[index]? = some (.granted text reqLen) →
      strtol text = initial + ((outcomes.take index).map Outcome.length).sum ∧ 0 < reqLen) :
    Ranges.Tiles initial (initial + (outcomes.map Outcome.length).sum)
      (outcomes.filterMap Outcome.range) := by
  induction outcomes generalizing initial with
  | nil => exact (Int.add_zero initial).symm
  | cons outcome rest ih =>
      have later := ih (initial + outcome.length) (by
        intro index text reqLen found
        have here := denotes (index + 1) text reqLen found
        rw [List.take_succ_cons, List.map_cons, List.sum_cons, ← Int.add_assoc] at here
        exact here)
      rw [List.map_cons, List.sum_cons, ← Int.add_assoc]
      cases outcome with
      | refused =>
          rw [Outcome.length, Int.add_zero] at later ⊢
          exact later
      | granted text reqLen =>
          obtain ⟨start, positive⟩ := denotes 0 text reqLen rfl
          exact ⟨start.trans (Int.add_zero initial), positive, later⟩

section Runs
variable (initial : Int) (connections : List (List Read))

/-- The outcome of a turn, and the number of which the client is told the int. -/
theorem outcome_at (index : Nat) (outcome : Outcome)
    (found : (run (BitVec.ofInt 32 initial) connections)[index]? = some outcome) :
    ∃ connection start, connections[index]? = some connection ∧
      start = initial + ((connections.take index).map grantedLen).sum ∧
      start = initial + (((run (BitVec.ofInt 32 initial) connections).take index).map
        Outcome.length).sum ∧
      (reqLen connection ≤ 0 ∧ outcome = .refused ∨
        0 < reqLen connection ∧ outcome =
          .granted (seqNumStr (BitVec.ofInt 32 start)) (reqLen connection)) := by
  rw [run_at] at found
  obtain ⟨connection, there, same⟩ := Option.map_eq_some_iff.mp found
  refine ⟨connection, _, there, rfl, ?_, ?_⟩
  · rw [taken_lengths]
  · rw [serve_cases] at same
    split at same
    · next none_ => exact Or.inl ⟨none_, same.symm⟩
    · next some_ => exact Or.inr ⟨by omega, same.symm⟩

theorem granted_at (index : Nat) (connection : List Read)
    (there : connections[index]? = some connection) (positive : 0 < reqLen connection) :
    (run (BitVec.ofInt 32 initial) connections)[index]? = some (.granted
      (seqNumStr (BitVec.ofInt 32 (initial + ((connections.take index).map grantedLen).sum)))
        (reqLen connection)) := by
  have more : ¬ reqLen connection ≤ 0 := by omega
  rw [run_at, there, Option.map_some, serve_cases, if_neg more]

theorem start_nonneg (nonneg : 0 ≤ initial) (index : Nat) :
    0 ≤ initial + ((connections.take index).map grantedLen).sum := by
  apply Int.add_nonneg nonneg
  apply List.sum_nonneg
  intro length member
  obtain ⟨connection, _, rfl⟩ := List.mem_map.mp member
  exact le_max_left _ _

theorem start_denotes (index : Nat) :
    strtol (seqNumStr (BitVec.ofInt 32 (initial + ((connections.take index).map grantedLen).sum))) =
      (initial + ((connections.take index).map grantedLen).sum).bmod (2 ^ 32) := by
  rw [text_denotes, BitVec.toInt_ofInt]

theorem honoured_fitting
    (honoured : Honoured initial connections (run (BitVec.ofInt 32 initial) connections)) :
    Fitting initial connections := by
  constructor
  · intro connection member length asked
    obtain ⟨index, there⟩ := List.getElem?_of_mem member
    have wants := requested_length connection length asked
    by_contra bad
    obtain ⟨large, positive⟩ := not_or.mp bad
    have granted := granted_at initial connections index connection there (by rw [wants]; omega)
    -- the int is positive, but it is not what was asked for
    rcases honoured.exact index connection _ length there granted asked with
      refused | ⟨text, same⟩
    · cases refused
    · have wrong : reqLen connection = length := (Outcome.granted.inj same).2
      have small : (min (length : Int) (2 ^ 63 - 1)).bmod (2 ^ 32) < 2 ^ 31 :=
        Int.bmod_lt (by decide)
      omega
  · intro index connection there positive
    have told :=
      honoured.denotes index _ _ (granted_at initial connections index connection there positive)
    rw [start_denotes, taken_lengths] at told
    rw [← told]
    exact Int.bmod_lt (by decide)

section Fits
variable (fitting : Fitting initial connections)
include fitting

theorem fitting_denotes (nonneg : 0 ≤ initial) (index : Nat) (text : List UInt8) (length : Int)
    (found : (run (BitVec.ofInt 32 initial) connections)[index]? = some (.granted text length)) :
    strtol text = initial + (((run (BitVec.ofInt 32 initial) connections).take index).map
      Outcome.length).sum ∧
      0 < length := by
  obtain ⟨connection, number, there, same, total, outcome⟩ :=
    outcome_at initial connections index _ found
  rcases outcome with ⟨_, bad⟩ | ⟨positive, granted⟩
  · cases bad
  · cases granted
    have small := fitting.starts index connection there positive
    have least := start_nonneg initial connections nonneg index
    refine ⟨?_, positive⟩
    rw [← total, same, start_denotes]
    apply Int.bmod_eq_of_le <;> omega

/-- A client that asked for a number of slots gets that number or is refused. -/
theorem fitting_exact (index : Nat) (connection : List Read) (outcome : Outcome) (length : Nat)
    (there : connections[index]? = some connection)
    (found : (run (BitVec.ofInt 32 initial) connections)[index]? = some outcome)
    (asked : requested connection = some length) :
    outcome = .refused ∨ ∃ text, outcome = .granted text length := by
  obtain ⟨one, number, here, _, _, result⟩ := outcome_at initial connections index outcome found
  rw [there, Option.some.injEq] at here
  subst here
  rcases result with ⟨_, refused⟩ | ⟨positive, granted⟩
  · exact Or.inl refused
  · have wants := requested_length connection length asked
    rcases fitting.lengths connection (List.mem_of_getElem? there) length asked with small | bad
    · have same : reqLen connection = length := by
        rw [wants, min_eq_left (by omega)]
        apply Int.bmod_eq_of_le <;> omega
      rw [same] at granted
      exact Or.inr ⟨_, granted⟩
    · omega

end Fits

/-- Clients get what the protocol promises exactly when no length is too large for an int
and no range starts beyond it; this includes that the counter does not wrap. -/
theorem clients_are_honoured_iff (nonneg : 0 ≤ initial) :
    Honoured initial connections (run (BitVec.ofInt 32 initial) connections) ↔
      Fitting initial connections := by
  constructor
  · intro honoured
    exact honoured_fitting initial connections honoured
  · intro fitting
    have denotes := fitting_denotes initial connections fitting nonneg
    refine ⟨fitting_exact initial connections fitting, ?_, ?_⟩
    · intro index text length found
      exact (denotes index text length found).1
    · exact Ranges.tiles_disjoint _ _ _ (denoted_tiles _ initial denotes)

end Runs

/-- The bytes of a text, which the client then ends. -/
def sends (text : List UInt8) : List Read := text.map .byte

-- "5" and "007", each with its newline.
theorem small_requests_are_honoured :
    run (BitVec.ofInt 32 100) [sends [53, 10], sends [48, 48, 55, 10]] =
        [.granted [49, 48, 48, 10] 5, .granted [49, 48, 53, 10] 7] ∧
      Honoured 100 [sends [53, 10], sends [48, 48, 55, 10]]
        (run (BitVec.ofInt 32 100) [sends [53, 10], sends [48, 48, 55, 10]]) := by
  refine ⟨by decide, (clients_are_honoured_iff 100 _ (by decide)).mpr ⟨?_, ?_⟩⟩
  · intro connection member length asked
    left
    rcases List.mem_cons.mp member with rfl | other
    · have five : requested (sends [53, 10]) = some 5 := by decide
      rw [five, Option.some.injEq] at asked
      omega
    · rw [List.mem_singleton.mp other] at asked
      have seven : requested (sends [48, 48, 55, 10]) = some 7 := by decide
      rw [seven, Option.some.injEq] at asked
      omega
  · intro index connection there _
    match index, there with
    | 0, _ => decide
    | 1, _ => decide

-- "4294967301" is 2 ^ 32 + 5, of which atoi leaves 5.
theorem large_request_is_cut :
    ¬ ∀ (initial : Int) connections, 0 ≤ initial → initial < 2 ^ 31 →
      initial + ((run (BitVec.ofInt 32 initial) connections).map Outcome.length).sum < 2 ^ 32 →
      Honoured initial connections (run (BitVec.ofInt 32 initial) connections) := by
  intro claim
  have honoured :=
    claim 0 [sends [52, 50, 57, 52, 57, 54, 55, 51, 48, 49, 10]] (by decide) (by decide) (by decide)
  rcases honoured.exact 0 _ (.granted [48, 10] 5) 4294967301 rfl (by decide) (by decide) with
    bad | ⟨text, bad⟩
  · cases bad
  · cases bad

end Tlpi.SequenceServer
