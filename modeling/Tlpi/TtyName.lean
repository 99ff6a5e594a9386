import Mathlib.Data.List.Basic
import Tlpi.CStrings
import Tlpi.Transition

/-!
tty/ttyname.c: the pathname of a terminal, built in a buffer that is kept from call to call. The
static variables of `ttynameCheckDir` are the fields of `Process`, together with a record of
what `snprintf` was given. A `Call` holds the answers of the system calls made for one `ttyname`.
-/

namespace Tlpi.TtyName

open CStrings

structure Stat where
  ischr : Bool
  st_rdev : Nat
  deriving DecidableEq

/-- An entry that `readdir` returns, with the answers to the `realloc` and the `stat` made for
it. -/
structure Entry where
  d_name : Str
  realloc : Bool
  stat : Str → Option Stat

structure Directory where
  malloc : Bool
  opendir : Bool
  entries : List Entry

structure Call where
  isatty : Bool
  fstat : Option Stat
  pts : Directory
  dev : Directory

structure Block where
  size : Nat
  text : Str
  deriving DecidableEq

/-- The block and the size of a call of `snprintf`. -/
structure Write where
  block : Option Nat
  size : Int
  deriving DecidableEq

structure Process where
  ttyPath : Option Block
  ttyLen : Int
  writes : List Write
  deriving DecidableEq

def start : Process := ⟨none, 0, []⟩

inductive Result where
  | null
  | name (text : Str)
  | crashed
  deriving DecidableEq

def pathname (devDir d_name : Str) : Str := devDir ++ literal "/" ++ d_name

/-- A sum of lengths, stored in an int. -/
def requiredLen (devDir d_name : Str) : Int :=
  (Int32.ofNat (devDir.length + 1 + d_name.length + 1)).toInt

/-- The second component tells that memory has run out. -/
def resize (requiredLen : Int) (realloc : Bool) (process : Process) : Process × Bool :=
  if requiredLen > process.ttyLen then
    if realloc then
      ({ process with
          ttyPath := some ⟨requiredLen.toNat, process.ttyPath.elim [] Block.text⟩
          ttyLen := requiredLen }, false)
    else ({ process with ttyPath := none }, true)
  else (process, false)

def snprintf (text : Str) (process : Process) : Process :=
  { process with
    ttyPath := process.ttyPath.map fun block =>
      { block with text := text.take (process.ttyLen.toNat - 1) }
    writes := process.writes ++ [⟨process.ttyPath.map Block.size, process.ttyLen⟩] }

inductive Turn where
  | next
  | leave (result : Result)
  deriving DecidableEq

/-- One turn of the `while` loop. Writing to a null pointer ends the process. -/
def checkEntry (fdStat : Stat) (devDir : Str) (dent : Entry) (process : Process) :
    Turn × Process :=
  let (process, broke) := resize (requiredLen devDir dent.d_name) dent.realloc process
  if broke then (.leave .null, process)
  else
    let process := snprintf (pathname devDir dent.d_name) process
    match process.ttyPath with
    | none => (.leave .crashed, process)
    | some ttyPath =>
        match dent.stat ttyPath.text with
        | none => (.next, process)
        | some devStat =>
            if devStat.ischr ∧ fdStat.st_rdev = devStat.st_rdev then
              (.leave (.name ttyPath.text), process)
            else (.next, process)

def readEntries (turn : Entry → Process → Turn × Process) :
    List Entry → Process → Result × Process
  | [], process => (.null, process)
  | dent :: rest, process =>
      match turn dent process with
      | (.next, process) => readEntries turn rest process
      | (.leave result, process) => (result, process)

def ttynameCheckDir (fdStat : Stat) (devDir : Str) (dir : Directory) (process : Process) :
    Result × Process :=
  if process.ttyLen = 0 ∧ dir.malloc = false then (.null, { process with ttyPath := none })
  else
    let process :=
      if process.ttyLen = 0 then { process with ttyPath := some ⟨50, []⟩, ttyLen := 50 }
      else process
    if dir.opendir then readEntries (checkEntry fdStat devDir) dir.entries process
    else (.null, process)

def ttyname (call : Call) (process : Process) : Result × Process :=
  if call.isatty then
    match call.fstat with
    | none => (.null, process)
    | some fdStat =>
        if fdStat.ischr then
          match ttynameCheckDir fdStat (literal "/dev/pts") call.pts process with
          | (.null, process) => ttynameCheckDir fdStat (literal "/dev") call.dev process
          | other => other
        else (.null, process)
  else (.null, process)

/-! Runs: one call after the other, until the process crashes. -/

structure Session where
  process : Process
  returned : List (Call × Result)

def step (call : Call) (session : Session) : Option Session :=
  if session.returned.any fun earlier => earlier.2 = .crashed then none
  else
    let (result, process) := ttyname call session.process
    some ⟨process, (call, result) :: session.returned⟩

def Initial (session : Session) : Prop := session = ⟨start, []⟩

def Call.directories (call : Call) : List (Str × Directory) :=
  [(literal "/dev/pts", call.pts), (literal "/dev", call.dev)]

def Write.Safe (write : Write) : Prop :=
  ∃ size : Nat, write.block = some size ∧ write.size ≤ size

/-- The name is complete, and that of an entry with the device number of the descriptor. -/
def Names (fdStat : Stat) (devDir : Str) (entries : List Entry) (text : Str) : Prop :=
  ∃ entry ∈ entries, text = pathname devDir entry.d_name ∧
    ∃ devStat, entry.stat text = some devStat ∧ devStat.ischr = true ∧
      fdStat.st_rdev = devStat.st_rdev

def Call.Names (call : Call) (text : Str) : Prop :=
  ∃ fdStat, call.fstat = some fdStat ∧
    ∃ place ∈ call.directories, TtyName.Names fdStat place.1 place.2.entries text

structure Consistent (session : Session) : Prop where
  writes : ∀ write ∈ session.process.writes, write.Safe
  names : ∀ call text, (call, Result.name text) ∈ session.returned → call.Names text

/-- The length of an entry is an int, and memory is found if it is too long for the buffer. -/
def provided (ttyLen : Int) (devDir : Str) (entry : Entry) : Bool :=
  let total := devDir.length + 1 + entry.d_name.length + 1
  total < 2147483648 && (total ≤ 50 || total ≤ ttyLen || entry.realloc)

/-- The entries are provided for at the time of the call. -/
def unhindered (call : Call) (session : Session) : Bool :=
  call.directories.all fun place => place.2.entries.all (provided session.process.ttyLen place.1)

/-- The length and the pointer belong together. -/
def Held (process : Process) : Prop :=
  50 ≤ process.ttyLen ∧ ∃ block, process.ttyPath = some block ∧ process.ttyLen = block.size

structure Sound (process : Process) : Prop where
  buffer : process.ttyLen = 0 ∨ Held process
  writes : ∀ write ∈ process.writes, write.Safe

theorem required_len (devDir d_name : Str)
    (small : devDir.length + 1 + d_name.length + 1 < 2147483648) :
    requiredLen devDir d_name = (devDir.length + 1 + d_name.length + 1 : Nat) := by
  exact Int32.toInt_ofNat_of_lt small

theorem length_pathname (devDir d_name : Str) :
    (pathname devDir d_name).length = devDir.length + 1 + d_name.length := by
  simp only [pathname, List.length_append]
  rfl

theorem provided_entry (len : Int) (devDir : Str) (entry : Entry)
    (given : provided len devDir entry = true) :
    devDir.length + 1 + entry.d_name.length + 1 < 2147483648 ∧
      (((devDir.length + 1 + entry.d_name.length + 1 : Nat) ≤ 50 ∨
        (devDir.length + 1 + entry.d_name.length + 1 : Nat) ≤ len) ∨ entry.realloc = true) := by
  simpa [provided] using given

theorem resize_held (required : Int) (realloc : Bool) (process : Process) (held : Held process)
    (memory : required ≤ process.ttyLen ∨ realloc = true) :
    ∃ ttyPath ttyLen, resize required realloc process =
      (⟨ttyPath, ttyLen, process.writes⟩, false) ∧
      Held ⟨ttyPath, ttyLen, process.writes⟩ ∧ process.ttyLen ≤ ttyLen ∧
        required ≤ ttyLen := by
  by_cases short : required > process.ttyLen
  · have found := memory.resolve_left (Int.not_le.mpr short)
    have positive := held.1
    refine ⟨some ⟨required.toNat, process.ttyPath.elim [] Block.text⟩, required,
      ?_, ⟨?_, _, rfl, ?_⟩, Int.le_of_lt short, Int.le_refl _⟩
    · rw [resize, if_pos short, if_pos found]
    · show 50 ≤ required
      omega
    · show required = (required.toNat : Int)
      omega
  · refine ⟨process.ttyPath, process.ttyLen, ?_, held, Int.le_refl _, Int.not_lt.mp short⟩
    rw [resize, if_neg short]

/-- A held buffer that is long enough takes the whole text. -/
theorem snprintf_held (text : Str) (process : Process) (held : Held process)
    (fits : text.length + 1 ≤ process.ttyLen) :
    ∃ size : Nat, process.ttyLen = size ∧
      snprintf text process = ⟨some ⟨size, text⟩, size,
        process.writes ++ [⟨some size, size⟩]⟩ := by
  obtain ⟨_, block, there, same⟩ := held
  refine ⟨block.size, same, ?_⟩
  rw [snprintf, there, List.take_of_length_le (by omega), same]
  rfl

/-- What a search leaves behind: the buffer, and a name that `names` describes. -/
structure Fine (names : Str → Prop) (process : Process) (outcome : Result × Process) : Prop where
  sound : Sound outcome.2
  grown : process.ttyLen ≤ outcome.2.ttyLen
  alive : outcome.1 ≠ .crashed
  named : ∀ text, outcome.1 = .name text → names text

theorem fine_null (names : Str → Prop) (before after : Process) (sound : Sound after)
    (grown : before.ttyLen ≤ after.ttyLen) : Fine names before (.null, after) :=
  ⟨sound, grown, by simp, by simp⟩

theorem fine_trans (names more : Str → Prop) (before middle : Process)
    (outcome : Result × Process) (grown : before.ttyLen ≤ middle.ttyLen)
    (weaker : ∀ text, names text → more text) (fine : Fine names middle outcome) :
    Fine more before outcome :=
  ⟨fine.sound, Int.le_trans grown fine.grown, fine.alive,
    fun text same => weaker text (fine.named text same)⟩

/-- The pathname of an entry that is provided for is written in full. -/
theorem entry_written (devDir : Str) (dent : Entry) (process : Process) (len : Int)
    (held : Held process) (long : len ≤ process.ttyLen)
    (given : provided len devDir dent = true) :
    ∃ (size : Nat) (resized : Process), process.ttyLen ≤ size ∧
      resize (requiredLen devDir dent.d_name) dent.realloc process = (resized, false) ∧
      snprintf (pathname devDir dent.d_name) resized =
        ⟨some ⟨size, pathname devDir dent.d_name⟩, size,
          process.writes ++ [⟨some size, size⟩]⟩ := by
  obtain ⟨small, memory⟩ := provided_entry len devDir dent given
  have positive := held.1
  rw [required_len _ _ small]
  generalize total : devDir.length + 1 + dent.d_name.length + 1 = required at small memory
  obtain ⟨ttyPath, ttyLen, resized, kept, more, fits⟩ :=
    resize_held required dent.realloc process held
      (memory.imp_left fun within => by omega)
  have room : ((pathname devDir dent.d_name).length : Int) + 1 ≤ ttyLen := by
    rw [length_pathname]
    omega
  obtain ⟨size, same, printed⟩ := snprintf_held (pathname devDir dent.d_name) _ kept room
  exact ⟨size, _, Int.le_trans more (Int.le_of_eq same), resized, printed⟩

/-- It is then compared; the loop goes on or returns it. -/
theorem check_entry (fdStat : Stat) (devDir : Str) (dent : Entry) (process : Process) (len : Int)
    (held : Held process) (long : len ≤ process.ttyLen)
    (given : provided len devDir dent = true) :
    ∃ (turn : Turn) (size : Nat), process.ttyLen ≤ size ∧
      checkEntry fdStat devDir dent process = (turn,
        ⟨some ⟨size, pathname devDir dent.d_name⟩, size,
          process.writes ++ [⟨some size, size⟩]⟩) ∧
      (turn = .next ∨ ∃ text, turn = .leave (.name text) ∧
        Names fdStat devDir [dent] text) := by
  obtain ⟨size, resized, grown, same, printed⟩ :=
    entry_written devDir dent process len held long given
  unfold checkEntry
  simp only [same, printed, Bool.false_eq_true, if_false]
  cases answer : dent.stat (pathname devDir dent.d_name) with
  | none => exact ⟨.next, size, grown, rfl, .inl rfl⟩
  | some devStat =>
      dsimp only
      split
      · next agree =>
          exact ⟨_, size, grown, rfl,
            .inr ⟨_, rfl, dent, List.mem_cons_self, rfl, devStat, answer, agree⟩⟩
      · exact ⟨.next, size, grown, rfl, .inl rfl⟩

theorem names_among (fdStat : Stat) (devDir : Str) (few many : List Entry)
    (among : ∀ entry ∈ few, entry ∈ many) (text : Str)
    (named : Names fdStat devDir few text) : Names fdStat devDir many text := by
  obtain ⟨entry, member, described⟩ := named
  exact ⟨entry, among entry member, described⟩

theorem read_entries (fdStat : Stat) (devDir : Str) (entries : List Entry)
    (process : Process) (len : Int) (held : Held process)
    (writes : ∀ write ∈ process.writes, write.Safe) (long : len ≤ process.ttyLen)
    (given : entries.all (provided len devDir) = true) :
    Fine (Names fdStat devDir entries) process
      (readEntries (checkEntry fdStat devDir) entries process) := by
  induction entries generalizing process with
  | nil => exact fine_null _ _ _ ⟨.inr held, writes⟩ (Int.le_refl _)
  | cons dent rest ih =>
      rw [List.all_cons, Bool.and_eq_true] at given
      obtain ⟨turn, size, grown, checked, kind⟩ :=
        check_entry fdStat devDir dent process len held long given.1
      have least := held.1
      have held' : Held ⟨some ⟨size, pathname devDir dent.d_name⟩, size,
          process.writes ++ [⟨some size, size⟩]⟩ :=
        ⟨Int.le_trans least grown, _, rfl, rfl⟩
      have writes' : ∀ write ∈ process.writes ++ [⟨some size, size⟩], write.Safe := by
        intro write member
        rcases List.mem_append.mp member with old | new
        · exact writes write old
        · rw [List.mem_singleton.mp new]
          exact ⟨size, rfl, Int.le_refl _⟩
      rcases kind with rfl | ⟨text, rfl, named⟩
      · simp only [readEntries, checked]
        exact fine_trans _ _ process _ _ grown
          (names_among fdStat devDir rest _ fun entry member => List.mem_cons_of_mem dent member)
          (ih _ held' writes' (Int.le_trans long grown) given.2)
      · simp only [readEntries, checked]
        refine ⟨⟨.inr held', writes'⟩, grown, by simp, ?_⟩
        rintro _ ⟨⟩
        exact names_among fdStat devDir [dent] _ (by simp) text named

theorem check_dir (fdStat : Stat) (devDir : Str) (dir : Directory) (process : Process) (len : Int)
    (sound : Sound process) (long : len ≤ process.ttyLen)
    (given : dir.entries.all (provided len devDir) = true) :
    Fine (Names fdStat devDir dir.entries) process (ttynameCheckDir fdStat devDir dir process) := by
  unfold ttynameCheckDir
  split
  · next failed => exact fine_null _ _ _ ⟨.inl failed.1, sound.writes⟩ (Int.le_refl _)
  · -- the buffer with which the directory is opened
    have ready : ∃ opened : Process, (if process.ttyLen = 0 then
          { process with ttyPath := some ⟨50, []⟩, ttyLen := 50 } else process) = opened ∧
        Held opened ∧ (∀ write ∈ opened.writes, write.Safe) ∧
          process.ttyLen ≤ opened.ttyLen := by
      split
      · next first =>
          refine ⟨_, rfl, ⟨Int.le_refl _, _, rfl, rfl⟩, sound.writes, ?_⟩
          rw [first]
          exact (show (0 : Int) ≤ 50 by decide)
      · next later =>
          exact ⟨_, rfl, sound.buffer.resolve_left later, sound.writes, Int.le_refl _⟩
    obtain ⟨opened, same, held, writes, grown⟩ := ready
    simp only [same]
    split
    · exact fine_trans _ _ _ _ _ grown (fun _ named => named)
        (read_entries fdStat devDir dir.entries opened len held writes
          (Int.le_trans long grown) given)
    · exact fine_null _ _ _ ⟨.inr held, writes⟩ grown

theorem tty_name (call : Call) (process : Process) (sound : Sound process)
    (given : ∀ place ∈ call.directories,
      place.2.entries.all (provided process.ttyLen place.1) = true) :
    Fine call.Names process (ttyname call process) := by
  have nothing : Fine call.Names process (.null, process) := fine_null _ _ _ sound (Int.le_refl _)
  have pts : (literal "/dev/pts", call.pts) ∈ call.directories := List.mem_cons_self
  have dev : (literal "/dev", call.dev) ∈ call.directories :=
    List.mem_cons_of_mem _ List.mem_cons_self
  unfold ttyname
  split
  · split
    · exact nothing
    · next fdStat known =>
        split
        · have first := check_dir fdStat (literal "/dev/pts") call.pts process process.ttyLen sound
            (Int.le_refl _) (given _ pts)
          split
          · next middle ended =>
              rw [ended] at first
              have second := check_dir fdStat (literal "/dev") call.dev middle process.ttyLen
                first.sound first.grown (given _ dev)
              exact fine_trans _ _ _ _ _ first.grown (fun text named =>
                ⟨fdStat, known, _, dev, named⟩) second
          · exact fine_trans _ _ _ _ _ (Int.le_refl _) (fun text named =>
              ⟨fdStat, known, _, pts, named⟩) first
        · exact nothing
  · exact nothing

def Kept (session : Session) : Prop := Sound session.process ∧ Consistent session

theorem step_kept (call : Call) (before after : Session) (kept : Kept before)
    (taken : Transition.restrict unhindered step call before = some after) : Kept after := by
  obtain ⟨given, taken⟩ := Transition.restrict_some taken
  have fine :=
    tty_name call before.process kept.1 fun place member => List.all_eq_true.mp given place member
  unfold step at taken
  split at taken
  · cases taken
  · cases taken
    refine ⟨fine.sound, fine.sound.writes, ?_⟩
    intro other text member
    rcases List.mem_cons.mp member with here | earlier
    · obtain ⟨rfl, same⟩ := Prod.mk.inj here
      exact fine.named text same.symm
    · exact kept.2.names other text earlier

/-- Sessions in which memory is found for every entry that is too long for the buffer. -/
theorem buffer_stays_consistent (session : Session)
    (reached : Transition.Reachable Initial (Transition.restrict unhindered step) session) :
    Consistent session := by
  have kept : Kept session := by
    refine Transition.reachable_invariant ?_ step_kept reached
    rintro _ rfl
    exact ⟨⟨.inl rfl, by simp [start]⟩, by simp [start], by simp⟩
  exact kept.2

-- The first entry needs 70 bytes and gets them; the second one is the terminal.
theorem found_behind_a_long_name :
    let long : Entry := ⟨List.replicate 60 120, true, fun _ => none⟩
    let terminal : Entry := ⟨literal "0", false, fun _ => some ⟨true, 34816⟩⟩
    let call : Call :=
      ⟨true, some ⟨true, 34816⟩, ⟨true, true, [long, terminal]⟩, ⟨true, true, []⟩⟩
    Consistent ⟨⟨some ⟨70, literal "/dev/pts/0"⟩, 70,
      [⟨some 70, 70⟩, ⟨some 70, 70⟩]⟩, [(call, .name (literal "/dev/pts/0"))]⟩ := by
  intro long terminal call
  exact buffer_stays_consistent _ (.next call (.start rfl) rfl)

/-- A buffer that a failed `realloc` has lost is written to by the next entry that would have
fitted. -/
theorem lost_buffer_is_written (fdStat : Stat) (devDir : Str) (dent : Entry) (rest : List Entry)
    (process : Process) (lost : process.ttyPath = none)
    (fits : requiredLen devDir dent.d_name ≤ process.ttyLen) :
    (readEntries (checkEntry fdStat devDir) (dent :: rest) process).1 = .crashed ∧
      ⟨none, process.ttyLen⟩ ∈ (readEntries (checkEntry fdStat devDir)
        (dent :: rest) process).2.writes := by
  have same : resize (requiredLen devDir dent.d_name) dent.realloc process = (process, false) := by
    rw [resize, if_neg (Int.not_lt.mpr fits)]
  have checked : checkEntry fdStat devDir dent process =
      (.leave .crashed, snprintf (pathname devDir dent.d_name) process) := by
    unfold checkEntry
    simp [same, snprintf, lost]
  simp only [readEntries, checked]
  simp [snprintf, lost]

-- An entry of /dev is too long and memory is short; the next call finds /dev/pts/0.
theorem null_pointer_is_written :
    ¬ ∀ session, Transition.Reachable Initial step session → Consistent session := by
  intro claimed
  let long : Entry := ⟨List.replicate 60 120, false, fun _ => none⟩
  let terminal : Entry := ⟨literal "0", true, fun _ => some ⟨true, 34816⟩⟩
  let first : Call :=
    ⟨true, some ⟨true, 34816⟩, ⟨true, true, []⟩, ⟨true, true, [long]⟩⟩
  let second : Call :=
    ⟨true, some ⟨true, 34816⟩, ⟨true, true, [terminal]⟩, ⟨true, true, []⟩⟩
  have lost : Transition.Reachable Initial step ⟨⟨none, 50, []⟩, [(first, .null)]⟩ :=
    .next first (.start rfl) rfl
  have crashed : Transition.Reachable Initial step
      ⟨⟨none, 50, [⟨none, 50⟩]⟩, [(second, .crashed), (first, .null)]⟩ :=
    .next second lost rfl
  obtain ⟨size, bad, _⟩ := (claimed _ crashed).writes ⟨none, 50⟩ (by simp)
  cases bad

end Tlpi.TtyName
