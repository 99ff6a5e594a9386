import Mathlib.Data.List.Basic
import Mathlib.Data.List.Perm.Basic
import Tlpi.CStrings
import Tlpi.DecimalText
import Tlpi.TreeMirror
import Tlpi.TreeRace

/-!
inotify_dtree.c, the commands with which a user looks into the cache: `executeCommand` with its
reading of the line, `checkCacheConsistency` and `dumpCacheToLog`. The source says that the list
written by `w` can be compared with what "find DIR -type d" prints.
-/

namespace Tlpi.TreeCommands

open CStrings (Str literal)
open DecimalText PathName WatchCache TreeMonitor FileTree SettledTree TreeMirror

def MAX_LINE : Nat := 100

def VB_BASIC : BitVec 32 := 1#32
def VB_NOISY : BitVec 32 := 2#32

/-- A call of `logMessage`. -/
structure Message where
  vb_mask : BitVec 32
  text : Str
  deriving DecidableEq

structure Options where
  verboseMask : BitVec 32
  dumpCache : Bool
  checkCache : Bool
  deriving DecidableEq

/-- What of the messages goes to stderr. -/
def shown (options : Options) (messages : List Message) : Str :=
  (messages.filter fun message => message.vb_mask = 0 ∨
    message.vb_mask &&& options.verboseMask ≠ 0).flatMap Message.text

/-- `lstat`: the text of the error, or whether the file is a directory. -/
abbrev Lstat := Path → Except Str Bool

/-- What a check has found up to some slot. -/
structure Findings where
  cnt : Nat
  failures : Nat
  messages : List Message
  deriving DecidableEq

/-- The texts in which the two checks differ: for a name that cannot be found, for one that is no
directory, and for a directory. -/
structure Texts where
  missing : Nat → Slot → Str → List Message
  other : Slot → List Message
  fine : Nat → Slot → List Message

/-- The loop of both checks from slot `j` on; a name that is no directory ends the program. -/
def check (texts : Texts) (lstat : Lstat) :
    Nat → Cache → Findings → Except (List Message) Findings
  | _, [], found => .ok found
  | j, slot :: rest, found =>
      if 0 ≤ slot.wd then
        match lstat slot.path with
        | .error reason =>
            check texts lstat (j + 1) rest
              { found with
                failures := found.failures + 1,
                messages := found.messages ++ texts.missing j slot reason }
        | .ok false => .error (found.messages ++ texts.other slot)
        | .ok true =>
            check texts lstat (j + 1) rest
              { found with cnt := found.cnt + 1, messages := found.messages ++ texts.fine j slot }
      else check texts lstat (j + 1) rest found

/-- `[slot = %d; wd = %d] %s` -/
def located (j : Nat) (slot : Slot) : Str :=
  literal "[slot = " ++ decimal j ++ literal "; wd = " ++ printed slot.wd ++
    literal "] " ++ slot.path

def checkTexts : Texts where
  missing j slot reason :=
    [⟨0, literal "checkCacheConsistency: stat: " ++ located j slot ++ literal ": " ++
      reason ++ literal "\n"⟩]
  other slot :=
    [⟨0, literal "checkCacheConsistency: " ++ slot.path ++ literal " is not a directory\n"⟩]
  fine _ _ := []

def checkCacheConsistency (lstat : Lstat) (cache : Cache) : Except (List Message) (List Message) :=
  match check checkTexts lstat 0 cache ⟨0, 0, []⟩ with
  | .error messages => .error messages
  | .ok found =>
      .ok (found.messages ++
        if found.failures > 0 then
          [⟨VB_NOISY, literal "checkCacheConsistency: " ++ decimal found.failures ++
            literal " failures\n"⟩]
        else [])

/-- Only `c` tells about each slot. -/
def verifyTexts (loud : Bool) : Texts where
  missing j slot reason :=
    if loud then
      [⟨VB_BASIC,
        literal "stat: " ++ located j slot ++ literal ": " ++ reason ++ literal "\n"⟩]
    else []
  other slot := if loud then [⟨0, slot.path ++ literal " is not a directory\n"⟩] else []
  fine j slot :=
    if loud then [⟨VB_NOISY, literal "OK: " ++ located j slot ++ literal "\n"⟩] else []

def verify (lstat : Lstat) (cache : Cache) (loud : Bool) : Except (List Message) Findings :=
  match check (verifyTexts loud) lstat 0 cache ⟨0, 0, []⟩ with
  | .error messages => .error messages
  | .ok found =>
      .ok { found with
        messages := found.messages ++
          [⟨0, literal "Successfully verified " ++ decimal found.cnt ++ literal " entries\n"⟩,
            ⟨0, literal "Failures: " ++ decimal found.failures ++ literal "\n"⟩] }

/-- The used slots with their numbers. -/
def usedSlots (cache : Cache) : List (Slot × Nat) :=
  cache.zipIdx.filter fun entry => 0 ≤ entry.1.wd

def list (cache : Cache) : List Message :=
  (usedSlots cache).map (fun entry =>
    ⟨0, decimal entry.2 ++ literal ": " ++ printed entry.1.wd ++ literal " " ++ entry.1.path ++
      literal "\n"⟩) ++
    [⟨VB_BASIC, literal "Total entries: " ++ decimal (usedSlots cache).length ++ literal "\n"⟩]

def dumpCacheToLog (cache : Cache) : Str :=
  (usedSlots cache).flatMap (fun entry =>
    decimal entry.2 ++ literal ": wd = " ++ printed entry.1.wd ++ literal "; " ++ entry.1.path ++
      literal "\n") ++
    literal "Total entries: " ++ decimal (usedSlots cache).length ++ literal "\n"

/-- The pathnames that `w` writes, one in a line. -/
def written (cache : Cache) : List Path := (cache.filter fun slot => 0 ≤ slot.wd).map Slot.path

/-! Reading the command. -/

structure Scanned where
  cmd : UInt8
  arg : Option Str
  deriving DecidableEq

/-- `sscanf` with `%c %s`, of the line without its last byte and up to a null byte; an empty line
is no command. -/
def scanLine (line : Str) : Option Scanned :=
  match line.dropLast.takeWhile (· ≠ 0) with
  | [] => none
  | cmd :: rest =>
      match (rest.dropWhile isspace).takeWhile fun ch => !isspace ch with
      | [] => some ⟨cmd, none⟩
      | arg => some ⟨cmd, some arg⟩

/-- What becomes of the program. `change` is a command that works on the cache, `unset` one that
uses an argument that was not given, and `noFile` one that goes on with the null pointer of a
failed `fopen`. -/
inductive Result where
  | exit (success : Bool) (messages : List Message) (stdout : Str)
  | go (options : Options) (messages : List Message) (stdout : Str) (file : Option (Path × Str))
  | change (command : TreeRace.Command)
  | unset
  | noFile (stderr : Str)
  deriving DecidableEq

def toggled (on : Bool) : Str := if on then literal "on\n" else literal "off\n"

/-- The command `v`. -/
def setVerbose (options : Options) (arg : Option Str) : Result :=
  match arg with
  | some arg => .go { options with verboseMask := BitVec.ofInt 32 (atoi arg) } [] [] none
  | none =>
      let verboseMask := if options.verboseMask = 0 then 1 else 0
      .go { options with verboseMask := verboseMask } [] (toggled (verboseMask ≠ 0)) none

def withArg (arg : Option Str) (run : Path → Result) : Result :=
  match arg with
  | none => .unset
  | some arg => run arg

def help (cmd : UInt8) : Str :=
  literal "Unrecognized command: " ++ [cmd] ++ literal "\nCommands:\n0        Rebuild cache\n" ++
    literal "a path   Add/refresh pathname watches and cache\nc        Verify cached pathnames\n" ++
    literal "d        Toggle cache dumping\nl        List cached pathnames\nq        Quit\n" ++
    literal
      "v [n]    Toggle/set verbose level for messages to stderr\n             0 = no messages\n" ++
    literal "             1 = basic messages\n             2 = verbose messages\n" ++
    literal
      "             3 = basic and verbose messages\nw file   Write directory list to file\n" ++
    literal "x        Toggle cache checking\nz path   Zap pathname and watches from cache\n"

/-- The command `w`. `fopen` is the error with which the file cannot be opened. -/
def writeList (options : Options) (fopen : Path → Option Str) (cache : Cache)
    (arg : Path) : Result :=
  match fopen arg with
  | some reason => .noFile (literal "fopen: " ++ reason ++ literal "\n")
  | none => .go options [] [] (some (arg, (written cache).flatMap fun path => path ++ literal "\n"))

def executeCommand (options : Options) (lstat : Lstat) (fopen : Path → Option Str) (cache : Cache)
    (input : Str) : Result :=
  if input = [] then .exit false [] (literal "bye!\n")
  else
    match scanLine (input.take MAX_LINE) with
    | none => .go options [] [] none
    | some ⟨cmd, arg⟩ =>
        if cmd = 97 then withArg arg fun arg => .change (.add arg)
        else if cmd = 99 ∨ cmd = 67 then
          match verify lstat cache (cmd = 99) with
          | .error messages => .exit false messages []
          | .ok found => .go options found.messages [] none
        else if cmd = 108 then .go options (list cache) [] none
        else if cmd = 113 then .exit true [] []
        else if cmd = 118 then setVerbose options arg
        else if cmd = 100 then .go { options with dumpCache := !options.dumpCache } []
          (toggled (!options.dumpCache)) none
        else if cmd = 120 then .go { options with checkCache := !options.checkCache } []
          (toggled (!options.checkCache)) none
        else if cmd = 119 then withArg arg (writeList options fopen cache)
        else if cmd = 122 then withArg arg fun arg => .change (.zap arg)
        else if cmd = 48 then .change .rebuild
        else .go options [] (help cmd) none

/-! What the checks find in any cache. -/

theorem written_entries (cache : Cache) : written cache = (entries cache).map Prod.snd := by
  unfold written entries
  induction cache with
  | nil => rfl
  | cons slot rest ih =>
      by_cases valid : 0 ≤ slot.wd
      · simp [used, valid, ih]
      · simp [used, valid, ih]

theorem written_cons (slot : Slot) (rest : Cache) (valid : 0 ≤ slot.wd) :
    written (slot :: rest) = slot.path :: written rest := by
  simp [written, valid]

theorem written_skip (slot : Slot) (rest : Cache) (empty : ¬ 0 ≤ slot.wd) :
    written (slot :: rest) = written rest := by
  simp [written, empty]

/-- `lstat` fails for a name, or finds a directory. -/
def missing (lstat : Lstat) (path : Path) : Bool :=
  match lstat path with
  | .error _ => true
  | .ok _ => false

def directory (lstat : Lstat) (path : Path) : Bool :=
  match lstat path with
  | .error _ => false
  | .ok isDir => isDir

section Check
variable (texts : Texts) (lstat : Lstat)

/-- A check counts the directories and the names that are gone. -/
theorem check_counts (j : Nat) (cache : Cache) (found : Findings)
    (none : ∀ path ∈ written cache, missing lstat path = true ∨ directory lstat path = true) :
    ∃ messages, check texts lstat j cache found =
      .ok ⟨found.cnt + (written cache).countP (directory lstat),
        found.failures + (written cache).countP (missing lstat), messages⟩ := by
  induction cache generalizing j found with
  | nil => exact ⟨found.messages, rfl⟩
  | cons slot rest ih =>
      unfold check
      by_cases valid : 0 ≤ slot.wd
      · rw [written_cons slot rest valid] at none ⊢
        have later (found : Findings) :=
          ih (j + 1) found fun path member => none path (List.mem_cons_of_mem _ member)
        rw [if_pos valid]
        have here := none slot.path List.mem_cons_self
        cases answer : lstat slot.path with
        | error reason =>
            have gone : missing lstat slot.path = true ∧ ¬ directory lstat slot.path = true := by
              simp [missing, directory, answer]
            obtain ⟨messages, counted⟩ := later
              { found with
                failures := found.failures + 1,
                messages := found.messages ++ texts.missing j slot reason }
            refine ⟨messages, counted.trans ?_⟩
            rw [List.countP_cons_of_pos gone.1, List.countP_cons_of_neg gone.2]
            simp only [Nat.add_assoc, Nat.add_comm 1]
        | ok isDir =>
            obtain rfl : isDir = true := by simpa [missing, directory, answer] using here
            have kind : directory lstat slot.path = true ∧ ¬ missing lstat slot.path = true := by
              simp [missing, directory, answer]
            obtain ⟨messages, counted⟩ := later
              { found with cnt := found.cnt + 1, messages := found.messages ++ texts.fine j slot }
            refine ⟨messages, counted.trans ?_⟩
            rw [List.countP_cons_of_pos kind.1, List.countP_cons_of_neg kind.2]
            simp only [Nat.add_assoc, Nat.add_comm 1]
      · rw [written_skip slot rest valid] at none ⊢
        rw [if_neg valid]
        exact ih (j + 1) found none

/-- A name that is neither ends the program. -/
theorem check_exits (j : Nat) (cache : Cache) (found : Findings) (path : Path)
    (member : path ∈ written cache) (other : lstat path = .ok false) :
    ∃ messages, check texts lstat j cache found = .error messages := by
  induction cache generalizing j found with
  | nil => cases member
  | cons slot rest ih =>
      unfold check
      by_cases valid : 0 ≤ slot.wd
      · rw [written_cons slot rest valid] at member
        rw [if_pos valid]
        rcases List.mem_cons.mp member with rfl | later
        · rw [other]
          exact ⟨_, rfl⟩
        · cases lstat slot.path with
          | error reason => exact ih _ _ later
          | ok isDir =>
              cases isDir with
              | false => exact ⟨_, rfl⟩
              | true => exact ih _ _ later
      · rw [written_skip slot rest valid] at member
        rw [if_neg valid]
        exact ih (j + 1) found member

/-- Where all names are those of directories, a check tells of no other. -/
theorem check_fine (silent : ∀ j slot, texts.fine j slot = []) (j : Nat) (cache : Cache)
    (found : Findings) (all : ∀ path ∈ written cache, lstat path = .ok true) :
    check texts lstat j cache found =
      .ok { found with cnt := found.cnt + (written cache).length } := by
  induction cache generalizing j found with
  | nil => rfl
  | cons slot rest ih =>
      unfold check
      by_cases valid : 0 ≤ slot.wd
      · rw [written_cons slot rest valid] at all ⊢
        rw [if_pos valid, all slot.path List.mem_cons_self]
        dsimp only
        rw [ih _ _ fun path member => all path (List.mem_cons_of_mem _ member), silent,
          List.append_nil, List.length_cons, Nat.add_assoc, Nat.add_comm 1]
      · rw [written_skip slot rest valid] at all ⊢
        rw [if_neg valid]
        exact ih (j + 1) found all

end Check

/-! The tree as its user sees it. -/

/-- `lstat` on the files of a system; `reason` is the text of the error. -/
def lstatOf (reason : Path → Str) (sys : System) : Lstat := fun path =>
  match lookup sys.files path with
  | none => .error (reason path)
  | some file => .ok file.isDir

/-- What "find DIR -type d" prints for the roots. -/
def find (world : World System) : List Path :=
  (world.state.files.filter fun file => file.isDir && world.roots.any fun root =>
    root.any (covers slash · file.path)).map
      File.path

theorem monitored_iff (roots : RootDirPaths) (path : Path) :
    (roots.any fun root => root.any (covers slash · path)) = true ↔ Monitored roots path := by
  rw [List.any_eq_true]
  constructor
  · rintro ⟨root, member, found⟩
    obtain ⟨name, rfl, below⟩ := (Option.any_eq_true _ _).mp found
    exact ⟨name, member, (covers_iff slash name path).mp below⟩
  · rintro ⟨name, member, below⟩
    exact ⟨some name, member, (covers_iff slash name path).mpr below⟩

theorem mem_find (world : World System) (path : Path) :
    path ∈ find world ↔ ∃ file ∈ world.state.files,
      file.isDir = true ∧ Monitored world.roots file.path ∧ file.path = path := by
  simp only [find, List.mem_map, List.mem_filter, Bool.and_eq_true, monitored_iff]
  constructor
  · rintro ⟨file, ⟨member, isDir, monitored⟩, same⟩
    exact ⟨file, member, isDir, monitored, same⟩
  · rintro ⟨file, member, isDir, monitored, same⟩
    exact ⟨file, ⟨member, isDir, monitored⟩, same⟩

section Settled
variable (world : World System) (settled : Settled world) (reason : Path → Str)
include settled

theorem written_find : (written world.cache).Perm (find world) := by
  have mirrors := settled.mirrors
  have once : (find world).Nodup :=
    settled.sane.files.paths.sublist (List.filter_sublist.map File.path)
  rw [written_entries, List.perm_ext_iff_of_nodup mirrors.pathnames once]
  intro path
  rw [mem_find]
  constructor
  · intro member
    obtain ⟨⟨wd, _⟩, cached, rfl⟩ := List.mem_map.mp member
    obtain ⟨file, inside, isDir, monitored, same, _⟩ := (mirrors.slots wd _).mp cached
    exact ⟨file, inside, isDir, monitored, same⟩
  · rintro ⟨file, inside, isDir, monitored, rfl⟩
    obtain ⟨wd, cached⟩ := mirrors.every file inside isDir monitored
    exact List.mem_map_of_mem cached

theorem written_directories (path : Path) (member : path ∈ written world.cache) :
    lstatOf reason world.state path = .ok true := by
  obtain ⟨file, inside, isDir, _, same⟩ :=
    (mem_find world path).mp ((written_find world settled).mem_iff.mp member)
  have hit := lookup_mem world.state.files settled.sane.files.paths file inside
  rw [same] at hit
  rw [lstatOf, hit]
  exact congrArg Except.ok isDir

theorem verify_settled (loud : Bool) :
    ∃ messages, verify (lstatOf reason world.state) world.cache loud =
    .ok ⟨(find world).length, 0, messages ++
      [⟨0, literal "Successfully verified " ++ decimal (find world).length ++
        literal " entries\n"⟩, ⟨0,
        literal "Failures: " ++ decimal 0 ++ literal "\n"⟩]⟩ := by
  have all := written_directories world settled reason
  have kinds : ∀ path ∈ written world.cache,
    directory (lstatOf reason world.state) path = true ∧
      ¬ missing (lstatOf reason world.state) path = true := by
    intro path member
    simp [missing, directory, all path member]
  obtain ⟨messages, counted⟩ :=
    check_counts (verifyTexts loud) (lstatOf reason world.state) 0 world.cache ⟨0, 0, []⟩
      fun path member => Or.inr (kinds path member).1
  rw [List.countP_eq_length.mpr fun path member => (kinds path member).1,
    List.countP_eq_zero.mpr fun path member => (kinds path member).2,
    (written_find world settled).length_eq, Nat.zero_add] at counted
  exact ⟨messages, by rw [verify, counted]⟩

theorem consistency_settled :
    checkCacheConsistency (lstatOf reason world.state) world.cache = .ok [] := by
  have fine :=
    check_fine checkTexts (lstatOf reason world.state) (fun _ _ => rfl) 0 world.cache ⟨0, 0, []⟩
      (written_directories world settled reason)
  rw [checkCacheConsistency, fine]
  rfl

end Settled

/-- A name that fits into the line, without blanks. -/
structure Plain (name : Path) : Prop where
  some_ : name ≠ []
  short : name.length + 3 ≤ MAX_LINE
  solid : ∀ ch ∈ name, isspace ch = false ∧ ch ≠ 0

theorem scan_word (cmd : UInt8) (real : cmd ≠ 0) (name : Path) (plain : Plain name) :
    scanLine ((cmd :: 32 :: name ++ [10]).take MAX_LINE) = some ⟨cmd, some name⟩ := by
  have whole : (cmd :: 32 :: name ++ [10]).take MAX_LINE = (cmd :: 32 :: name) ++ [10] := by
    refine List.take_of_length_le ?_
    have short := plain.short
    simp only [List.cons_append, List.length_cons, List.length_append, List.length_nil]
    omega
  have line : (cmd :: 32 :: name).takeWhile (· ≠ 0) = cmd :: 32 :: name := by
    rw [List.takeWhile_eq_self_iff]
    intro ch member
    rcases List.mem_cons.mp member with rfl | later
    · exact decide_eq_true real
    · rcases List.mem_cons.mp later with rfl | inside
      · decide
      · exact decide_eq_true (plain.solid ch inside).2
  obtain ⟨first, others, rfl⟩ := List.exists_cons_of_ne_nil plain.some_
  have skipped : (32 :: first :: others).dropWhile isspace = first :: others := by
    rw [List.dropWhile_cons_of_pos (by decide), List.dropWhile_cons_of_neg]
    rw [(plain.solid first List.mem_cons_self).1]
    exact Bool.false_ne_true
  have word : (first :: others).takeWhile (fun ch => !isspace ch) = first :: others := by
    rw [List.takeWhile_eq_self_iff]
    intro ch member
    rw [(plain.solid ch member).1]
    rfl
  rw [scanLine, whole, List.dropLast_concat, line]
  dsimp only
  rw [skipped, word]

theorem careful_settled (nftw : System → Path → List Path) (visits : Visits nftw)
    (roots : List Path) (sys : System) (startable : Startable roots sys) :
    ∃ first, start nftw roots sys = some first ∧
      ∀ world, Transition.Reachable (· = first) (Transition.restrict careful
        (turn nftw)) world → Settled world := by
  obtain ⟨first, started, fine, apart⟩ := start_matches nftw visits roots sys startable
  refine ⟨first, started, fun world reached => ?_⟩
  obtain ⟨⟨settled, _, _, _⟩, _⟩ : Orderly world := by
    refine Transition.reachable_invariant ?_ (careful_orderly nftw visits) reached
    rintro world rfl
    exact ⟨fine, apart⟩
  exact settled

/-- Messages without a mask are always shown. -/
theorem shown_append (options : Options) (messages : List Message) (one two : Str) :
    shown options (messages ++ [⟨0, one⟩, ⟨0, two⟩]) =
      shown options messages ++ one ++ two := by
  simp [shown, List.filter_append]

/-- After every careful change, `w` writes what "find DIR -type d" would print to a file that can be
opened, `c` verifies as many entries without a failure and says so, and the check of `-x` has
nothing to tell. On any cache, `c` ends the program exactly at a name that is not a directory, and
otherwise counts right. -/
theorem commands_show_the_tree (nftw : System → Path → List Path) (visits : Visits nftw)
    (roots : List Path) (sys : System) (startable : Startable roots sys) :
    (∃ first, start nftw roots sys = some first ∧
      ∀ world, Transition.Reachable (· = first) (Transition.restrict careful
        (turn nftw)) world →
        ∀ (reason : Path → Str) (fopen : Path → Option Str) (options : Options),
          (∀ name, Plain name → fopen name = none → ∃ lines : List Path,
            lines.Perm (find world) ∧
            executeCommand options (lstatOf reason world.state) fopen world.cache
              (119 :: 32 :: name ++ [10]) =
              .go options [] [] (some (name, lines.flatMap fun path => path ++ literal "\n"))) ∧
          (∀ cmd, cmd = 99 ∨ cmd = 67 → ∃ messages before,
            executeCommand options (lstatOf reason world.state) fopen world.cache [cmd, 10] =
              .go options messages [] none ∧
            shown options messages = before ++
              (literal "Successfully verified " ++ decimal (find world).length ++
                literal " entries\n") ++
              (literal "Failures: " ++ decimal 0 ++ literal "\n")) ∧
          checkCacheConsistency (lstatOf reason world.state) world.cache = .ok []) ∧
      ∀ (lstat : Lstat) (cache : Cache) (loud : Bool),
        ((∃ path ∈ written cache, lstat path = .ok false) → ∃ messages,
          verify lstat cache loud = .error messages) ∧
          ((∀ path ∈ written cache, missing lstat path = true ∨
            directory lstat path = true) →
            ∃ messages, verify lstat cache loud = .ok
              ⟨(written cache).countP (directory lstat), (written cache).countP (missing lstat),
                messages⟩) := by
  constructor
  · obtain ⟨first, started, always⟩ := careful_settled nftw visits roots sys startable
    refine ⟨first, started, fun world reached reason fopen options => ?_⟩
    have settled := always world reached
    refine ⟨fun name plain opened => ⟨written world.cache, written_find world settled, ?_⟩,
      fun cmd either => ?_, consistency_settled world settled reason⟩
    · have wrote : writeList options fopen world.cache name =
          .go options [] [] (some (name, (written world.cache).flatMap fun path =>
            path ++ literal "\n")) := by
        rw [writeList, opened]
      rw [executeCommand, if_neg (by simp), scan_word 119 (by decide) name plain]
      exact wrote
    · obtain ⟨messages, verified⟩ := verify_settled world settled reason (cmd = 99)
      refine ⟨_, _, ?_, shown_append options messages _ _⟩
      have scanned : scanLine ([cmd, 10].take MAX_LINE) = some ⟨cmd, none⟩ := by
        rcases either with rfl | rfl <;> decide
      rw [executeCommand, if_neg (List.cons_ne_nil _ _), scanned]
      dsimp only
      rw [if_neg (by rcases either with rfl | rfl <;> decide), if_pos either, verified]
  · intro lstat cache loud
    refine ⟨?_, fun none => ?_⟩
    · rintro ⟨path, member, other⟩
      obtain ⟨messages, ended⟩ :=
        check_exits (verifyTexts loud) lstat 0 cache ⟨0, 0, []⟩ path member other
      exact ⟨messages, by rw [verify, ended]⟩
    · obtain ⟨messages, counted⟩ :=
        check_counts (verifyTexts loud) lstat 0 cache ⟨0, 0, []⟩ none
      rw [Nat.zero_add, Nat.zero_add] at counted
      exact ⟨_, by rw [verify, counted]⟩

/-- `C` right after the start with two roots. -/
theorem started_trees_are_verified :
    ∃ first, start walk [[98], [97, 47, 114]] sample = some first ∧ ∃ messages before,
      executeCommand ⟨0, false, false⟩ (lstatOf (fun _ => []) first.state)
        (fun _ => none) first.cache [67, 10] =
        .go ⟨0, false, false⟩ messages [] none ∧
      shown ⟨0, false, false⟩ messages =
        before ++ literal "Successfully verified 2 entries\n" ++ literal "Failures: 0\n" := by
  obtain ⟨⟨first, started, shown⟩, _⟩ :=
    commands_show_the_tree walk walk_visits _ sample sample_startable
  obtain ⟨_, verified, _⟩ :=
    shown first (.start rfl) (fun _ => []) (fun _ => none) ⟨0, false, false⟩
  obtain ⟨messages, before, went, told⟩ := verified 67 (Or.inr rfl)
  have two : (start walk [[98], [97, 47, 114]] sample).map (fun first => (find first).length) =
      some 2 := by
    decide +kernel
  rw [started, Option.map_some, Option.some.injEq] at two
  rw [two] at told
  exact ⟨first, started, messages, before, went, told⟩

/-! The listings of `l` and of `-d`. -/

theorem used_slots_cache (cache : Cache) :
    (usedSlots cache).map Prod.fst = cache.filter fun slot => 0 ≤ slot.wd := by
  have parts := List.filter_map (f := Prod.fst) (p := fun slot : Slot => decide (0 ≤ slot.wd))
      (l := cache.zipIdx)
  rw [List.zipIdx_map_fst] at parts
  exact parts.symm

theorem used_slots_written (cache : Cache) :
    (usedSlots cache).map (fun entry => entry.1.path) = written cache := by
  rw [written, ← used_slots_cache, List.map_map]
  rfl

theorem used_slots_ordered (cache : Cache) :
    ((usedSlots cache).map Prod.snd).Pairwise (· < ·) := by
  have numbers : (cache.zipIdx.map Prod.snd).Pairwise (· < ·) := by
    rw [List.zipIdx_map_snd]
    exact List.pairwise_lt_range'
  exact numbers.sublist (List.filter_sublist.map Prod.snd)

theorem mem_used_slots (cache : Cache) (slot : Slot) (j : Nat) :
    (slot, j) ∈ usedSlots cache ↔ cache[j]? = some slot ∧ 0 ≤ slot.wd := by
  rw [usedSlots, List.mem_filter, List.mem_zipIdx_iff_getElem?]
  exact and_congr_right fun _ => decide_eq_true_iff

/-- The slot names a monitored directory and the watch on it. -/
def Shows (world : World System) (slot : Slot) : Prop :=
  ∃ file ∈ world.state.files, file.isDir = true ∧ Monitored world.roots file.path ∧
    file.path = slot.path ∧
    ∃ watch ∈ world.state.watches, watch.ino = file.ino ∧ watch.wd = slot.wd

theorem used_slots_show (world : World System) (settled : Settled world) (slot : Slot) (j : Nat)
    (member : (slot, j) ∈ usedSlots world.cache) : Shows world slot := by
  obtain ⟨there, valid⟩ := (mem_used_slots world.cache slot j).mp member
  refine (settled.mirrors.slots slot.wd slot.path).mp (List.mem_filterMap.mpr ⟨slot,
    List.mem_of_getElem? there, ?_⟩)
  rw [used, if_pos valid]

/-- After every careful change, `l` and the log of `-d` list the monitored directories, each
once, by the number of its slot and with the descriptor of its watch. -/
theorem listings_show_the_watches (nftw : System → Path → List Path) (visits : Visits nftw)
    (roots : List Path) (sys : System) (startable : Startable roots sys) :
    ∃ first, start nftw roots sys = some first ∧
      ∀ world, Transition.Reachable (· = first) (Transition.restrict careful
        (turn nftw)) world →
        ∃ rows : List (Slot × Nat), (rows.map Prod.snd).Pairwise (· < ·) ∧
          (rows.map fun row => row.1.path).Perm (find world) ∧
          (∀ row ∈ rows, world.cache[row.2]? = some row.1 ∧ Shows world row.1) ∧
          (∀ (lstat : Lstat) (fopen : Path → Option Str) (options : Options),
            executeCommand options lstat fopen world.cache [108, 10] =
              .go options (rows.map (fun row =>
                ⟨0, decimal row.2 ++ literal ": " ++ printed row.1.wd ++ literal " " ++
                  row.1.path ++ literal "\n"⟩) ++
              [⟨VB_BASIC, literal "Total entries: " ++ decimal (find world).length ++
                literal "\n"⟩]) [] none) ∧
          dumpCacheToLog world.cache = rows.flatMap (fun row =>
              decimal row.2 ++ literal ": wd = " ++ printed row.1.wd ++ literal "; " ++
                row.1.path ++ literal "\n") ++
            literal "Total entries: " ++ decimal (find world).length ++ literal "\n" := by
  obtain ⟨first, started, always⟩ := careful_settled nftw visits roots sys startable
  refine ⟨first, started, fun world reached => ?_⟩
  have settled := always world reached
  have named : ((usedSlots world.cache).map fun row => row.1.path).Perm (find world) := by
    rw [used_slots_written]
    exact written_find world settled
  have total : (usedSlots world.cache).length = (find world).length := by
    rw [← named.length_eq, List.length_map]
  refine ⟨usedSlots world.cache, used_slots_ordered world.cache, named, fun row member => ?_,
    fun lstat fopen options => ?_, ?_⟩
  · exact ⟨((mem_used_slots world.cache row.1 row.2).mp member).1,
      used_slots_show world settled row.1 row.2 member⟩
  · rw [← total]
    have scanned : scanLine ([108, 10].take MAX_LINE) = some ⟨108, none⟩ := by decide
    rw [executeCommand, if_neg (List.cons_ne_nil _ _), scanned]
    rfl
  · rw [← total]
    rfl

/-- The log of `-d` right after the start with two roots. -/
theorem two_watches_are_listed :
    ∃ first, start walk [[98], [97, 47, 114]] sample = some first ∧
      ∃ rows : List (Slot × Nat), rows.length = 2 ∧
      ∀ row ∈ rows, Shows first row.1 := by
  obtain ⟨first, started, shown⟩ :=
    listings_show_the_watches walk walk_visits _ sample sample_startable
  obtain ⟨rows, _, named, watched, _⟩ := shown first (.start rfl)
  have two : (start walk [[98], [97, 47, 114]] sample).map (fun first => (find first).length) =
      some 2 := by
    decide +kernel
  rw [started, Option.map_some, Option.some.injEq, ← named.length_eq, List.length_map] at two
  exact ⟨first, started, rows, two, fun row member => (watched row member).2⟩

end Tlpi.TreeCommands
