import Mathlib.Data.BitVec
import Mathlib.Data.List.Chain
import Tlpi.CStrings

/-!
files/chiflag.c: the attribute mask of the command line, and the loop that applies it to the
files, each of which has its own flags. A program that ends in `usageError` has no result;
`errExit` ends the loop and leaves the other files as they are.
-/

namespace Tlpi.FileAttributes

open CStrings

abbrev Flags := BitVec 32

def FS_SECRM_FL : Flags := 0x00000001#32
def FS_UNRM_FL : Flags := 0x00000002#32
def FS_COMPR_FL : Flags := 0x00000004#32
def FS_SYNC_FL : Flags := 0x00000008#32
def FS_IMMUTABLE_FL : Flags := 0x00000010#32
def FS_APPEND_FL : Flags := 0x00000020#32
def FS_NODUMP_FL : Flags := 0x00000040#32
def FS_NOATIME_FL : Flags := 0x00000080#32
def FS_JOURNAL_DATA_FL : Flags := 0x00004000#32
def FS_NOTAIL_FL : Flags := 0x00008000#32
def FS_DIRSYNC_FL : Flags := 0x00010000#32
def FS_TOPDIR_FL : Flags := 0x00020000#32

def plus : UInt8 := 43
def minus : UInt8 := 45
def equal : UInt8 := 61

/-- The characters a, A, c, d, D, i, j, s, S, t, T and u. -/
def attribFlag (ch : UInt8) : Option Flags :=
  if ch = 97 then some FS_APPEND_FL
  else if ch = 65 then some FS_NOATIME_FL
  else if ch = 99 then some FS_COMPR_FL
  else if ch = 100 then some FS_NODUMP_FL
  else if ch = 68 then some FS_DIRSYNC_FL
  else if ch = 105 then some FS_IMMUTABLE_FL
  else if ch = 106 then some FS_JOURNAL_DATA_FL
  else if ch = 115 then some FS_SECRM_FL
  else if ch = 83 then some FS_SYNC_FL
  else if ch = 116 then some FS_NOTAIL_FL
  else if ch = 84 then some FS_TOPDIR_FL
  else if ch = 117 then some FS_UNRM_FL
  else none

/-- The loop over the attribute characters. -/
def buildMask (attr : Flags) : Str → Option Flags
  | [] => some attr
  | ch :: p => (attribFlag ch).bind fun flag => buildMask (attr ||| flag) p

inductive Call where
  | getFlags
  | setFlags
  | close
  deriving DecidableEq

/-- `fails` is the call on the open file that fails, if any. -/
structure File where
  opens : Bool
  flags : Flags
  fails : Option Call
  deriving DecidableEq

/-- The value of `attr` after the test of the operator. -/
def combine (op : UInt8) (attr oldAttr : Flags) : Flags :=
  if op = plus ∨ op = minus then (if op = minus then oldAttr &&& ~~~attr else oldAttr ||| attr)
  else attr

def changeLoop (op : UInt8) (attr : Flags) : List File → List File
  | [] => []
  | file :: rest =>
      if file.opens = false then file :: changeLoop op attr rest
      else if (op = plus ∨ op = minus) ∧ file.fails = some .getFlags then file :: rest
      else
        let attr := combine op attr file.flags
        if file.fails = some .setFlags then file :: rest
        else if file.fails = some .close then { file with flags := attr } :: rest
        else { file with flags := attr } :: changeLoop op attr rest

/-- The first argument is `op` followed by `chars`. -/
def main (op : UInt8) (chars : Str) (files : List File) : Option (List File) :=
  if files = [] ∨ ¬ (op = plus ∨ op = minus ∨ op = equal) ∨
    op :: chars = literal "--help" then none
  else (buildMask 0#32 chars).map fun attr => changeLoop op attr files

/-! What should come out. -/

/-- A file's own flags with the mask added, removed or put in their place. -/
def wanted (op : UInt8) (mask old : Flags) : Flags :=
  if op = plus then old ||| mask else if op = minus then old &&& ~~~mask else mask

/-- Every file gets its own flags changed, as far as the run comes. -/
def expected (op : UInt8) (mask : Flags) : List File → List File
  | [] => []
  | file :: rest =>
      if file.opens = false then file :: expected op mask rest
      else if (op = plus ∨ op = minus) ∧ file.fails = some .getFlags then file :: rest
      else if file.fails = some .setFlags then file :: rest
      else if file.fails = some .close then { file with flags := wanted op mask file.flags } :: rest
      else { file with flags := wanted op mask file.flags } :: expected op mask rest

/-- The old flags of the files that a run changes, in order. -/
def changed (op : UInt8) : List File → List Flags
  | [] => []
  | file :: rest =>
      if file.opens = false then changed op rest
      else if (op = plus ∨ op = minus) ∧ file.fails = some .getFlags then []
      else if file.fails = some .setFlags then []
      else if file.fails = some .close then [file.flags]
      else file.flags :: changed op rest

/-- The flags of the file before do no harm: all of them are in the file or the mask, or
none of the file's are in them or in the mask. -/
def Harmless (op : UInt8) (mask before old : Flags) : Prop :=
  (op = plus → before &&& ~~~(old ||| mask) = 0#32) ∧
    (op = minus → old &&& (before ||| mask) = 0#32)

theorem combine_wanted (op : UInt8) (known : op = plus ∨ op = minus ∨ op = equal)
    (mask old : Flags) : combine op mask old = wanted op mask old := by
  rcases known with rfl | rfl | rfl <;> rfl

theorem eq_iff_bits (one other first second : Flags) (each : ∀ index, index < 32 →
    (one.getLsbD index = other.getLsbD index ↔ first.getLsbD index = second.getLsbD index)) :
    one = other ↔ first = second := by
  constructor
  · intro same
    exact BitVec.eq_of_getLsbD_eq fun index inside => (each index inside).mp (by rw [same])
  · intro same
    exact BitVec.eq_of_getLsbD_eq fun index inside => (each index inside).mpr (by rw [same])

theorem or_absorbs (before old mask : Flags) :
    old ||| (before ||| mask) = old ||| mask ↔ before &&& ~~~(old ||| mask) = 0#32 := by
  apply eq_iff_bits
  intro index inside
  simp only [BitVec.getLsbD_or, BitVec.getLsbD_and, BitVec.getLsbD_not, BitVec.getLsbD_zero,
    inside, decide_true, Bool.true_and]
  cases old.getLsbD index <;> cases before.getLsbD index <;> cases mask.getLsbD index <;> decide

theorem and_keeps (before old mask : Flags) :
    old &&& ~~~(before &&& ~~~mask) = old &&& ~~~mask ↔ old &&& (before ||| mask) = 0#32 := by
  apply eq_iff_bits
  intro index inside
  simp only [BitVec.getLsbD_or, BitVec.getLsbD_and, BitVec.getLsbD_not, BitVec.getLsbD_zero,
    inside, decide_true, Bool.true_and]
  cases old.getLsbD index <;> cases before.getLsbD index <;> cases mask.getLsbD index <;> decide

/-- A file comes out right after another one exactly when that one was harmless. -/
theorem combine_after (op : UInt8) (known : op = plus ∨ op = minus ∨ op = equal)
    (mask before old : Flags) :
    combine op (wanted op mask before) old = wanted op mask old ↔
      Harmless op mask before old := by
  have different : plus ≠ minus ∧ minus ≠ plus ∧ equal ≠ plus ∧ equal ≠ minus := by
    decide
  rcases known with rfl | rfl | rfl
  · have bits := or_absorbs before old mask
    exact ⟨fun same => ⟨fun _ => bits.mp same, fun bad => absurd bad different.1⟩,
      fun harmless => bits.mpr (harmless.1 rfl)⟩
  · have bits := and_keeps before old mask
    exact ⟨fun same => ⟨fun bad => absurd bad different.2.1, fun _ => bits.mp same⟩,
      fun harmless => bits.mpr (harmless.2 rfl)⟩
  · exact ⟨fun _ => ⟨fun bad => absurd bad different.2.2.1,
      fun bad => absurd bad different.2.2.2⟩, fun _ => rfl⟩

/-- The run with some value of `attr` agrees as long as each file comes out right. -/
theorem change_loop_expected (op : UInt8) (known : op = plus ∨ op = minus ∨ op = equal)
    (mask attr : Flags) (files : List File) :
    changeLoop op attr files = expected op mask files ↔
      (∀ old ∈ (changed op files).head?, combine op attr old = wanted op mask old) ∧
        (changed op files).IsChain (Harmless op mask) := by
  induction files generalizing attr with
  | nil => simp [changeLoop, expected, changed]
  | cons file rest ih =>
      rw [changeLoop, expected, changed]
      split
      · rw [List.cons.injEq, eq_self_iff_true, true_and]
        exact ih attr
      · split
        · simp
        · dsimp only
          split
          · simp
          · split
            · simp
            · rw [List.cons.injEq, ih, List.isChain_cons]
              simp only [File.mk.injEq, true_and, and_true, List.head?_cons,
                Option.mem_some_iff, forall_eq']
              refine and_congr_right fun same => and_congr_left fun _ => ?_
              rw [same]
              exact forall_congr' fun old => imp_congr_right fun _ =>
                combine_after op known mask file.flags old

/-- Every file's own flags are changed exactly when each file that is changed comes after a
harmless one. -/
theorem own_flags_change_iff (op : UInt8) (known : op = plus ∨ op = minus ∨ op = equal)
    (chars : Str) (mask : Flags) (valid : buildMask 0#32 chars = some mask) (files : List File)
    (some_ : files ≠ []) :
    main op chars files = some (expected op mask files) ↔
      (changed op files).IsChain (Harmless op mask) := by
  have plain : op :: chars ≠ literal "--help" := by
    intro same
    have refused : buildMask 0#32 (literal "--help").tail = none := by decide
    rw [show chars = (literal "--help").tail from congrArg List.tail same, refused] at valid
    cases valid
  have ran : main op chars files = some (changeLoop op mask files) := by
    rw [main, if_neg, valid]
    · rfl
    · rintro (empty | other | help)
      · exact some_ empty
      · exact other known
      · exact plain help
  rw [ran, Option.some.injEq, change_loop_expected op known mask mask files]
  exact and_iff_right fun old _ => combine_wanted op known mask old

-- Each file has the flag of the one before it already.
theorem growing_flags_are_kept :
    main plus (literal "a") [⟨true, FS_SYNC_FL, none⟩, ⟨false, 0#32, none⟩,
      ⟨true, FS_SYNC_FL ||| FS_UNRM_FL, none⟩] =
      some (expected plus FS_APPEND_FL
        [⟨true, FS_SYNC_FL, none⟩, ⟨false, 0#32, none⟩,
          ⟨true, FS_SYNC_FL ||| FS_UNRM_FL, none⟩]) :=
  (own_flags_change_iff plus (Or.inl rfl) (literal "a") FS_APPEND_FL rfl _ (by decide)).mpr
    (.cons_cons ⟨fun _ => rfl, fun bad => absurd bad (by decide)⟩ (.singleton _))

-- The second file gets the immutable flag of the first.
theorem flags_of_other_file :
    ¬ ∀ (op : UInt8) (chars : Str) (mask : Flags) (files : List File),
      (op = plus ∨ op = minus ∨ op = equal) →
      buildMask 0#32 chars = some mask → files ≠ [] →
        main op chars files = some (expected op mask files) := by
  intro claimed
  have bad := claimed plus (literal "a") FS_APPEND_FL [⟨true, FS_IMMUTABLE_FL, none⟩,
    ⟨true, 0#32, none⟩] (Or.inl rfl) rfl (by decide)
  revert bad
  decide

end Tlpi.FileAttributes
