import Mathlib.Data.List.Basic
import Mathlib.Data.List.Infix
import Tlpi.CStrings
import Tlpi.DecimalText
import Tlpi.FileTree
import Tlpi.Indexed
import Tlpi.Transition

/-!
inotify/rand_dtree.c: processes that create, delete and rename directories at random in the tree
that the monitor watches. Their calls interleave. The tree changes while `nftw` walks it, so a
list of directories may be out of date; its first entry is the root, if that is there, and the
others lie below it. Random numbers and failures of calls are choices.
-/

namespace Tlpi.RandomTrees

open CStrings DecimalText PathName WatchCache FileTree

def DLIM : Nat := 60
def MARKER_STRING : Path := literal "--"
def REN : Path := literal "__ren"
def underscore : UInt8 := 95

/-- `strstr(path, MARKER_STRING) != NULL`. -/
def marked (path : Path) : Bool := MARKER_STRING <:+: path

/-- A name that is cut off where `pattern` occurs first. -/
def upTo (pattern : Path) : Path → Path
  | [] => []
  | first :: rest => if pattern <+: first :: rest then [] else first :: upTo pattern rest

/-- `"%ld%s%s_%d"` with the kind of the directory. -/
def ownName (pid : Nat) (kind : Path) (opcnt : Nat) : Path :=
  decimal (pid % 100) ++ MARKER_STRING ++ kind ++ literal "_" ++ decimal opcnt

/-- `"%s__ren%04d-%ld"`. -/
def renamedName (tfile : Path) (opcnt pid : Nat) : Path :=
  tfile ++ REN ++ zeroPadded 4 opcnt ++ literal "-" ++ decimal pid

inductive Command where
  | create
  | delete
  | rename
  | other
  deriving DecidableEq

/-- The next call of a process, or its next random decision. -/
inductive Place where
  | list
  | mkdir (path : Path)
  | more (path : Path) (scnt : Nat)
  | mkdirBelow (spath : Path) (scnt : Nat)
  | rmdir (path : Path)
  | rename (to_move target : Path)
  | next
  | exited
  | crashed
  deriving DecidableEq

structure Process where
  command : Command
  pid : Nat
  maxops : Int
  opcnt : Nat
  place : Place
  deriving DecidableEq

structure State where
  system : System
  processes : List Process
  deriving DecidableEq

/-- `others` is what `nftw` meets below the root. The numbers are random and `keep` says that one
was zero; `fails` stands for the reasons that are not modelled. -/
inductive Answer where
  | list (others : List Path) (first second : Nat) (keep : Bool)
  | call (fails : Bool)
  | more (go : Bool)
  | next (stop : Bool)
  deriving DecidableEq

def create (process : Process) (dirList : List Path) (first : Nat) (keep : Bool) : Place :=
  match dirList[first % dirList.length]? with
  | none => .crashed
  | some dir =>
      let path := fullPath dir (ownName process.pid (literal "cr") process.opcnt)
      if path.length > DLIM then .list
      else if path.count slash > 1 ∧ keep = false then .list
      else .mkdir path

/-- The test of the loop that removes a directory and its parents. -/
def delete (path : Path) : Place := if marked path then .rmdir path else .next

def move (process : Process) (dirList : List Path) (first second : Nat) : Place :=
  match dirList[first % dirList.length]?, dirList[second % dirList.length]? with
  | some to_move, some dir =>
      if marked to_move then
        match split slash to_move with
        | none => .crashed
        | some (_, p) =>
            let target := fullPath dir (renamedName (upTo REN (clip p)) process.opcnt process.pid)
            if target.length > DLIM then .next else .rename to_move target
      else .next
  | _, _ => .crashed

/-- After `getDirList`; `.list` is a `continue`. With no directory, `create` divides by zero. -/
def choose (process : Process) (dirList : List Path) (first second : Nat) (keep : Bool) : Place :=
  match process.command with
  | .create => create process dirList first keep
  | .delete =>
      match dirList[first % dirList.length]? with
      | none => .list
      | some dir => delete (clip dir)
  | .rename => if dirList.length < 3 then .list else move process dirList first second
  | .other => .next

def getDirList (root : Path) (sys : System) (others : List Path) : List Path :=
  if isDirectory sys.files root then root :: others else []

/-- A call changes the tree or fails and leaves it. -/
def attempt (fails : Bool) (op : Op) (sys : System) : Option System :=
  if fails then none else (effect sys op).map happen

def stepProcess (root : Path) (answer : Answer) (sys : System) (process : Process) :
    Option (System × Place × Nat) :=
  match process.place, answer with
  | .list, .list others first second keep =>
      if ∀ path ∈ others, covers slash root path = true then
        some (sys, choose process (getDirList root sys others) first second keep, process.opcnt)
      else none
  | .mkdir path, .call fails =>
      some ((attempt fails (.create path true) sys).getD sys, .more path 1, process.opcnt)
  | .more path scnt, .more go =>
      if go then
        let spath :=
          fullPath path (ownName process.pid (literal "scr" ++ decimal scnt) process.opcnt)
        some (sys, if spath.length > DLIM then .next else .mkdirBelow spath scnt, process.opcnt)
      else some (sys, .next, process.opcnt)
  | .mkdirBelow spath scnt, .call fails =>
      some ((attempt fails (.create spath true) sys).getD sys, .more (clip spath) (scnt + 1),
        process.opcnt)
  | .rmdir path, .call fails =>
      match attempt fails (.remove path true) sys with
      | none => some (sys, .next, process.opcnt)
      | some after =>
          match split slash path with
          | none => some (after, .next, process.opcnt)
          | some (dir, _) => some (after, delete dir, process.opcnt)
  | .rename to_move target, .call fails =>
      some ((attempt fails (.rename to_move target) sys).getD sys, .next, process.opcnt)
  | .next, .next stop =>
      let opcnt := process.opcnt + 1
      some (sys, if (0 < process.maxops ∧ process.maxops ≤ opcnt) ∨ stop = true then .exited
        else .list, opcnt)
  | _, _ => none

def step (root : Path) (choice : Nat × Answer) (state : State) : Option State :=
  match state.processes[choice.1]? with
  | none => none
  | some process =>
      (stepProcess root choice.2 state.system process).map fun result =>
        { system := result.1
          processes := state.processes.set choice.1
            { process with place := result.2.1, opcnt := result.2.2 } }

/-- The commands, the process IDs and the numbers of operations that are asked for. -/
def start (sys : System) (processes : List (Command × Nat × Int)) : State :=
  ⟨sys, processes.map fun given => ⟨given.1, given.2.1, given.2.2, 0, .list⟩⟩

/-! Names with the marker before their first underscore, which stays there when they are changed. -/

structure OwnName (name : Path) : Prop where
  simple : slash ∉ name
  short : name.length ≤ DLIM
  early : MARKER_STRING <:+: name.takeWhile (· ≠ underscore)

def Own (path : Path) : Prop := ∃ dir name, path = join slash dir name ∧ OwnName name

theorem own_marked (path : Path) (own : Own path) : marked path = true := by
  obtain ⟨dir, name, rfl, ownName⟩ := own
  refine decide_eq_true (ownName.early.trans ((List.takeWhile_prefix _).isInfix.trans ?_))
  exact ⟨dir ++ [slash], [], by simp [join]⟩

theorem up_to_early (rest name : Path) :
    (upTo (underscore :: rest) name).takeWhile (· ≠ underscore) =
    name.takeWhile (· ≠ underscore) := by
  induction name with
  | nil => rfl
  | cons first others ih =>
      rw [upTo]
      by_cases stop : first = underscore
      · split
        · rw [stop, List.takeWhile_cons_of_neg (by simp), List.takeWhile_nil]
        · rw [stop, List.takeWhile_cons_of_neg (by simp), List.takeWhile_cons_of_neg (by simp)]
      · have going : ¬ underscore :: rest <+: first :: others := by
          intro bad
          exact stop (List.cons_prefix_cons.mp bad).1.symm
        rw [if_neg going, List.takeWhile_cons_of_pos (by simpa using stop),
          List.takeWhile_cons_of_pos (by simpa using stop), ih]

theorem up_to_front (pattern name : Path) : upTo pattern name <+: name := by
  induction name with
  | nil => exact List.prefix_refl _
  | cons first others ih =>
      rw [upTo]
      split
      · exact List.nil_prefix
      · exact List.cons_prefix_cons.mpr ⟨rfl, ih⟩

theorem digit_apart (ch : UInt8) (digit : isdigit ch = true) :
    ch ≠ slash ∧ ch ≠ underscore := by
  unfold isdigit at digit
  constructor
  · rintro rfl
    exact absurd digit (by decide)
  · rintro rfl
    exact absurd digit (by decide)

theorem decimal_apart (number : Nat) : slash ∉ decimal number ∧ underscore ∉ decimal number :=
  ⟨fun bad => (digit_apart slash (decimal_digits number slash bad)).1 rfl,
    fun bad => (digit_apart underscore (decimal_digits number underscore bad)).2 rfl⟩

/-- Up to the first underscore the name is the text before it. -/
theorem early_part (front rest : Path) (plain : underscore ∉ front) :
    (front ++ underscore :: rest).takeWhile (· ≠ underscore) = front :=
  takeWhile_part underscore front _ plain fun _ head => (Option.some.inj head).symm

theorem made_name (pid opcnt : Nat) (kind : Path) (plain : underscore ∉ kind)
    (simple : slash ∉ kind) (short : (ownName pid kind opcnt).length ≤ DLIM) :
    OwnName (ownName pid kind opcnt) := by
  obtain ⟨first, firstPlain⟩ := decimal_apart (pid % 100)
  obtain ⟨second, _⟩ := decimal_apart opcnt
  refine ⟨?_, short, ?_⟩
  · simp only [ownName, List.mem_append, not_or]
    exact ⟨⟨⟨⟨first, by decide⟩, simple⟩, by decide⟩, second⟩
  · have front : underscore ∉ decimal (pid % 100) ++ MARKER_STRING ++ kind := by
      simp only [List.mem_append, not_or]
      exact ⟨⟨firstPlain, by decide⟩, plain⟩
    have whole : ownName pid kind opcnt =
        decimal (pid % 100) ++ MARKER_STRING ++ kind ++ underscore :: decimal opcnt := by
      rw [ownName, List.append_assoc _ (literal "_")]
      rfl
    rw [whole, early_part _ _ front]
    exact ⟨decimal (pid % 100), kind, rfl⟩

theorem zero_padded_apart (width number : Nat) : slash ∉ zeroPadded width number := by
  unfold zeroPadded
  dsimp only
  rw [if_neg (by omega), List.mem_append, not_or]
  refine ⟨fun bad => ?_, (decimal_apart _).1⟩
  exact absurd (List.mem_replicate.mp bad).2 (by decide)

theorem renamed_name (name : Path) (opcnt pid : Nat) (own : OwnName name)
    (short : (renamedName (upTo REN (clip name)) opcnt pid).length ≤ DLIM) :
    OwnName (renamedName (upTo REN (clip name)) opcnt pid) := by
  have clipped : clip name = name := List.take_of_length_le (Nat.le_trans own.short (by decide))
  rw [clipped] at short ⊢
  refine ⟨?_, short, ?_⟩
  · simp only [renamedName, List.mem_append, not_or]
    refine ⟨⟨⟨⟨fun bad => own.simple ((up_to_front _ _).subset bad), by decide⟩,
      zero_padded_apart 4 opcnt⟩, by decide⟩, (decimal_apart pid).1⟩
  · have early := own.early
    rw [← up_to_early [95, 114, 101, 110] name] at early
    refine early.trans (List.IsPrefix.isInfix ?_)
    have whole : renamedName (upTo REN name) opcnt pid = upTo REN name ++
        (REN ++ zeroPadded 4 opcnt ++ literal "-" ++ decimal pid) := by
      simp only [renamedName, List.append_assoc]
    rw [whole, List.takeWhile_append]
    split
    · exact (List.takeWhile_prefix _).trans (List.prefix_append _ _)
    · exact List.prefix_refl _

/-! What the calls leave of the tree. -/

structure Kept (initial sys : System) : Prop where
  same : ∀ path, marked path = false → lookup sys.files path = lookup initial.files path
  own : ∀ file ∈ sys.files, marked file.path = true → Own file.path ∧ file.isDir = true

theorem happen_files (effect : Effect) (vanished : Option Nat)
    (gone : effect.vanished = vanished.toList) : (happen effect).files = effect.system.files := by
  rw [happen_posts effect vanished gone]
  obtain ⟨extra, posted, _⟩ := post_all_cases
    (effect.notices.flatMap (noticed effect.system.watches) ++
      vanished.toList.flatMap (parting effect.system.watches effect.cause))
    { effect.system with
      watches := effect.system.watches.filter fun watch => some watch.ino != vanished }
  rw [posted]

theorem marked_ne (path other : Path) (one : marked path = true) (two : marked other = false) :
    path ≠ other := by
  rintro rfl
  rw [one] at two
  cases two

theorem marked_below (path other : Path) (above : marked path = true)
    (below : covers slash path other = true) : marked other = true := by
  refine decide_eq_true ((of_decide_eq_true above).trans ?_)
  rcases (covers_iff slash path other).mp below with rfl | ⟨rest, rfl⟩
  · exact List.infix_refl _
  · exact (List.prefix_append _ _).isInfix

theorem created_files (sys : System) (path : Path) (change : Effect)
    (made : effect sys (.create path true) = some change) :
    (happen change).files = sys.files ++ [⟨path, sys.nextIno, true⟩] := by
  rw [effect, FileTree.create, Option.ite_none_right_eq_some, Option.some.injEq] at made
  obtain ⟨_, rfl⟩ := made
  exact happen_files _ none rfl

theorem removed_files (sys : System) (path : Path) (change : Effect)
    (made : effect sys (.remove path true) = some change) :
    (happen change).files = sys.files.filter (·.path != path) := by
  rw [effect, FileTree.remove] at made
  split at made
  · cases made
  · next file _ =>
      rw [Option.ite_none_right_eq_some, Option.some.injEq] at made
      obtain ⟨_, rfl⟩ := made
      exact happen_files _ (some file.ino) rfl

theorem renamed_files (sys : System) (old new : Path) (change : Effect)
    (made : effect sys (.rename old new) = some change) :
    (∃ file, lookup sys.files old = some file) ∧
      (happen change).files = (sys.files.filter (·.path != new)).map (moveFile old new) := by
  rw [effect, FileTree.rename] at made
  split at made
  · cases made
  · next file there =>
      rw [Option.ite_none_right_eq_some, Option.some.injEq] at made
      obtain ⟨_, rfl⟩ := made
      exact ⟨⟨file, there⟩, happen_files _ ((lookup sys.files new).map File.ino) rfl⟩

theorem lookup_filter (files : List File) (path other : Path) (different : path ≠ other) :
    lookup (files.filter (·.path != path)) other = lookup files other := by
  unfold lookup
  rw [List.find?_filter]
  refine congrArg files.find? (funext fun file => ?_)
  cases here : file.path == other with
  | false => simp
  | true =>
      have same := beq_iff_eq.mp here
      simp [same, Ne.symm different]

theorem moved_lookup (files : List File) (old new path : Path) (source : marked old = true)
    (goal : marked new = true) (plain : marked path = false) :
    lookup (files.map (moveFile old new)) path = lookup files path := by
  have outside (file : File) (hit : file.path = path) : moveFile old new file = file := by
    unfold moveFile
    rw [if_neg]
    intro below
    rw [hit] at below
    rw [marked_below old path source below] at plain
    cases plain
  have landed (file : File) (hit : (moveFile old new file).path = path) : file.path = path := by
    unfold moveFile at hit
    split at hit
    · next below =>
        have inside : covers slash new (reroot old new file.path) = true :=
          (covers_iff slash _ _).mpr (reroot_below slash old new file.path
            ((covers_iff slash _ _).mp below))
        rw [← hit, marked_below new _ goal inside] at plain
        cases plain
    · exact hit
  unfold lookup
  rw [List.find?_map]
  have same : files.find? ((fun file => file.path == path) ∘ moveFile old new) =
      files.find? fun file => file.path == path := by
    refine congrArg files.find? (funext fun file => ?_)
    rw [Function.comp_apply, Bool.eq_iff_iff, beq_iff_eq, beq_iff_eq]
    exact ⟨landed file, fun hit => by rw [outside file hit]; exact hit⟩
  rw [same]
  cases found : files.find? fun file => file.path == path with
  | none => rfl
  | some file =>
      have hit : file.path = path := by simpa using List.find?_some found
      rw [Option.map_some, outside file hit]

/-- A directory keeps its name when one above it is renamed. -/
theorem own_moved (old new path : Path) (own : Own path) (below : covers slash old path = true)
    (lower : path ≠ old) : Own (reroot old new path) := by
  obtain ⟨dir, name, rfl, ownName⟩ := own
  rcases below_join_cases slash old dir name ownName.simple ((covers_iff slash _ _).mp below) with
    bad | inside
  · exact absurd bad.symm lower
  · exact ⟨reroot old new dir, name, (reroot_join slash old new dir name inside), ownName⟩

section Calls
variable (initial sys : System) (kept : Kept initial sys) (change : Effect)
include kept

theorem created_kept (path : Path) (own : Own path)
    (made : effect sys (.create path true) = some change) : Kept initial (happen change) := by
  have named := own_marked path own
  have files := created_files sys path change made
  constructor
  · intro other plain
    have missing : [(⟨path, sys.nextIno, true⟩ : File)].find? (·.path == other) = none := by
      simp [marked_ne path other named plain]
    rw [files, lookup, List.find?_append, missing, Option.or_none]
    exact kept.same other plain
  · intro file member
    rw [files] at member
    rcases List.mem_append.mp member with earlier | single
    · exact kept.own file earlier
    · rw [List.mem_singleton.mp single]
      exact fun _ => ⟨own, rfl⟩

theorem removed_kept (path : Path) (named : marked path = true)
    (made : effect sys (.remove path true) = some change) : Kept initial (happen change) := by
  have files := removed_files sys path change made
  constructor
  · intro other plain
    rw [files, lookup_filter sys.files path other (marked_ne path other named plain)]
    exact kept.same other plain
  · intro other member
    rw [files] at member
    exact kept.own other (List.mem_of_mem_filter member)

theorem renamed_kept (old new : Path) (named : marked old = true) (renames : Own old → Own new)
    (made : effect sys (.rename old new) = some change) : Kept initial (happen change) := by
  obtain ⟨⟨file, there⟩, files⟩ := renamed_files sys old new change made
  obtain ⟨member, here⟩ := lookup_some sys.files old file there
  have owns : Own old := here ▸ (kept.own file member (here ▸ named)).1
  have goal := own_marked new (renames owns)
  constructor
  · intro path plain
    rw [files, moved_lookup _ old new path named goal plain,
      lookup_filter sys.files new path (marked_ne new path goal plain)]
    exact kept.same path plain
  · intro other inside
    rw [files] at inside
    obtain ⟨earlier, filtered, rfl⟩ := List.mem_map.mp inside
    have was := List.mem_of_mem_filter filtered
    unfold moveFile
    split
    · next below =>
        intro _
        obtain ⟨own, directory⟩ :=
          kept.own earlier was (marked_below old earlier.path named below)
        refine ⟨?_, directory⟩
        by_cases top : earlier.path = old
        · dsimp only
          rw [top, reroot, List.drop_length, List.append_nil]
          exact renames owns
        · exact own_moved old new earlier.path own below top
    · exact kept.own earlier was

end Calls

/-! What a process is about to do. -/

def Harmless : Place → Prop
  | .mkdir path => Own path
  | .mkdirBelow spath _ => Own spath
  | .rmdir path => marked path = true
  | .rename to_move target => marked to_move = true ∧ (Own to_move → Own target)
  | .crashed => False
  | _ => True

/-- A name that is short was not cut off. -/
theorem full_path_short (dir name : Path) (short : (fullPath dir name).length ≤ DLIM) :
    fullPath dir name = join slash dir name ∧ name.length ≤ DLIM := by
  have small : (join slash dir name).length < PATH_MAX := by
    unfold fullPath clip at short
    rw [List.length_take] at short
    simp only [DLIM, PATH_MAX] at short ⊢
    omega
  have whole : fullPath dir name = join slash dir name :=
    List.take_of_length_le (Nat.le_sub_one_of_lt small)
  refine ⟨whole, ?_⟩
  rw [whole, join, List.length_append, List.length_cons] at short
  omega

theorem made_own (dir kind : Path) (pid opcnt : Nat) (plain : underscore ∉ kind)
    (simple : slash ∉ kind) (short : (fullPath dir (ownName pid kind opcnt)).length ≤ DLIM) :
    Own (fullPath dir (ownName pid kind opcnt)) := by
  obtain ⟨whole, few⟩ := full_path_short dir _ short
  rw [whole]
  exact ⟨dir, _, rfl, made_name pid opcnt kind plain simple few⟩

section Choices
variable (root : Path) (plain : marked root = false) (sys : System)
  (there : isDirectory sys.files root = true) (others : List Path)
  (below : ∀ path ∈ others, covers slash root path = true) (process : Process)

theorem delete_harmless (path : Path) : Harmless (delete path) := by
  unfold delete
  split
  · next named => exact named
  · trivial

include there

theorem listed (first : Nat) : ∃ dir,
    (getDirList root sys others)[first % (getDirList root sys others).length]? = some dir ∧
      dir ∈ getDirList root sys others := by
  have some_ : 0 < (getDirList root sys others).length := by
    rw [getDirList, if_pos there]
    exact Nat.succ_pos _
  exact ⟨_, List.getElem?_eq_getElem (Nat.mod_lt first some_), List.getElem_mem _⟩

theorem create_harmless (first : Nat) (keep : Bool) :
    Harmless (create process (getDirList root sys others) first keep) := by
  obtain ⟨dir, found, _⟩ := listed root sys there others first
  unfold create
  rw [found]
  dsimp only
  split
  · trivial
  · next short =>
      split
      · trivial
      · exact made_own dir _ _ _ (by decide) (by decide) (Nat.le_of_not_lt short)

include plain below

/-- A directory with the marker is not the root, so it has a directory above it. -/
theorem move_harmless (first second : Nat) :
    Harmless (move process (getDirList root sys others) first second) := by
  obtain ⟨to_move, found, member⟩ := listed root sys there others first
  obtain ⟨dir, second_, _⟩ := listed root sys there others second
  unfold move
  rw [found, second_]
  dsimp only
  split
  · next named =>
      rw [getDirList, if_pos there] at member
      have lower : covers slash root to_move = true := by
        rcases List.mem_cons.mp member with rfl | inside
        · exact (covers_iff slash _ _).mpr (below_refl slash _)
        · exact below to_move inside
      have apart : slash ∈ to_move := by
        rcases (covers_iff slash _ _).mp lower with same | ⟨rest, rfl⟩
        · rw [same, plain] at named
          cases named
        · exact List.mem_append_right _ List.mem_cons_self
      cases cut : split slash to_move with
      | none => exact absurd apart (split_none slash to_move cut)
      | some parts =>
          obtain ⟨upper, name⟩ := parts
          dsimp only
          split
          · trivial
          · next short =>
              refine ⟨named, fun own => ?_⟩
              obtain ⟨whole, few⟩ := full_path_short dir _ (Nat.le_of_not_lt short)
              obtain ⟨dir', name', parts, ownName⟩ := own
              rw [parts, split_join slash dir' name' ownName.simple] at cut
              obtain ⟨rfl, rfl⟩ := Prod.mk.inj (Option.some.inj cut)
              rw [whole]
              exact ⟨dir, _, rfl, renamed_name _ _ _ ownName few⟩
  · trivial

theorem choose_harmless (first second : Nat) (keep : Bool) :
    Harmless (choose process (getDirList root sys others) first second keep) := by
  unfold choose
  split
  · exact create_harmless root sys there others process first keep
  · split
    · trivial
    · exact delete_harmless _
  · split
    · trivial
    · exact move_harmless root plain sys there others below process first second
  · trivial

end Choices

theorem attempt_some (fails : Bool) (op : Op) (sys after : System)
    (made : attempt fails op sys = some after) :
    ∃ change, effect sys op = some change ∧ after = happen change := by
  rw [attempt, Option.ite_none_left_eq_some] at made
  obtain ⟨change, happened, rfl⟩ := Option.map_eq_some_iff.mp made.2
  exact ⟨change, happened, rfl⟩

/-- No more operations than asked for. -/
def Counted (maxops : Int) (opcnt : Nat) (place : Place) : Prop :=
  0 < maxops → (opcnt : Int) ≤ maxops ∧ (place ≠ .exited → (opcnt : Int) < maxops)

theorem counted_other (maxops : Int) (opcnt : Nat) (before after : Place)
    (going : before ≠ .exited) (counted : Counted maxops opcnt before) :
    Counted maxops opcnt after := by
  intro limited
  obtain ⟨most, less⟩ := counted limited
  exact ⟨most, fun _ => less going⟩

section Steps
variable (root : Path) (plain : marked root = false) (initial sys : System)
  (there : isDirectory initial.files root = true) (kept : Kept initial sys)
include kept

theorem attempt_kept (fails : Bool) (op : Op)
    (fine : ∀ change, effect sys op = some change → Kept initial (happen change)) :
    Kept initial ((attempt fails op sys).getD sys) := by
  cases made : attempt fails op sys with
  | none => exact kept
  | some after =>
      obtain ⟨change, happened, rfl⟩ := attempt_some fails op sys after made
      exact fine change happened

include plain there

theorem process_kept (process : Process) (harmless : Harmless process.place)
    (counted : Counted process.maxops process.opcnt process.place) (answer : Answer)
    (result : System × Place × Nat) (taken : stepProcess root answer sys process = some result) :
    Kept initial result.1 ∧ Harmless result.2.1 ∧
      Counted process.maxops result.2.2 result.2.1 := by
  have still : isDirectory sys.files root = true := by
    unfold isDirectory at there ⊢
    rw [kept.same root plain]
    exact there
  have goesOn (after : Place) (going : process.place ≠ .exited) : Counted process.maxops
      process.opcnt after :=
    counted_other _ _ _ _ going counted
  unfold stepProcess at taken
  split at taken
  · next _ others first second keep place =>
      rw [Option.ite_none_right_eq_some, Option.some.injEq] at taken
      obtain ⟨below, rfl⟩ := taken
      exact ⟨kept, choose_harmless root plain sys still others below process first second keep,
        goesOn _ (by rw [place]; simp)⟩
  · next _ path fails place =>
      cases taken
      rw [place] at harmless
      refine ⟨attempt_kept initial sys kept fails _ fun change made => ?_, trivial,
        goesOn _ (by rw [place]; simp)⟩
      exact created_kept initial sys kept change path harmless made
  · next _ path scnt go place =>
      split at taken
      · cases taken
        refine ⟨kept, ?_, goesOn _ (by rw [place]; simp)⟩
        dsimp only
        split
        · trivial
        · next short =>
            refine made_own path _ _ _ ?_ ?_ (Nat.le_of_not_lt short)
            · rw [List.mem_append, not_or]
              exact ⟨by decide, (decimal_apart scnt).2⟩
            · rw [List.mem_append, not_or]
              exact ⟨by decide, (decimal_apart scnt).1⟩
      · cases taken
        exact ⟨kept, trivial, goesOn _ (by rw [place]; simp)⟩
  · next _ spath scnt fails place =>
      cases taken
      rw [place] at harmless
      refine ⟨attempt_kept initial sys kept fails _ fun change made => ?_, trivial,
        goesOn _ (by rw [place]; simp)⟩
      exact created_kept initial sys kept change spath harmless made
  · next _ path fails place =>
      rw [place] at harmless
      split at taken
      · cases taken
        exact ⟨kept, trivial, goesOn _ (by rw [place]; simp)⟩
      · next after made =>
          obtain ⟨change, happened, rfl⟩ := attempt_some fails _ sys after made
          have later := removed_kept initial sys kept change path harmless happened
          split at taken
          · cases taken
            exact ⟨later, trivial, goesOn _ (by rw [place]; simp)⟩
          · cases taken
            exact ⟨later, delete_harmless _, goesOn _ (by rw [place]; simp)⟩
  · next _ to_move target fails place =>
      cases taken
      rw [place] at harmless
      refine ⟨attempt_kept initial sys kept fails _ fun change made => ?_, trivial,
        goesOn _ (by rw [place]; simp)⟩
      exact renamed_kept initial sys kept change to_move target harmless.1 harmless.2 made
  · next _ stop place =>
      cases taken
      refine ⟨kept, ?_, fun limited => ?_⟩
      · dsimp only
        split <;> trivial
      · obtain ⟨_, less⟩ := counted limited
        have fewer := less (by rw [place]; simp)
        refine ⟨by push_cast; omega, fun going => ?_⟩
        by_contra enough
        exact going (if_pos (.inl ⟨limited, Int.not_lt.mp enough⟩))
  · cases taken

end Steps

structure Inv (initial : System) (state : State) : Prop where
  kept : Kept initial state.system
  harmless : ∀ process ∈ state.processes, Harmless process.place
  counted : ∀ process ∈ state.processes, Counted process.maxops process.opcnt process.place

theorem step_inv (root : Path) (plain : marked root = false) (initial : System)
    (there : isDirectory initial.files root = true) (choice : Nat × Answer) (before after : State)
    (inv : Inv initial before) (taken : step root choice before = some after) :
    Inv initial after := by
  unfold step at taken
  split at taken
  · cases taken
  · next process found =>
      obtain ⟨result, acted, rfl⟩ := Option.map_eq_some_iff.mp taken
      have member := List.mem_of_getElem? found
      obtain ⟨kept, harmless, counted⟩ :=
        process_kept root plain initial before.system there inv.kept process
          (inv.harmless process member) (inv.counted process member) choice.2 result acted
      refine ⟨kept, fun other inside => ?_, fun other inside => ?_⟩
      · rcases List.mem_or_eq_of_mem_set inside with earlier | rfl
        · exact inv.harmless other earlier
        · exact harmless
      · rcases List.mem_or_eq_of_mem_set inside with earlier | rfl
        · exact inv.counted other earlier
        · exact counted

theorem start_inv (initial : System)
    (unmarked : ∀ file ∈ initial.files, marked file.path = false)
    (processes : List (Command × Nat × Int)) : Inv initial (start initial processes) := by
  refine ⟨⟨fun _ _ => rfl, fun file member named => ?_⟩, fun process member => ?_,
    fun process member => ?_⟩
  · rw [unmarked file member] at named
    cases named
  · obtain ⟨given, _, rfl⟩ := List.mem_map.mp member
    trivial
  · obtain ⟨given, _, rfl⟩ := List.mem_map.mp member
    exact fun limited => ⟨Int.le_of_lt limited, fun _ => limited⟩

/-- However the processes interleave, the files that were there stay as they are, what comes and
goes are directories that have the marker in their name, and no process crashes or does more
operations than it was told to, if neither the root nor a file has the marker at first. -/
theorem tree_is_kept (root : Path) (plain : marked root = false) (initial : System)
    (there : isDirectory initial.files root = true)
    (unmarked : ∀ file ∈ initial.files, marked file.path = false)
    (processes : List (Command × Nat × Int)) (state : State)
    (reached : Transition.Reachable (· = start initial processes) (step root) state) :
    (∀ path, marked path = false →
      lookup state.system.files path = lookup initial.files path) ∧
      (∀ file ∈ state.system.files, marked file.path = true →
        file.isDir = true ∧ ∃ dir name, file.path = join slash dir name ∧ slash ∉ name ∧
        marked name = true) ∧
      ∀ process ∈ state.processes, process.place ≠ .crashed ∧
        (0 < process.maxops → (process.opcnt : Int) ≤ process.maxops) := by
  have inv : Inv initial state := Transition.reachable_invariant
    (fun _ here => here ▸ start_inv initial unmarked processes)
    (fun choice before after inv taken =>
      step_inv root plain initial there choice before after inv taken) reached
  refine ⟨inv.kept.same, fun file member named => ?_,
    fun process member => ⟨fun bad => ?_, fun limited => ?_⟩⟩
  · obtain ⟨⟨dir, name, parts, own⟩, directory⟩ := inv.kept.own file member named
    exact ⟨directory, dir, name, parts, own.simple,
      decide_eq_true (own.early.trans (List.takeWhile_prefix _).isInfix)⟩
  · have harmless := inv.harmless process member
    rw [bad] at harmless
    exact harmless
  · exact (inv.counted process member limited).1

def oneDirectory (root : Path) : System := ⟨[⟨root, 2, true⟩], 3, [], 1, 1, [], [], none⟩

/-- One process makes a directory, another removes it and stops at the root. -/
def madeAndRemoved : List (Nat × Answer) :=
  [(0, .list [] 0 0 true), (0, .call false), (0, .more false), (0, .next false),
    (1, .list [literal "t/7--cr_0"] 1 0 true), (1, .call false), (1, .next true)]

theorem made_and_removed : ∃ state,
    Transition.replay (step (literal "t")) madeAndRemoved
      (start (oneDirectory (literal "t")) [(.create, 107, 1), (.delete, 8, 0)]) = some state ∧
      lookup state.system.files (literal "t") = some ⟨literal "t", 2, true⟩ := by
  have run : (Transition.replay (step (literal "t")) madeAndRemoved
      (start (oneDirectory (literal "t")) [(.create, 107, 1), (.delete, 8, 0)])).isSome = true := by
    decide +kernel
  obtain ⟨state, replayed⟩ := Option.isSome_iff_exists.mp run
  have kept := tree_is_kept (literal "t") (by decide) (oneDirectory (literal "t")) (by decide)
    (fun file member => by rw [List.mem_singleton.mp member]; decide) [(.create, 107, 1),
      (.delete, 8, 0)] state
    (Transition.replay_reachable madeAndRemoved (Transition.Reachable.start rfl) replayed)
  exact ⟨state, replayed, kept.1 (literal "t") (by decide)⟩

-- A root that has the marker in its own name is removed like any other directory.
example : (Transition.replay (step (literal "t--")) [(0, .list [] 0 0 true), (0, .call false)]
    (start (oneDirectory (literal "t--")) [(.delete, 8, 0)])).map (·.system.files) = some [] := by
  decide +kernel

end Tlpi.RandomTrees
