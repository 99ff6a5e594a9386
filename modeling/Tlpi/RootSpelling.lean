import Mathlib.Data.List.DropRight
import Mathlib.Data.List.Pairwise
import Mathlib.Data.List.ReduceOption
import Tlpi.CStrings
import Tlpi.TreeRace

/-!
inotify/inotify_dtree.c: how pathnames are spelled. They come from the command line, through
`copyRootDirPaths`, from `nftw`, and from the strings that the event handler and
`rewriteCachedPaths` put together; all of them are compared byte by byte.
-/

namespace Tlpi.RootSpelling

open CStrings PathName WatchCache TreeMonitor
open TreeRace (stripSlashes)

def EndsInSlash (path : Path) : Prop := path.getLast? = some slash

instance (path : Path) : Decidable (EndsInSlash path) := inferInstanceAs (Decidable (_ = _))

/-- The name under which `nftw` reports an entry of a directory. -/
def nftwChild (dir name : Path) : Path := if dir = [slash] then dir ++ name else join slash dir name

/-- What `nftw` can report. Longer pathnames than these are refused by the kernel. -/
inductive Reported (start : Path) : Path → Prop where
  | start (fits : (stripSlashes start).length < PATH_MAX) : Reported start (stripSlashes start)
  | child {dir name : Path} (parent : Reported start dir) (simple : Simple slash name)
      (fits : (nftwChild dir name).length < PATH_MAX) : Reported start (nftwChild dir name)

structure Stat where
  isdir : Bool
  st_dev : Nat
  st_ino : Nat
  deriving DecidableEq

/-- Longer pathnames are refused, and slashes behind the name of a directory do not change what
the name stands for. -/
structure FileSystem where
  lstat : Path → Option Stat
  short : ∀ path stat, lstat path = some stat → path.length < PATH_MAX
  trailing : ∀ path stat, path.length < PATH_MAX → lstat (stripSlashes path) = some stat →
    stat.isdir = true → lstat path = some stat

section Accepted

variable (files : FileSystem)

/-- The first loop of `copyRootDirPaths`; an error is a text with which the program gives up. -/
def checkDirectories : List Path → Except Str Unit
  | [] => .ok ()
  | path :: rest =>
      match files.lstat path with
      | none => .error (literal "lstat() failed on '" ++ path ++ literal "'\n")
      | some sb =>
          if sb.isdir then checkDirectories rest
          else .error (literal "'" ++ path ++ literal "' is not a directory\n")

def sameObject (path earlier : Path) : Bool :=
  match files.lstat path, files.lstat earlier with
  | some one, some other => one.st_ino == other.st_ino && one.st_dev == other.st_dev
  | _, _ => false

/-- The second loop; the copies made so far come first. -/
def copyPaths (copied : List Path) : List Path → Except Str (List Path)
  | [] => .ok copied
  | path :: rest =>
      match copied.find? (sameObject files path) with
      | some earlier =>
          .error (literal "Duplicate filesystem objects: " ++ path ++ literal ", " ++
            earlier ++ literal "\n")
      | none => copyPaths (copied ++ [path]) rest

def copyRootDirPaths (argv : List Path) : Except Str RootDirPaths := do
  checkDirectories files argv
  let copied ← copyPaths files [] argv
  .ok (copied.map some)

theorem directories_checked (argv : List Path) (checked : checkDirectories files argv = .ok ()) :
    ∀ path ∈ argv, ∃ stat, files.lstat path = some stat ∧ stat.isdir = true := by
  induction argv with
  | nil => simp
  | cons path rest ih =>
      rw [checkDirectories] at checked
      split at checked
      · cases checked
      · next sb known =>
          split at checked
          · next isdir =>
              rw [List.forall_mem_cons]
              exact ⟨⟨sb, known, isdir⟩, ih checked⟩
          · cases checked

def Distinct (paths : List Path) : Prop :=
  paths.Pairwise fun earlier path => sameObject files path earlier = false

theorem paths_copied (argv copied result : List Path) (distinct : Distinct files copied)
    (done : copyPaths files copied argv = .ok result) :
    result = copied ++ argv ∧ Distinct files result := by
  induction argv generalizing copied with
  | nil =>
      cases done
      exact ⟨(List.append_nil _).symm, distinct⟩
  | cons path rest ih =>
      rw [copyPaths] at done
      split at done
      · cases done
      · next missing =>
          have apart : Distinct files (copied ++ [path]) := by
            refine List.pairwise_append.mpr ⟨distinct, List.pairwise_singleton _ _, ?_⟩
            intro earlier member last same
            rw [List.mem_singleton.mp same]
            simpa using List.find?_eq_none.mp missing earlier member
          obtain ⟨whole, all⟩ := ih (copied ++ [path]) apart done
          exact ⟨whole.trans (List.append_assoc _ _ _), all⟩

/-- The roots are the arguments: directories, none of them twice. -/
theorem roots_accepted (argv : List Path) (roots : RootDirPaths)
    (accepted : copyRootDirPaths files argv = .ok roots) :
    roots = argv.map some ∧ Distinct files argv ∧
      ∀ path ∈ argv, ∃ stat, files.lstat path = some stat ∧ stat.isdir = true := by
  unfold copyRootDirPaths at accepted
  cases checked : checkDirectories files argv with
  | error text =>
      rw [checked] at accepted
      cases accepted
  | ok _ =>
      cases done : copyPaths files [] argv with
      | error text =>
          rw [checked, done] at accepted
          cases accepted
      | ok copied =>
          rw [checked, done] at accepted
          cases accepted
          obtain ⟨whole, distinct⟩ := paths_copied files argv [] copied List.Pairwise.nil done
          rw [List.nil_append] at whole
          rw [whole] at distinct ⊢
          exact ⟨rfl, distinct, directories_checked files argv checked⟩

theorem same_object_comm (path earlier : Path) :
    sameObject files path earlier = sameObject files earlier path := by
  unfold sameObject
  cases files.lstat path with
  | none => cases files.lstat earlier <;> rfl
  | some stat =>
      cases files.lstat earlier with
      | none => rfl
      | some old => exact congrArg₂ (· && ·) BEq.comm BEq.comm

theorem objects_differ (paths : List Path) (distinct : Distinct files paths) (one other : Path)
    (first : one ∈ paths) (second : other ∈ paths) (apart : one ≠ other) :
    sameObject files one other = false := by
  have symmetric : Std.Symm fun earlier path => sameObject files path earlier = false :=
    ⟨fun earlier path differ => (same_object_comm files earlier path).trans differ⟩
  exact distinct.forall second first apart.symm

/-! The walks of the roots, with the files as they were accepted. -/

def isDirectory (path : Path) : Bool := (files.lstat path).any Stat.isdir

theorem directory_known (path : Path) (isdir : isDirectory files path = true) :
    ∃ stat, files.lstat path = some stat ∧ stat.isdir = true := by
  unfold isDirectory at isdir
  cases known : files.lstat path with
  | none =>
      rw [known] at isdir
      cases isdir
  | some stat =>
      rw [known] at isdir
      exact ⟨stat, rfl, isdir⟩

/-- Each directory has the entries "." and "..", which `nftw` leaves out. -/
def Entry (name : Path) : Prop :=
  Simple slash name ∧ name ≠ literal "." ∧ name ≠ literal ".."

/-- The directories that `nftw` reports. -/
inductive Walked (start : Path) : Path → Prop where
  | start (isdir : isDirectory files (stripSlashes start) = true) :
      Walked start (stripSlashes start)
  | child {dir name : Path} (parent : Walked start dir) (entry : Entry name)
      (isdir : isDirectory files (nftwChild dir name) = true) : Walked start (nftwChild dir name)

/-- The name is that of an entry, for which `nftw` comes to the root directory. -/
structure InsideAs (argv : List Path) (root dir name : Path) : Prop where
  parent : ∃ start ∈ argv, Walked files start dir
  entry : Entry name
  isdir : isDirectory files (nftwChild dir name) = true
  same : sameObject files (nftwChild dir name) root = true

/-- The root directory lies in the tree of a root. -/
def Inside (argv : List Path) (root : Path) : Prop :=
  ∃ dir name, InsideAs files argv root dir name

/-- The names that the cache can hold for the root directory when its own events are handled: those
reported by `nftw`, and, where it is an entry of a watched directory, what `rewriteCachedPaths` has
made of them, since the events of both parents come before IN_MOVE_SELF. -/
inductive RootName (argv : List Path) (root : Path) : Path → Prop where
  | walked {start path : Path} (listed : start ∈ argv) (reported : Walked files start path)
      (same : sameObject files path root = true) : RootName argv root path
  | renamed {dir name start newDir newName : Path} (inside : InsideAs files argv root dir name)
      (listed : start ∈ argv) (target : Walked files start newDir) (entry : Entry newName)
      (fits : (join slash newDir newName).length < PATH_MAX) :
      RootName argv root (join slash newDir newName)

end Accepted

/-! Pathnames and the slash. -/

theorem not_ends_append (front name : Path) (simple : Simple slash name) :
    ¬ EndsInSlash (front ++ name) := by
  unfold EndsInSlash
  rw [List.getLast?_append]
  intro ends
  cases last : name.getLast? with
  | none => exact simple.1 (List.getLast?_eq_none_iff.mp last)
  | some ch =>
      rw [last] at ends
      cases ends
      exact simple.2 (List.mem_of_getLast? last)

theorem not_ends_join (dir name : Path) (simple : Simple slash name) :
    ¬ EndsInSlash (join slash dir name) := by
  have whole : join slash dir name = dir ++ [slash] ++ name := by simp [join]
  rw [whole]
  exact not_ends_append _ name simple

theorem not_ends_child (dir name : Path) (simple : Simple slash name) :
    ¬ EndsInSlash (nftwChild dir name) := by
  unfold nftwChild
  split
  · exact not_ends_append dir name simple
  · exact not_ends_join dir name simple

/-- What is left without the slashes at the end, or the first one of them. -/
theorem strip_cases (path : Path) :
    path.rdropWhile (· = slash) = [] ∧ stripSlashes path = path.take 1 ∨
      path.rdropWhile (· = slash) ≠ [] ∧ stripSlashes path = path.rdropWhile (· = slash) := by
  unfold stripSlashes List.rdropWhile
  split
  · next empty => exact .inl ⟨empty, rfl⟩
  · next solid => exact .inr ⟨solid, rfl⟩

theorem strip_plain (path : Path) (plain : ¬ EndsInSlash path) : stripSlashes path = path := by
  have kept : path.rdropWhile (· = slash) = path := by
    refine List.rdropWhile_eq_self_iff.mpr fun solid last => plain ?_
    rw [EndsInSlash, List.getLast?_eq_some_getLast solid]
    exact congrArg some (of_decide_eq_true last)
  rcases strip_cases path with ⟨empty, same⟩ | ⟨_, same⟩
  · rw [same, kept.symm.trans empty]
    rfl
  · exact same.trans kept

theorem strip_slashes_only (path : Path) (only : stripSlashes path = [slash]) :
    ∀ ch ∈ path, ch = slash := by
  rcases strip_cases path with ⟨empty, _⟩ | ⟨solid, same⟩
  · intro ch member
    exact of_decide_eq_true (List.rdropWhile_eq_nil_iff.mp empty ch member)
  · have last := List.rdropWhile_last_not (fun ch => decide (ch = slash)) path solid
    simp [same.symm.trans only] at last

theorem strip_neat (path : Path) :
    ¬ EndsInSlash (stripSlashes path) ∨ stripSlashes path = [slash] := by
  rcases strip_cases path with ⟨empty, same⟩ | ⟨solid, same⟩
  · have all := List.rdropWhile_eq_nil_iff.mp empty
    rw [same]
    cases path with
    | nil => exact .inl (by simp [EndsInSlash])
    | cons first rest =>
        have here := of_decide_eq_true (all first List.mem_cons_self)
        exact .inr (by rw [here]; rfl)
  · refine .inl fun ends => List.rdropWhile_last_not _ _ solid ?_
    rw [same, EndsInSlash, List.getLast?_eq_some_getLast solid] at ends
    exact decide_eq_true (Option.some.inj ends)

theorem solid_start (path : Path) (named : ∃ ch ∈ path, ch ≠ slash) :
    stripSlashes path ≠ [slash] := by
  intro only
  obtain ⟨ch, member, other⟩ := named
  exact other (strip_slashes_only path only ch member)

/-- A pathname that can stand in the cache. -/
structure Neat (path : Path) : Prop where
  short : path.length < PATH_MAX
  ending : ¬ EndsInSlash path ∨ path = [slash]

theorem reported_neat (start path : Path) (reported : Reported start path) : Neat path := by
  cases reported with
  | start fits => exact ⟨fits, strip_neat start⟩
  | child parent simple fits => exact ⟨fits, .inl (not_ends_child _ _ simple)⟩

theorem reported_solid (start path : Path) (solid : stripSlashes start ≠ [slash])
    (reported : Reported start path) : path ≠ [slash] := by
  cases reported with
  | start _ => exact solid
  | child parent simple _ =>
      intro only
      exact not_ends_child _ _ simple (by rw [only]; rfl)

theorem clip_short (text : Path) (short : text.length < PATH_MAX) : clip text = text :=
  List.take_of_length_le (Nat.le_sub_one_of_lt short)

theorem clip_front (front back : Path) (short : front.length < PATH_MAX) (ch : UInt8)
    (member : ch ∈ front) : ch ∈ clip (front ++ back) := by
  rw [clip, List.take_append, List.take_of_length_le (Nat.le_sub_one_of_lt short)]
  exact List.mem_append_left _ member

/-- Some letter of the directory or of the entry survives the cut. -/
theorem full_path_named (dir name : Path) (neat : Neat dir) (simple : Simple slash name) :
    ∃ ch ∈ fullPath dir name, ch ≠ slash := by
  obtain ⟨letter, rest, rfl⟩ := List.exists_cons_of_ne_nil simple.1
  have other : letter ≠ slash := fun same => simple.2 (by simp [same])
  rcases neat.ending with plain | rfl
  · cases last : dir.getLast? with
    | none =>
        rw [List.getLast?_eq_none_iff.mp last]
        exact ⟨letter, clip_front [slash, letter] rest (show 2 < PATH_MAX by decide) letter
          (by simp), other⟩
    | some ch =>
        refine ⟨ch, clip_front dir _ neat.short ch (List.mem_of_getLast? last),
          fun same => plain ?_⟩
        rw [EndsInSlash, last, same]
  · exact ⟨letter, clip_front [slash, slash, letter] rest (show 3 < PATH_MAX by decide) letter
      (by simp), other⟩

/-- How a pathname below a root gets into the cache: the root or a new directory is walked, or a
renamed directory moves the names below it, none of which is cut. -/
inductive Cached : Path → Path → Prop where
  | walked {root path : Path} (reported : Reported root path) : Cached root path
  | created {root dir name path : Path} (parent : Cached root dir) (simple : Simple slash name)
      (reported : Reported (fullPath dir name) path) : Cached root path
  | renamed {root dir name other oldDir oldName source path : Path} (parent : Cached root dir)
      (simple : Simple slash name) (old : Cached other oldDir) (known : Simple slash oldName)
      (before : Cached source path) (below : Below slash (fullPath oldDir oldName) path)
      (fits : (reroot (fullPath oldDir oldName) (join slash dir name) path).length < PATH_MAX) :
      Cached root (reroot (fullPath oldDir oldName) (join slash dir name) path)

/-- A name behind a slash ends as it did. -/
theorem not_ends_moved (front other rest : Path) (plain : ¬ EndsInSlash (other ++ slash :: rest)) :
    ¬ EndsInSlash (front ++ slash :: rest) := by
  unfold EndsInSlash at plain ⊢
  rw [List.getLast?_append, List.getLast?_cons] at plain ⊢
  exact plain

theorem cached_neat (root path : Path) (cached : Cached root path) : Neat path := by
  induction cached with
  | walked reported => exact reported_neat _ _ reported
  | created _ _ reported _ => exact reported_neat _ _ reported
  | renamed _ simple _ known _ below fits _ old before =>
      refine ⟨fits, .inl ?_⟩
      rcases below with rfl | ⟨rest, rfl⟩
      · simp only [reroot, List.drop_length, List.append_nil]
        exact not_ends_join _ _ simple
      · rw [reroot_append]
        rcases before.ending with plain | single
        · exact not_ends_moved _ _ rest plain
        · obtain ⟨ch, member, other⟩ := full_path_named _ _ old known
          have inside : ch ∈ [slash] := single ▸ List.mem_append_left _ member
          exact absurd (List.mem_singleton.mp inside) other

/-- Below a root without a slash at its end, no cached name ends in one. -/
theorem cached_plain (root path : Path) (cached : Cached root path) (plain : ¬ EndsInSlash root) :
    ¬ EndsInSlash path := by
  have solid : path ≠ [slash] := by
    cases cached with
    | walked reported =>
        refine reported_solid root path ?_ reported
        rw [strip_plain root plain]
        rintro rfl
        exact plain rfl
    | created parent simple reported =>
        exact reported_solid _ path
          (solid_start _ (full_path_named _ _ (cached_neat _ _ parent) simple)) reported
    | renamed parent simple _ _ _ below _ =>
        rcases below with rfl | ⟨rest, rfl⟩
        · intro single
          rw [reroot, List.drop_length, List.append_nil] at single
          exact not_ends_join _ _ simple (by rw [single]; rfl)
        · intro single
          have lengths := congrArg List.length single
          simp [reroot_append, join] at lengths
          omega
  exact (cached_neat root path cached).ending.resolve_right solid

/-- The path is taken for a root: it is watched for moves, and its move and its deletion get to
`zapRootDirPath`. -/
structure Recognised (roots : RootDirPaths) (path : Path) : Prop where
  listed : isRootDirPath roots path = true
  flagged : has (watchFlags roots path) IN_MOVE_SELF = true
  deleted : ∀ cache slot ev next firstTry, eventSlot cache ev = some slot →
    slotPath cache slot = path →
    ev.mask = IN_DELETE_SELF → processNextInotifyEvent cache roots ev next firstTry =
      (zapRootDirPath roots path).map fun left =>
        ⟨markCacheSlotEmpty cache slot, left, .nothing, .one⟩
  moved : ∀ cache slot ev next firstTry, eventSlot cache ev = some slot →
    slotPath cache slot = path →
    ev.mask = IN_MOVE_SELF → processNextInotifyEvent cache roots ev next firstTry =
      (zapRootDirPath roots path).map fun left => ⟨cache, left, .zapSubtree path, .one⟩

/-- The string for an entry is the one that `nftw` reports, so a cached entry is found under it. -/
structure Spelled (dir name : Path) : Prop where
  text : fullPath dir name = nftwChild dir name
  cached : ∀ cache wd, (wd, nftwChild dir name) ∈ entries cache →
    pathnameInCache cache (fullPath dir name) = true
  covered : covers slash (fullPath dir name) (nftwChild dir name) = true

/-- For any roots that are left. -/
structure Agrees (files : FileSystem) (argv : List Path) (roots : RootDirPaths)
    (root : Path) : Prop where
  watched : ∃ path, RootName files argv root path
  recognised : ∀ left : RootDirPaths, (∀ path, some path ∈ left → some path ∈ roots) →
    some root ∈ left →
    ∀ path, RootName files argv root path → Recognised left path
  spelled : ∀ dir name, Cached root dir → Simple slash name →
    (nftwChild dir name).length < PATH_MAX →
    Spelled dir name

theorem recognised_listed (roots : RootDirPaths) (path : Path)
    (listed : isRootDirPath roots path = true) : Recognised roots path := by
  refine ⟨listed, ?_, ?_, ?_⟩
  · rw [watchFlags, if_pos listed]
    decide
  · intro cache slot ev next firstTry found here mask
    rw [process_deleted cache roots ev next firstTry slot found mask, directoryDeleted,
        here, if_pos listed]
  · intro cache slot ev next firstTry found here mask
    rw [process_moved_self cache roots ev next firstTry slot found mask, here, if_pos listed,
        rootMoved, here]

theorem spelled_text (dir name : Path) (text : fullPath dir name = nftwChild dir name) :
    Spelled dir name := by
  refine ⟨text, ?_, ?_⟩
  · intro cache wd member
    rw [text]
    exact (pathname_in_cache cache _).mpr ⟨wd, member⟩
  · rw [text]
    exact (covers_iff slash _ _).mpr (below_refl slash _)

theorem plain_spelled (root dir name : Path) (plain : ¬ EndsInSlash root)
    (cached : Cached root dir) (fits : (nftwChild dir name).length < PATH_MAX) :
    Spelled dir name := by
  have other : dir ≠ [slash] := by
    rintro rfl
    exact cached_plain root _ cached plain rfl
  have child : nftwChild dir name = join slash dir name := if_neg other
  rw [child] at fits
  apply spelled_text
  rw [child, fullPath, clip_short _ fits]

/-- The root directory itself: "//a" is not "/a". -/
theorem slash_misspelled (root : Path) (only : stripSlashes root = [slash]) :
    ∃ dir name, Cached root dir ∧ Simple slash name ∧
      (nftwChild dir name).length < PATH_MAX ∧
      ¬ Spelled dir name := by
  have cached : Cached root [slash] := by
    rw [← only]
    refine .walked (.start ?_)
    rw [only]
    decide
  refine ⟨[slash], literal "a", cached, ⟨by decide, by decide⟩,
    by decide, fun spelled => ?_⟩
  exact absurd spelled.text (by decide)

section Names

variable (files : FileSystem) (argv : List Path) (roots : RootDirPaths)
  (accepted : copyRootDirPaths files argv = .ok roots) (root : Path) (member : root ∈ argv)

theorem same_object_known (path : Path) (stat : Stat) (known : files.lstat path = some stat)
    (again : files.lstat root = some stat) : sameObject files path root = true := by
  simp [sameObject, known, again]

/-- What `nftw` reports does not end in a slash, but for the root of all. -/
theorem walked_neat (start path : Path) (reported : Walked files start path) :
    ¬ EndsInSlash path ∨ path = [slash] := by
  cases reported with
  | start _ => exact strip_neat start
  | child _ entry _ => exact .inl (not_ends_child _ _ entry.1)

theorem walked_directory (start path : Path) (reported : Walked files start path) :
    isDirectory files path = true := by
  cases reported with
  | start isdir => exact isdir
  | child _ _ isdir => exact isdir

theorem root_name_neat (path : Path) (name : RootName files argv root path) :
    ¬ EndsInSlash path ∨ path = [slash] := by
  cases name with
  | walked _ reported _ => exact walked_neat files _ path reported
  | renamed _ _ _ entry _ => exact .inl (not_ends_join _ _ entry.1)

include accepted member

/-- The roots are different objects, so that only the walk of the root itself starts at it. -/
theorem start_unique (start : Path) (listed : start ∈ argv)
    (isdir : isDirectory files (stripSlashes start) = true)
    (same : sameObject files (stripSlashes start) root = true) : start = root := by
  obtain ⟨_, distinct, directories⟩ := roots_accepted files argv roots accepted
  obtain ⟨old, there, _⟩ := directories start listed
  obtain ⟨stat, known, directory⟩ := directory_known files _ isdir
  have again : files.lstat start = some stat :=
    files.trailing start stat (files.short start old there) known directory
  by_contra apart
  have differ := objects_differ files argv distinct start root listed member apart
  rw [sameObject, again, ← known] at differ
  exact absurd same (Bool.eq_false_iff.mp differ)

/-- A plain root outside of all trees has only the name that it was given. -/
theorem root_name_only (plain : ¬ EndsInSlash root) (outside : ¬ Inside files argv root)
    (path : Path) (name : RootName files argv root path) : path = root := by
  cases name with
  | walked listed reported same =>
      cases reported with
      | start isdir =>
          rw [start_unique files argv roots accepted root member _ listed isdir same,
              strip_plain root plain]
      | child parent entry isdir =>
          exact absurd ⟨_, _, ⟨_, listed, parent⟩, entry, isdir, same⟩ outside
  | renamed inside _ _ _ _ => exact absurd ⟨_, _, inside⟩ outside

theorem plain_agrees (plain : ¬ EndsInSlash root) (outside : ¬ Inside files argv root) :
    Agrees files argv roots root := by
  obtain ⟨_, _, directories⟩ := roots_accepted files argv roots accepted
  obtain ⟨stat, known, directory⟩ := directories root member
  have own := strip_plain root plain
  have reported : Walked files root root := by
    have start : Walked files root (stripSlashes root) :=
      .start (by simp [isDirectory, own, known, directory])
    rwa [own] at start
  refine ⟨⟨root, .walked member reported
    (same_object_known files root root stat known known)⟩, ?_, ?_⟩
  · intro left _ listed path name
    rw [root_name_only files argv roots accepted root member plain outside path name]
    exact recognised_listed left root ((is_root_iff left root).mpr listed)
  · intro dir name cached _ fits
    exact plain_spelled root dir name plain cached fits

/-- When it is the last root left, only its own name is recognised. -/
theorem agrees_name (agrees : Agrees files argv roots root) (path : Path)
    (name : RootName files argv root path) : path = root := by
  obtain ⟨rfl, _⟩ := roots_accepted files argv roots accepted
  have alone : ∀ path, some path ∈ [some root] → some path ∈ argv.map some := by
    intro path only
    rw [List.mem_singleton.mp only]
    exact List.mem_map_of_mem member
  have listed := (agrees.recognised [some root] alone List.mem_cons_self path name).listed
  simpa using (is_root_iff _ _).mp listed

/-- An entry of a watched directory can be renamed to "a" or to "b". -/
theorem inside_disagrees (inside : Inside files argv root) : ¬ Agrees files argv roots root := by
  intro agrees
  obtain ⟨dir, name, within⟩ := inside
  obtain ⟨start, listed, parent⟩ := within.parent
  have fits : ∀ letter : UInt8, (join slash dir [letter]).length < PATH_MAX := by
    intro letter
    obtain ⟨stat, known, _⟩ := directory_known files _ within.isdir
    have whole := files.short _ stat known
    have some := List.length_pos_iff.mpr within.entry.1.1
    unfold nftwChild at whole
    split at whole
    · next single =>
        rw [single]
        exact show 3 < PATH_MAX by decide
    · simp only [join, List.length_append, List.length_cons, List.length_nil] at whole ⊢
      omega
  have first := agrees_name files argv roots accepted root member agrees _
    (.renamed within listed parent ⟨⟨by decide, by decide⟩, by decide, by decide⟩ (fits 97))
  have second := agrees_name files argv roots accepted root member agrees _
    (.renamed within listed parent ⟨⟨by decide, by decide⟩, by decide, by decide⟩ (fits 98))
  obtain ⟨_, letters⟩ :=
    join_inj slash dir dir [97] [98] (by decide) (by decide) (first.trans second.symm)
  cases letters

theorem agrees_iff :
    Agrees files argv roots root ↔ ¬ EndsInSlash root ∧ ¬ Inside files argv root := by
  constructor
  · intro agrees
    refine ⟨fun ends => ?_, fun inside =>
      inside_disagrees files argv roots accepted root member inside agrees⟩
    obtain ⟨path, name⟩ := agrees.watched
    obtain rfl := agrees_name files argv roots accepted root member agrees path name
    obtain rfl := (root_name_neat files argv _ _ name).resolve_left fun plain => plain ends
    obtain ⟨dir, name, cached, simple, fits, wrong⟩ := slash_misspelled [slash] rfl
    exact wrong (agrees.spelled dir name cached simple fits)
  · rintro ⟨plain, outside⟩
    exact plain_agrees files argv roots accepted root member plain outside

end Names

/-! The caches that the program can have. -/

/-- The name is that of an entry of a directory, as the handler expects it. -/
def Named (ev : Event) : Prop :=
  has ev.mask IN_ISDIR = true ∧ has ev.mask (IN_CREATE ||| IN_MOVED_TO) = true ∨
    ev.mask &&& (IN_MOVED_FROM ||| IN_ISDIR) = IN_MOVED_FROM ||| IN_ISDIR

/-- The events are those of inotify, and no name in the cache becomes too long for a rename. -/
structure Plain (cache : Cache) (ev : Event) (next : Option Event) : Prop where
  named : Named ev → 0 ≤ ev.wd ∧ has ev.mask IN_IGNORED = false ∧ Simple slash ev.name
  paired : ∀ nextEv, next = some nextEv → has nextEv.mask IN_MOVED_TO = true →
    0 ≤ nextEv.wd ∧ Simple slash nextEv.name
  uncut : ∀ nextEv oldDir newDir wd path, next = some nextEv →
    (ev.wd, oldDir) ∈ entries cache →
    (nextEv.wd, newDir) ∈ entries cache → (wd, path) ∈ entries cache →
      Below slash (fullPath oldDir ev.name) path →
    (reroot (fullPath oldDir ev.name) (join slash newDir nextEv.name) path).length < PATH_MAX

section Runs

variable {State : Type} (kernel : Kernel State) (argv : List Path)

inductive Run : World State → Prop where
  | start {state : State} {world : World State}
      (built : reinitialize kernel ⟨[], argv.map some, state, []⟩ = some world) : Run world
  | event {before after : World State} {ev : Event} {next : Option Event} {firstTry : Bool}
      {consumed : Consumed}
      (earlier : Run before) (plain : Plain before.cache ev next)
      (handled : handle kernel before ev next firstTry = some (after, consumed)) : Run after

/-- The path belongs to one of the roots. -/
def Known (path : Path) : Prop := ∃ root ∈ argv, Cached root path

structure Kept (cache : Cache) (roots : RootDirPaths) : Prop where
  roots : ∀ path, some path ∈ roots → path ∈ argv
  paths : ∀ entry ∈ entries cache, Known argv entry.2

theorem kept_cleared (cache : Cache) (roots : RootDirPaths) (index : Nat)
    (kept : Kept argv cache roots) : Kept argv (markCacheSlotEmpty cache index) roots :=
  ⟨kept.roots, fun entry member =>
    kept.paths entry (mem_entries_cleared cache index entry member)⟩

theorem traverse_entries (world after : World State) (path : Path) (short : path.length < PATH_MAX)
    (done : traverseTree kernel world path = some after) :
    after.roots = world.roots ∧ ∀ entry ∈ entries after.cache,
      entry ∈ entries world.cache ∨ entry.2 = path := by
  unfold traverseTree at done
  dsimp only at done
  split at done
  · cases done
  · cases done
    exact ⟨rfl, fun _ => Or.inl⟩
  · split at done
    · cases done
      exact ⟨rfl, fun _ => Or.inl⟩
    · cases done
      refine ⟨rfl, fun entry member =>
        (mem_entries_added world.cache _ path entry member).imp_right fun new => ?_⟩
      rw [new, List.take_of_length_le (Nat.le_of_lt short)]

theorem traverse_kept (world after : World State) (path : Path) (known : Known argv path)
    (kept : Kept argv world.cache world.roots)
    (done : traverseTree kernel world path = some after) : Kept argv after.cache after.roots := by
  obtain ⟨root, listed, cached⟩ := known
  obtain ⟨roots, added⟩ :=
    traverse_entries kernel world after path (cached_neat root path cached).short done
  refine ⟨roots ▸ kept.roots, fun entry member => ?_⟩
  rcases added entry member with old | new
  · exact kept.paths entry old
  · exact ⟨root, listed, new ▸ cached⟩

/-- A property that every turn of a loop keeps. -/
theorem fold_keeps {Item World : Type} (turn : World → Item → Option World)
    (kept : World → Prop) (items : List Item)
    (keeps : ∀ item ∈ items, ∀ before after, kept before → turn before item = some after →
      kept after)
    (world after : World) (start : kept world) (done : items.foldlM turn world = some after) :
    kept after := by
  induction items generalizing world with
  | nil =>
      cases done
      exact start
  | cons item rest ih =>
      rw [List.foldlM_cons] at done
      obtain ⟨middle, first, later⟩ := Option.bind_eq_some_iff.mp done
      exact ih (fun item inside => keeps item (List.mem_cons_of_mem _ inside)) middle
        (keeps item List.mem_cons_self world middle start first) later

/-- At the start every name is one that `nftw` has reported. -/
theorem start_walked (files : FileSystem) (state : State) (world : World State)
    (walks : ∀ state start path, path ∈ kernel.nftw state start → Walked files start path)
    (built : reinitialize kernel ⟨[], argv.map some, state, []⟩ = some world) :
    ∀ entry ∈ entries world.cache, ∃ start ∈ argv, Walked files start entry.2 := by
  let fine (world : World State) : Prop := ∀ entry ∈ entries world.cache, ∃ start ∈ argv,
    Walked files start entry.2
  refine fold_keeps (watchDir kernel) fine (argv.map some).reduceOption ?_ _ world
    (by simp [fine, entries]) built
  intro root member before next kept turn
  have listed : root ∈ argv := by simpa using List.reduceOption_mem_iff.mp member
  refine fold_keeps (traverseTree kernel) fine _ ?_ before next kept turn
  intro path reported middle after earlier one entry inside
  have walked := walks _ _ _ reported
  obtain ⟨stat, known, _⟩ :=
    directory_known files path (walked_directory files root path walked)
  rcases (traverse_entries kernel middle after path (files.short path stat known) one).2 entry
    inside with old | new
  · exact earlier entry old
  · exact ⟨root, listed, new ▸ walked⟩

section Kernel

variable (reports : ∀ state start path, path ∈ kernel.nftw state start → Reported start path)
include reports

theorem watch_dir_kept (world after : World State) (start : Path)
    (below : ∀ path, Reported start path → Known argv path)
    (kept : Kept argv world.cache world.roots) (done : watchDir kernel world start = some after) :
    Kept argv after.cache after.roots := by
  refine fold_keeps (traverseTree kernel) (fun world => Kept argv world.cache world.roots) _ ?_
    world after kept done
  intro path member before next fine turn
  exact traverse_kept kernel argv before next path (below path (reports _ _ _ member)) fine turn

theorem reinitialize_kept (world after : World State) (kept : Kept argv world.cache world.roots)
    (done : reinitialize kernel world = some after) : Kept argv after.cache after.roots := by
  have empty : Kept argv [] world.roots := ⟨kept.roots, by simp [entries]⟩
  refine fold_keeps (watchDir kernel) (fun world => Kept argv world.cache world.roots)
    world.roots.reduceOption ?_
    { world with cache := [], state := kernel.init world.state } after empty done
  intro root member before next fine turn
  have listed := kept.roots root (List.reduceOption_mem_iff.mp member)
  exact watch_dir_kept kernel argv reports before next root (fun path reported =>
    ⟨root, listed, .walked reported⟩)
      fine turn

omit reports in
theorem zap_slots_kept (pn : Path) (indices : List Nat) (world : World State)
    (kept : Kept argv world.cache world.roots) :
    Kept argv (zapSlots kernel pn indices world).2.cache
      (zapSlots kernel pn indices world).2.roots := by
  induction indices generalizing world with
  | nil => exact kept
  | cons index rest ih =>
      have turn : Kept argv (zapSlot kernel pn world index).2.cache
          (zapSlot kernel pn world index).2.roots := by
        unfold zapSlot
        dsimp only
        split
        · split
          · exact kept_cleared argv _ _ index kept
          · exact kept
        · exact kept
      rw [zapSlots]
      split
      · next middle same =>
          rw [same] at turn
          exact ih middle turn
      · next middle same =>
          rw [same] at turn
          exact turn

omit reports in
theorem zap_subtree_kept (world : World State) (path : Path)
    (kept : Kept argv world.cache world.roots) :
    Kept argv (zapSubtree kernel world path).2.cache (zapSubtree kernel world path).2.roots :=
  zap_slots_kept kernel argv path (List.range world.cache.length) world kept

/-- A plan whose work stays below the roots. -/
structure Planned (plan : Plan) : Prop where
  kept : Kept argv plan.cache plan.roots
  watched : ∀ start, plan.job = .watchSubtree start → ∀ path,
    Reported start path → Known argv path

theorem perform_kept (plan : Plan) (planned : Planned argv plan) (world after : World State)
    (consumed : Consumed) (done : perform kernel plan world = some (after, consumed)) :
    Kept argv after.cache after.roots := by
  unfold perform at done
  dsimp only at done
  split at done
  · cases done
    exact planned.kept
  · next start job =>
      obtain ⟨watched, walk, same⟩ := Option.map_eq_some_iff.mp done
      cases same
      exact watch_dir_kept kernel argv reports _ _ start
        (planned.watched start job) planned.kept walk
  · next start _ =>
      have zapped :=
        zap_subtree_kept kernel argv { world with cache := plan.cache, roots := plan.roots } start
          planned.kept
      split at done
      · next middle same =>
          cases done
          rw [same] at zapped
          exact zapped
      · next middle same =>
          obtain ⟨built, again, equal⟩ := Option.map_eq_some_iff.mp done
          cases equal
          rw [same] at zapped
          exact reinitialize_kept kernel argv reports middle _ zapped again
  · obtain ⟨built, again, equal⟩ := Option.map_eq_some_iff.mp done
    cases equal
    exact reinitialize_kept kernel argv reports _ _ planned.kept again

end Kernel

section Events

variable (cache : Cache) (roots : RootDirPaths) (kept : Kept argv cache roots) (ev : Event)
  (next : Option Event) (plain : Plain cache ev next)

theorem zapped_roots (roots left : RootDirPaths) (path : Path)
    (zapped : zapRootDirPath roots path = some left) (other : Path) (member : some other ∈ left) :
    some other ∈ roots := by
  unfold zapRootDirPath at zapped
  split at zapped
  · cases zapped
  · dsimp only at zapped
    split at zapped
    · cases zapped
    · cases zapped
      rcases List.mem_or_eq_of_mem_set member with old | new
      · exact old
      · cases new

include kept

theorem kept_zapped (left : RootDirPaths) (path : Path)
    (zapped : zapRootDirPath roots path = some left) : Kept argv cache left :=
  ⟨fun other member => kept.roots other (zapped_roots roots left path zapped other member),
    kept.paths⟩

theorem deleted_planned (slot : Nat) (plan : Plan)
    (done : directoryDeleted cache roots slot = some plan) : Planned argv plan := by
  unfold directoryDeleted at done
  dsimp only at done
  split at done
  · obtain ⟨left, zapped, same⟩ := Option.map_eq_some_iff.mp done
    cases same
    exact ⟨kept_cleared argv cache left slot (kept_zapped argv cache roots kept left _ zapped),
      by simp⟩
  · cases done
    exact ⟨kept_cleared argv cache roots slot kept, by simp⟩

theorem root_moved_planned (slot : Nat) (plan : Plan)
    (done : rootMoved cache roots slot = some plan) : Planned argv plan := by
  obtain ⟨left, zapped, same⟩ := Option.map_eq_some_iff.mp done
  cases same
  exact ⟨kept_zapped argv cache roots kept left _ zapped, by simp⟩

include plain

omit kept in
/-- The directory in which the named entry lies. -/
theorem named_slot (named : Named ev) (slot : Nat) (found : eventSlot cache ev = some slot) :
    (ev.wd, slotPath cache slot) ∈ entries cache ∧ Simple slash ev.name := by
  obtain ⟨valid, unignored, simple⟩ := plain.named named
  rcases event_slot_cases cache ev valid unignored with ⟨missing, _⟩ |
    ⟨other, path, same, _, here, member⟩
  · rw [missing] at found
    cases found
  · cases found.symm.trans same
    exact ⟨here ▸ member, simple⟩

theorem created_planned (named : Named ev) (slot : Nat) (found : eventSlot cache ev = some slot)
    (plan : Plan) (done : directoryCreated cache roots slot ev = some plan) :
    Planned argv plan := by
  obtain ⟨member, simple⟩ := named_slot cache ev next plain named slot found
  obtain ⟨root, listed, cached⟩ := kept.paths _ member
  unfold directoryCreated at done
  cases done
  refine ⟨kept, fun start job path reported => ⟨root, listed, ?_⟩⟩
  dsimp only at job
  split at job
  · cases job
  · cases job
    exact .created cached simple reported

theorem rewrite_kept (named : Named ev) (slot : Nat) (found : eventSlot cache ev = some slot)
    (nextEv : Event) (following : next = some nextEv) (arrives : has nextEv.mask IN_MOVED_TO = true)
    (nextSlot : Nat) (second : findWatch cache nextEv.wd = some nextSlot) :
    Kept argv (rewriteCachedPaths cache (slotPath cache slot) ev.name
      (slotPath cache nextSlot) nextEv.name) roots := by
  obtain ⟨oldMember, oldSimple⟩ := named_slot cache ev next plain named slot found
  obtain ⟨valid, newSimple⟩ := plain.paired nextEv following arrives
  obtain ⟨newDir, there, newMember⟩ := find_watch_entry cache nextEv.wd valid nextSlot second
  rw [← slot_path_entry cache nextSlot _ newDir there] at newMember
  obtain ⟨_, _, oldCached⟩ := kept.paths _ oldMember
  obtain ⟨root, listed, newCached⟩ := kept.paths _ newMember
  refine ⟨kept.roots, fun entry member => ?_⟩
  rw [entries_rewrite] at member
  obtain ⟨before, inside, rfl⟩ := List.mem_map.mp member
  obtain ⟨source, listed', cached⟩ := kept.paths before inside
  dsimp only [rewritten]
  split
  · next hit =>
      have below := (covers_iff slash _ _).mp hit
      have short :=
        plain.uncut nextEv _ _ before.1 before.2 following oldMember newMember inside below
      have whole : fullPath (slotPath cache nextSlot) nextEv.name =
          join slash (slotPath cache nextSlot) nextEv.name := by
        refine clip_short _ (Nat.lt_of_le_of_lt ?_ short)
        rw [reroot, List.length_append]
        exact Nat.le_add_right _ _
      rw [whole, clip_short _ short]
      exact ⟨root, listed, .renamed newCached newSimple oldCached oldSimple cached below short⟩
  · exact ⟨source, listed', cached⟩

theorem moved_planned (named : Named ev) (slot : Nat) (found : eventSlot cache ev = some slot)
    (firstTry : Bool) (plan : Plan)
    (done : directoryMoved cache roots slot ev next firstTry = some plan) : Planned argv plan := by
  unfold directoryMoved at done
  split at done
  · next nextEv =>
      split at done
      · next paired =>
          split at done
          · cases done
            exact ⟨kept, by simp⟩
          · next nextSlot second =>
              cases done
              exact ⟨rewrite_kept argv cache roots kept ev _ plain named slot found nextEv rfl
                paired.1 nextSlot second, by simp⟩
      · cases done
        exact ⟨kept, by simp⟩
  · split at done
    · cases done
      exact ⟨kept, by simp⟩
    · cases done
      exact ⟨kept, by simp⟩

theorem process_planned (firstTry : Bool) (plan : Plan)
    (done : processNextInotifyEvent cache roots ev next firstTry = some plan) :
    Planned argv plan := by
  unfold processNextInotifyEvent at done
  split at done
  · cases done
    exact ⟨kept, by simp⟩
  · next slot found =>
      split at done
      · next created =>
          exact created_planned argv cache roots kept ev next plain
            (.inl created) slot found plan done
      · split at done
        · exact deleted_planned argv cache roots kept slot plan done
        · split at done
          · next moved =>
              exact moved_planned argv cache roots kept ev next plain (.inr moved) slot
                found firstTry plan done
          · split at done
            · cases done
              exact ⟨kept, by simp⟩
            · split at done
              · cases done
                exact ⟨kept_cleared argv cache roots slot kept, by simp⟩
              · split at done
                · exact root_moved_planned argv cache roots kept slot plan done
                · cases done
                  exact ⟨kept, by simp⟩

end Events

/-- Every name in the cache got there in one of the ways of `Cached`. -/
theorem run_kept
    (reports : ∀ state start path, path ∈ kernel.nftw state start → Reported start path)
    (world : World State) (run : Run kernel argv world) : Kept argv world.cache world.roots := by
  induction run with
  | start built =>
      refine reinitialize_kept kernel argv reports _ _ ⟨?_, by simp [entries]⟩ built
      intro path member
      simpa using member
  | event _ plain handled ih =>
      obtain ⟨plan, planned, done⟩ := Option.bind_eq_some_iff.mp handled
      exact perform_kept kernel argv reports plan (process_planned argv _ _ ih _ _ plain _ plan
        planned) _ _ _ done

end Runs

theorem strip_strip (path : Path) : stripSlashes (stripSlashes path) = stripSlashes path := by
  rcases strip_neat path with plain | only
  · exact strip_plain _ plain
  · rw [only]
    rfl

theorem strip_length (path : Path) : (stripSlashes path).length ≤ path.length := by
  rcases strip_cases path with ⟨_, same⟩ | ⟨_, same⟩
  · rw [same]
    exact List.length_take_le' 1 path
  · rw [same]
    exact (List.rdropWhile_prefix _ path).length_le

/-- The file system in which slashes at the end are never looked at. -/
def objects (object : Path → Option Stat) : FileSystem where
  lstat path := if path.length < PATH_MAX then object (stripSlashes path) else none
  short path stat known := by
    by_contra long
    rw [if_neg long] at known
    cases known
  trailing path stat fits known _ := by
    rw [if_pos (Nat.lt_of_le_of_lt (strip_length path) fits), strip_strip] at known
    rwa [if_pos fits]

end Tlpi.RootSpelling
