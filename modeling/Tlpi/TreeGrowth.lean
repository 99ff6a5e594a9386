import Mathlib.Data.List.Basic
import Tlpi.WatchSet

/-!
inotify_dtree.c while other processes make and remove directories and the roots
stay where they are. Every directory of a monitored tree that has no watch yet is
accounted for: the walk will come to it, or its creation is still queued behind
the events that clear older entries of its pathname, or its own directory is not
watched either. So the cache is never rebuilt, and once all is handled it holds
exactly the directories, unless `nftw` has given up a walk with a directory left.
-/

namespace Tlpi.TreeGrowth

open PathName WatchCache TreeMonitor FileTree TreeRace WatchSet

/-- Directories come and go; the roots stay. -/
def allowed (choice : Choice) (state : State) : Bool :=
  match choice with
  | .happen (.create _ isDir) => isDir
  | .happen (.remove path isDir) => isDir && !state.world.roots.contains (some path)
  | .read _ | .reread _ | .process | .work _ | .giveUp => true
  | _ => false

def present (files : List File) : TreeRace.Task → Bool
  | .visit path | .list path => isDirectory files path
  | _ => false

/-- A walk is given up only when no directory is left that it had still to look at. -/
def careful (choice : Choice) (state : State) : Bool :=
  match choice with
  | .giveUp => !(abandoned state).any (present state.sys.files)
  | _ => true

def carefully (choice : Choice) (state : State) : Bool :=
  allowed choice state && careful choice state

/-- The roots are directories and no queue overflows. -/
def Started (roots : List Path) (state : State) : Prop :=
  ∃ sys, FilesOk sys ∧ sys.late = [] ∧ sys.limit = none ∧
    (∀ root ∈ roots, isDirectory sys.files root = true) ∧ state = start roots sys

def Monitored (roots : List Path) (path : Path) : Prop := ∃ root ∈ roots, Below slash root path

def Watched (watches : List Watch) (file : File) : Prop :=
  ∃ watch ∈ watches, watch.ino = file.ino

def created (wd : Int) (name : Path) : Event := ⟨wd, IN_CREATE ||| IN_ISDIR, 0, name⟩

def deleted (wd : Int) : Event := ⟨wd, IN_DELETE_SELF, 0, []⟩

/-- The creation is queued, and behind the removal of every older directory of the name. -/
def Queued (cache : Cache) (events : List Event) (path : Path) (wd : Int) (name : Path) : Prop :=
  ∃ before after, events = before ++ created wd name :: after ∧
    ∀ older, (older, path) ∈ entries cache → deleted older ∈ before

inductive Covered (roots : List Path) (files : List File) (watches : List Watch) (cache : Cache)
    (tasks : List TreeRace.Task) (events : List Event) (file : File) : Prop where
  | visit (task : TreeRace.Task.visit file.path ∈ tasks)
  | list (dir name : Path) (path : file.path = join slash dir name) (simple : Simple slash name)
      (task : TreeRace.Task.list dir ∈ tasks)
  | queued (dir : File) (name : Path) (watch : Watch) (inside : dir ∈ files)
      (path : file.path = join slash dir.path name) (member : watch ∈ watches)
      (same : watch.ino = dir.ino) (queued : Queued cache events file.path watch.wd name)
  | parent (dir : File) (name : Path) (inside : dir ∈ files) (directory : dir.isDir = true)
      (path : file.path = join slash dir.path name) (simple : Simple slash name)
      (below : Monitored roots dir.path) (unwatched : ¬ Watched watches dir)

/-- What `processNextInotifyEvent` finds in its buffer. -/
inductive Expected (cache : Cache) (ev : Event) : Prop where
  | ignored (mask : ev.mask = IN_IGNORED)
  | deleted (same : ev = deleted ev.wd) (cached : ev.wd ∈ descriptors cache)
  | created (same : ev = created ev.wd ev.name) (simple : Simple slash ev.name)
      (cached : ev.wd ∈ descriptors cache)
      (short : ∀ path, (ev.wd, path) ∈ entries cache →
        (join slash path ev.name).length < PATH_MAX)

/-- Nothing but IN_IGNORED follows the removal of a directory. -/
def Final (first later : Event) : Prop :=
  first = deleted first.wd → later.wd = first.wd → later.mask = IN_IGNORED

structure Growth (roots : List Path) (state : State) : Prop where
  agrees : Agrees state
  running : state.exited = false
  listed : state.world.roots = roots.map some
  files : FilesOk state.sys
  limit : state.sys.limit = none
  rootDirs : ∀ root ∈ roots, ∃ file ∈ state.sys.files,
    file.path = root ∧ file.isDir = true
  never : state.reinitCnt = 0
  walking : ∀ task ∈ state.tasks,
    task = .next ∨ ∃ path, (task = .visit path ∨ task = .list path) ∧ Monitored roots path
  labels : ∀ watch ∈ state.sys.watches,
    ∀ path, (watch.wd, path) ∈ entries state.world.cache →
    ∃ file ∈ state.sys.files, file.ino = watch.ino ∧ file.path = path ∧ file.isDir = true
  rootLabels : ∀ root ∈ roots, ∀ wd, (wd, root) ∈ entries state.world.cache →
    ∃ watch ∈ state.sys.watches, watch.wd = wd
  monitored : ∀ wd path, (wd, path) ∈ entries state.world.cache → Monitored roots path
  events : ∀ ev ∈ pending state, Expected state.world.cache ev
  final : (pending state).Pairwise Final
  covered : ∀ file ∈ state.sys.files, file.isDir = true → Monitored roots file.path →
    Watched state.sys.watches file ∨
      Covered roots state.sys.files state.sys.watches state.world.cache
      state.tasks (pending state) file

/-- Steps that only move events from the queue to the buffer. -/
theorem growth_moved (roots : List Path) (before after : State) (growth : Growth roots before)
    (agrees : Agrees after) (files : FilesOk after.sys)
    (same : after.world.cache = before.world.cache ∧ after.world.roots = before.world.roots ∧
      after.tasks = before.tasks ∧ after.exited = before.exited ∧
      after.reinitCnt = before.reinitCnt)
    (sys : after.sys.files = before.sys.files ∧ after.sys.watches = before.sys.watches ∧
      after.sys.limit = before.sys.limit)
    (events : pending after = pending before) : Growth roots after := by
  obtain ⟨cache, rootPaths, tasks, exited, count⟩ := same
  obtain ⟨tree, watches, limit⟩ := sys
  refine ⟨agrees, exited.trans growth.running, rootPaths.trans growth.listed, files,
    limit.trans growth.limit, ?_, count.trans growth.never, ?_, ?_, ?_, ?_, ?_, ?_, ?_⟩
  · rw [tree]
    exact growth.rootDirs
  · rw [tasks]
    exact growth.walking
  · rw [tree, watches, cache]
    exact growth.labels
  · rw [watches, cache]
    exact growth.rootLabels
  · rw [cache]
    exact growth.monitored
  · rw [cache, events]
    exact growth.events
  · rw [events]
    exact growth.final
  · rw [tree, watches, cache, tasks, events]
    exact growth.covered

/-! Watches and their names. -/

theorem live_label (roots : List Path) (state : State) (growth : Growth roots state) (watch : Watch)
    (member : watch ∈ state.sys.watches) (dir : File) (inside : dir ∈ state.sys.files)
    (same : watch.ino = dir.ino) : (watch.wd, dir.path) ∈ entries state.world.cache := by
  obtain ⟨⟨wd, path⟩, cached, rfl⟩ := List.mem_map.mp (growth.agrees.cached watch member)
  obtain ⟨file, there, ino, rfl, _⟩ := growth.labels watch member path cached
  obtain rfl := List.inj_on_of_nodup_map growth.files.inodes there inside (ino.trans same)
  exact cached

/-- An entry without a watch waits for the event that clears it. -/
theorem dead_label (roots : List Path) (state : State) (growth : Growth roots state) (wd : Int)
    (path : Path) (cached : (wd, path) ∈ entries state.world.cache) :
    (∃ watch ∈ state.sys.watches, watch.wd = wd) ∨ deleted wd ∈ pending state := by
  refine (growth.agrees.known wd (List.mem_map.mpr ⟨_, cached, rfl⟩)).imp_right ?_
  rintro (⟨counted, task⟩ | ⟨ev, waiting, excuse⟩)
  · rcases growth.walking _ task with bad | ⟨_, bad | bad, _⟩ <;> cases bad
  · cases growth.events ev waiting with
    | ignored mask =>
        rcases excuse with rfl | ⟨_, loss | loss⟩
        · exact absurd mask (by decide)
        · exact absurd (mask.symm.trans loss) (by decide)
        · exact absurd (mask.symm.trans loss) (by decide)
    | deleted same _ =>
        rcases excuse with rfl | ⟨rfl, _⟩
        · exact absurd same (by decide)
        · exact same ▸ waiting
    | created same _ _ _ =>
        have mask : ev.mask = IN_CREATE ||| IN_ISDIR := congrArg Event.mask same
        rcases excuse with rfl | ⟨_, loss | loss⟩
        · exact absurd mask (by decide)
        · exact absurd (mask.symm.trans loss) (by decide)
        · exact absurd (mask.symm.trans loss) (by decide)

theorem deleted_dead (roots : List Path) (state : State) (growth : Growth roots state) (wd : Int)
    (waiting : deleted wd ∈ pending state) : ∀ watch ∈ state.sys.watches, watch.wd ≠ wd :=
  (growth.agrees.gone _ waiting (Or.inl rfl)).2

/-- The parent of a directory and the watch on it stay, whatever else other processes change. -/
theorem covered_kept (roots : List Path) (files left : List File) (watches alive : List Watch)
    (cache : Cache) (tasks : List TreeRace.Task) (events more : List Event) (file : File)
    (stays : ∀ dir ∈ files, ∀ name, file.path = join slash dir.path name →
      dir ∈ left ∧ ∀ watch ∈ watches, watch.ino = dir.ino → watch ∈ alive)
    (older : ∀ watch ∈ alive, watch ∈ watches)
    (covered : Covered roots files watches cache tasks events file) :
    Covered roots left alive cache tasks (events ++ more) file := by
  cases covered with
  | visit task => exact .visit task
  | list dir name path simple task => exact .list dir name path simple task
  | queued dir name watch inside path member same queued =>
      obtain ⟨there, watched⟩ := stays dir inside name path
      obtain ⟨before, after, rfl, first⟩ := queued
      refine .queued dir name watch there path (watched watch member same) same ⟨before,
        after ++ more, ?_, first⟩
      rw [List.append_assoc, List.cons_append]
  | parent dir name inside directory path simple below unwatched =>
      refine .parent dir name (stays dir inside name path).1 directory path simple below ?_
      rintro ⟨watch, member, same⟩
      exact unwatched ⟨watch, older watch member, same⟩

theorem monitored_join (roots : List Path) (dir name : Path) (below : Monitored roots dir) :
    Monitored roots (join slash dir name) := by
  obtain ⟨root, listed, above⟩ := below
  exact ⟨root, listed, below_trans slash root dir _ above (below_join slash dir name)⟩

/-- A monitored directory is a root or an entry of a monitored directory. -/
theorem monitored_parent (roots : List Path) (sys : System) (ok : FilesOk sys)
    (rootDirs : ∀ root ∈ roots, ∃ file ∈ sys.files, file.path = root ∧ file.isDir = true)
    (file : File) (member : file ∈ sys.files) (monitored : Monitored roots file.path) :
    file.path ∈ roots ∨ ∃ dir ∈ sys.files, ∃ name, dir.isDir = true ∧
      file.path = join slash dir.path name ∧ Simple slash name ∧ Monitored roots dir.path := by
  obtain ⟨root, listed, below⟩ := monitored
  by_cases here : file.path = root
  · exact Or.inl (here ▸ listed)
  · obtain ⟨owner, there, rfl, _⟩ := rootDirs root listed
    obtain ⟨dir, inside, name, directory, path, simple, above⟩ := parent_below sys ok owner.path
      (placed_nonempty _ _ (ok.placed owner there)) file member below here
    exact Or.inr ⟨dir, inside, name, directory, path, simple, owner.path, listed, above⟩

theorem parent_present (sys : System) (ok : FilesOk sys) (dir name : Path) (nonempty : dir ≠ [])
    (simple : Simple slash name) (file : File) (member : file ∈ sys.files)
    (whole : file.path = join slash dir name) : isDirectory sys.files dir = true := by
  obtain ⟨parent, inside, other, directory, same, plain, _⟩ :=
    parent_below sys ok dir nonempty file member
      (whole ▸ below_join slash dir name) (whole ▸ join_ne slash dir name)
  obtain ⟨rfl, _⟩ := join_inj slash _ _ _ _ simple.2 plain.2 (whole.symm.trans same)
  exact (is_directory_iff _ ok.paths _).mpr ⟨parent, inside, rfl, directory⟩

/-! Other processes. -/

theorem mkdir_posts (sys : System) (path : Path) (effect : Effect) (unlimited : sys.limit = none)
    (made : create sys path true = some effect) :
    happen effect = { sys with
      files := sys.files ++ [⟨path, sys.nextIno, true⟩]
      nextIno := sys.nextIno + 1
      queue := sys.queue ++
        (entryNotice sys.files path (IN_CREATE ||| IN_ISDIR) 0).flatMap
          (noticed sys.watches) } := by
  unfold create at made
  split at made
  · cases made
    rw [happen_posts _ none rfl, post_all_unlimited]
    · simp [kind]
    · exact unlimited
  · cases made

/-- The event of a new directory comes from a living watch, and its name fits in a path. -/
theorem mkdir_expected (roots : List Path) (state : State) (path : Path)
    (growth : Growth roots state) (ready : available state.sys.files path = true) (ev : Event)
    (member : ev ∈ (entryNotice state.sys.files path (IN_CREATE ||| IN_ISDIR) 0).flatMap
      (noticed state.sys.watches)) :
    ∃ watch ∈ state.sys.watches, ev.wd = watch.wd ∧ Expected state.world.cache ev := by
  obtain ⟨short, _⟩ := available_placed _ _ ready
  rcases entry_noticed state.sys.files growth.files.paths state.sys.watches path
      (IN_CREATE ||| IN_ISDIR) 0 (by decide) with
    ⟨none, _⟩ | ⟨dir, inside, name, watch, there, whole, plain, same, one⟩
  · rw [none] at member
    cases member
  · rw [one] at member
    obtain rfl := List.mem_singleton.mp member
    refine ⟨watch, there, rfl,
      .created rfl ⟨?_, plain⟩ (growth.agrees.cached watch there) ?_⟩
    · rintro rfl
      unfold available at ready
      rw [whole, split_join slash dir.path [] plain] at ready
      simp at ready
    · intro label cached
      rw [← entry_unique _ growth.agrees.wellFormed _ _ _
          (live_label roots state growth watch there dir
        inside same) cached, ← whole]
      exact short

theorem mkdir_growth (roots : List Path) (state : State) (path : Path) (effect : Effect)
    (growth : Growth roots state) (made : create state.sys path true = some effect)
    (agrees : Agrees (state.withSys (happen effect))) :
    Growth roots (state.withSys (happen effect)) := by
  obtain ⟨ok, _, missing, ready, _, _⟩ := create_ok state.sys path true effect growth.files made
  have absent := lookup_none _ _ missing
  have posts := mkdir_posts state.sys path effect growth.limit made
  have files : FilesOk (happen effect) := by
    unfold create at made
    split at made
    · cases made
      rw [posts]
      exact files_ok_same _ _ ok rfl rfl
    · cases made
  generalize happen effect = sys at posts agrees files ⊢
  have larger : ∀ file ∈ state.sys.files, file ∈ sys.files := by
    intro file member
    rw [posts]
    exact List.mem_append_left _ member
  have watches : sys.watches = state.sys.watches := by rw [posts]
  have limit : sys.limit = none := by rw [posts, growth.limit]
  have waiting : pending (state.withSys sys) = pending state ++
      (entryNotice state.sys.files path (IN_CREATE ||| IN_ISDIR) 0).flatMap
        (noticed state.sys.watches) := by
    change state.buffer ++ sys.queue = _
    rw [posts, pending, List.append_assoc]
  have rootDirs : ∀ root ∈ roots, ∃ file ∈ sys.files,
      file.path = root ∧ file.isDir = true := by
    intro root listed
    obtain ⟨file, member, facts⟩ := growth.rootDirs root listed
    exact ⟨file, larger file member, facts⟩
  have cases := entry_noticed state.sys.files growth.files.paths state.sys.watches path
    (IN_CREATE ||| IN_ISDIR) 0 (by decide)
  have posted := mkdir_expected roots state path growth ready
  refine ⟨agrees, growth.running, growth.listed, files, limit,
    rootDirs, growth.never, growth.walking, ?_, ?_, growth.monitored, ?_, ?_, ?_⟩
  · intro watch member label cached
    obtain ⟨file, inside, facts⟩ := growth.labels watch (watches ▸ member) label cached
    exact ⟨file, larger file inside, facts⟩
  · intro root listed wd cached
    change ∃ watch ∈ sys.watches, _
    rw [watches]
    exact growth.rootLabels root listed wd cached
  · intro ev member
    rw [waiting] at member
    rcases List.mem_append.mp member with old | new
    · exact growth.events ev old
    · obtain ⟨_, _, _, expected⟩ := posted ev new
      exact expected
  · rw [waiting, List.pairwise_append]
    refine ⟨growth.final, ?_, ?_⟩
    · rcases cases with ⟨none, _⟩ | ⟨_, _, _, _, _, _, _, _, one⟩
      · rw [none]
        exact .nil
      · rw [one]
        exact List.pairwise_singleton _ _
    · -- a watched directory has not been removed
      intro first old later new removed same
      obtain ⟨watch, there, wd, _⟩ := posted later new
      exact absurd (wd.symm.trans same)
        (deleted_dead roots state growth first.wd (removed ▸ old) watch there)
  · intro file member directory monitored
    rw [waiting]
    change Watched sys.watches file ∨ Covered roots sys.files sys.watches _ _ _ file
    rw [watches]
    have split : file ∈ state.sys.files ∨ file = ⟨path, state.sys.nextIno, true⟩ := by
      change file ∈ sys.files at member
      rw [posts] at member
      exact (List.mem_append.mp member).imp_right List.mem_singleton.mp
    rcases split with old | rfl
    · exact (growth.covered file old directory monitored).imp_right
        (covered_kept roots _ _ _ _ _ _ _ _ file (fun dir inside _ _ =>
          ⟨larger dir inside, fun _ there _ => there⟩)
            fun _ there => there)
    · refine Or.inr ?_
      rcases cases with ⟨_, unwatched⟩ |
        ⟨dir, inside, name, watch, there, whole, plain, same, one⟩
      · rcases monitored_parent roots sys files rootDirs _ member monitored with
          listed | ⟨dir, inside, name, isDir, whole, simple, above⟩
        · obtain ⟨owner, there, same, _⟩ := growth.rootDirs _ listed
          exact absurd same (absent owner there)
        · refine .parent dir name inside isDir whole simple above ?_
          have earlier : dir ∈ state.sys.files := by
            rw [posts] at inside
            refine (List.mem_append.mp inside).resolve_right fun new => ?_
            obtain rfl := List.mem_singleton.mp new
            exact join_ne slash _ _ whole.symm
          rintro ⟨watch, there, same⟩
          exact unwatched dir earlier name simple.2 whole watch there same
      · refine .queued dir name watch (larger dir inside) whole there same
          ⟨pending state, [], ?_, ?_⟩
        · rw [one]
          rfl
        · intro older cached
          refine (dead_label roots state growth older path cached).resolve_left ?_
          rintro ⟨live, living, rfl⟩
          obtain ⟨owner, inside, _, same, _⟩ := growth.labels live living path cached
          exact absent owner inside same

theorem rmdir_posts (sys : System) (path : Path) (effect : Effect) (unlimited : sys.limit = none)
    (made : remove sys path true = some effect) :
    ∃ file, lookup sys.files path = some file ∧ happen effect = { sys with
      files := sys.files.filter (·.path != path)
      watches := sys.watches.filter (·.ino != file.ino)
      queue := sys.queue ++ parting sys.watches IN_DELETE_SELF file.ino } := by
  unfold remove at made
  split at made
  · cases made
  · next file found =>
      split at made
      · cases made
        refine ⟨file, found, ?_⟩
        rw [happen_posts _ (some file.ino) rfl, post_all_unlimited]
        · simp [bne]
        · exact unlimited
      · cases made

/-- A removed directory was empty, so no other directory loses its place. -/
theorem rmdir_growth (roots : List Path) (state : State) (path : Path) (effect : Effect)
    (growth : Growth roots state) (made : remove state.sys path true = some effect)
    (other : path ∉ roots) (agrees : Agrees (state.withSys (happen effect))) :
    Growth roots (state.withSys (happen effect)) := by
  obtain ⟨ok, filtered, _, file, found, _, empty, _⟩ :=
    remove_ok state.sys path true effect growth.files made
  obtain ⟨file', found', posts⟩ := rmdir_posts state.sys path effect growth.limit made
  obtain rfl := Option.some.inj (found.symm.trans found')
  obtain ⟨inside, rfl⟩ := lookup_some _ _ _ found
  have files : FilesOk (happen effect) := by
    unfold remove at made
    rw [found] at made
    dsimp only at made
    split at made
    · cases made
      rw [posts]
      exact files_ok_same _ _ ok rfl rfl
    · cases made
  generalize happen effect = sys at posts agrees files ⊢
  have limit : sys.limit = none := by rw [posts, growth.limit]
  have kept : ∀ one, one ∈ sys.files ↔ one ∈ state.sys.files ∧
      one.path ≠ file.path := by
    intro one
    rw [posts, List.mem_filter, bne_iff_ne]
  have watches : ∀ watch, watch ∈ sys.watches ↔ watch ∈ state.sys.watches ∧
      watch.ino ≠ file.ino := by
    intro watch
    rw [posts, List.mem_filter, bne_iff_ne]
  have different : ∀ one ∈ state.sys.files, one.path ≠ file.path ↔
      one.ino ≠ file.ino := by
    intro one there
    refine not_congr ⟨fun same => ?_, fun same => ?_⟩
    · rw [List.inj_on_of_nodup_map growth.files.paths there inside same]
    · rw [List.inj_on_of_nodup_map growth.files.inodes there inside same]
  have waiting : pending (state.withSys sys) =
      pending state ++ parting state.sys.watches IN_DELETE_SELF file.ino := by
    change state.buffer ++ sys.queue = _
    rw [posts, pending, List.append_assoc]
  have posted : parting state.sys.watches IN_DELETE_SELF file.ino = [] ∨
      ∃ watch ∈ state.sys.watches, parting state.sys.watches IN_DELETE_SELF file.ino =
        [deleted watch.wd, ⟨watch.wd, IN_IGNORED, 0, []⟩] := by
    unfold parting
    cases watched : watchOf state.sys.watches file.ino with
    | none => exact Or.inl rfl
    | some watch => exact Or.inr ⟨watch, (watch_of_some _ _ _ watched).1, rfl⟩
  refine ⟨agrees, growth.running, growth.listed, files, limit, ?_, growth.never,
    growth.walking, ?_, ?_, growth.monitored, ?_, ?_, ?_⟩
  · intro root listed
    obtain ⟨owner, there, rfl, directory⟩ := growth.rootDirs root listed
    exact ⟨owner, (kept owner).mpr ⟨there, fun same => other (same ▸ listed)⟩,
      rfl, directory⟩
  · intro watch member label cached
    obtain ⟨there, alive⟩ := (watches watch).mp member
    obtain ⟨owner, earlier, same, rfl, directory⟩ := growth.labels watch there label cached
    exact ⟨owner, (kept owner).mpr ⟨earlier, (different owner earlier).mpr (same ▸ alive)⟩,
      same, rfl, directory⟩
  · intro root listed wd cached
    obtain ⟨watch, there, rfl⟩ := growth.rootLabels root listed wd cached
    obtain ⟨owner, earlier, same, rfl, _⟩ := growth.labels watch there root cached
    refine ⟨watch, (watches watch).mpr ⟨there, ?_⟩, rfl⟩
    rw [← same]
    exact (different owner earlier).mp fun here => other (here ▸ listed)
  · intro ev member
    rw [waiting] at member
    rcases List.mem_append.mp member with old | new
    · exact growth.events ev old
    · rcases posted with none | ⟨watch, there, two⟩
      · rw [none] at new
        cases new
      · rw [two] at new
        rcases List.mem_pair.mp new with rfl | rfl
        · exact .deleted rfl (growth.agrees.cached watch there)
        · exact .ignored rfl
  · rw [waiting, List.pairwise_append]
    refine ⟨growth.final, ?_, ?_⟩
    · rcases posted with none | ⟨watch, _, two⟩
      · rw [none]
        exact .nil
      · rw [two]
        exact List.pairwise_pair.mpr fun _ _ => rfl
    · intro first old later new removed same
      have dead := deleted_dead roots state growth first.wd (removed ▸ old)
      rcases posted with none | ⟨watch, there, two⟩
      · rw [none] at new
        cases new
      · rw [two] at new
        rcases List.mem_pair.mp new with rfl | rfl
        · exact absurd same (dead watch there)
        · rfl
  · intro one member directory monitored
    obtain ⟨earlier, apart⟩ := (kept one).mp member
    rw [waiting]
    have stays : ∀ dir ∈ state.sys.files, ∀ name, one.path = join slash dir.path name →
        dir ∈ sys.files ∧ ∀ watch ∈ state.sys.watches,
          watch.ino = dir.ino → watch ∈ sys.watches := by
      intro dir there name whole
      have outer : dir.path ≠ file.path := by
        intro same
        refine apart (empty_below state.sys.files file.path empty one earlier ?_)
        rw [whole, ← same]
        exact below_join slash _ _
      refine ⟨(kept dir).mpr ⟨there, outer⟩, fun watch living same =>
        (watches watch).mpr ⟨living, ?_⟩⟩
      rw [same]
      exact (different dir there).mp outer
    rcases growth.covered one earlier directory monitored with ⟨watch, there, same⟩ | covered
    · exact Or.inl ⟨watch,
        (watches watch).mpr ⟨there, same ▸ (different one earlier).mp apart⟩, same⟩
    · exact Or.inr (covered_kept roots _ _ _ _ _ _ _ _ one stays
        (fun watch member => ((watches watch).mp member).1) covered)

/-! The monitor handles an event. -/

theorem strip_append (front name : Path) (simple : Simple slash name) :
    stripSlashes (front ++ name) = front ++ name := by
  have reversed : (front ++ name).reverse.dropWhile (· = slash) = (front ++ name).reverse := by
    obtain ⟨last, body, same⟩ :=
      List.exists_cons_of_ne_nil (List.reverse_ne_nil_iff.mpr simple.1)
    have inside : last ∈ name := List.mem_reverse.mp (same ▸ List.mem_cons_self)
    have other : last ≠ slash := fun hit => simple.2 (hit ▸ inside)
    simp [same, other]
  unfold stripSlashes
  rw [reversed, List.reverse_reverse]
  cases whole : front ++ name with
  | nil => exact absurd (List.append_eq_nil_iff.mp whole).2 simple.1
  | cons _ _ => rfl

theorem strip_join (dir name : Path) (simple : Simple slash name) :
    stripSlashes (join slash dir name) = join slash dir name := by
  rw [show join slash dir name = (dir ++ [slash]) ++ name by simp [join]]
  exact strip_append _ name simple

theorem strip_placed (files : List File) (path : Path) (placed : Placed files path) :
    stripSlashes path = path := by
  rcases placed with simple | ⟨dir, name, rfl, simple, _⟩
  · exact strip_append [] path simple
  · exact strip_join dir name simple

/-- The walk is idle; the next event is the creation, or the cover is kept. -/
theorem covered_popped (roots : List Path) (files : List File) (watches : List Watch)
    (cache left : Cache) (tasks : List TreeRace.Task) (ev : Event) (rest : List Event) (file : File)
    (kept : ∀ entry ∈ entries left, entry ∈ entries cache ∧ deleted entry.1 ≠ ev)
    (covered : Covered roots files watches cache [] (ev :: rest) file) :
    Covered roots files watches left tasks rest file ∨
    ∃ dir ∈ files, ∃ name, ∃ watch ∈ watches, watch.ino = dir.ino ∧
      file.path = join slash dir.path name ∧ ev = created watch.wd name ∧
      ∀ older, (older, file.path) ∉ entries cache := by
  cases covered with
  | visit task => cases task
  | list dir name path simple task => cases task
  | parent dir name inside directory path simple below unwatched =>
      exact Or.inl (.parent dir name inside directory path simple below unwatched)
  | queued dir name watch inside path member same queued =>
      obtain ⟨before, after, order, older⟩ := queued
      cases before with
      | nil =>
          obtain ⟨rfl, rfl⟩ := List.cons.inj order
          refine Or.inr ⟨dir, inside, name, watch, member, same, path, rfl, fun wd cached => ?_⟩
          exact absurd (older wd cached) List.not_mem_nil
      | cons head before =>
          obtain ⟨rfl, rfl⟩ := List.cons.inj order
          refine Or.inl (.queued dir name watch inside path member same
            ⟨before, after, rfl, ?_⟩)
          intro wd cached
          obtain ⟨earlier, other⟩ := kept (wd, file.path) cached
          exact (List.mem_cons.mp (older wd earlier)).resolve_left other

section Process
variable (roots : List Path) (state : State) (growth : Growth roots state) (ev : Event)
  (rest : List Event) (still : state.tasks = []) (buffer : state.buffer = ev :: rest)
include growth still buffer

theorem follow_growth (plan : Plan) (agrees : Agrees (follow state ev rest plan))
    (listed : plan.roots = state.world.roots) (consumed : plan.consumed = .one)
    (kept : ∀ entry ∈ entries plan.cache, entry ∈ entries state.world.cache ∧
      deleted entry.1 ≠ ev)
    (lost : ∀ entry ∈ entries state.world.cache, entry ∈ entries plan.cache ∨
      ev = deleted entry.1)
    (walking : ∀ task ∈ tasksOf plan.job, ∃ path, task = .visit path ∧ Monitored roots path)
    (visited : ∀ dir ∈ state.sys.files, ∀ name, ∀ watch ∈ state.sys.watches,
      watch.ino = dir.ino →
      ev = created watch.wd name →
      (∀ older, (older, join slash dir.path name) ∉ entries state.world.cache) →
      TreeRace.Task.visit (join slash dir.path name) ∈ tasksOf plan.job) :
    Growth roots (follow state ev rest plan) := by
  have before : pending state = ev :: (rest ++ state.sys.queue) := by
    rw [pending, buffer, List.cons_append]
  have after : pending (follow state ev rest plan) = rest ++ state.sys.queue := by
    simp [pending, follow, consumed, bufferAfter, State.sys]
  have final := growth.final
  rw [before, List.pairwise_cons] at final
  refine ⟨agrees, growth.running, listed.trans growth.listed, growth.files,
    growth.limit, growth.rootDirs, growth.never, ?_, ?_, ?_, ?_, ?_, ?_, ?_⟩
  · intro task member
    obtain ⟨path, same, below⟩ := walking task member
    exact Or.inr ⟨path, Or.inl same, below⟩
  · intro watch member label cached
    exact growth.labels watch member label (kept _ cached).1
  · intro root inside wd cached
    exact growth.rootLabels root inside wd (kept _ cached).1
  · intro wd label cached
    exact growth.monitored wd label (kept _ cached).1
  · intro later member
    rw [after] at member
    have stays : later.wd ∈ descriptors state.world.cache →
        later.mask = IN_IGNORED ∨ later.wd ∈ descriptors plan.cache := by
      intro cached
      obtain ⟨⟨wd, label⟩, inside, rfl⟩ := List.mem_map.mp cached
      rcases lost _ inside with stays | gone
      · exact Or.inr (List.mem_map.mpr ⟨_, stays, rfl⟩)
      · refine Or.inl (final.1 later member ?_ ?_)
        · rw [gone]
          rfl
        · rw [gone]
          rfl
    cases growth.events later (by rw [before]; exact List.mem_cons_of_mem _ member) with
    | ignored mask => exact .ignored mask
    | deleted same cached =>
        rcases stays cached with mask | cached
        · exact .ignored mask
        · exact .deleted same cached
    | created same simple cached short =>
        rcases stays cached with mask | cached
        · exact .ignored mask
        · exact .created same simple cached fun path inside => short path (kept _ inside).1
  · rw [after]
    exact final.2
  · intro file member directory monitored
    rw [after]
    refine (growth.covered file member directory monitored).imp_right fun covered => ?_
    rw [still, before] at covered
    rcases covered_popped roots _ _ _ plan.cache (tasksOf plan.job) ev _ file kept covered with
      left | ⟨dir, inside, name, watch, there, same, path, head, absent⟩
    · exact left
    · refine .visit ?_
      rw [path] at absent ⊢
      exact visited dir inside name watch there same head absent

theorem process_growth (after : State) (taken : process state = some after)
    (agrees : after.exited = false → Agrees after) : Growth roots after := by
  have planned : ∀ plan, processNextInotifyEvent state.world.cache state.world.roots ev rest.head?
      state.firstTry = some plan → after = follow state ev rest plan := by
    intro plan planned
    obtain ⟨first, others, _, held, _, _, rfl, same⟩ := process_cases state after taken
    obtain ⟨rfl, rfl⟩ := List.cons.inj (held.symm.trans buffer)
    rw [same, planned, Option.elim_some]
  have waiting : ev ∈ pending state := head_pending state ev rest buffer
  cases growth.events ev waiting with
  | ignored mask =>
      have slot : eventSlot state.world.cache ev = some 0 :=
        if_neg fun both => absurd both.2 (by rw [mask]; decide)
      obtain rfl := planned _ (process_skipped _ _ ev _ _ 0 slot (Or.inl mask))
      refine follow_growth roots state growth ev rest still buffer _ (agrees growth.running)
        rfl rfl ?_ ?_ ?_ ?_
      · rintro entry cached
        refine ⟨cached, ?_⟩
        rintro rfl
        exact absurd mask (by simp [deleted, IN_DELETE_SELF, IN_IGNORED])
      · exact fun entry cached => Or.inl cached
      · intro task member
        cases member
      · rintro dir _ name watch _ _ rfl
        exact absurd mask (by simp [created, IN_CREATE, IN_ISDIR, IN_IGNORED])
  | deleted same cached =>
      have valid := (growth.agrees.numbers ev.wd cached).1
      have mask : ev.mask = IN_DELETE_SELF := congrArg Event.mask same
      rcases event_slot_cases state.world.cache ev (by omega) (by rw [mask]; decide) with
        ⟨_, missing⟩ | ⟨slot, label, found, there, named, inside⟩
      · exact absurd cached missing
      have outside : isRootDirPath state.world.roots label = false := by
        rw [Bool.eq_false_iff]
        intro hit
        rw [is_root_iff, growth.listed] at hit
        obtain ⟨root, listed, fits⟩ := List.mem_map.mp hit
        obtain rfl : root = label := Option.some.inj fits
        obtain ⟨watch, living, wd⟩ := growth.rootLabels root listed ev.wd inside
        exact deleted_dead roots state growth ev.wd (same ▸ waiting) watch living wd
      have branch :=
        process_deleted state.world.cache state.world.roots ev rest.head? state.firstTry slot
          found mask
      unfold directoryDeleted at branch
      dsimp only at branch
      rw [named, if_neg (by simp [outside])] at branch
      obtain rfl := planned _ branch
      have clear :=
        mem_entries_clear state.world.cache growth.agrees.wellFormed slot ev.wd label (by omega)
          there
      refine follow_growth roots state growth ev rest still buffer _ (agrees growth.running)
        rfl rfl ?_ ?_ ?_ ?_
      · intro entry left
        obtain ⟨earlier, apart⟩ := (clear entry).mp left
        exact ⟨earlier, fun bad => apart (congrArg Event.wd bad)⟩
      · intro entry earlier
        by_cases gone : entry.1 = ev.wd
        · exact Or.inr (gone ▸ same)
        · exact Or.inl ((clear entry).mpr ⟨earlier, gone⟩)
      · intro task member
        cases member
      · rintro dir _ name watch _ _ rfl
        exact absurd mask (by simp [created, IN_CREATE, IN_ISDIR, IN_DELETE_SELF])
  | created same simple cached short =>
      have valid := (growth.agrees.numbers ev.wd cached).1
      have mask : ev.mask = IN_CREATE ||| IN_ISDIR := congrArg Event.mask same
      rcases event_slot_cases state.world.cache ev (by omega) (by rw [mask]; decide) with
        ⟨_, missing⟩ | ⟨slot, label, found, there, named, inside⟩
      · exact absurd cached missing
      have branch :=
        process_created state.world.cache state.world.roots ev rest.head? state.firstTry slot
          found (Or.inl mask)
      have full : fullPath label ev.name = join slash label ev.name :=
        List.take_of_length_le (Nat.le_sub_one_of_lt (short label inside))
      unfold directoryCreated at branch
      rw [named, full] at branch
      obtain rfl := planned _ branch
      refine follow_growth roots state growth ev rest still buffer _ (agrees growth.running)
        rfl rfl ?_ ?_ ?_ ?_
      · intro entry earlier
        refine ⟨earlier, ?_⟩
        rintro rfl
        exact absurd mask (by simp [deleted, IN_CREATE, IN_ISDIR, IN_DELETE_SELF])
      · exact fun entry earlier => Or.inl earlier
      · intro task member
        dsimp only at member
        split at member
        · cases member
        · rw [tasksOf, List.mem_singleton, strip_join _ _ simple] at member
          exact ⟨_, member, monitored_join roots label ev.name
            (growth.monitored ev.wd label inside)⟩
      · intro dir there' name watch living ino head absent
        have wd : ev.wd = watch.wd := congrArg Event.wd head
        obtain rfl : ev.name = name := congrArg Event.name head
        obtain rfl : dir.path = label := entry_unique _ growth.agrees.wellFormed ev.wd _ _
          (wd ▸ live_label roots state growth watch living dir there' ino) inside
        have free : ¬ pathnameInCache state.world.cache (join slash dir.path ev.name) = true := by
          rw [pathname_in_cache]
          rintro ⟨older, hit⟩
          exact absent older hit
        dsimp only
        rw [if_neg free, tasksOf, strip_join _ _ simple]
        exact List.mem_cons_self

end Process

/-! The monitor walks on. -/

theorem covered_tasks (roots : List Path) (files : List File) (watches : List Watch) (cache : Cache)
    (tasks more : List TreeRace.Task) (events : List Event) (file : File)
    (visits : TreeRace.Task.visit file.path ∈ tasks → TreeRace.Task.visit file.path ∈ more)
    (lists : ∀ dir name, file.path = join slash dir name → Simple slash name →
      TreeRace.Task.list dir ∈ tasks → TreeRace.Task.list dir ∈ more ∨
      TreeRace.Task.visit file.path ∈ more)
    (covered : Covered roots files watches cache tasks events file) :
    Covered roots files watches cache more events file := by
  cases covered with
  | visit task => exact .visit (visits task)
  | list dir name path simple task =>
      rcases lists dir name path simple task with listed | visited
      · exact .list dir name path simple listed
      · exact .visit visited
  | queued dir name watch inside path member same queued =>
      exact .queued dir name watch inside path member same queued
  | parent dir name inside directory path simple below unwatched =>
      exact .parent dir name inside directory path simple below unwatched

/-- Events stay expected when one more directory is watched. -/
theorem expected_grown (before after : World System) (file : File) (grown : Grown before after file)
    (ev : Event) (expected : Expected before.cache ev) : Expected after.cache ev := by
  have stays : ev.wd ∈ descriptors before.cache → ev.wd ∈ descriptors after.cache := by
    intro cached
    obtain ⟨entry, there, same⟩ := List.mem_map.mp cached
    exact List.mem_map.mpr ⟨entry, grown.entries entry there, same⟩
  cases expected with
  | ignored mask => exact .ignored mask
  | deleted same cached => exact .deleted same (stays cached)
  | created same simple cached short =>
      refine .created same simple (stays cached) fun path there => ?_
      rcases grown.added ev.wd path there with old | ⟨_, fresh, _⟩
      · exact short path old
      · exact absurd cached fresh

/-- The visit of a directory leaves the others covered, its children by its listing. -/
theorem covered_visited {roots : List Path} (before after : World System) (file : File)
    (grown : Grown before after file) (inodes : (before.state.files.map (·.ino)).Nodup)
    (member : file ∈ before.state.files) (rest : List TreeRace.Task) (events : List Event)
    (one : File) (elsewhere : one.path ≠ file.path)
    (covered : Covered roots before.state.files before.state.watches before.cache
      (.visit file.path :: rest) events one) :
    Covered roots before.state.files after.state.watches after.cache
      (.list file.path :: rest) events one := by
  cases covered with
  | visit task =>
      refine .visit (List.mem_cons_of_mem _ ((List.mem_cons.mp task).resolve_left fun same => ?_))
      exact elsewhere (TreeRace.Task.visit.inj same)
  | list dir name path simple task =>
      refine .list dir name path simple (List.mem_cons_of_mem _ ?_)
      exact (List.mem_cons.mp task).resolve_left TreeRace.Task.noConfusion
  | queued dir name watch there path living same queued =>
      obtain ⟨again, alive, wd, ino⟩ := grown.kept watch living
      obtain ⟨earlier, later, order, older⟩ := queued
      refine .queued dir name again there path alive (ino.trans same) ⟨earlier,
        later, wd ▸ order, ?_⟩
      intro number cached
      rcases grown.added number one.path cached with old | ⟨same, _⟩
      · exact older number old
      · exact absurd same elsewhere
  | parent dir name there directory path simple above unwatched =>
      by_cases newly : Watched after.state.watches dir
      · -- the directory has just been watched and will be listed
        obtain ⟨watch, living, same⟩ := newly
        rcases grown.origin watch living with ⟨old, earlier, _, ino⟩ | ⟨ino, _⟩
        · exact absurd ⟨old, earlier, ino.trans same⟩ unwatched
        · obtain rfl := List.inj_on_of_nodup_map inodes there member (same.symm.trans ino)
          exact .list dir.path name path simple List.mem_cons_self
      · exact .parent dir name there directory path simple above newly

section Work
variable (roots : List Path) (state : State) (growth : Growth roots state)
include growth

/-- Growth does not depend on the tasks but for the walk and the cover. -/
theorem tasks_growth (tasks : List TreeRace.Task) (agrees : Agrees { state with tasks := tasks })
    (walking : ∀ task ∈ tasks,
      task = .next ∨ ∃ path, (task = .visit path ∨ task = .list path) ∧
      Monitored roots path)
    (covered : ∀ file ∈ state.sys.files, file.isDir = true →
      Covered roots state.sys.files state.sys.watches state.world.cache state.tasks
        (pending state) file →
      Covered roots state.sys.files state.sys.watches state.world.cache tasks
        (pending state) file) :
    Growth roots { state with tasks := tasks } :=
  ⟨agrees, growth.running, growth.listed, growth.files, growth.limit, growth.rootDirs,
    growth.never, walking, growth.labels, growth.rootLabels, growth.monitored,
    growth.events, growth.final, fun file member directory monitored =>
      (growth.covered file member directory monitored).imp_right
        (covered file member directory)⟩

theorem visited_growth (refuse : Bool) (file : File) (member : file ∈ state.sys.files)
    (directory : file.isDir = true) (rest : List TreeRace.Task)
    (tasks : state.tasks = .visit file.path :: rest) (world : World System)
    (walked : traverseTree (kernel refuse) state.world file.path = some world)
    (agrees : Agrees { state with world := world, tasks := .list file.path :: rest }) :
    Growth roots { state with world := world, tasks := .list file.path :: rest } := by
  have grown := visited_grown refuse state growth.agrees file
    (lookup_mem _ growth.files.paths file member) world walked
  obtain ⟨sameRoots, files, nextIno, queue, limit, _⟩ := grown.rest
  have monitored : Monitored roots file.path := by
    rcases growth.walking (.visit file.path) (tasks ▸ List.mem_cons_self) with
      same | ⟨path, same | same, below⟩
    · cases same
    · cases same
      exact below
    · cases same
  have ok : FilesOk world.state := files_ok_same _ _ growth.files files nextIno
  have waiting : state.buffer ++ world.state.queue = pending state := by rw [queue, pending]
  refine ⟨agrees, growth.running, sameRoots.trans growth.listed, ok, limit.trans growth.limit, ?_,
    growth.never, ?_, ?_, ?_, ?_, ?_, ?_, ?_⟩
  · change ∀ root ∈ roots, ∃ one ∈ world.state.files, _
    rw [files]
    exact growth.rootDirs
  · intro task inside
    rcases List.mem_cons.mp inside with rfl | later
    · exact Or.inr ⟨file.path, Or.inr rfl, monitored⟩
    · exact growth.walking task (tasks ▸ List.mem_cons_of_mem _ later)
  · intro watch living label cached
    change ∃ one ∈ world.state.files, _
    rw [files]
    rcases grown.added watch.wd label cached with old | ⟨rfl, _, other, there, wd, ino⟩
    · rcases grown.origin watch living with ⟨earlier, before, wd, ino⟩ | ⟨_, fresh⟩
      · obtain ⟨one, inside, same, facts⟩ := growth.labels earlier before label (wd ▸ old)
        exact ⟨one, inside, same.trans ino, facts⟩
      · exact absurd (List.mem_map.mpr ⟨_, old, rfl⟩) fresh
    · obtain rfl := List.inj_on_of_nodup_map agrees.ok.descriptors there living wd
      exact ⟨file, member, ino.symm, rfl, directory⟩
  · intro root listed wd cached
    rcases grown.added wd root cached with old | ⟨_, _, watch, there, same, _⟩
    · obtain ⟨watch, living, rfl⟩ := growth.rootLabels root listed wd old
      obtain ⟨same, there, wd, _⟩ := grown.kept watch living
      exact ⟨same, there, wd⟩
    · exact ⟨watch, there, same⟩
  · intro wd label cached
    rcases grown.added wd label cached with old | ⟨rfl, _⟩
    · exact growth.monitored wd label old
    · exact monitored
  · intro ev inside
    change ev ∈ state.buffer ++ world.state.queue at inside
    rw [waiting] at inside
    exact expected_grown state.world world file grown ev (growth.events ev inside)
  · change (state.buffer ++ world.state.queue).Pairwise Final
    rw [waiting]
    exact growth.final
  · intro one inside isDir below
    change one ∈ world.state.files at inside
    rw [files] at inside
    change Watched world.state.watches one ∨
      Covered roots world.state.files world.state.watches world.cache
      _ (state.buffer ++ world.state.queue) one
    rw [files, waiting]
    by_cases here : one = file
    · rw [here]
      exact Or.inl grown.watched
    have elsewhere : one.path ≠ file.path := fun same =>
      here (List.inj_on_of_nodup_map growth.files.paths inside member same)
    rcases growth.covered one inside isDir below with ⟨watch, living, same⟩ | covered
    · obtain ⟨again, there, _, ino⟩ := grown.kept watch living
      exact Or.inl ⟨again, there, ino.trans same⟩
    · rw [tasks] at covered
      exact Or.inr (covered_visited state.world world file grown growth.files.inodes member
        rest (pending state) one elsewhere covered)

theorem work_growth (refuse : Bool) (after : State) (taken : work refuse state = some after)
    (agrees : after.exited = false → Agrees after) : Growth roots after := by
  unfold work at taken
  rw [if_neg (by simp [growth.running])] at taken
  split at taken
  · cases taken
  · next path rest tasks =>
      cases taken
      unfold visit at agrees ⊢
      by_cases present : isDirectory state.sys.files path = true
      · rw [if_pos present] at agrees ⊢
        obtain ⟨world, walked⟩ :=
          traverse_total (kernel refuse) rfl state.world growth.files path present
        rw [walked] at agrees ⊢
        obtain ⟨file, member, rfl, directory⟩ :=
          (is_directory_iff _ growth.files.paths path).mp present
        exact visited_growth roots state growth refuse file member directory rest tasks world walked
          (agrees growth.running)
      · rw [if_neg present] at agrees ⊢
        refine tasks_growth roots state growth rest (agrees growth.running) ?_ ?_
        · intro task later
          exact growth.walking task (tasks ▸ List.mem_cons_of_mem _ later)
        · intro file member directory covered
          refine covered_tasks roots _ _ _ _ rest _ file ?_ ?_ covered
          · intro task
            rw [tasks] at task
            refine (List.mem_cons.mp task).resolve_left fun same => present ?_
            rw [is_directory_iff _ growth.files.paths]
            exact ⟨file, member, TreeRace.Task.visit.inj same, directory⟩
          · intro dir name _ _ task
            rw [tasks] at task
            exact Or.inl ((List.mem_cons.mp task).resolve_left TreeRace.Task.noConfusion)
  · next path rest tasks =>
      cases taken
      have monitored : Monitored roots path := by
        rcases growth.walking (.list path) (tasks ▸ List.mem_cons_self) with
          same | ⟨other, same | same, below⟩
        · cases same
        · cases same
        · cases same
          exact below
      refine tasks_growth roots state growth _ (agrees growth.running) ?_ ?_
      · intro task inside
        rcases List.mem_append.mp inside with new | later
        · obtain ⟨one, listed, rfl⟩ := List.mem_map.mp new
          obtain ⟨_, _, name, _, _, rfl, _⟩ :=
            (mem_subdirectories state.sys growth.files path one).mp listed
          exact Or.inr ⟨_, Or.inl rfl, monitored_join roots path name monitored⟩
        · exact growth.walking task (tasks ▸ List.mem_cons_of_mem _ later)
      · intro file member directory covered
        refine covered_tasks roots _ _ _ _ _ _ file ?_ ?_ covered
        · intro task
          rw [tasks] at task
          exact List.mem_append_right _
            ((List.mem_cons.mp task).resolve_left TreeRace.Task.noConfusion)
        · intro dir name whole simple task
          rw [tasks] at task
          rcases List.mem_cons.mp task with same | later
          · cases same
            refine Or.inr (List.mem_append_left _ (List.mem_map.mpr ⟨file.path, ?_, rfl⟩))
            exact (mem_subdirectories state.sys growth.files path file.path).mpr
              ⟨file, member, name, rfl, directory, whole, simple⟩
          · exact Or.inl (List.mem_append_right _ later)
  · next path index strict rest tasks =>
      rcases growth.walking (.zap path index strict) (tasks ▸ List.mem_cons_self) with
        bad | ⟨_, bad | bad, _⟩ <;> cases bad
  · next counted rest tasks =>
      rcases growth.walking (.reinit counted) (tasks ▸ List.mem_cons_self) with
        bad | ⟨_, bad | bad, _⟩ <;> cases bad
  · next rest tasks =>
      cases taken
      refine tasks_growth roots state growth rest (agrees growth.running) ?_ ?_
      · intro task later
        exact growth.walking task (tasks ▸ List.mem_cons_of_mem _ later)
      · intro file member directory covered
        refine covered_tasks roots _ _ _ _ rest _ file ?_ ?_ covered
        · intro task
          rw [tasks] at task
          exact (List.mem_cons.mp task).resolve_left TreeRace.Task.noConfusion
        · intro dir name _ _ task
          rw [tasks] at task
          exact Or.inl ((List.mem_cons.mp task).resolve_left TreeRace.Task.noConfusion)

/-- What is given up would have led to directories that are gone. -/
theorem give_up_growth (after : State) (taken : giveUp state = some after)
    (none : ∀ task ∈ abandoned state, present state.sys.files task = false)
    (agrees : after.exited = false → Agrees after) : Growth roots after := by
  obtain ⟨_, rfl, whole, _⟩ := give_up_cases state after taken
  have kept : ∀ task ∈ state.tasks, present state.sys.files task = true →
      task ∈ state.tasks.dropWhile ofWalk := by
    intro task member left
    rw [whole] at member
    refine (List.mem_append.mp member).resolve_left fun dropped => ?_
    exact absurd left (Bool.eq_false_iff.mp (none task dropped))
  refine tasks_growth roots state growth _ (agrees growth.running) ?_ ?_
  · intro task later
    exact growth.walking task (whole ▸ List.mem_append_right _ later)
  · intro file member directory covered
    refine covered_tasks roots _ _ _ _ _ _ file ?_ ?_ covered
    · intro task
      exact kept _ task ((is_directory_iff _ growth.files.paths file.path).mpr ⟨file,
        member, rfl, directory⟩)
    · intro dir name whole simple task
      rcases growth.walking _ task with same | ⟨path, same | same, root, listed, below⟩
      · cases same
      · cases same
      · cases same
        obtain ⟨owner, there, rfl, _⟩ := growth.rootDirs root listed
        have nonempty : dir ≠ [] := by
          rintro rfl
          have empty :=
            List.length_eq_zero_iff.mp (Nat.le_zero.mp (below_length slash owner.path [] below))
          exact placed_nonempty _ _ (growth.files.placed owner there) empty
        exact Or.inl
          (kept _ task (parent_present state.sys growth.files dir name nonempty simple file member
          whole))

end Work

/-! Whole runs. -/

theorem start_growth (roots : List Path) (state : State) (started : Started roots state) :
    Growth roots state := by
  obtain ⟨sys, ok, late, unlimited, directories, rfl⟩ := started
  have rootDirs : ∀ root ∈ roots, ∃ file ∈ sys.files,
      file.path = root ∧ file.isDir = true :=
    fun root listed => (is_directory_iff _ ok.paths root).mp (directories root listed)
  have stripped : ∀ root ∈ roots, stripSlashes root = root := by
    intro root listed
    obtain ⟨file, member, rfl, _⟩ := rootDirs root listed
    exact strip_placed sys.files file.path (ok.placed file member)
  refine ⟨start_agrees roots sys late, rfl, rfl, files_ok_same _ _ ok rfl rfl,
    unlimited, rootDirs, rfl, ?_, ?_, ?_, ?_, ?_, .nil, ?_⟩
  · intro task member
    refine (mem_walks roots task member).imp_right ?_
    rintro ⟨root, listed, rfl⟩
    rw [stripped root listed]
    exact ⟨root, Or.inl rfl, root, listed, below_refl slash root⟩
  · intro watch member
    cases member
  · intro root listed wd cached
    cases cached
  · intro wd path cached
    cases cached
  · intro ev member
    cases member
  · intro file member directory monitored
    refine Or.inr ?_
    rcases monitored_parent roots sys ok rootDirs file member monitored with
      listed | ⟨dir, inside, name, isDir, path, simple, above⟩
    · refine .visit ?_
      have visited := visit_mem_walks roots file.path listed
      rwa [stripped file.path listed] at visited
    · refine .parent dir name inside isDir path simple above ?_
      rintro ⟨watch, living, _⟩
      cases living

theorem step_growth (roots : List Path) (choice : Choice) (before after : State)
    (growth : Growth roots before)
    (taken : Transition.restrict carefully step choice before = some after) :
    Growth roots after := by
  obtain ⟨fine, taken⟩ := Transition.restrict_some taken
  rw [carefully, Bool.and_eq_true] at fine
  obtain ⟨fine, cautious⟩ := fine
  have agrees : after.exited = false → Agrees after :=
    step_running choice before after (fun _ => growth.agrees) taken
  cases choice with
  | happen op =>
      obtain ⟨effect, made, rfl⟩ := Option.map_eq_some_iff.mp taken
      cases op with
      | create path isDir =>
          cases isDir with
          | true => exact mkdir_growth roots before path effect growth made (agrees growth.running)
          | false => cases fine
      | remove path isDir =>
          cases isDir with
          | true =>
              refine rmdir_growth roots before path effect growth made ?_ (agrees growth.running)
              intro listed
              simp [allowed, growth.listed, listed] at fine
          | false => cases fine
      | rename old new => cases fine
      | unmount path => cases fine
  | begin op => cases fine
  | notify index => cases fine
  | command command => cases fine
  | read amount =>
      have taken : TreeRace.read before amount = some after := taken
      unfold TreeRace.read at taken
      split at taken
      · next ready =>
          cases taken
          have empty : before.buffer = [] := by
            have quiet := ready.1
            unfold idle at quiet
            simp only [Bool.and_eq_true, List.isEmpty_iff] at quiet
            exact quiet.1.1.2
          refine growth_moved roots before _ growth (agrees growth.running) ?_
            ⟨rfl, rfl, rfl, rfl, rfl⟩ ⟨rfl, rfl, rfl⟩ ?_
          · exact files_ok_same _ _ growth.files rfl rfl
          · simp [pending, State.sys, State.withSys, empty]
      · cases taken
  | reread amount =>
      have taken : reread before amount = some after := taken
      unfold reread at taken
      split at taken
      · cases taken
        refine growth_moved roots before _ growth (agrees growth.running) ?_
          ⟨rfl, rfl, rfl, rfl, rfl⟩ ⟨rfl, rfl, rfl⟩ ?_
        · exact files_ok_same _ _ growth.files rfl rfl
        · simp [pending, State.sys, State.withSys]
      · cases taken
  | process =>
      obtain ⟨ev, rest, still, buffer, _⟩ := process_cases before after taken
      exact process_growth roots before growth ev rest still buffer after taken agrees
  | work refuse => exact work_growth roots before growth refuse after taken agrees
  | giveUp =>
      refine give_up_growth roots before growth after taken ?_ agrees
      simpa [careful] using cautious

/-- When nothing is left to do, a monitored directory without a watch would have
one above it, and so on up to a root. -/
theorem all_watched (roots : List Path) (state : State) (growth : Growth roots state)
    (quiet : pending state = []) (still : state.tasks = []) (file : File)
    (member : file ∈ state.sys.files) (directory : file.isDir = true)
    (monitored : Monitored roots file.path) : Watched state.sys.watches file := by
  induction size : file.path.length using Nat.strong_induction_on generalizing file with
  | _ size' ih =>
      refine (growth.covered file member directory monitored).resolve_right fun covered => ?_
      rw [quiet, still] at covered
      cases covered with
      | visit task => cases task
      | list dir name path simple task => cases task
      | queued dir name watch inside path living same queued =>
          obtain ⟨before, after, order, _⟩ := queued
          simp at order
      | parent dir name inside isDir path simple above unwatched =>
          refine unwatched (ih dir.path.length ?_ dir inside isDir above rfl)
          rw [← size, path]
          simp [join]

/-- Every event that is still to come finds its slot, or needs none. -/
theorem pending_found (roots : List Path) (state : State) (growth : Growth roots state) (ev : Event)
    (waiting : ev ∈ pending state) : (eventSlot state.world.cache ev).isSome = true := by
  have looked : ev.wd ∈ descriptors state.world.cache → has ev.mask IN_IGNORED = false →
      (eventSlot state.world.cache ev).isSome = true := by
    intro cached unignored
    have valid := (growth.agrees.numbers ev.wd cached).1
    rcases event_slot_cases state.world.cache ev (by omega) unignored with
      ⟨_, missing⟩ | ⟨slot, _, found, _⟩
    · exact absurd cached missing
    · rw [found]
      rfl
  cases growth.events ev waiting with
  | ignored mask =>
      rw [show eventSlot state.world.cache ev = some 0 from
        if_neg fun both => absurd both.2 (by rw [mask]; decide)]
      rfl
  | deleted same cached =>
      refine looked cached ?_
      rw [show ev.mask = IN_DELETE_SELF from congrArg Event.mask same]
      decide
  | created same simple cached short =>
      refine looked cached ?_
      rw [show ev.mask = IN_CREATE ||| IN_ISDIR from congrArg Event.mask same]
      decide

section Quiet
variable (roots : List Path) (state : State) (growth : Growth roots state)
  (quiet : pending state = [])
include growth quiet

theorem quiet_live (wd : Int) (path : Path) (cached : (wd, path) ∈ entries state.world.cache) :
    ∃ watch ∈ state.sys.watches, watch.wd = wd := by
  refine (dead_label roots state growth wd path cached).resolve_right fun waiting => ?_
  rw [quiet] at waiting
  cases waiting

/-- Two slots for one path would have watches on one inode. -/
theorem quiet_paths : ((entries state.world.cache).map Prod.snd).Nodup := by
  refine List.Nodup.map_on ?_ growth.agrees.wellFormed.distinct.of_map
  rintro ⟨one, path⟩ first ⟨two, path'⟩ second same
  obtain rfl : path = path' := same
  obtain ⟨left, leftLives, rfl⟩ := quiet_live roots state growth quiet one path first
  obtain ⟨right, rightLives, rfl⟩ := quiet_live roots state growth quiet two path second
  obtain ⟨file, member, ino, here, _⟩ := growth.labels left leftLives path first
  obtain ⟨other, inside, ino', here', _⟩ := growth.labels right rightLives path second
  obtain rfl := List.inj_on_of_nodup_map growth.files.paths member inside (here.trans here'.symm)
  rw [List.inj_on_of_nodup_map growth.agrees.ok.inodes leftLives rightLives (ino.symm.trans ino')]

end Quiet

/-- Wherever no walk is given up with a directory left, the lookup of an event succeeds
and nothing is rebuilt; with no event left and no walk under way, the used slots are
the directories at and below the roots under their descriptors, each of them once. -/
theorem growing_trees_are_followed (roots : List Path) (state : State)
    (reached : Transition.Reachable (Started roots) (Transition.restrict carefully step) state) :
    (state.exited = false ∧ state.reinitCnt = 0 ∧
      (∀ counted, TreeRace.Task.reinit counted ∉ state.tasks) ∧
      ∀ ev ∈ pending state, (eventSlot state.world.cache ev).isSome = true) ∧
    (pending state = [] → state.tasks = [] →
      (∀ wd path, (wd, path) ∈ entries state.world.cache ↔ ∃ file ∈ state.sys.files,
        file.path = path ∧ file.isDir = true ∧ (∃ root ∈ roots, Below slash root path) ∧
          ∃ watch ∈ state.sys.watches, watch.wd = wd ∧ watch.ino = file.ino) ∧
      ((entries state.world.cache).map Prod.fst).Nodup ∧
      ((entries state.world.cache).map Prod.snd).Nodup ∧
      ∀ file ∈ state.sys.files,
      file.isDir = true → (∃ root ∈ roots, Below slash root file.path) →
        ∃ wd, (wd, file.path) ∈ entries state.world.cache) := by
  have growth : Growth roots state :=
    Transition.reachable_invariant (start_growth roots) (step_growth roots) reached
  refine ⟨⟨growth.running, growth.never, ?_, pending_found roots state growth⟩,
    fun quiet still => ?_⟩
  · intro counted task
    rcases growth.walking _ task with bad | ⟨_, bad | bad, _⟩ <;> cases bad
  · refine ⟨fun wd path => ⟨fun cached => ?_, ?_⟩, growth.agrees.wellFormed.distinct,
      quiet_paths roots state growth quiet, ?_⟩
    · obtain ⟨watch, living, rfl⟩ := quiet_live roots state growth quiet wd path cached
      obtain ⟨file, member, ino, rfl, directory⟩ := growth.labels watch living path cached
      exact ⟨file, member, rfl, directory, growth.monitored watch.wd file.path cached,
        watch, living, rfl, ino.symm⟩
    · rintro ⟨file, member, rfl, _, _, watch, living, rfl, ino⟩
      exact live_label roots state growth watch living file member ino
    · intro file member directory monitored
      obtain ⟨watch, living, same⟩ :=
        all_watched roots state growth quiet still file member directory monitored
      exact ⟨watch.wd, live_label roots state growth watch living file member same⟩

-- The directory "a/b" is made, removed and made again before the monitor of "a"
-- handles the first creation; the first walk into it comes between the two and is
-- given up. The second directory is watched, and once only.
theorem remade_directory_is_followed :
    let sys : System := ⟨[⟨[97], 0, true⟩], 1, [], 1, 0, [], [], none⟩
    let made : Choice := .happen (.create [97, 47, 98] true)
    let gone : Choice := .happen (.remove [97, 47, 98] true)
    ∃ state, Transition.replay (Transition.restrict carefully step) [.work false,
        .work false, made, gone, .read 0, .process, .giveUp, made, .read 0, .process,
        .work false, .work false] (start [[97]] sys) = some state ∧
      entries state.world.cache = [(1, [97]), (2, [97, 47, 98])] ∧
      ((entries state.world.cache).map Prod.snd).Nodup ∧
      ∃ file ∈ state.sys.files, file.path = [97, 47, 98] ∧ file.isDir = true ∧
        (∃ root ∈ [[97]], Below slash root [97, 47, 98]) ∧
        ∃ watch ∈ state.sys.watches, watch.wd = 2 ∧ watch.ino = file.ino := by
  intro sys made gone
  have ran : (Transition.replay (Transition.restrict carefully step) [.work false,
      .work false, made, gone, .read 0, .process, .giveUp, made, .read 0, .process,
      .work false, .work false]
      (start [[97]] sys)).map (fun state =>
        (pending state, state.tasks, entries state.world.cache)) =
      some ([], [], [(1, [97]), (2, [97, 47, 98])]) := by decide +kernel
  obtain ⟨state, replayed, facts⟩ := Option.map_eq_some_iff.mp ran
  obtain ⟨quiet, still, cached⟩ : pending state = [] ∧ state.tasks = [] ∧
      entries state.world.cache = [(1, [97]), (2, [97, 47, 98])] := by simpa using facts
  have ok : FilesOk sys := by
    refine ⟨by simp [sys], by simp [sys], by simp [sys], ?_, by simp [sys, PATH_MAX]⟩
    intro file member
    obtain rfl := List.mem_singleton.mp member
    exact Or.inl (by simp [Simple, slash])
  have started : Started [[97]] (start [[97]] sys) :=
    ⟨sys, ok, rfl, rfl, by decide, rfl⟩
  have reached := Transition.replay_reachable _ (.start started :
    Transition.Reachable (Started [[97]]) (Transition.restrict carefully step)
      (start [[97]] sys)) replayed
  obtain ⟨_, settled⟩ := growing_trees_are_followed [[97]] state reached
  obtain ⟨exact_, _, once, _⟩ := settled quiet still
  exact ⟨state, replayed, cached, once, (exact_ 2 [97, 47, 98]).mp (by rw [cached]; simp)⟩

-- The walk of "a" has listed "a/b" and "a/c" when "a/b" is removed; `nftw` returns -1
-- there, and "a/c" stays without a watch although all is handled.
theorem abandoned_walk_is_short :
    let sys : System :=
      ⟨[⟨[97], 0, true⟩, ⟨[97, 47, 98], 1, true⟩, ⟨[97, 47, 99], 2, true⟩],
        3, [], 1, 0, [], [], none⟩
    Started [[97]] (start [[97]] sys) ∧
    ∃ state, Transition.replay (Transition.restrict allowed step) [.work false, .work false,
        .happen (.remove [97, 47, 98] true), .giveUp] (start [[97]] sys) = some state ∧
      state.exited = false ∧ pending state = [] ∧ state.tasks = [] ∧
      entries state.world.cache = [(1, [97])] ∧
      ∃ file ∈ state.sys.files, file.path = [97, 47, 99] ∧ file.isDir = true ∧
        (∃ root ∈ [[97]], Below slash root file.path) ∧
        ¬ ∃ wd, (wd, file.path) ∈ entries state.world.cache := by
  intro sys
  have ok : FilesOk sys := by
    refine ⟨by decide, by decide, by simp [sys], ?_, by simp [sys, PATH_MAX]⟩
    intro file member
    have root : (⟨[97], 0, true⟩ : File) ∈ sys.files := List.mem_cons_self
    simp only [sys, List.mem_cons, List.not_mem_nil, or_false] at member
    rcases member with rfl | rfl | rfl
    · exact Or.inl (by simp [Simple, slash])
    · exact Or.inr ⟨[97], [98], rfl, by simp [Simple, slash], Or.inr ⟨_, root, rfl, rfl⟩⟩
    · exact Or.inr ⟨[97], [99], rfl, by simp [Simple, slash], Or.inr ⟨_, root, rfl, rfl⟩⟩
  refine ⟨⟨sys, ok, rfl, rfl, by decide, rfl⟩, ?_⟩
  have ran : (Transition.replay (Transition.restrict allowed step) [.work false, .work false,
      .happen (.remove [97, 47, 98] true), .giveUp] (start [[97]] sys)).any (fun state =>
        decide (state.exited = false ∧ pending state = [] ∧ state.tasks = [] ∧
          entries state.world.cache = [(1, [97])] ∧
          ∃ file ∈ state.sys.files,
          file.path = [97, 47, 99] ∧ file.isDir = true)) = true := by
    decide +kernel
  obtain ⟨state, replayed, facts⟩ := (Option.any_eq_true _ _).mp ran
  obtain ⟨running, quiet, still, cached, file, member, path, directory⟩ :=
    of_decide_eq_true facts
  refine ⟨state, replayed, running, quiet, still, cached, file, member, path, directory, ?_, ?_⟩
  · exact ⟨[97], List.mem_singleton_self _, Or.inr ⟨[99], path⟩⟩
  · rw [cached, path]
    simp

end Tlpi.TreeGrowth
