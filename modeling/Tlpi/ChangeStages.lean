import Mathlib.Data.List.Basic
import Tlpi.HandledEvents

/-!
A state in which the cache mirrors the monitored trees, and the stages through
which the handling of one change goes. The watches and files of the state before
the change name everything: a stage says which of those files still have a slot
and what name stands in it.
-/

namespace Tlpi.ChangeStages

open PathName WatchCache TreeMonitor FileTree WatchSet EventReader SettledTree HandledEvents

/-- Nothing is pending, the cache mirrors the trees, and the watch on a root reports
that the root moves. -/
structure Matches (world : World System) : Prop where
  settled : Settled world
  distinct : Distinct world.roots
  rootDirs : ∀ root, some root ∈ world.roots → ∃ file ∈ world.state.files,
    file.path = root ∧ file.isDir = true
  flags : ∀ watch ∈ world.state.watches, ∀ file ∈ world.state.files,
    file.ino = watch.ino →
    some file.path ∈ world.roots → watch.moveSelf = true

/-- Strictly below a root. -/
def Inside (roots : RootDirPaths) (path : Path) : Prop :=
  ∃ root, some root ∈ roots ∧ Below slash root path ∧ path ≠ root

theorem inside_monitored (roots : RootDirPaths) (path : Path) (inside : Inside roots path) :
    Monitored roots path := by
  obtain ⟨root, listed, below, _⟩ := inside
  exact ⟨root, listed, below⟩

theorem monitored_cases (roots : RootDirPaths) (path : Path) (monitored : Monitored roots path) :
    some path ∈ roots ∨ Inside roots path := by
  obtain ⟨root, listed, below⟩ := monitored
  by_cases here : path = root
  · exact Or.inl (here ▸ listed)
  · exact Or.inr ⟨root, listed, below, here⟩

theorem not_monitored (roots : RootDirPaths) (path : Path) (unlisted : some path ∉ roots)
    (outside : ¬ Inside roots path) : ¬ Monitored roots path := by
  intro monitored
  rcases monitored_cases roots path monitored with listed | inside
  · exact unlisted listed
  · exact outside inside

theorem entry_inside (roots : RootDirPaths) (dir name : Path) (monitored : Monitored roots dir) :
    Inside roots (join slash dir name) := by
  obtain ⟨root, listed, below⟩ := monitored
  refine ⟨root, listed, below_trans slash _ _ _ below (below_join slash dir name), ?_⟩
  rintro rfl
  exact not_below_join slash dir name below

section Roots
variable (world : World System) (fine : Matches world)
include fine

theorem root_nonempty (root : Path) (listed : some root ∈ world.roots) : root ≠ [] := by
  obtain ⟨file, member, rfl, _⟩ := fine.rootDirs root listed
  exact placed_nonempty _ _ (fine.settled.sane.files.placed file member)

theorem inside_parent (path : Path) (placed : Placed world.state.files path)
    (inside : Inside world.roots path) :
    ∃ dir ∈ world.state.files,
      ∃ name, dir.isDir = true ∧ path = join slash dir.path name ∧ slash ∉ name ∧
      Monitored world.roots dir.path := by
  obtain ⟨root, listed, below, strict⟩ := inside
  have nonempty := root_nonempty world fine root listed
  rcases placed with simple | ⟨dir, name, rfl, simple, parent⟩
  · rcases below with same | ⟨more, same⟩
    · exact absurd same strict
    · exact absurd (by rw [same]; simp) simple.2
  · rcases below_join_cases slash root dir name simple.2 below with same | above
    · exact absurd same.symm strict
    · rcases parent with rfl | ⟨owner, member, directory, rfl⟩
      · exact absurd (List.eq_nil_of_length_eq_zero
          (Nat.le_zero.mp (below_length slash _ _ above))) nonempty
      · exact ⟨owner, member, name, directory, rfl, simple.2, root, listed, above⟩

/-- The event about an entry comes exactly when the directory is monitored. -/
theorem entry_events (path : Path) (placed : Placed world.state.files path)
    (mask : Mask) (cookie : Nat) (plain : has mask IN_MOVE_SELF = false) :
    ¬ Inside world.roots path ∧
      (entryNotice world.state.files path mask cookie).flatMap (noticed world.state.watches) =
        [] ∨
    Inside world.roots path ∧ ∃ wd dir name, (wd, dir) ∈ entries world.cache ∧
      path = join slash dir name ∧
      (entryNotice world.state.files path mask cookie).flatMap (noticed world.state.watches) =
        [⟨wd, mask, cookie, name⟩] := by
  have exactly := settled_exact world fine.settled
  rcases entry_noticed world.state.files fine.settled.sane.files.paths world.state.watches
    path mask cookie
    plain with ⟨none_, unwatched⟩ |
      ⟨dir, member, name, watch, living, whole, simple, ino, one⟩
  · refine Or.inl ⟨fun inside => ?_, none_⟩
    obtain ⟨dir, member, name, directory, whole, simple, monitored⟩ :=
      inside_parent world fine path placed inside
    obtain ⟨watch, living, ino⟩ := (exactly dir member).mpr ⟨directory, monitored⟩
    exact unwatched dir member name simple whole watch living ino
  · obtain ⟨owner, inside, owned, _, monitored, cached⟩ :=
      settled_owned world fine.settled watch living
    obtain rfl := file_unique world fine.settled.sane owner dir inside member (owned.symm.trans ino)
    refine Or.inr ⟨?_, watch.wd, owner.path, name, cached, whole, one⟩
    rw [whole]
    exact entry_inside world.roots owner.path name monitored

/-- A moved root says so; what says so was watched. -/
theorem self_events (file : File) (member : file ∈ world.state.files)
    (directory : file.isDir = true) :
    some file.path ∉ world.roots ∧
      noticed world.state.watches ⟨file.ino, IN_MOVE_SELF, 0, []⟩ = [] ∨
    ∃ watch ∈ world.state.watches,
      watch.ino = file.ino ∧ (watch.wd, file.path) ∈ entries world.cache ∧
      noticed world.state.watches ⟨file.ino, IN_MOVE_SELF, 0, []⟩ =
        [⟨watch.wd, IN_MOVE_SELF, 0, []⟩] := by
  have flag : has IN_MOVE_SELF IN_MOVE_SELF = true := by decide
  unfold noticed
  cases found : watchOf world.state.watches file.ino with
  | none =>
      refine Or.inl ⟨fun listed => ?_, rfl⟩
      obtain ⟨watch, living, ino⟩ := (settled_exact world fine.settled file member).mpr
        ⟨directory, file.path, listed, below_refl slash _⟩
      exact watch_of_none _ _ found watch living ino
  | some watch =>
      obtain ⟨living, ino⟩ := watch_of_some _ _ watch found
      obtain ⟨owner, inside, owned, _, _, cached⟩ :=
        settled_owned world fine.settled watch living
      obtain rfl :=
        file_unique world fine.settled.sane owner file inside member (owned.symm.trans ino)
      cases reports : watch.moveSelf with
      | true => exact Or.inr ⟨watch, living, ino, cached, by simp [reports]⟩
      | false =>
          refine Or.inl ⟨fun listed => ?_, by simp [reports, flag]⟩
          rw [fine.flags watch living owner member ino.symm listed] at reports
          cases reports

end Roots

/-! Stages. -/

/-- `gone` is the inode that the change has removed. -/
structure Stage (before : World System) (files : List File) (gone : Option Nat)
    (world : World System) (keep : File → Prop) (label : File → Path) : Prop where
  sane : Sane world
  files : world.state.files = files
  queue : ∀ ev ∈ world.state.queue, ev.mask = IN_IGNORED
  slots : ∀ wd path, (wd, path) ∈ entries world.cache ↔
    ∃ watch ∈ before.state.watches, watch.wd = wd ∧
      ∃ file ∈ before.state.files, watch.ino = file.ino ∧ keep file ∧ label file = path
  watches : ∀ watch, watch ∈ world.state.watches ↔ watch ∈ before.state.watches ∧
    some watch.ino ≠ gone ∧
    ∃ file ∈ before.state.files, watch.ino = file.ino ∧ keep file

section Stage
variable (before : World System) (sane : Sane before) (files : List File) (gone : Option Nat)
  (world : World System) (keep : File → Prop) (label : File → Path)
  (stage : Stage before files gone world keep label)

include stage in
theorem stage_congr (other : File → Prop) (name : File → Path)
    (same : ∀ file ∈ before.state.files, Watched before.state file →
      (keep file ↔ other file))
    (respelled : ∀ file ∈ before.state.files, Watched before.state file → keep file →
      label file = name file) :
    Stage before files gone world other name := by
  refine ⟨stage.sane, stage.files, stage.queue, fun wd path => ?_, fun watch => ?_⟩
  · rw [stage.slots]
    refine exists_congr fun watch => and_congr_right fun living => and_congr_right fun _ =>
      exists_congr fun file => and_congr_right fun member => and_congr_right fun ino => ?_
    have agree := same file member ⟨watch, living, ino⟩
    have equal := respelled file member ⟨watch, living, ino⟩
    constructor
    · rintro ⟨kept, rfl⟩
      exact ⟨agree.mp kept, (equal kept).symm⟩
    · rintro ⟨kept, rfl⟩
      exact ⟨agree.mpr kept, equal (agree.mpr kept)⟩
  · rw [stage.watches]
    refine and_congr_right fun living => and_congr_right fun _ => exists_congr fun file =>
      and_congr_right fun member => and_congr_right fun ino =>
        same file member ⟨watch, living, ino⟩

include stage in
theorem stage_live (wd : Int) (path : Path) (cached : (wd, path) ∈ entries world.cache)
    (present : ∀ file ∈ before.state.files, keep file → label file = path →
      some file.ino ≠ gone) :
    ∃ watch ∈ world.state.watches, watch.wd = wd := by
  obtain ⟨watch, living, number, file, member, ino, kept, named⟩ :=
    (stage.slots wd path).mp cached
  refine ⟨watch, (stage.watches watch).mpr ⟨living, ?_, file, member, ino, kept⟩, number⟩
  rw [ino]
  exact present file member kept named

include stage in
theorem stage_respelled (old new : Path) (after : World System)
    (respelled : Respelled old new world after) :
    Stage before files gone after keep fun file => rewritten old new (label file) := by
  refine ⟨respelled.sane,
    by rw [respelled.state, stage.files], by rw [respelled.state]; exact stage.queue,
    fun wd path => ?_, by rw [respelled.state]; exact stage.watches⟩
  rw [respelled.slots]
  constructor
  · rintro ⟨name, cached, rfl⟩
    obtain ⟨watch, living, number, file, member, ino, kept, rfl⟩ :=
      (stage.slots wd name).mp cached
    exact ⟨watch, living, number, file, member, ino, kept, rfl⟩
  · rintro ⟨watch, living, number, file, member, ino, kept, rfl⟩
    exact ⟨label file,
      (stage.slots wd _).mpr ⟨watch, living, number, file, member, ino, kept, rfl⟩, rfl⟩

include sane stage

theorem stage_cleared (pn : Path) (after : World System)
    (cleared : Cleared pn (List.range world.cache.length) world after) :
    Stage before files gone after (fun file =>
      keep file ∧ ¬ Below slash pn (label file)) label := by
  have slots : ∀ wd path, (wd, path) ∈ entries after.cache ↔
    ∃ watch ∈ before.state.watches, watch.wd = wd ∧
      ∃ file ∈ before.state.files,
        watch.ino = file.ino ∧ (keep file ∧ ¬ Below slash pn (label file)) ∧
        label file = path := by
    intro wd path
    rw [cleared_all pn world after cleared wd path, stage.slots]
    constructor
    · rintro ⟨⟨watch, living, number, file, member, ino, kept, rfl⟩, outside⟩
      exact ⟨watch, living, number, file, member, ino, ⟨kept, outside⟩, rfl⟩
    · rintro ⟨watch, living, number, file, member, ino, ⟨kept, outside⟩, rfl⟩
      exact ⟨⟨watch, living, number, file, member, ino, kept, rfl⟩, outside⟩
  refine ⟨cleared.sane, cleared.files.trans stage.files, ?_, slots, fun watch => ?_⟩
  · intro ev member
    rcases cleared.queue ev member with old | ignored
    · exact stage.queue ev old
    · exact ignored
  · rw [cleared.watches]
    constructor
    · rintro ⟨there, survives⟩
      obtain ⟨living, present, _⟩ := (stage.watches watch).mp there
      obtain ⟨⟨wd, path⟩, cached, number⟩ :=
        List.mem_map.mp (survives (stage.sane.agrees.cached watch there))
      obtain ⟨other, old, same, file, member, ino, kept, _⟩ := (slots wd path).mp cached
      obtain rfl := watch_unique before sane other watch old living (same.trans number)
      exact ⟨living, present, file, member, ino, kept⟩
    · rintro ⟨living, present, file, member, ino, kept⟩
      refine ⟨(stage.watches watch).mpr ⟨living, present, file, member, ino, kept.1⟩,
        fun _ => ?_⟩
      exact List.mem_map.mpr ⟨_, (slots watch.wd (label file)).mpr
        ⟨watch, living, rfl, file, member, ino, kept, rfl⟩, rfl⟩

theorem stage_forgotten (watch : Watch) (living : watch ∈ before.state.watches)
    (lost : some watch.ino = gone) (after : World System)
    (forgotten : Forgotten watch.wd world after) :
    Stage before files gone after (fun file => keep file ∧ some file.ino ≠ gone) label := by
  refine ⟨forgotten.sane,
    by rw [forgotten.state, stage.files], by rw [forgotten.state]; exact stage.queue,
    fun wd path => ?_, fun other => ?_⟩
  · rw [forgotten.slots, stage.slots]
    constructor
    · rintro ⟨⟨other, there, rfl, file, member, ino, kept, named⟩, different⟩
      refine ⟨other, there, rfl, file, member, ino, ⟨kept, fun hit => different ?_⟩, named⟩
      rw [ino_unique before sane other watch there living
        (Option.some.inj ((congrArg some ino).trans (hit.trans lost.symm)))]
    · rintro ⟨other, there, rfl, file, member, ino, ⟨kept, present⟩, named⟩
      refine ⟨⟨other, there, rfl, file, member, ino, kept, named⟩, fun same => present ?_⟩
      rw [← ino, watch_unique before sane other watch there living same, lost]
  · rw [forgotten.state, stage.watches]
    refine and_congr_right fun _ => and_congr_right fun present => exists_congr fun file =>
      and_congr_right fun _ => and_congr_right fun ino =>
        ⟨fun kept => ⟨kept, ino ▸ present⟩, And.left⟩

/-- At the last stage every file that is left lies at its new place. -/
theorem stage_settled (place : File → File)
    (members : ∀ file, file ∈ files ↔ ∃ old ∈ before.state.files,
      some old.ino ≠ gone ∧ place old = file)
    (inodes : ∀ file, (place file).ino = file.ino)
    (kinds : ∀ file, (place file).isDir = file.isDir)
    (labelled : ∀ file ∈ before.state.files, Watched before.state file → keep file →
      some file.ino ≠ gone ∧ label file = (place file).path)
    (exact_ : ∀ file ∈ before.state.files, some file.ino ≠ gone →
      (Watched before.state file ∧ keep file ↔
        file.isDir = true ∧ Monitored world.roots (place file).path)) :
    Settled (withQueue world []) := by
  have sound := sane_queue world stage.sane
  refine ⟨sound, rfl, mirrors_of _ sound ?_ ?_⟩
  · intro wd path cached
    obtain ⟨watch, living, number, file, member, ino, kept, named⟩ :=
      (stage.slots wd path).mp cached
    obtain ⟨present, right⟩ := labelled file member ⟨watch, living, ino⟩ kept
    refine ⟨watch, (stage.watches watch).mpr ⟨living,
      by rw [ino]; exact present, file, member, ino, kept⟩, number, place file, ?_,
      by rw [inodes, ino], right.symm.trans named⟩
    change place file ∈ world.state.files
    rw [stage.files, members]
    exact ⟨file, member, present, rfl⟩
  · intro file member
    change file ∈ world.state.files at member
    rw [stage.files, members] at member
    obtain ⟨old, inside, present, rfl⟩ := member
    change (∃ watch ∈ world.state.watches, watch.ino = (place old).ino) ↔
      _ ∧ Monitored world.roots (place old).path
    rw [inodes, kinds, ← exact_ old inside present]
    constructor
    · rintro ⟨watch, there, ino⟩
      obtain ⟨living, _, file, home, owned, kept⟩ := (stage.watches watch).mp there
      rw [← List.inj_on_of_nodup_map sane.files.inodes home inside (owned.symm.trans ino)]
      exact ⟨⟨watch, living, owned⟩, kept⟩
    · rintro ⟨⟨watch, living, ino⟩, kept⟩
      exact ⟨watch, (stage.watches watch).mpr ⟨living,
        by rw [ino]; exact present, old, inside, ino, kept⟩, ino⟩

end Stage

/-! The first stage of a change, and the events about a directory that it removes. -/

section Change
variable (world : World System) (fine : Matches world) (effect : Effect) (gone : Option Nat)

/-- The state in which the events of a change are handled. -/
def changed (world : World System) (effect : Effect) : World System :=
  withQueue { world with state := happen effect } []

/-- A change of the files, without anything else. -/
structure Changes (world : World System) (effect : Effect) (gone : Option Nat) : Prop where
  watches : effect.system.watches = world.state.watches
  nextWd : effect.system.nextWd = world.state.nextWd
  queue : effect.system.queue = world.state.queue
  late : effect.system.late = world.state.late
  limit : effect.system.limit = world.state.limit
  vanished : effect.vanished = gone.toList
  cause : effect.cause = IN_DELETE_SELF
  files : FilesOk effect.system

include fine

theorem change_happens (changes : Changes world effect gone) :
    happen effect = { effect.system with
      watches := world.state.watches.filter fun watch => some watch.ino != gone
      queue := effect.notices.flatMap (noticed world.state.watches) ++
        gone.toList.flatMap (parting world.state.watches IN_DELETE_SELF) } := by
  have unlimited : effect.system.limit = none := changes.limit.trans fine.settled.sane.limit
  have quiet : effect.system.queue = [] := changes.queue.trans fine.settled.quiet
  rw [happen_posts effect gone changes.vanished, post_all_unlimited]
  · dsimp only
    rw [quiet, List.nil_append, changes.watches, changes.cause]
  · exact unlimited

theorem change_events (changes : Changes world effect gone) :
    (happen effect).queue = effect.notices.flatMap (noticed world.state.watches) ++
      gone.toList.flatMap (parting world.state.watches IN_DELETE_SELF) := by
  rw [change_happens world fine effect gone changes]

theorem stage_start (changes : Changes world effect gone) :
    Stage world effect.system.files gone (changed world effect) (fun _ => True) File.path := by
  have sane := fine.settled.sane
  have ok := sane.agrees.ok
  have kept : (changed world effect).state.watches = world.state.watches.filter fun watch =>
      some watch.ino != gone := by
    unfold changed withQueue
    rw [change_happens world fine effect gone changes]
  have fewer : (world.state.watches.filter fun watch => some watch.ino != gone).Sublist
      world.state.watches :=
    List.filter_sublist
  have sound : Sane (changed world effect) := by
    unfold changed withQueue
    rw [change_happens world fine effect gone changes]
    refine ⟨⟨system_ok_fewer world.state _ ok fewer changes.nextWd ?_,
      sane.agrees.wellFormed, fun watch living => sane.agrees.cached watch (fewer.subset living),
      fun wd listed => Or.inr (Or.inl ⟨true, List.mem_cons_self⟩), ?_, ?_, ?_⟩,
      files_ok_same _ _ changes.files rfl rfl, changes.limit.trans sane.limit⟩
    · change ∀ notices ∈ effect.system.late, _
      rw [changes.late]
      exact ok.late
    · intro wd listed
      change _ ∧ wd < effect.system.nextWd
      rw [changes.nextWd]
      exact sane.agrees.numbers wd listed
    · intro ev member
      cases member
    · intro ev member
      cases member
  refine ⟨sound, ?_, (fun ev member => by cases member), ?_, ?_⟩
  · unfold changed withQueue
    rw [change_happens world fine effect gone changes]
  · intro wd path
    constructor
    · intro cached
      obtain ⟨watch, living, number, file, member, ino, label⟩ :=
        settled_named world fine.settled wd path cached
      exact ⟨watch, living, number, file, member, ino.symm, trivial, label⟩
    · rintro ⟨watch, living, rfl, file, member, ino, _, rfl⟩
      obtain ⟨owner, inside, owned, _, _, cached⟩ :=
        settled_owned world fine.settled watch living
      rw [file_unique world sane file owner member inside (ino.symm.trans owned)]
      exact cached
  · intro watch
    rw [kept, List.mem_filter, bne_iff_ne]
    refine and_congr_right fun living => ⟨fun present => ⟨present, ?_⟩, And.left⟩
    obtain ⟨owner, inside, owned, _⟩ := settled_owned world fine.settled watch living
    exact ⟨owner, inside, owned, trivial⟩

end Change

section Parting
variable (nftw : System → Path → List Path) (before : World System) (sane : Sane before)
  (files : List File) (gone : Option Nat) (world : World System) (keep : File → Prop)
  (label : File → Path) (stage : Stage before files gone world keep label)
  (distinct : Distinct world.roots) (path : Path)

/-- Every file that is left has its slot, and the vanished one is no root any more. -/
structure Parted (after : World System) : Prop where
  stage : Stage before files gone after (fun file => keep file ∧ some file.ino ≠ gone) label
  delisted : Delisted path world.roots after.roots

include sane stage distinct

theorem parting_handled
    (victims : gone = none ∨ ∃ victim ∈ before.state.files,
      gone = some victim.ino ∧ label victim = path ∧
      (Watched before.state victim → keep victim))
    (listed : some path ∈ world.roots → ∃ victim ∈ before.state.files,
      gone = some victim.ino ∧
      Watched before.state victim) :
    handleEvents nftw world (gone.toList.flatMap (parting before.state.watches IN_DELETE_SELF)) =
      none ∧
      some path ∈ world.roots ∧ (∀ other, some other ∈ world.roots → other = path) ∨
    ∃ after, handleEvents nftw world
      (gone.toList.flatMap (parting before.state.watches IN_DELETE_SELF)) =
        some after ∧ Parted before files gone world keep label path after := by
  -- without a watch on what vanished there is nothing to handle
  have silent : (∀ file ∈ before.state.files, Watched before.state file →
    some file.ino ≠ gone) →
      gone.toList.flatMap (parting before.state.watches IN_DELETE_SELF) = [] →
      ∃ after, handleEvents nftw world
        (gone.toList.flatMap (parting before.state.watches IN_DELETE_SELF)) =
        some after ∧ Parted before files gone world keep label path after := by
    intro unwatched none_
    rw [none_]
    refine ⟨world, rfl, ?_, distinct,
      fun other => ⟨fun member => ⟨member, ?_⟩, And.left⟩⟩
    · exact stage_congr before files gone world keep label stage _ label
        (fun file member watched =>
          ⟨fun kept => ⟨kept, unwatched file member watched⟩, And.left⟩)
        (fun _ _ _ _ => rfl)
    · rintro rfl
      obtain ⟨victim, inside, hit, watched⟩ := listed member
      exact unwatched victim inside watched hit.symm
  rcases victims with rfl | ⟨victim, inside, rfl, named, kept⟩
  · exact Or.inr (silent (fun _ _ _ bad => by cases bad) rfl)
  · have one : (some victim.ino).toList.flatMap (parting before.state.watches IN_DELETE_SELF) =
        parting before.state.watches IN_DELETE_SELF victim.ino := by simp
    cases found : watchOf before.state.watches victim.ino with
    | none =>
        refine Or.inr (silent ?_ ?_)
        · rintro file _ ⟨watch, living, ino⟩ hit
          exact watch_of_none _ _ found watch living (ino.trans (Option.some.inj hit))
        · rw [one, parting, found]
    | some watch =>
        obtain ⟨living, ino⟩ := watch_of_some _ _ watch found
        have cached : (watch.wd, path) ∈ entries world.cache :=
          (stage.slots _ _).mpr ⟨watch, living, rfl, victim, inside, ino,
            kept ⟨watch, living, ino⟩, named⟩
        have dead : ∀ other ∈ world.state.watches, other.wd ≠ watch.wd := by
          intro other there same
          obtain ⟨old, present, _⟩ := (stage.watches other).mp there
          rw [watch_unique before sane other watch old living same, ino] at present
          exact present rfl
        rw [one, parting, found]
        dsimp only
        rcases deleted_handled nftw world stage.sane [⟨watch.wd, IN_IGNORED, 0, []⟩] distinct
          watch.wd path cached dead
          with ⟨exits, last⟩ | ⟨after, handled, forgotten, delisted⟩
        · exact Or.inl ⟨exits, last⟩
        · refine Or.inr ⟨after, ?_, ?_, delisted⟩
          · rw [handled, ignored_skipped]
            rfl
          · exact stage_forgotten before sane files _ world keep label stage watch living
              (congrArg some ino) after forgotten

end Parting

end Tlpi.ChangeStages
