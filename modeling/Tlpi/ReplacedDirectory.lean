import Mathlib.Data.List.Basic
import Tlpi.TreeMirror

/-!
inotify_dtree.c and renames that replace a directory of a monitored tree, or that take a
root into another tree. The cache comes out right exactly if the old name lies in the
trees, or if the new name is that of a root and nothing that is watched is carried along
unnoticed.
-/

namespace Tlpi.ReplacedDirectory

open PathName WatchCache TreeMonitor FileTree WatchSet EventReader SettledTree
  HandledEvents ChangeStages
open RenamedDirectory TreeMirror

section Rename
variable (nftw : System → Path → List Path) (visits : Visits nftw) (world : World System)
  (fine : Matches world) (old new : Path) (effect : Effect) (file : File)
  (renamed : Renamed world.state old new effect file)
  (short : ∀ other ∈ effect.system.files, other.path.length < PATH_MAX)
  (directory : file.isDir = true)

/-- The cache is right again, or the program has stopped with nothing left to monitor. -/
def Right (nftw : System → Path → List Path) (world : World System) (old new : Path) : Prop :=
  (∃ after, turn nftw (.rename old new) world = some after ∧ Mirrors after) ∨
    turn nftw (.rename old new) world = none ∧ ∀ root, some root ∈ world.roots →
      root = old ∨ root = new

/-- The condition on the state before. -/
def Harmless (world : World System) (old new : Path) : Prop :=
  Inside world.roots old ∨ ¬ Inside world.roots new ∧
    (some old ∈ world.roots ∨ ∀ root, some root ∈ world.roots →
      Below slash old root → root = old)

include visits fine renamed short directory in
theorem harmless_right (made : FileTree.effect world.state (.rename old new) = some effect)
    (harmless : Harmless world old new) : Right nftw world old new := by
  have settles : ∀ after, handleEvents nftw (changed world effect) (happen effect).queue =
    some after →
      Followed world effect.system.files after → Right nftw world old new := by
    intro after handled followed
    exact Or.inl ⟨_, turn_followed nftw world effect _ made _ after handled followed,
      followed.settled.mirrors⟩
  by_cases source : Inside world.roots old
  · by_cases target : Inside world.roots new
    · obtain ⟨after, handled, followed⟩ :=
        within_followed nftw visits world fine old new effect file renamed short
          directory source target
      exact settles after handled followed
    · obtain ⟨after, handled, followed⟩ :=
        out_followed nftw visits world fine old new effect file renamed short
          directory source target
      exact settles after handled followed
  · rcases harmless with bad | ⟨target, carries⟩
    · exact absurd bad source
    by_cases listed : some old ∈ world.roots
    · rcases root_followed nftw world fine old new effect file renamed short directory
        listed source target with
        ⟨exits, last⟩ | ⟨after, handled, followed, _⟩
      · exact Or.inr ⟨turn_exits nftw _ world effect made exits, last⟩
      · exact settles after handled followed
    · have unseen : Unseen world old :=
        ⟨not_monitored _ _ listed source, carries.resolve_left listed⟩
      rcases unseen_followed nftw world fine old new effect file renamed short directory
        unseen target with
        ⟨exits, _, last⟩ | ⟨after, handled, followed⟩
      · exact Or.inr ⟨turn_exits nftw _ world effect made exits,
          fun root there => Or.inr (last root there)⟩
      · exact settles after handled followed

/-! What goes wrong otherwise. -/

section Stale
variable (middle : World System) (keep : File → Prop)
  (stage : Stage world effect.system.files (replaced world new) middle keep File.path)

include fine renamed stage in
/-- The events about the replaced directory, when the slots carry the old names. -/
theorem stale_parting (distinct : Distinct middle.roots)
    (fewer : ∀ root, some root ∈ middle.roots → some root ∈ world.roots)
    (stayed : ∀ other ∈ world.state.files, ¬ Below slash old other.path →
      Watched world.state other → keep other)
    (root : Path) (listed : some root ∈ middle.roots) (different : root ≠ new) :
    ∃ after, handleEvents nftw middle (partingEvents world new) = some after ∧
      Parted world effect.system.files (replaced world new) middle keep File.path new after := by
  have sane := fine.settled.sane
  have victims : replaced world new = none ∨ ∃ victim ∈ world.state.files,
    replaced world new = some victim.ino ∧
      victim.path = new ∧ (Watched world.state victim → keep victim) := by
    rcases replaced_cases world new with nobody | ⟨victim, inside, hit, path⟩
    · exact Or.inl nobody
    · exact Or.inr ⟨victim, inside, hit, path,
        stayed victim inside (by rw [path]; exact renamed.outside)⟩
  have rooted : some new ∈ middle.roots → ∃ victim ∈ world.state.files,
    replaced world new = some victim.ino ∧
      Watched world.state victim := by
    intro member
    obtain ⟨victim, inside, hit, _, watched⟩ := replaced_root world fine new (fewer new member)
    exact ⟨victim, inside, hit, watched⟩
  rcases parting_handled nftw world sane effect.system.files (replaced world new) middle keep _
    stage distinct new victims rooted with ⟨_, _, last⟩ | parted
  · exact absurd (last root listed) different
  · exact parted

include renamed directory in
/-- The moved directory is monitored under its new name, but it has no slot. -/
theorem unslotted_wrong (target : Inside world.roots new) (after : World System)
    (files : after.state.files = effect.system.files)
    (kept : ∀ root, some root ∈ world.roots → root ≠ old → root ≠ new →
      some root ∈ after.roots)
    (unslotted : ∀ wd, (wd, new) ∉ entries after.cache) : ¬ Mirrors (withQueue after []) := by
  intro mirrors
  obtain ⟨member, path⟩ := renamed_file world old new effect file renamed
  obtain ⟨root, listed, above, strict⟩ := target
  have moved := renamed_path world old new effect file renamed
  have apart : file.path ≠ new := by
    rw [path]
    rintro rfl
    exact renamed.outside (below_refl slash old)
  have there : moveFile old new file ∈ (withQueue after []).state.files := by
    change _ ∈ after.state.files
    rw [files, mem_renamed world.state old new effect file renamed]
    exact ⟨file, member, apart, rfl⟩
  have monitored : Monitored (withQueue after []).roots (moveFile old new file).path := by
    rw [moved]
    refine ⟨root, kept root listed ?_ fun same => strict same.symm, above⟩
    rintro rfl
    exact renamed.outside above
  obtain ⟨wd, cached⟩ := mirrors.every _ there (by rw [move_kind, directory]) monitored
  rw [moved] at cached
  exact unslotted wd cached

include fine in
/-- After the replaced directory is forgotten no slot has its name. -/
theorem parted_unslotted (after : World System)
    (parted : Parted world effect.system.files (replaced world new) middle keep File.path new after)
    (wd : Int) : (wd, new) ∉ entries after.cache := by
  intro cached
  obtain ⟨_, _, _, other, member, _, keeps, path⟩ := (parted.stage.slots wd new).mp cached
  exact (replaced_iff world fine new other member).mp keeps.2 path

end Stale

variable (made : FileTree.effect world.state (.rename old new) = some effect)

include made in
theorem turn_wrong (after : World System)
    (handled : handleEvents nftw (changed world effect) (happen effect).queue = some after)
    (ignored : ∀ ev ∈ after.state.queue, ev.mask = IN_IGNORED)
    (wrong : ¬ Mirrors (withQueue after [])) : ¬ Right nftw world old new := by
  have settles := turn_settles nftw _ world effect made after handled ignored
  rintro (⟨last, done, mirrors⟩ | ⟨exits, _⟩)
  · rw [settles] at done
    cases done
    exact wrong mirrors
  · rw [settles] at exits
    cases exits

include fine renamed short directory made in
/-- A root below a directory from outside of the trees goes along and nobody notices. -/
theorem carried_wrong (source : ¬ Inside world.roots old) (target : ¬ Inside world.roots new)
    (unlisted : some old ∉ world.roots) (root : Path) (listed : some root ∈ world.roots)
    (below : Below slash old root) : ¬ Right nftw world old new := by
  have first :=
    stage_start world fine effect _ (rename_changes world fine old new effect file renamed short)
  have different : root ≠ new := by
    rintro rfl
    exact renamed.outside below
  have silent : selfEvents world file = [] := by
    rcases self_cases world fine old new effect file renamed directory with ⟨_, none_⟩ |
      ⟨_, _, _, _, bad, _⟩
    · exact none_
    · exact absurd bad (not_monitored _ _ unlisted source)
  obtain ⟨after, handled, parted⟩ :=
    stale_parting nftw world fine old new effect file renamed (changed world effect) _
      first fine.distinct (fun _ => id) (fun _ _ _ _ => trivial) root listed different
  refine turn_wrong nftw world old new effect made after ?_ parted.stage.queue fun mirrors => ?_
  · rw [outside_queue world fine old new effect file renamed short directory source target,
      laterEvents, silent, List.nil_append]
    exact handled
  · -- the slot of the root is still there, its name is not
    obtain ⟨there, member, path, isDir⟩ := fine.rootDirs root listed
    obtain ⟨watch, living, ino⟩ := (settled_exact world fine.settled there member).mpr
      ⟨isDir, root, listed, by rw [path]; exact below_refl slash root⟩
    have present : some there.ino ≠ replaced world new :=
      (replaced_iff world fine new there member).mpr (by rw [path]; exact different)
    have cached : (watch.wd, root) ∈ entries (withQueue after []).cache :=
      (parted.stage.slots watch.wd root).mpr ⟨watch, living, rfl, there, member, ino,
        ⟨trivial, present⟩, path⟩
    obtain ⟨other, found, _, _, same, _⟩ := (mirrors.slots _ _).mp cached
    change other ∈ after.state.files at found
    rw [parted.stage.files, mem_renamed world.state old new effect file renamed] at found
    obtain ⟨before, _, _, rfl⟩ := found
    by_cases moves : Below slash old before.path
    · have under : Below slash new root := by
        rw [← same, move_inside old new before moves]
        exact reroot_below slash old new before.path moves
      exact different (root_below_new world fine old new effect file renamed root listed under)
    · rw [move_outside old new before moves] at same
      exact moves (by rw [same]; exact below)

include fine renamed short directory in
/-- The moved directory is forgotten as a root, under its old name. -/
theorem self_stale (source : ¬ Inside world.roots old) (target : Inside world.roots new) :
    ∃ middle keep, handleEvents nftw (changed world effect) (laterEvents world file new) =
        handleEvents nftw middle (partingEvents world new) ∧
      Stage world effect.system.files (replaced world new) middle keep File.path ∧
        Distinct middle.roots ∧
      (∀ root, some root ∈ middle.roots → some root ∈ world.roots) ∧
      (∀ root, some root ∈ world.roots → root ≠ old → some root ∈ middle.roots) ∧
      ∀ other ∈ world.state.files, ¬ Below slash old other.path →
        Watched world.state other → keep other := by
  have first :=
    stage_start world fine effect _ (rename_changes world fine old new effect file renamed short)
  rw [laterEvents]
  rcases self_cases world fine old new effect file renamed directory with
    ⟨_, silent⟩ | ⟨watch, _, _, cached, monitored, self⟩
  · rw [silent, List.nil_append]
    exact ⟨_, _, rfl, first, fine.distinct, fun _ => id, fun _ there _ => there,
      fun _ _ _ _ => trivial⟩
  · have listed : some old ∈ world.roots := (monitored_cases _ _ monitored).resolve_right source
    rw [self, List.singleton_append]
    rcases self_listed nftw (changed world effect) first.sane (partingEvents world new)
      fine.distinct watch.wd old cached listed with ⟨_, last⟩ | ⟨left, delisted, handled⟩
    · obtain ⟨root, there, above, _⟩ := target
      rw [last root there] at above
      exact absurd above renamed.outside
    · have middle := stage_roots world effect.system.files _ _ _ _ first left
      obtain ⟨second, zapped, cleared⟩ :=
        zap_subtree_cleared nftw old { changed world effect with roots := left }
          middle.sane (first_live world fine old new effect file renamed _ middle)
      have roots : second.roots = left := cleared.roots
      rw [handled, zapped]
      refine ⟨second, _, rfl, stage_cleared world fine.settled.sane effect.system.files _ _ _ _
        middle old second cleared, ?_, ?_, ?_, fun _ _ outside _ => ⟨trivial, outside⟩⟩
      · rw [roots]
        exact delisted.distinct
      · intro root there
        rw [roots] at there
        exact ((delisted.listed root).mp there).1
      · intro root there different
        rw [roots]
        exact (delisted.listed root).mpr ⟨there, different⟩

include fine renamed short directory made in
/-- The name is still that of the replaced directory, so the moved one is passed over. -/
theorem passed_over_wrong (source : ¬ Inside world.roots old) (target : Inside world.roots new)
    (victim : File) (taken : lookup world.state.files new = some victim) :
    ¬ Right nftw world old new := by
  have first :=
    stage_start world fine effect _ (rename_changes world fine old new effect file renamed short)
  obtain ⟨middle, keep, later, stage, distinct, fewer, kept, stayed⟩ :=
    self_stale nftw world fine old new effect file
      renamed short directory source target
  have entered := target
  obtain ⟨root, listed, above, strict⟩ := entered
  have different : root ≠ old := by
    rintro rfl
    exact renamed.outside above
  obtain ⟨after, handled, parted⟩ :=
    stale_parting nftw world fine old new effect file renamed middle keep stage distinct
      fewer stayed root (kept root listed different) fun same => strict same.symm
  have known : ∃ number, (number, new) ∈ entries (changed world effect).cache := by
    obtain ⟨member, path⟩ := lookup_some _ _ _ taken
    have slot :=
      fine.settled.mirrors.every victim member ((renamed.same victim taken).trans directory)
        (by rw [path]; exact inside_monitored _ _ target)
    rw [path] at slot
    exact slot
  refine turn_wrong nftw world old new effect made after ?_ parted.stage.queue ?_
  · rcases to_half world fine old new effect file renamed with ⟨bad, _⟩ |
      ⟨_, wd, dir, name, to_, whole, two⟩
    · exact absurd target bad
    rw [directory_queue world fine old new effect file renamed short directory,
      from_silent world fine old new effect file renamed source, two, List.nil_append,
      List.singleton_append, created_known nftw (changed world effect) first.sane _ wd _ _
      dir name new (Or.inr rfl) to_ whole (new_short world old new effect file renamed) known,
      later]
    exact handled
  · refine unslotted_wrong world old new effect file renamed directory target after
      parted.stage.files ?_ (parted_unslotted world fine new effect middle keep after parted)
    intro other there apart away
    exact (parted.delisted.listed other).mpr ⟨kept other there apart, away⟩

section Walk
variable (watch : Watch) (living : watch ∈ world.state.watches) (ino : watch.ino = file.ino)
  (cached : (watch.wd, old) ∈ entries world.cache) (free : lookup world.state.files new = none)
  (after : World System) (seen : Path → Prop) (walked : Walked (changed world effect) after seen)

include fine renamed short free in
theorem free_watches (one : Watch) (there : one ∈ world.state.watches) :
    one ∈ (changed world effect).state.watches := by
  have first :=
    stage_start world fine effect _ (rename_changes world fine old new effect file renamed short)
  obtain ⟨owner, member, owned, _⟩ := settled_owned world fine.settled one there
  refine (first.watches one).mpr ⟨there, ?_, owner, member, owned, trivial⟩
  exact free_present world new free one.ino

include fine renamed short free walked in
theorem walked_live (wd : Int) (path : Path) (slot : (wd, path) ∈ entries after.cache) :
    ∃ one ∈ after.state.watches, one.wd = wd := by
  rcases walked.added wd path slot with old_ | ⟨_, _, _, _, _, one, there, number, _⟩
  · obtain ⟨one, there, rfl, _⟩ := settled_named world fine.settled wd path old_
    obtain ⟨same, stays, number, _⟩ :=
      walked.kept one (free_watches world fine old new effect file renamed short free one there)
    exact ⟨same, stays, number⟩
  · exact ⟨one, there, number⟩

include fine renamed short living ino cached free walked in
/-- The walk finds the descriptor of the moved directory in the cache and leaves it alone. -/
theorem walked_unslotted (wd : Int) : (wd, new) ∉ entries after.cache := by
  intro slot
  have first :=
    stage_start world fine effect _ (rename_changes world fine old new effect file renamed short)
  obtain ⟨member, path⟩ := renamed_file world old new effect file renamed
  have moved := renamed_path world old new effect file renamed
  have there : moveFile old new file ∈ (changed world effect).state.files := by
    rw [first.files, mem_renamed world.state old new effect file renamed]
    exact ⟨file, member, lookup_none _ _ free file member, rfl⟩
  rcases walked.added wd new slot with known |
    ⟨fresh, _, other, inside, same, one, watches, number, owned⟩
  · exact free_unknown world fine new free wd known
  · -- one inode has one watch, and this one had it before
    rw [List.inj_on_of_nodup_map first.sane.files.paths inside there (same.trans moved.symm),
        move_ino] at owned
    obtain ⟨kept, stays, numbers, inode⟩ := walked.kept watch
      (free_watches world fine old new effect file renamed short free watch living)
    rw [ino_unique after walked.sane one kept watches stays (owned.trans (inode.trans ino).symm),
        numbers] at number
    rw [← number] at fresh
    exact fresh (List.mem_map.mpr ⟨_, cached, rfl⟩)

end Walk

include visits fine renamed short directory made in
/-- A root goes into another tree: it is found watched already, and then forgotten. -/
theorem relocated_wrong (source : ¬ Inside world.roots old) (listed : some old ∈ world.roots)
    (target : Inside world.roots new) (free : lookup world.state.files new = none) :
    ¬ Right nftw world old new := by
  have first :=
    stage_start world fine effect _ (rename_changes world fine old new effect file renamed short)
  rcases to_half world fine old new effect file renamed with ⟨bad, _⟩ |
    ⟨_, wd, dir, name, to_, whole, two⟩
  · exact absurd target bad
  rcases self_cases world fine old new effect file renamed directory with ⟨bad, _⟩ |
    ⟨watch, living, ino, cached, _, self⟩
  · exact absurd listed bad
  obtain ⟨second, handled, walked⟩ :=
    created_new nftw (changed world effect) first.sane (laterEvents world file new) visits
      wd _ world.state.nextCookie dir name new (Or.inr rfl) to_ whole
        (new_short world old new effect file renamed)
      (free_unknown world fine new free)
  have roots : second.roots = world.roots := walked.roots
  rcases self_listed nftw second walked.sane (partingEvents world new)
    (by rw [roots]; exact fine.distinct) watch.wd old
    (walked.entries _ cached) (by rw [roots]; exact listed) with ⟨_, last⟩ |
      ⟨left, delisted, forgotten⟩
  · obtain ⟨root, there, above, _⟩ := target
    rw [last root (by rw [roots]; exact there)] at above
    exact absurd above renamed.outside
  have sane : Sane { second with roots := left } :=
    sane_cache second walked.sane second.cache left walked.sane.agrees.wellFormed
      walked.sane.agrees.cached fun _ => id
  obtain ⟨after, zapped, cleared⟩ :=
    zap_subtree_cleared nftw old { second with roots := left } sane
      fun number path slot _ =>
        walked_live world fine old new effect file renamed short free second _
          walked number path slot
  refine turn_wrong nftw world old new effect made after ?_ ?_ ?_
  · rw [directory_queue world fine old new effect file renamed short directory,
      from_silent world fine old new effect file renamed source, two, List.nil_append,
      List.singleton_append, handled, laterEvents, self, List.singleton_append, forgotten, zapped,
      free_parting world new free]
    rfl
  · intro ev member
    rcases cleared.queue ev member with before | ignored
    · change ev ∈ second.state.queue at before
      rw [walked.queue] at before
      exact first.queue ev before
    · exact ignored
  · refine unslotted_wrong world old new effect file renamed directory target after
      (cleared.files.trans (walked.files.trans first.files)) ?_ fun number slot => ?_
    · intro root there apart _
      rw [cleared.roots]
      exact (delisted.listed root).mpr ⟨by rw [roots]; exact there, apart⟩
    · exact walked_unslotted world fine old new effect file renamed short watch living ino cached
        free second _ walked number ((cleared_all old _ after cleared number new).mp slot).1

end Rename

/-- A directory renamed onto an empty one, or a root renamed to anywhere, leaves the cache
right exactly if that is harmless. -/
theorem replaced_rename_is_right_iff (nftw : System → Path → List Path) (visits : Visits nftw)
    (world : World System) (fine : Matches world) (old new : Path) (effect : Effect)
    (made : FileTree.effect world.state (.rename old new) = some effect)
    (directory : isDirectory world.state.files old = true)
    (short : ∀ file ∈ world.state.files, (moveFile old new file).path.length < PATH_MAX)
    (kind : isDirectory world.state.files new = true ∨ some old ∈ world.roots) :
    Right nftw world old new ↔ Harmless world old new := by
  obtain ⟨file, renamed⟩ := rename_cases world.state fine.settled.sane.files old new effect made
  have isDir : file.isDir = true := by
    obtain ⟨other, member, path, isDir⟩ :=
      (is_directory_iff _ fine.settled.sane.files.paths old).mp directory
    obtain ⟨inside, same⟩ := renamed_file world old new effect file renamed
    rw [← List.inj_on_of_nodup_map fine.settled.sane.files.paths member inside
        (path.trans same.symm)]
    exact isDir
  have lengths : ∀ other ∈ effect.system.files, other.path.length < PATH_MAX := by
    intro other member
    obtain ⟨before, inside, _, rfl⟩ :=
      (mem_renamed world.state old new effect file renamed other).mp member
    exact short before inside
  refine ⟨fun right => ?_, harmless_right nftw visits world fine old new effect file renamed
    lengths isDir made⟩
  by_contra harmful
  have source : ¬ Inside world.roots old := fun inside => harmful (Or.inl inside)
  by_cases inside : Inside world.roots new
  · cases taken : lookup world.state.files new with
    | some victim =>
        exact passed_over_wrong nftw world fine old new effect file renamed lengths isDir made
          source inside victim taken right
    | none =>
        rcases kind with bad | listed
        · obtain ⟨other, member, path, _⟩ :=
            (is_directory_iff _ fine.settled.sane.files.paths new).mp bad
          exact lookup_none _ _ taken other member path
        · exact relocated_wrong nftw visits world fine old new effect file renamed lengths isDir
            made source listed inside taken right
  · -- nothing was listed as `old`, so what was carried along is still listed
    have unlisted : some old ∉ world.roots :=
      fun listed => harmful (Or.inr ⟨inside, Or.inl listed⟩)
    apply harmful
    refine Or.inr ⟨inside, Or.inr fun root listed below => ?_⟩
    exact absurd right (carried_wrong nftw world fine old new effect file renamed lengths isDir made
      source inside unlisted root listed below)

-- "b/x" and "b/y" in the tree of the root "b", and "c" outside of the trees.
def furnish : List Op := [.create [98, 47, 120] true, .create [98, 47, 121] true, .create [99] true]

theorem furnished_matches (first world : World System)
    (started : start walk [[98], [97, 47, 114]] sample = some first)
    (made : Transition.replay (Transition.restrict careful (turn walk)) furnish first =
      some world) : Matches world := by
  obtain ⟨same, again, fine, apart⟩ := start_matches walk walk_visits _ sample sample_startable
  rw [started] at again
  cases again
  have reached : Transition.Reachable (· = first) (Transition.restrict careful
      (turn walk)) world :=
    Transition.replay_reachable _ (.start rfl) made
  have orderly : Orderly world := by
    refine Transition.reachable_invariant ?_ (careful_orderly walk walk_visits) reached
    rintro world rfl
    exact ⟨fine, apart⟩
  exact orderly.fine

/-- What can be computed about a rename after the furnishing. -/
def furnished (old new : Path) (check : World System → Bool) : Bool :=
  (start walk [[98], [97, 47, 114]] sample).any fun first =>
    (Transition.replay (Transition.restrict careful (turn walk)) furnish first).any fun world =>
      (FileTree.effect world.state (.rename old new)).isSome && isDirectory world.state.files old &&
        isDirectory world.state.files new &&
        (world.state.files.all fun file =>
          decide ((moveFile old new file).path.length < PATH_MAX)) && check world

theorem furnished_cases (old new : Path) (check : World System → Bool)
    (holds : furnished old new check = true) :
    ∃ world effect, Matches world ∧ FileTree.effect world.state (.rename old new) =
      some effect ∧
      isDirectory world.state.files old = true ∧ isDirectory world.state.files new = true ∧
      (∀ file ∈ world.state.files, (moveFile old new file).path.length < PATH_MAX) ∧
        check world = true := by
  obtain ⟨first, started, later⟩ := (Option.any_eq_true _ _).mp holds
  obtain ⟨world, made, facts⟩ := (Option.any_eq_true _ _).mp later
  simp only [Bool.and_eq_true, List.all_eq_true, decide_eq_true_eq] at facts
  obtain ⟨⟨⟨⟨possible, source⟩, target⟩, short⟩, checked⟩ := facts
  obtain ⟨effect, happens⟩ := Option.isSome_iff_exists.mp possible
  exact ⟨world, effect, furnished_matches first world started made, happens, source,
    target, short, checked⟩

-- "b/x" is renamed onto "b/y", which is in the trees both before and after.
theorem inner_rename_is_right :
    ∃ world, Matches world ∧ Harmless world [98, 47, 120] [98, 47, 121] ∧
      Right walk world [98, 47, 120] [98, 47, 121] := by
  obtain ⟨world, effect, fine, made, source, target, short, listed⟩ :=
    furnished_cases [98, 47, 120] [98, 47, 121]
      (fun world => world.roots.contains (some [98])) (by decide +kernel)
  have harmless : Harmless world [98, 47, 120] [98, 47, 121] :=
    Or.inl ⟨[98], List.contains_iff_mem.mp listed, Or.inr ⟨[120], rfl⟩, by decide⟩
  exact ⟨world, fine, harmless,
    (replaced_rename_is_right_iff walk walk_visits world fine _ _ effect made source short
    (Or.inl target)).mpr harmless⟩

-- "c" is renamed onto "b/y", and nobody watches it there.
theorem outer_rename_is_missed :
    ¬ ∀ nftw world old new effect, Visits nftw → Matches world →
      FileTree.effect world.state (.rename old new) = some effect →
        isDirectory world.state.files old = true →
      (∀ file ∈ world.state.files, (moveFile old new file).path.length < PATH_MAX) →
        Monitored world.roots new →
      isDirectory world.state.files new = true ∨ some old ∈ world.roots →
        Right nftw world old new := by
  intro claim
  obtain ⟨world, effect, fine, made, source, target, short, facts⟩ :=
    furnished_cases [99] [98, 47, 121]
      (fun world => world.roots.contains (some [98]) &&
        (turn walk (.rename [99] [98, 47, 121]) world).any fun after =>
        after.roots.contains (some [98]) &&
          (after.state.files.any fun file => file.isDir && file.path == [98, 47, 121]) &&
          (entries after.cache).all fun entry => entry.2 != [98, 47, 121]) (by decide +kernel)
  obtain ⟨listed, moved⟩ := Bool.and_eq_true_iff.mp facts
  obtain ⟨after, done, missing⟩ := (Option.any_eq_true _ _).mp moved
  simp only [Bool.and_eq_true, List.all_eq_true, List.any_eq_true, bne_iff_ne, beq_iff_eq,
    List.contains_iff_mem] at missing
  obtain ⟨⟨still, file, member, isDir, path⟩, unslotted⟩ := missing
  have above : Below slash [98] [98, 47, 121] := Or.inr ⟨[121], rfl⟩
  rcases claim walk world _ _ effect walk_visits fine made source short ⟨[98],
    List.contains_iff_mem.mp listed, above⟩
    (Or.inl target) with ⟨same, again, mirrors⟩ | ⟨exits, _⟩
  · rw [done] at again
    cases again
    obtain ⟨wd, cached⟩ :=
      mirrors.every file member isDir (by rw [path]; exact ⟨[98], still, above⟩)
    exact unslotted _ cached path
  · rw [done] at exits
    cases exits

end Tlpi.ReplacedDirectory
