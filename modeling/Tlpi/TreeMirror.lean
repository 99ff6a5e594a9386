import Mathlib.Data.List.Basic
import Tlpi.RenamedDirectory

/-!
inotify_dtree.c, one change at a time: as long as no renamed directory carries a root
along, the slots in use correspond to the directories at and below the roots that are
still listed, after every change.
-/

namespace Tlpi.TreeMirror

open PathName WatchCache TreeMonitor FileTree WatchSet EventReader SettledTree
  HandledEvents ChangeStages
open RenamedDirectory

/-! Which changes are made. -/

/-- Not unmounts, and renames to free names only; a root goes to a place outside of the
trees. No name becomes too long. -/
def permitted : Op → World System → Bool
  | .create _ _, _ => true
  | .remove _ _, _ => true
  | .rename old new, world =>
      (lookup world.state.files new).isNone &&
        (world.state.files.all fun file =>
          decide ((moveFile old new file).path.length < PATH_MAX)) &&
        (!world.roots.contains (some old) ||
          world.roots.all fun root => !(root.any fun root => covers slash root new))
  | .unmount _, _ => false

/-- A renamed directory has no listed root strictly below it. -/
def rootless : Op → World System → Bool
  | .rename old _, world =>
      world.roots.all fun root => !(root.any fun root => covers slash old root && root != old)
  | _, _ => true

def careful (op : Op) (world : World System) : Bool := permitted op world && rootless op world

/-- The directory that a change takes away from its name. -/
def leaves : Op → Path → Prop
  | .remove path _, root => root = path
  | .rename old _, root => root = old
  | _, _ => False

def Apart (roots : RootDirPaths) : Prop :=
  ∀ one other, some one ∈ roots → some other ∈ roots →
    Below slash one other → one = other

section Steps
variable (nftw : System → Path → List Path) (visits : Visits nftw) (world : World System)
  (fine : Matches world) (effect : Effect)

include fine in
/-- The files of the roots that are left are the ones there were. -/
theorem followed_matches (files : List File) (after : World System)
    (followed : Followed world files after)
    (same : ∀ file : File, some file.path ∈ after.roots →
      (file ∈ files ↔ file ∈ world.state.files)) :
    Matches (withQueue after []) := by
  refine ⟨followed.settled, followed.distinct, ?_, ?_⟩
  · intro root listed
    obtain ⟨file, member, rfl, directory⟩ := fine.rootDirs root (followed.roots root listed)
    refine ⟨file, ?_, rfl, directory⟩
    change file ∈ after.state.files
    rw [followed.files]
    exact (same file listed).mpr member
  · intro watch living file member ino listed
    change file ∈ after.state.files at member
    rcases followed.flags watch living with old | ⟨other, there, inode, flag⟩
    · rw [followed.files] at member
      exact fine.flags watch old file ((same file listed).mp member) ino (followed.roots _ listed)
    · have sole : other = file :=
        file_unique (withQueue after []) followed.settled.sane other file there member
          (inode.trans ino.symm)
      rw [flag, sole]
      exact (move_self_flag after.roots file.path).mpr listed

theorem turn_followed (op : Op) (made : FileTree.effect world.state op = some effect)
    (files : List File) (after : World System)
    (handled : handleEvents nftw (changed world effect) (happen effect).queue = some after)
    (followed : Followed world files after) : turn nftw op world = some (withQueue after []) :=
  turn_settles nftw op world effect made after handled followed.ignored

/-! Creation. -/

variable (path : Path) (isDir : Bool)

include fine in
theorem create_changes (made : create world.state path isDir = some effect) :
    Changes world effect none := by
  obtain ⟨ok, _⟩ := create_ok world.state path isDir effect fine.settled.sane.files made
  unfold create at made
  split at made
  · cases made
    exact ⟨rfl, rfl, rfl, rfl, rfl, rfl, rfl, ok⟩
  · cases made

include fine in
/-- What a new file needs for the picture to be complete again. -/
theorem created_exact (made : create world.state path isDir = some effect) (file : File)
    (member : file ∈ effect.system.files) :
    Watched (changed world effect).state file ∨
        Inside world.roots path ∧ isDirectory effect.system.files file.path = true ∧
          Below slash path file.path ↔
      file.isDir = true ∧ Monitored world.roots file.path := by
  have sane := fine.settled.sane
  obtain ⟨ok, files, free, ready, _, _⟩ :=
    create_ok world.state path isDir effect sane.files made
  have absent := lookup_none _ _ free
  have first :=
    stage_start world fine effect none (create_changes world fine effect path isDir made)
  have watched : Watched (changed world effect).state file ↔ Watched world.state file := by
    constructor
    · rintro ⟨watch, living, ino⟩
      exact ⟨watch, ((first.watches watch).mp living).1, ino⟩
    · rintro ⟨watch, living, ino⟩
      obtain ⟨owner, inside, owned, _⟩ := settled_owned world fine.settled watch living
      exact ⟨watch, (first.watches watch).mpr ⟨living, Option.some_ne_none _, owner, inside,
        owned, trivial⟩, ino⟩
  have directory : isDirectory effect.system.files file.path = true ↔ file.isDir = true := by
    rw [is_directory_iff _ ok.paths]
    constructor
    · rintro ⟨other, there, same, isDir⟩
      rw [← List.inj_on_of_nodup_map ok.paths there member same]
      exact isDir
    · exact fun isDir => ⟨file, member, rfl, isDir⟩
  rw [watched, directory]
  rw [files] at member
  rcases List.mem_append.mp member with old | new
  · rw [settled_exact world fine.settled file old]
    constructor
    · rintro (fine_ | ⟨_, _, below⟩)
      · exact fine_
      · -- nothing lies below a name that is not there
        exfalso
        by_cases here : file.path = path
        · exact absent file old here
        · obtain ⟨dir, inside, _, there⟩ := ancestor_directory world.state sane.files path
            (placed_nonempty _ _ (available_placed _ _ ready).2) file old below here
          exact absent dir inside there
    · exact Or.inl
  · rw [List.mem_singleton] at new
    subst new
    constructor
    · rintro (⟨watch, living, ino⟩ | ⟨inside, isDir, _⟩)
      · obtain ⟨owner, there, owned, _⟩ := settled_owned world fine.settled watch living
        have fresh := sane.files.fresh owner there
        rw [← owned, ino] at fresh
        exact absurd fresh (Nat.lt_irrefl _)
      · exact ⟨isDir, inside_monitored _ _ inside⟩
    · rintro ⟨isDir, monitored⟩
      rcases monitored_cases _ _ monitored with listed | inside
      · obtain ⟨root, there, same, _⟩ := fine.rootDirs path listed
        exact absurd same (absent root there)
      · exact Or.inr ⟨inside, isDir, below_refl slash path⟩

include visits fine in
theorem create_followed (made : create world.state path isDir = some effect) :
    ∃ after, handleEvents nftw (changed world effect) (happen effect).queue = some after ∧
      Followed world effect.system.files after := by
  have sane := fine.settled.sane
  obtain ⟨ok, files, free, ready, notices, _⟩ :=
    create_ok world.state path isDir effect sane.files made
  have changes := create_changes world fine effect path isDir made
  have first := stage_start world fine effect none changes
  have plain : has (kind isDir IN_CREATE) IN_MOVE_SELF = false := by cases isDir <;> decide
  obtain ⟨short, placed⟩ := available_placed _ _ ready
  -- the walk, if there is one, sees the new directory
  have walks : ∃ after, handleEvents nftw (changed world effect) (happen effect).queue =
    some after ∧
      Walked (changed world effect) after fun one =>
        Inside world.roots path ∧ isDirectory effect.system.files one = true ∧
          Below slash path one := by
    have none_ : (∀ one, ¬ (Inside world.roots path ∧
      isDirectory effect.system.files one = true ∧
        Below slash path one)) → Walked (changed world effect) (changed world effect) fun one =>
          Inside world.roots path ∧ isDirectory effect.system.files one = true ∧
            Below slash path one := fun empty =>
      walked_same _ _ _ _ (walked_refl _ first.sane) fun one => ⟨False.elim, empty one⟩
    rw [change_events world fine effect none changes, notices]
    simp only [Option.toList_none, List.flatMap_nil, List.append_nil]
    rcases entry_events world fine path placed (kind isDir IN_CREATE) 0 plain with
      ⟨outside, silent⟩ | ⟨inside, wd, dir, name, cached, whole, one⟩
    · rw [silent]
      exact ⟨_, rfl, none_ fun _ both => outside both.1⟩
    · rw [one]
      cases isDir with
      | false =>
          refine ⟨changed world effect, ?_, none_ ?_⟩
          · rw [show kind false IN_CREATE = IN_CREATE from rfl,
              file_skipped nftw (changed world effect) [] wd IN_CREATE 0
              dir name (Or.inl rfl) first.sane.agrees.wellFormed cached]
            rfl
          · rintro one ⟨_, directory, below⟩
            obtain ⟨file, member, rfl, isDir⟩ := (is_directory_iff _ ok.paths one).mp directory
            have complete := (created_exact world fine effect path false made file member).mp
              (Or.inr ⟨inside, directory, below⟩)
            rw [files] at member
            rcases List.mem_append.mp member with old | new
            · by_cases here : file.path = path
              · exact lookup_none _ _ free file old here
              · obtain ⟨other, there, _, same⟩ :=
                  ancestor_directory world.state sane.files path
                    (placed_nonempty _ _ placed) file old below here
                exact lookup_none _ _ free other there same
            · rw [List.mem_singleton.mp new] at complete
              cases complete.1
      | true =>
          have unknown : ∀ number, (number, path) ∉ entries (changed world effect).cache := by
            intro number known
            obtain ⟨_, _, _, other, member, _, same⟩ :=
              settled_named world fine.settled number path known
            exact lookup_none _ _ free other member same
          obtain ⟨after, handled, walked⟩ :=
            created_new nftw (changed world effect) first.sane [] visits wd _ 0 dir name
              path (Or.inl rfl) cached whole short unknown
          refine ⟨after, handled, walked_same _ _ _ _ walked fun one => ?_⟩
          rw [first.files]
          exact ⟨fun seen => ⟨inside, seen⟩, And.right⟩
  obtain ⟨after, handled, walked⟩ := walks
  refine ⟨after, handled, walked_followed world effect.system.files _ _ _ _ first rfl
    fine.distinct _ after walked ?_⟩
  refine walked_settled (changed world effect) after _ walked ?_ ?_
  · intro wd label cached
    obtain ⟨watch, living, number, file, member, ino, name⟩ :=
      settled_named world fine.settled wd label cached
    refine ⟨watch, (first.watches watch).mpr ⟨living, Option.some_ne_none _, file, member,
      ino.symm, trivial⟩, number, file, ?_, ino, name⟩
    rw [first.files, files]
    exact List.mem_append_left _ member
  · intro file member
    rw [first.files] at member
    exact created_exact world fine effect path isDir made file member

/-! Removal. -/

include fine in
theorem remove_followed (made : remove world.state path isDir = some effect) :
    handleEvents nftw (changed world effect) (happen effect).queue = none ∧
      (∀ root, some root ∈ world.roots → root = path) ∨
    ∃ after, handleEvents nftw (changed world effect) (happen effect).queue = some after ∧
      Followed world effect.system.files after ∧ some path ∉ after.roots := by
  have sane := fine.settled.sane
  obtain ⟨ok, files, notices, victim, found, _, empty, vanished⟩ :=
    remove_ok world.state path isDir effect sane.files made
  obtain ⟨inside, here⟩ := lookup_some _ _ _ found
  have changes : Changes world effect (some victim.ino) := by
    unfold remove at made
    rw [found] at made
    dsimp only at made
    split at made
    · cases made
      exact ⟨rfl, rfl, rfl, rfl, rfl, rfl, rfl, ok⟩
    · cases made
  have first := stage_start world fine effect _ changes
  have present : ∀ other ∈ world.state.files,
      (some other.ino ≠ some victim.ino ↔ other.path ≠ path) := by
    intro other member
    constructor
    · rintro different rfl
      exact different (congrArg (some ·.ino) (List.inj_on_of_nodup_map sane.files.paths
        member inside here.symm))
    · intro apart same
      rw [file_unique world sane other victim member inside (Option.some.inj same)] at apart
      exact apart here
  rw [change_events world fine effect _ changes, notices]
  change handleEvents nftw (changed world effect) ((some victim.ino).toList.flatMap _) = none ∧
    _ ∨
    ∃ after, handleEvents nftw (changed world effect) ((some victim.ino).toList.flatMap _) =
      some after ∧ _
  have rooted : some path ∈ world.roots → ∃ root ∈ world.state.files,
    some victim.ino = some root.ino ∧
      Watched world.state root := by
    intro listed
    obtain ⟨root, member, same, directory⟩ := fine.rootDirs path listed
    obtain rfl := List.inj_on_of_nodup_map sane.files.paths member inside (same.trans here.symm)
    refine ⟨root, member, rfl,
      (settled_exact world fine.settled root member).mpr ⟨directory, path, listed, ?_⟩⟩
    rw [here]
    exact below_refl slash path
  rcases parting_handled nftw world sane effect.system.files _ (changed world effect) _ _
    first fine.distinct path
    (Or.inr ⟨victim, inside, rfl, here, fun _ => trivial⟩) rooted with ⟨exits, _, last⟩ |
      ⟨after, handled, parted⟩
  · exact Or.inl ⟨exits, last⟩
  · refine Or.inr ⟨after, handled, ?_, fun bad => ((parted.delisted.listed path).mp bad).2 rfl⟩
    have fewer : ∀ root, some root ∈ after.roots → some root ∈ world.roots :=
      fun root there =>
        ((parted.delisted.listed root).mp there).1
    refine ⟨?_, parted.stage.queue, parted.stage.files, parted.delisted.distinct, fewer,
      fun watch living =>
      Or.inl ((parted.stage.watches watch).mp living).1⟩
    refine stage_settled world sane effect.system.files _ after _ _ parted.stage id ?_
      (fun _ => rfl) (fun _ => rfl) (fun other member _ keeps => ⟨keeps.2, rfl⟩) ?_
    · intro other
      rw [files, List.mem_filter, bne_iff_ne]
      constructor
      · rintro ⟨member, apart⟩
        exact ⟨other, member, (present other member).mpr apart, rfl⟩
      · rintro ⟨before, member, there, rfl⟩
        exact ⟨member, (present before member).mp there⟩
    · intro other member there
      -- the removed directory was empty, so no other file was monitored through it
      have monitored : Monitored after.roots other.path ↔ Monitored world.roots other.path := by
        constructor
        · rintro ⟨root, listed, below⟩
          exact ⟨root, fewer root listed, below⟩
        · rintro ⟨root, listed, below⟩
          refine ⟨root, (parted.delisted.listed root).mpr ⟨listed, ?_⟩, below⟩
          rintro rfl
          exact (present other member).mp there (empty_below _ _ empty other member below)
      rw [id, monitored, ← settled_exact world fine.settled other member]
      exact ⟨And.left, fun watched => ⟨watched, trivial, there⟩⟩

/-! Renaming. -/

variable (old new : Path) (file : File) (renamed : Renamed world.state old new effect file)
  (short : ∀ other ∈ effect.system.files, other.path.length < PATH_MAX)
  (free : lookup world.state.files new = none)

include fine renamed short free in
/-- The events about a file that is no directory are skipped. -/
theorem file_rename_followed (plain : file.isDir = false) :
    ∃ after, handleEvents nftw (changed world effect) (happen effect).queue = some after ∧
      Followed world effect.system.files after := by
  have sane := fine.settled.sane
  obtain ⟨member, path⟩ := renamed_file world old new effect file renamed
  have first :=
    stage_start world fine effect _ (rename_changes world fine old new effect file renamed short)
  have nobody : replaced world new = none := by
    unfold replaced
    rw [free]
    rfl
  have nonempty : old ≠ [] := by
    rw [← path]
    exact placed_nonempty _ _ (sane.files.placed file member)
  have lone : ∀ other ∈ world.state.files, Below slash old other.path →
      other.isDir = false := by
    intro other there below
    by_cases same : other.path = old
    · rw [List.inj_on_of_nodup_map sane.files.paths there member (same.trans path.symm)]
      exact plain
    · obtain ⟨dir, inside, directory, here⟩ :=
        ancestor_directory world.state sane.files old nonempty other there below same
      rw [List.inj_on_of_nodup_map sane.files.paths inside member (here.trans path.symm),
          plain] at directory
      cases directory
  have unwatched : ∀ other ∈ world.state.files, Below slash old other.path →
      ¬ Watched world.state other := by
    intro other there below watched
    have directory := ((settled_exact world fine.settled other there).mp watched).1
    rw [lone other there below] at directory
    cases directory
  have later : laterEvents world file new = [] := by
    have self : selfEvents world file = [] := by
      unfold selfEvents noticed
      cases found : watchOf world.state.watches file.ino with
      | none => rfl
      | some watch =>
          obtain ⟨living, ino⟩ := watch_of_some _ _ watch found
          exact absurd ⟨watch, living, ino⟩ (unwatched file member
            (by rw [path]; exact below_refl slash old))
    rw [laterEvents, self, partingEvents, nobody]
    rfl
  have skipped : ∀ name mask cookie, mask = IN_CREATE ∨ mask = IN_MOVED_FROM ∨
    mask = IN_MOVED_TO →
      Placed world.state.files name → ∀ rest, handleEvents nftw (changed world effect)
        ((entryNotice world.state.files name mask cookie).flatMap (noticed world.state.watches) ++
          rest) =
      handleEvents nftw (changed world effect) rest := by
    intro name mask cookie simple placed rest
    have flag : has mask IN_MOVE_SELF = false := by rcases simple with rfl | rfl | rfl <;> decide
    rcases entry_events world fine name placed mask cookie flag with ⟨_, silent⟩ |
      ⟨_, wd, dir, label, cached, _, one⟩
    · rw [silent, List.nil_append]
    · rw [one, List.singleton_append]
      exact file_skipped nftw (changed world effect) rest wd mask cookie dir label simple
        first.sane.agrees.wellFormed cached
  refine ⟨changed world effect, ?_, ?_⟩
  · rw [rename_queue world fine old new effect file renamed short, plain, later]
    rw [show kind false IN_MOVED_FROM = IN_MOVED_FROM from rfl,
        show kind false IN_MOVED_TO = IN_MOVED_TO from rfl]
    rw [skipped old _ _ (Or.inr (Or.inl rfl))
        (by rw [← path]; exact sane.files.placed file member),
      skipped new _ _ (Or.inr (Or.inr rfl)) (available_placed _ _ renamed.ready).2]
    rfl
  · have stage : Stage world effect.system.files (replaced world new) (changed world effect)
      (fun _ => True)
        fun other => (moveFile old new other).path := by
      refine stage_congr world effect.system.files _ _ _ _ first _ _ (fun _ _ _ => Iff.rfl) ?_
      intro other there watched _
      rw [move_outside old new other fun below => unwatched other there below watched]
    refine stage_followed world fine old new effect file renamed _ _ stage fine.distinct
      (fun _ => id) (fun _ there _ _ => there) ?_ ?_ (fun _ _ _ _ _ => trivial)
    · intro other _ _ _ bad
      rw [nobody] at bad
      cases bad
    · intro other there below
      rw [lone other there below]
      exact ⟨fun both => absurd both.1 (unwatched other there below),
        fun both => by cases both.1⟩

variable (apart : Apart world.roots)
  (carries : ∀ root, some root ∈ world.roots → Below slash old root → root = old)

include visits fine renamed short free apart carries in
theorem directory_rename_followed (directory : file.isDir = true)
    (outward : some old ∈ world.roots → ¬ Monitored world.roots new) :
    handleEvents nftw (changed world effect) (happen effect).queue = none ∧
      (∀ root, some root ∈ world.roots → root = old) ∨
    ∃ after, handleEvents nftw (changed world effect) (happen effect).queue = some after ∧
      Followed world effect.system.files after ∧ some old ∉ after.roots := by
  have fresh : some new ∉ world.roots := by
    intro listed
    obtain ⟨there, member, same, _⟩ := fine.rootDirs new listed
    exact lookup_none _ _ free there member same
  by_cases source : Inside world.roots old
  · -- no root lies inside of another one
    have unlisted : some old ∉ world.roots := by
      intro listed
      obtain ⟨root, top, above, strict⟩ := source
      exact strict (apart root old top listed above).symm
    by_cases target : Inside world.roots new
    · obtain ⟨after, handled, followed⟩ :=
        within_followed nftw visits world fine old new effect file renamed short
          directory source target
      exact Or.inr ⟨after, handled, followed, fun there => unlisted (followed.roots old there)⟩
    · obtain ⟨after, handled, followed⟩ :=
        out_followed nftw visits world fine old new effect file renamed short
          directory source target
      exact Or.inr ⟨after, handled, followed, fun there => unlisted (followed.roots old there)⟩
  · by_cases listed : some old ∈ world.roots
    · have target : ¬ Inside world.roots new :=
        fun inside => outward listed (inside_monitored _ _ inside)
      rcases root_followed nftw world fine old new effect file renamed short directory
        listed source target with
        ⟨exits, last⟩ | followed
      · refine Or.inl ⟨exits, fun root there => (last root there).resolve_right ?_⟩
        rintro rfl
        exact fresh there
      · exact Or.inr followed
    · have unseen : Unseen world old := ⟨not_monitored _ _ listed source, carries⟩
      by_cases target : Inside world.roots new
      · obtain ⟨after, handled, followed⟩ :=
          moved_in_followed nftw visits world fine old new effect file renamed short
            directory free unseen target
        exact Or.inr ⟨after, handled, followed, fun there => listed (followed.roots old there)⟩
      · rcases unseen_followed nftw world fine old new effect file renamed short directory
          unseen target with
          ⟨_, bad, _⟩ | ⟨after, handled, followed⟩
        · exact absurd bad fresh
        · exact Or.inr ⟨after, handled, followed,
            fun there => listed (followed.roots old there)⟩

include fine renamed free carries in
/-- The roots that are left have not moved. -/
theorem renamed_matches (after : World System) (followed : Followed world effect.system.files after)
    (gone : some old ∉ after.roots) : Matches (withQueue after []) := by
  refine followed_matches world fine effect.system.files after followed fun other listed => ?_
  have root := followed.roots _ listed
  rw [mem_renamed world.state old new effect file renamed]
  constructor
  · rintro ⟨before, member, _, rfl⟩
    by_cases below : Below slash old before.path
    · have under : Below slash new (moveFile old new before).path := by
        rw [move_inside old new before below]
        exact reroot_below slash old new before.path below
      have same := root_below_new world fine old new effect file renamed _ root under
      rw [same] at root
      obtain ⟨there, inside, path, _⟩ := fine.rootDirs new root
      exact absurd path (lookup_none _ _ free there inside)
    · rw [move_outside old new before below]
      exact member
  · intro member
    refine ⟨other, member, lookup_none _ _ free other member,
      move_outside old new other fun below => ?_⟩
    rw [carries other.path root below] at listed
    exact gone listed

end Steps

/-- One careful change: the program exits with its last root, or its cache mirrors the trees. -/
theorem careful_turn (nftw : System → Path → List Path) (visits : Visits nftw)
    (world : World System) (fine : Matches world) (apart : Apart world.roots) (op : Op)
    (allowed : careful op world = true) (effect : Effect)
    (made : FileTree.effect world.state op = some effect) :
    turn nftw op world = none ∧ (∀ root, some root ∈ world.roots → leaves op root) ∨
    ∃ after, turn nftw op world = some after ∧ Matches after ∧
      ∀ root, some root ∈ after.roots → some root ∈ world.roots := by
  obtain ⟨fits, clear⟩ := Bool.and_eq_true_iff.mp allowed
  cases op with
  | create path isDir =>
      obtain ⟨after, handled, followed⟩ :=
        create_followed nftw visits world fine effect path isDir made
      obtain ⟨_, files, free, _⟩ :=
        create_ok world.state path isDir effect fine.settled.sane.files made
      refine Or.inr ⟨_, turn_followed nftw world effect _ made _ after handled followed,
        followed_matches world fine _ after followed fun file listed => ?_, followed.roots⟩
      rw [files, List.mem_append, List.mem_singleton, or_iff_left_iff_imp]
      rintro rfl
      obtain ⟨there, member, same, _⟩ := fine.rootDirs path (followed.roots _ listed)
      exact absurd same (lookup_none _ _ free there member)
  | remove path isDir =>
      rcases remove_followed nftw world fine effect path isDir made with ⟨exits, last⟩ |
        ⟨after, handled, followed, gone⟩
      · exact Or.inl ⟨turn_exits nftw _ world effect made exits, last⟩
      · obtain ⟨_, files, _⟩ :=
          remove_ok world.state path isDir effect fine.settled.sane.files made
        refine Or.inr ⟨_, turn_followed nftw world effect _ made _ after handled followed,
          followed_matches world fine _ after followed fun file listed => ?_, followed.roots⟩
        rw [files, List.mem_filter, bne_iff_ne, and_iff_left_iff_imp]
        rintro _ rfl
        exact gone listed
  | rename old new =>
      obtain ⟨file, renamed⟩ :=
        rename_cases world.state fine.settled.sane.files old new effect made
      simp only [permitted, Bool.and_eq_true, Option.isNone_iff_eq_none, List.all_eq_true,
        decide_eq_true_eq] at fits
      obtain ⟨⟨free, lengths⟩, outward⟩ := fits
      have short : ∀ other ∈ effect.system.files, other.path.length < PATH_MAX := by
        intro other member
        obtain ⟨before, inside, _, rfl⟩ :=
          (mem_renamed world.state old new effect file renamed other).mp member
        exact lengths before inside
      have carries : ∀ root, some root ∈ world.roots → Below slash old root →
          root = old := by
        intro root listed below
        have each := List.all_eq_true.mp clear (some root) listed
        rw [← covers_iff] at below
        simpa [below] using each
      have away : some old ∈ world.roots → ¬ Monitored world.roots new := by
        rintro listed ⟨root, other, below⟩
        rw [← covers_iff] at below
        rcases Bool.or_eq_true_iff.mp outward with bad | each
        · simp [listed] at bad
        · have outside := List.all_eq_true.mp each (some root) other
          simp [below] at outside
      have done : handleEvents nftw (changed world effect) (happen effect).queue = none ∧
            (∀ root, some root ∈ world.roots → root = old) ∨
          ∃ after, handleEvents nftw (changed world effect) (happen effect).queue = some after ∧
            Followed world effect.system.files after ∧ some old ∉ after.roots := by
        cases directory : file.isDir with
        | true =>
            exact directory_rename_followed nftw visits world fine effect old new file renamed
              short free apart carries directory away
        | false =>
            obtain ⟨after, handled, followed⟩ :=
              file_rename_followed nftw world fine effect old new file renamed short
                free directory
            refine Or.inr ⟨after, handled, followed, fun listed => ?_⟩
            obtain ⟨member, path⟩ := renamed_file world old new effect file renamed
            obtain ⟨root, inside, same, isDir⟩ := fine.rootDirs old (followed.roots old listed)
            rw [List.inj_on_of_nodup_map fine.settled.sane.files.paths inside member
                (same.trans path.symm),
              directory] at isDir
            cases isDir
      rcases done with ⟨exits, last⟩ | ⟨after, handled, followed, gone⟩
      · exact Or.inl ⟨turn_exits nftw _ world effect made exits, last⟩
      · exact Or.inr ⟨_, turn_followed nftw world effect _ made _ after handled followed,
          renamed_matches world fine effect old new file renamed free carries after followed gone,
          followed.roots⟩
  | unmount path => cases fits

/-- What the program is started with: directories none of which lies in another. -/
structure Startable (roots : List Path) (sys : System) : Prop where
  files : FilesOk sys
  late : sys.late = []
  limit : sys.limit = none
  once : roots.Nodup
  directories : ∀ root ∈ roots, isDirectory sys.files root = true
  apart : ∀ one ∈ roots, ∀ other ∈ roots, Below slash one other → one = other

theorem start_matches (nftw : System → Path → List Path) (visits : Visits nftw)
    (roots : List Path) (sys : System) (startable : Startable roots sys) :
    ∃ first, start nftw roots sys = some first ∧ Matches first ∧ Apart first.roots := by
  have files := startable.files
  obtain ⟨first, started, rebuilt⟩ :=
    reinitialize_rebuilt nftw visits ⟨[], roots.map some, sys, []⟩ files startable.limit
      (by
        intro notices member
        change notices ∈ sys.late at member
        rw [startable.late] at member
        cases member)
  have listed : ∀ root, some root ∈ first.roots ↔ root ∈ roots := by
    intro root
    rw [rebuilt.roots]
    exact List.mem_map_of_injective (Option.some_injective _)
  have same : first.state.files = sys.files := rebuilt.files
  refine ⟨first, started, ⟨rebuilt.settled, ?_, ?_, ?_⟩, ?_⟩
  · intro path
    rw [rebuilt.roots]
    exact List.nodup_iff_count_le_one.mp (startable.once.map (Option.some_injective _)) (some path)
  · intro root there
    obtain ⟨file, member, path, directory⟩ :=
      (is_directory_iff _ files.paths root).mp (startable.directories root ((listed root).mp there))
    exact ⟨file, by rw [same]; exact member, path, directory⟩
  · intro watch living file member ino there
    obtain ⟨other, inside, inode, flag⟩ := rebuilt.flagged watch living
    rw [flag, file_unique first rebuilt.settled.sane other file inside member
        (inode.trans ino.symm)]
    exact (move_self_flag first.roots file.path).mpr there
  · intro one other here there below
    exact startable.apart one ((listed one).mp here) other ((listed other).mp there) below

/-- The invariant of careful runs. -/
structure Orderly (world : World System) : Prop where
  fine : Matches world
  apart : Apart world.roots

theorem careful_orderly (nftw : System → Path → List Path) (visits : Visits nftw) (op : Op)
    (before after : World System) (orderly : Orderly before)
    (taken : Transition.restrict careful (turn nftw) op before = some after) : Orderly after := by
  obtain ⟨allowed, moved⟩ := Transition.restrict_some taken
  obtain ⟨effect, made, _⟩ := Option.bind_eq_some_iff.mp moved
  rcases careful_turn nftw visits before orderly.fine orderly.apart op allowed effect made with
    ⟨exits, _⟩ | ⟨next, done, good, fewer⟩
  · rw [exits] at moved
    cases moved
  · rw [done] at moved
    cases moved
    exact ⟨good, fun one other here there =>
      orderly.apart one other (fewer one here) (fewer other there)⟩

/-- After every careful change the slots in use mirror the directories at and below the
listed roots, and the program exits only with its last root. -/
theorem careful_changes_are_mirrored (nftw : System → Path → List Path) (visits : Visits nftw)
    (roots : List Path) (sys : System) (startable : Startable roots sys) :
    ∃ first, start nftw roots sys = some first ∧
      ∀ world, Transition.Reachable (· = first) (Transition.restrict careful
        (turn nftw)) world →
        Mirrors world ∧ ∀ op, careful op world = true →
          (FileTree.effect world.state op).isSome = true →
          turn nftw op world = none → ∀ root, some root ∈ world.roots → leaves op root := by
  obtain ⟨first, started, fine, apart⟩ := start_matches nftw visits roots sys startable
  refine ⟨first, started, fun world reached => ?_⟩
  obtain ⟨now, still⟩ : Orderly world := by
    refine Transition.reachable_invariant ?_ (careful_orderly nftw visits) reached
    rintro world rfl
    exact ⟨fine, apart⟩
  refine ⟨now.settled.mirrors, fun op allowed possible exits => ?_⟩
  obtain ⟨effect, made⟩ := Option.isSome_iff_exists.mp possible
  rcases careful_turn nftw visits world now still op allowed effect made with ⟨_, last⟩ |
    ⟨next, done, _⟩
  · exact last
  · rw [done] at exits
    cases exits

/-- An `nftw` for file systems that list directories before their contents. -/
def walk (sys : System) (path : Path) : List Path :=
  (sys.files.filter fun file => file.isDir && covers slash path file.path).map File.path

theorem walk_visits : Visits walk := by
  intro sys ok path one
  rw [is_directory_iff _ ok.paths]
  simp only [walk, List.mem_map, List.mem_filter, Bool.and_eq_true, covers_iff]
  constructor
  · rintro ⟨file, ⟨member, directory, below⟩, rfl⟩
    exact ⟨⟨file, member, rfl, directory⟩, below⟩
  · rintro ⟨⟨file, member, rfl, directory⟩, below⟩
    exact ⟨file, ⟨member, directory, below⟩, rfl⟩

-- Directories "b", "a" and "a/r" in it, of which "b" and "a/r" are roots.
def sample : System := ⟨[⟨[98], 0, true⟩, ⟨[97], 1, true⟩, ⟨[97, 47, 114], 2, true⟩],
    3, [], 1, 0, [], [], none⟩

theorem sample_startable : Startable [[98], [97, 47, 114]] sample := by
  refine ⟨⟨by decide, by decide, by decide, ?_, by decide⟩, rfl, rfl,
    by decide, by decide, ?_⟩
  · have simple : ∀ name : Path, name ∈ [[98], [97], [114]] → Simple slash name := by
      intro name member
      simp only [List.mem_cons, List.not_mem_nil, or_false] at member
      rcases member with rfl | rfl | rfl <;> simp [Simple, slash]
    intro file member
    simp only [sample, List.mem_cons, List.not_mem_nil, or_false] at member
    rcases member with rfl | rfl | rfl
    · exact Or.inl (simple [98] (by decide))
    · exact Or.inl (simple [97] (by decide))
    · exact Or.inr ⟨[97], [114], rfl, simple [114] (by decide),
        Or.inr ⟨⟨[97], 1, true⟩, by decide, rfl, rfl⟩⟩
  · intro one here other there below
    rw [← covers_iff] at below
    revert below
    simp only [List.mem_cons, List.not_mem_nil, or_false] at here there
    rcases here with rfl | rfl <;> rcases there with rfl | rfl <;> decide

-- "b/x" is made, goes with "b/x/y" below the root "a/r" and the root "b" goes away.
theorem busy_trees_are_mirrored :
    ∃ first world, start walk [[98], [97, 47, 114]] sample = some first ∧
      Transition.replay (Transition.restrict careful (turn walk))
        [.create [98, 47, 120] true, .create [98, 47, 120, 47, 121] true,
          .rename [98, 47, 120] [97, 47, 114, 47, 122], .rename [98] [99]] first = some world ∧
      entries world.cache = [(2, [97, 47, 114]), (3, [97, 47, 114, 47, 122]),
        (4, [97, 47, 114, 47, 122, 47, 121])] ∧
      Mirrors world := by
  obtain ⟨first, started, mirrored⟩ :=
    careful_changes_are_mirrored walk walk_visits _ sample sample_startable
  have ran : (start walk [[98], [97, 47, 114]] sample).any (fun first =>
      (Transition.replay (Transition.restrict careful (turn walk))
        [.create [98, 47, 120] true, .create [98, 47, 120, 47, 121] true,
          .rename [98, 47, 120] [97, 47, 114, 47, 122], .rename [98] [99]] first).any fun world =>
        decide (entries world.cache =
          [(2, [97, 47, 114]), (3, [97, 47, 114, 47, 122]),
            (4, [97, 47, 114, 47, 122, 47, 121])])) = true := by
    decide +kernel
  rw [started, Option.any_some] at ran
  obtain ⟨world, replayed, facts⟩ := (Option.any_eq_true _ _).mp ran
  have reached : Transition.Reachable (· = first) (Transition.restrict careful
      (turn walk)) world :=
    Transition.replay_reachable _ (.start rfl) replayed
  exact ⟨first, world, started, replayed, of_decide_eq_true facts, (mirrored world reached).1⟩

-- "a", with the root "a/r" in it, is renamed to "b/x".
theorem carried_root_is_stale :
    ¬ ∀ nftw roots sys, Visits nftw → Startable roots sys → ∃ first,
      start nftw roots sys = some first ∧
      ∀ world, Transition.Reachable (· = first) (Transition.restrict permitted
        (turn nftw)) world → Mirrors world := by
  intro claim
  obtain ⟨first, started, mirrored⟩ := claim walk _ sample walk_visits sample_startable
  have ran : (start walk [[98], [97, 47, 114]] sample).any (fun first =>
      (Transition.replay (Transition.restrict permitted (turn walk)) [.rename [97] [98, 47, 120]]
        first).any fun world =>
        decide ((2, [97, 47, 114]) ∈ entries world.cache ∧ ∀ file ∈ world.state.files,
          file.path ≠ [97, 47, 114])) =
      true := by
    decide +kernel
  rw [started, Option.any_some] at ran
  obtain ⟨world, replayed, facts⟩ := (Option.any_eq_true _ _).mp ran
  obtain ⟨cached, missing⟩ := of_decide_eq_true facts
  have reached : Transition.Reachable (· = first) (Transition.restrict permitted
      (turn walk)) world :=
    Transition.replay_reachable _ (.start rfl) replayed
  obtain ⟨file, member, _, _, path, _⟩ := ((mirrored world reached).slots _ _).mp cached
  exact missing file member path

end Tlpi.TreeMirror
