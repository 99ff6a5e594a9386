import Mathlib.Data.List.Basic
import Tlpi.ChangeStages

/-!
The handling of the rename of a directory from a state in which the cache mirrors the
trees, one lemma for every way the old and the new name can lie to the listed roots.
-/

namespace Tlpi.RenamedDirectory

open PathName WatchCache TreeMonitor FileTree WatchSet EventReader SettledTree
  HandledEvents ChangeStages

/-- The cache mirrors the trees again; roots were only taken off the list. -/
structure Followed (before : World System) (files : List File) (after : World System) : Prop where
  settled : Settled (withQueue after [])
  ignored : ∀ ev ∈ after.state.queue, ev.mask = IN_IGNORED
  files : after.state.files = files
  distinct : Distinct after.roots
  roots : ∀ root, some root ∈ after.roots → some root ∈ before.roots
  flags : ∀ watch ∈ after.state.watches, watch ∈ before.state.watches ∨ Flagged after watch

theorem rebuilt_followed (before middle after : World System) (files : List File)
    (rebuilt : Rebuilt middle after) (same : middle.state.files = files)
    (distinct : Distinct middle.roots)
    (roots : ∀ root, some root ∈ middle.roots → some root ∈ before.roots) :
    Followed before files after := by
  have quiet := rebuilt.settled.quiet
  have calm : withQueue after [] = after := by
    unfold withQueue
    rw [← quiet]
  refine ⟨by rw [calm]; exact rebuilt.settled, ?_, rebuilt.files.trans same,
    by rw [rebuilt.roots]; exact distinct, by rw [rebuilt.roots]; exact roots,
    fun watch living => Or.inr (rebuilt.flagged watch living)⟩
  intro ev member
  rw [quiet] at member
  cases member

theorem stage_roots (before : World System) (files : List File) (gone : Option Nat)
    (world : World System) (keep : File → Prop) (label : File → Path)
    (stage : Stage before files gone world keep label) (left : RootDirPaths) :
    Stage before files gone { world with roots := left } keep label :=
  ⟨sane_cache world stage.sane world.cache left stage.sane.agrees.wellFormed
    stage.sane.agrees.cached fun _ => id, stage.files, stage.queue, stage.slots, stage.watches⟩

/-- A walk adds watches with the flags that go with the names. -/
theorem walked_followed (before : World System) (files : List File) (gone : Option Nat)
    (middle : World System) (keep : File → Prop) (label : File → Path)
    (stage : Stage before files gone middle keep label) (roots : middle.roots = before.roots)
    (distinct : Distinct before.roots) (seen : Path → Prop) (after : World System)
    (walked : Walked middle after seen) (settled : Settled (withQueue after [])) :
    Followed before files after := by
  have same : after.roots = before.roots := walked.roots.trans roots
  refine ⟨settled, ?_, walked.files.trans stage.files,
    by rw [same]; exact distinct, fun root there => same ▸ there, ?_⟩
  · intro ev member
    rw [walked.queue] at member
    exact stage.queue ev member
  · intro watch living
    rcases walked.flags watch living with old | ⟨file, member, _, ino, flag⟩
    · exact Or.inl ((stage.watches watch).mp old).1
    · refine Or.inr ⟨file, ?_, ino, ?_⟩
      · rw [walked.files]
        exact member
      · rw [flag, walked.roots]

section Rename
variable (nftw : System → Path → List Path) (visits : Visits nftw) (world : World System)
  (fine : Matches world) (old new : Path) (effect : Effect) (file : File)
  (renamed : Renamed world.state old new effect file)
  (short : ∀ other ∈ effect.system.files, other.path.length < PATH_MAX)

/-- The inode of the directory that is replaced. -/
def replaced (world : World System) (new : Path) : Option Nat :=
  (lookup world.state.files new).map File.ino

include fine renamed short in
theorem rename_changes : Changes world effect (replaced world new) := by
  have ok := rename_ok world.state fine.settled.sane.files old new effect file renamed short
  have system := renamed.system
  refine ⟨?_, ?_, ?_, ?_, ?_, renamed.vanished, renamed.cause, ok⟩ <;> rw [system]

include fine in
theorem replaced_iff (other : File) (member : other ∈ world.state.files) :
    some other.ino ≠ replaced world new ↔ other.path ≠ new := by
  unfold replaced
  constructor
  · rintro present rfl
    rw [lookup_mem _ fine.settled.sane.files.paths other member] at present
    exact present rfl
  · intro apart same
    obtain ⟨there, found, ino⟩ := Option.map_eq_some_iff.mp same.symm
    obtain ⟨inside, path⟩ := lookup_some _ _ _ found
    rw [file_unique world fine.settled.sane there other inside member ino] at path
    exact apart path

theorem replaced_none (free : lookup world.state.files new = none) : replaced world new = none := by
  unfold replaced
  rw [free]
  rfl

theorem replaced_cases : replaced world new = none ∨
    ∃ victim ∈ world.state.files,
      replaced world new = some victim.ino ∧ victim.path = new := by
  cases found : lookup world.state.files new with
  | none => exact Or.inl (replaced_none world new found)
  | some victim =>
      obtain ⟨inside, path⟩ := lookup_some _ _ _ found
      refine Or.inr ⟨victim, inside, ?_, path⟩
      unfold replaced
      rw [found]
      rfl

include fine in
/-- A replaced root was watched. -/
theorem replaced_root (listed : some new ∈ world.roots) : ∃ victim ∈ world.state.files,
    replaced world new = some victim.ino ∧ victim.path = new ∧ Watched world.state victim := by
  obtain ⟨victim, inside, path, directory⟩ := fine.rootDirs new listed
  have watched := (settled_exact world fine.settled victim inside).mpr
    ⟨directory, new, listed, by rw [path]; exact below_refl slash new⟩
  refine ⟨victim, inside, ?_, path, watched⟩
  unfold replaced
  rw [← path, lookup_mem _ fine.settled.sane.files.paths victim inside]
  rfl

include fine renamed in
theorem rename_members (other : File) :
    other ∈ effect.system.files ↔ ∃ before ∈ world.state.files,
    some before.ino ≠ replaced world new ∧ moveFile old new before = other := by
  rw [mem_renamed world.state old new effect file renamed]
  refine exists_congr fun before => and_congr_right fun member => and_congr_left fun _ => ?_
  exact (replaced_iff world fine new before member).symm

include renamed in
theorem renamed_file : file ∈ world.state.files ∧ file.path = old :=
  lookup_some _ _ _ renamed.found

include renamed in
theorem renamed_path : (moveFile old new file).path = new := by
  obtain ⟨_, path⟩ := renamed_file world old new effect file renamed
  rw [move_inside old new file (by rw [path]; exact below_refl slash old), path]
  simp [reroot]

include renamed short in
/-- Rewriting a name in the cache follows the file. -/
theorem rewritten_move (other : File) (member : other ∈ world.state.files) :
    rewritten old new other.path = (moveFile old new other).path := by
  unfold rewritten
  by_cases below : Below slash old other.path
  · rw [if_pos ((covers_iff slash old other.path).mpr below), move_inside old new other below]
    have apart : other.path ≠ new := by
      rintro rfl
      exact renamed.outside below
    have there :=
      (mem_renamed world.state old new effect file renamed _).mpr ⟨other, member, apart, rfl⟩
    have fits := short _ there
    rw [move_inside old new other below] at fits
    exact List.take_of_length_le (Nat.le_sub_one_of_lt fits)
  · rw [if_neg fun hit => below ((covers_iff slash old other.path).mp hit),
        move_outside old new other below]

/-! Which files are monitored afterwards. -/

include fine renamed in
/-- A root that the new name lies on or above is the replaced directory. -/
theorem root_below_new (root : Path) (listed : some root ∈ world.roots)
    (below : Below slash new root) : root = new := by
  obtain ⟨there, member, rfl, _⟩ := fine.rootDirs root listed
  exact renamed.free there member below

include fine renamed in
/-- What is moved is monitored by the roots above its new place. -/
theorem moved_monitored (left : RootDirPaths)
    (fewer : ∀ root, some root ∈ left → some root ∈ world.roots) (path : Path)
    (below : Below slash old path) :
    Monitored left (reroot old new path) ↔ Monitored left new := by
  have under := reroot_below slash old new path below
  constructor
  · rintro ⟨root, listed, above⟩
    rcases below_comparable slash root new _ above under with higher | beneath
    · exact ⟨root, listed, higher⟩
    · have same :=
        root_below_new world fine old new effect file renamed root (fewer root listed) beneath
      exact ⟨root, listed, by rw [same]; exact below_refl slash new⟩
  · rintro ⟨root, listed, above⟩
    exact ⟨root, listed, below_trans slash _ _ _ above under⟩

/-- Below an unmonitored directory only a root of its own is monitored. -/
theorem monitored_below (roots : RootDirPaths) (path : Path) (below : Below slash old path)
    (monitored : Monitored roots path) : Monitored roots old ∨ ∃ root,
    some root ∈ roots ∧ Below slash old root ∧ root ≠ old := by
  obtain ⟨root, listed, above⟩ := monitored
  rcases below_comparable slash root old path above below with higher | beneath
  · exact Or.inl ⟨root, listed, higher⟩
  · by_cases same : root = old
    · subst same
      exact Or.inl ⟨root, listed, below_refl slash root⟩
    · exact Or.inr ⟨root, listed, beneath, same⟩

include renamed in
/-- Files that stay are monitored as before, unless their root was taken off. -/
theorem stays_monitored (left : RootDirPaths)
    (fewer : ∀ root, some root ∈ left → some root ∈ world.roots)
    (kept : ∀ root, some root ∈ world.roots → root ≠ old → root ≠ new →
      some root ∈ left) (other : File) (member : other ∈ world.state.files) (apart :
        other.path ≠ new) (outside : ¬ Below slash old other.path) :
    Monitored left other.path ↔ Monitored world.roots other.path := by
  constructor
  · rintro ⟨root, listed, below⟩
    exact ⟨root, fewer root listed, below⟩
  · rintro ⟨root, listed, below⟩
    refine ⟨root, kept root listed ?_ ?_, below⟩
    · rintro rfl
      exact outside below
    · rintro rfl
      exact apart (renamed.free other member below)

/-- A name outside of the trees is not monitored once it is no root itself. -/
theorem outside_unmonitored (left : RootDirPaths)
    (fewer : ∀ root, some root ∈ left → some root ∈ world.roots)
    (target : ¬ Inside world.roots new) (unlisted : some new ∉ left) :
    ¬ Monitored left new := by
  rintro ⟨root, listed, below⟩
  refine target ⟨root, fewer root listed, below, ?_⟩
  rintro rfl
  exact unlisted listed

include fine renamed in
theorem stage_followed (after : World System) (keep : File → Prop)
    (stage : Stage world effect.system.files (replaced world new) after keep fun other =>
      (moveFile old new other).path)
    (distinct : Distinct after.roots)
    (fewer : ∀ root, some root ∈ after.roots → some root ∈ world.roots)
    (kept : ∀ root, some root ∈ world.roots → root ≠ old → root ≠ new →
      some root ∈ after.roots) (present : ∀ other ∈ world.state.files,
      Watched world.state other → keep other →
      some other.ino ≠ replaced world new)
    (moved : ∀ other ∈ world.state.files, Below slash old other.path →
      (Watched world.state other ∧ keep other ↔
        other.isDir = true ∧ Monitored after.roots new))
    (stayed : ∀ other ∈ world.state.files, ¬ Below slash old other.path →
      other.path ≠ new →
      Watched world.state other → keep other) : Followed world effect.system.files after := by
  have sane := fine.settled.sane
  have settled : Settled (withQueue after []) := by
    refine stage_settled world sane effect.system.files _ after keep _ stage (moveFile old new)
      (rename_members world fine old new effect file renamed) (move_ino old new) (move_kind old new)
      (fun other member watched keeps => ⟨present other member watched keeps, rfl⟩) ?_
    intro other member there
    have apart := (replaced_iff world fine new other member).mp there
    by_cases below : Below slash old other.path
    · rw [move_inside old new other below, moved other member below]
      rw [moved_monitored world fine old new effect file renamed after.roots fewer other.path below]
    · rw [move_outside old new other below,
        stays_monitored world old new effect file renamed after.roots fewer kept other
          member apart below,
        ← settled_exact world fine.settled other member]
      exact ⟨And.left, fun watched => ⟨watched, stayed other member below apart watched⟩⟩
  exact ⟨settled, stage.queue, stage.files, distinct, fewer,
    fun watch there => Or.inl ((stage.watches watch).mp there).1⟩

/-! The events, in the order in which they are queued. -/

def selfEvents (world : World System) (file : File) : List Event :=
  noticed world.state.watches ⟨file.ino, IN_MOVE_SELF, 0, []⟩

def partingEvents (world : World System) (new : Path) : List Event :=
  (replaced world new).toList.flatMap (parting world.state.watches IN_DELETE_SELF)

/-- What comes after the two halves. -/
def laterEvents (world : World System) (file : File) (new : Path) : List Event :=
  selfEvents world file ++ partingEvents world new

include fine renamed short in
theorem rename_queue : (happen effect).queue =
    (entryNotice world.state.files old (kind file.isDir IN_MOVED_FROM)
      world.state.nextCookie).flatMap
        (noticed world.state.watches) ++
      ((entryNotice world.state.files new (kind file.isDir IN_MOVED_TO)
        world.state.nextCookie).flatMap
        (noticed world.state.watches) ++ laterEvents world file new) := by
  rw [change_events world fine effect _ (rename_changes world fine old new effect file renamed
      short), renamed.notices]
  simp only [List.flatMap_append, List.flatMap_cons, List.flatMap_nil, List.append_nil,
    List.append_assoc]
  rfl

/-- No second half is among what comes later. -/
theorem later_alone (next : Event) (first : next ∈ (laterEvents world file new).head?) :
    has next.mask IN_MOVED_TO = false := by
  have member : next ∈ laterEvents world file new := List.mem_of_mem_head? first
  rcases List.mem_append.mp member with self | parted
  · obtain ⟨watch, _, _, rfl⟩ := noticed_watch _ _ _ self
    exact (by decide : has IN_MOVE_SELF IN_MOVED_TO = false)
  · obtain ⟨ino, _, here⟩ := List.mem_flatMap.mp parted
    obtain ⟨watch, _, _, same | same⟩ := parting_watch _ _ _ _ here
    · subst same
      exact (by decide : has IN_DELETE_SELF IN_MOVED_TO = false)
    · subst same
      exact (by decide : has IN_IGNORED IN_MOVED_TO = false)

include fine renamed in
/-- A replaced directory loses its slot, which completes the handling. -/
theorem parting_followed (middle : World System) (keep : File → Prop)
    (stage : Stage world effect.system.files (replaced world new) middle keep fun other =>
      (moveFile old new other).path)
    (distinct : Distinct middle.roots)
    (fewer : ∀ root, some root ∈ middle.roots → some root ∈ world.roots)
    (kept : ∀ root, some root ∈ world.roots → root ≠ old → root ≠ new →
      some root ∈ middle.roots) (moved : ∀ left, Delisted new middle.roots left →
      ∀ other ∈ world.state.files, Below slash old other.path →
      (Watched world.state other ∧ keep other ↔ other.isDir = true ∧ Monitored left new))
    (stayed : ∀ other ∈ world.state.files, ¬ Below slash old other.path →
      Watched world.state other → keep other) :
    handleEvents nftw middle (partingEvents world new) = none ∧ some new ∈ middle.roots ∧
      (∀ other, some other ∈ middle.roots → other = new) ∨
    ∃ after, handleEvents nftw middle (partingEvents world new) = some after ∧
      Followed world effect.system.files after ∧ Delisted new middle.roots after.roots := by
  have sane := fine.settled.sane
  have victims : replaced world new = none ∨ ∃ victim ∈ world.state.files,
    replaced world new = some victim.ino ∧
      (moveFile old new victim).path = new ∧ (Watched world.state victim → keep victim) := by
    rcases replaced_cases world new with nobody | ⟨victim, inside, hit, path⟩
    · exact Or.inl nobody
    · have outside : ¬ Below slash old victim.path := by
        rw [path]
        exact renamed.outside
      refine Or.inr ⟨victim, inside, hit, ?_, stayed victim inside outside⟩
      rw [move_outside old new victim outside, path]
  have listed : some new ∈ middle.roots → ∃ victim ∈ world.state.files,
    replaced world new = some victim.ino ∧
      Watched world.state victim := by
    intro member
    obtain ⟨victim, inside, hit, _, watched⟩ := replaced_root world fine new (fewer new member)
    exact ⟨victim, inside, hit, watched⟩
  rcases parting_handled nftw world sane effect.system.files (replaced world new) middle keep _
    stage distinct new victims listed with exits | ⟨after, handled, parted⟩
  · exact Or.inl exits
  · refine Or.inr ⟨after, handled, ?_, parted.delisted⟩
    have roots : ∀ root, some root ∈ after.roots → some root ∈ middle.roots :=
      fun root member =>
        ((parted.delisted.listed root).mp member).1
    refine stage_followed world fine old new effect file renamed after _ parted.stage
      parted.delisted.distinct
      (fun root member => fewer root (roots root member)) ?_ (fun _ _ _ keeps => keeps.2) ?_ ?_
    · intro root member different apart
      exact (parted.delisted.listed root).mpr ⟨kept root member different apart, apart⟩
    · intro other member below
      rw [← moved after.roots parted.delisted other member below]
      have there : some other.ino ≠ replaced world new := by
        apply (replaced_iff world fine new other member).mpr
        rintro same
        exact renamed.outside (same ▸ below)
      exact ⟨fun both => ⟨both.1, both.2.1⟩, fun both => ⟨both.1, both.2, there⟩⟩
    · intro other member outside apart watched
      exact ⟨stayed other member outside watched,
        (replaced_iff world fine new other member).mpr apart⟩

/-! The ways in which the names can lie. -/

variable (directory : file.isDir = true)

def fromEvents (world : World System) (old : Path) : List Event :=
  (entryNotice world.state.files old (IN_MOVED_FROM ||| IN_ISDIR) world.state.nextCookie).flatMap
    (noticed world.state.watches)

def toEvents (world : World System) (new : Path) : List Event :=
  (entryNotice world.state.files new (IN_MOVED_TO ||| IN_ISDIR) world.state.nextCookie).flatMap
    (noticed world.state.watches)

include fine renamed short directory in
theorem directory_queue :
    (happen effect).queue = fromEvents world old ++
      (toEvents world new ++ laterEvents world file new) := by
  rw [rename_queue world fine old new effect file renamed short, directory]
  rfl

include fine renamed in
theorem from_half : ¬ Inside world.roots old ∧ fromEvents world old = [] ∨
    Inside world.roots old ∧ ∃ wd dir name, (wd, dir) ∈ entries world.cache ∧
      old = join slash dir name ∧
      fromEvents world old =
        [⟨wd, IN_MOVED_FROM ||| IN_ISDIR, world.state.nextCookie, name⟩] := by
  obtain ⟨member, path⟩ := renamed_file world old new effect file renamed
  have placed : Placed world.state.files old := by
    rw [← path]
    exact fine.settled.sane.files.placed file member
  exact entry_events world fine old placed _ _ (by decide)

include fine renamed in
theorem to_half : ¬ Inside world.roots new ∧ toEvents world new = [] ∨
    Inside world.roots new ∧ ∃ wd dir name, (wd, dir) ∈ entries world.cache ∧
      new = join slash dir name ∧
      toEvents world new = [⟨wd, IN_MOVED_TO ||| IN_ISDIR, world.state.nextCookie, name⟩] :=
  entry_events world fine new (available_placed _ _ renamed.ready).2 _ _ (by decide)

include fine renamed in
theorem from_silent (source : ¬ Inside world.roots old) : fromEvents world old = [] := by
  rcases from_half world fine old new effect file renamed with ⟨_, none_⟩ | ⟨inside, _⟩
  · exact none_
  · exact absurd inside source

include fine renamed in
theorem to_silent (target : ¬ Inside world.roots new) : toEvents world new = [] := by
  rcases to_half world fine old new effect file renamed with ⟨_, none_⟩ | ⟨inside, _⟩
  · exact none_
  · exact absurd inside target

include fine renamed short directory in
/-- With both names outside of the trees only the later events come. -/
theorem outside_queue (source : ¬ Inside world.roots old) (target : ¬ Inside world.roots new) :
    (happen effect).queue = laterEvents world file new := by
  rw [directory_queue world fine old new effect file renamed short directory,
    from_silent world fine old new effect file renamed source,
    to_silent world fine old new effect file renamed target]
  rfl

include fine renamed directory in
/-- The moved directory reports its move only if it was watched. -/
theorem self_cases : some old ∉ world.roots ∧ selfEvents world file = [] ∨
    ∃ watch ∈ world.state.watches,
      watch.ino = file.ino ∧ (watch.wd, old) ∈ entries world.cache ∧
      Monitored world.roots old ∧ selfEvents world file =
        [⟨watch.wd, IN_MOVE_SELF, 0, []⟩] := by
  obtain ⟨member, path⟩ := renamed_file world old new effect file renamed
  rcases self_events world fine file member directory with ⟨unlisted, none_⟩ |
    ⟨watch, living, ino, cached, one⟩
  · exact Or.inl ⟨by rw [← path]; exact unlisted, none_⟩
  · have monitored :=
      ((settled_exact world fine.settled file member).mp ⟨watch, living, ino⟩).2
    rw [path] at cached monitored
    exact Or.inr ⟨watch, living, ino, cached, monitored, one⟩

include fine renamed in
theorem old_short : old.length < PATH_MAX := by
  obtain ⟨member, path⟩ := renamed_file world old new effect file renamed
  rw [← path]
  exact fine.settled.sane.files.short file member

include renamed in
theorem new_short : new.length < PATH_MAX := by
  have ready := renamed.ready
  unfold available at ready
  rw [Bool.and_eq_true] at ready
  exact of_decide_eq_true ready.1

include visits fine renamed short directory in
/-- Both names lie in the trees: the cached names are rewritten. -/
theorem within_followed (source : Inside world.roots old) (target : Inside world.roots new) :
    ∃ after, handleEvents nftw (changed world effect) (happen effect).queue = some after ∧
      Followed world effect.system.files after := by
  have sane := fine.settled.sane
  have changes := rename_changes world fine old new effect file renamed short
  have first := stage_start world fine effect _ changes
  obtain ⟨member, path⟩ := renamed_file world old new effect file renamed
  obtain ⟨root, listed, above, strict⟩ := target
  rw [directory_queue world fine old new effect file renamed short directory]
  rcases from_half world fine old new effect file renamed with ⟨bad, _⟩ |
    ⟨_, wd, dir, name, from_, whole, one⟩
  · exact absurd source bad
  rcases to_half world fine old new effect file renamed with ⟨bad, _⟩ |
    ⟨_, number, last, label, to_, entire, two⟩
  · exact absurd ⟨root, listed, above, strict⟩ bad
  rw [one, two]
  obtain ⟨second, handled, respelled⟩ := pair_handled nftw (changed world effect) first.sane
    (laterEvents world file new) wd number world.state.nextCookie dir name last label old new
      from_ to_ whole entire
    (old_short world fine old new effect file renamed) (new_short world old new effect file renamed)
  have stage : Stage world effect.system.files (replaced world new) second (fun _ => True)
      fun other => (moveFile old new other).path := by
    have rewritten := stage_respelled world effect.system.files _ (changed world effect) _ _ first
      old new second respelled
    exact stage_congr world effect.system.files _ second _ _ rewritten _ _ (fun _ _ _ => Iff.rfl)
      fun other inside _ _ => rewritten_move world old new effect file renamed short other inside
  have roots : second.roots = world.roots := respelled.roots
  have followed : ∃ after, handleEvents nftw second (partingEvents world new) = some after ∧
      Followed world effect.system.files after := by
    -- everything below the old name was monitored, and everything below the new one is
    have moved : ∀ left, Delisted new second.roots left → ∀ other ∈ world.state.files,
      Below slash old other.path →
        (Watched world.state other ∧ True ↔ other.isDir = true ∧ Monitored left new) := by
      intro left delisted other inside below
      have there : Monitored left new :=
        ⟨root, (delisted.listed root).mpr
          ⟨by rw [roots]; exact listed, fun same => strict same.symm⟩, above⟩
      have here : Monitored world.roots other.path := by
        obtain ⟨top, on, higher, _⟩ := source
        exact ⟨top, on, below_trans slash _ _ _ higher below⟩
      rw [settled_exact world fine.settled other inside]
      exact ⟨fun both => ⟨both.1.1, there⟩, fun both => ⟨⟨both.1, here⟩, trivial⟩⟩
    rcases parting_followed nftw world fine old new effect file renamed second (fun _ => True) stage
      (by rw [roots]; exact fine.distinct) (fun other there => roots ▸ there)
        (fun other there _ _ => by rw [roots]; exact there)
      moved (fun _ _ _ _ => trivial) with ⟨_, _, last⟩ | ⟨after, done, result, _⟩
    · exact absurd (last root (by rw [roots]; exact listed)).symm strict
    · exact ⟨after, done, result⟩
  change ∃ after, handleEvents nftw (changed world effect) (_ :: _ ::
    laterEvents world file new) = some after ∧ _
  rw [handled, laterEvents]
  rcases self_cases world fine old new effect file renamed directory with
    ⟨_, none_⟩ | ⟨watch, living, ino, cached, _, self⟩
  · rw [none_, List.nil_append]
    exact followed
  · have moved : (watch.wd, new) ∈ entries second.cache := by
      apply (stage.slots watch.wd new).mpr
      exact ⟨watch, living, rfl, file, member, ino, trivial,
        renamed_path world old new effect file renamed⟩
    rw [self, List.singleton_append]
    by_cases rooted : some new ∈ second.roots
    · -- the replaced directory was a root, and its dead slot makes the program start again
      rcases self_listed nftw second stage.sane (partingEvents world new)
        (by rw [roots]; exact fine.distinct) watch.wd new
        moved rooted with ⟨_, last⟩ | ⟨left, delisted, handled⟩
      · exact absurd (last root (by rw [roots]; exact listed)).symm strict
      · obtain ⟨victim, inside, lost, same, dead, alive, owned⟩ :=
          replaced_root world fine new (roots ▸ rooted)
        have slot : (dead.wd, new) ∈ entries second.cache := by
          apply (stage.slots dead.wd new).mpr
          refine ⟨dead, alive, rfl, victim, inside, owned, trivial, ?_⟩
          rw [move_outside old new victim (by rw [same]; exact renamed.outside), same]
        obtain ⟨after, zapped, sound, kept, files⟩ :=
          zap_subtree_fails nftw new { second with roots := left }
            (stage_roots world effect.system.files _ second _ _ stage left).sane dead.wd new slot
              (below_refl slash new)
            (by
              intro other there same
              obtain ⟨before, present, _⟩ := (stage.watches other).mp there
              rw [watch_unique world sane other dead before alive same, owned] at present
              exact present lost.symm)
        obtain ⟨rebuilt, done, result⟩ := sane_rebuilt nftw visits after sound
        refine ⟨rebuilt, ?_, rebuilt_followed world after rebuilt effect.system.files result
          (files.trans stage.files) (by rw [kept]; exact delisted.distinct) ?_⟩
        · rw [handled, zapped]
          exact done
        · intro other there
          rw [kept] at there
          rw [← roots]
          exact ((delisted.listed other).mp there).1
    · rw [self_unlisted nftw second stage.sane (partingEvents world new) watch.wd new moved rooted]
      exact followed

section Cleared
variable (middle : World System)
  (first : Stage world effect.system.files (replaced world new) middle (fun _ => True) File.path)

include fine renamed first in
theorem first_live (number : Int) (path : Path) (cached : (number, path) ∈ entries middle.cache)
    (below : Below slash old path) : ∃ watch ∈ middle.state.watches, watch.wd = number := by
  refine stage_live world effect.system.files _ middle _ _ first number path cached
    fun other member _ same => ?_
  apply (replaced_iff world fine new other member).mpr
  rintro rfl
  exact renamed.outside (same ▸ below)

include fine first in
theorem cleared_stage (after : World System)
    (cleared : Cleared old (List.range middle.cache.length) middle after) :
    Stage world effect.system.files (replaced world new) after
      (fun other => ¬ Below slash old other.path) fun other => (moveFile old new other).path := by
  have stage :=
    stage_cleared world fine.settled.sane effect.system.files _ middle _ _ first old after cleared
  refine stage_congr world effect.system.files _ after _ _ stage _ _ (fun other _ _ => ?_)
    fun other _ _ keeps => ?_
  · exact ⟨And.right, fun outside => ⟨trivial, outside⟩⟩
  · rw [move_outside old new other keeps.2]

include fine renamed first in
/-- The moved directory has left the trees, and its slots are cleared. -/
theorem cleared_followed (target : ¬ Inside world.roots new) (after : World System)
    (cleared : Cleared old (List.range middle.cache.length) middle after)
    (distinct : Distinct middle.roots)
    (fewer : ∀ root, some root ∈ middle.roots → some root ∈ world.roots)
    (kept : ∀ root, some root ∈ world.roots → root ≠ old → root ≠ new →
      some root ∈ middle.roots) :
    handleEvents nftw after (partingEvents world new) = none ∧ some new ∈ middle.roots ∧
      (∀ other, some other ∈ middle.roots → other = new) ∨
    ∃ last, handleEvents nftw after (partingEvents world new) = some last ∧
      Followed world effect.system.files last ∧ Delisted new middle.roots last.roots := by
  have stage := cleared_stage world fine old new effect middle first after cleared
  have roots := cleared.roots
  rw [← roots] at distinct fewer kept ⊢
  refine parting_followed nftw world fine old new effect file renamed after _ stage
    distinct fewer kept ?_ fun _ _ outside _ => outside
  intro left delisted other member below
  have unmonitored : ¬ Monitored left new := by
    refine outside_unmonitored world new left (fun root there =>
      fewer root ((delisted.listed root).mp there).1) target ?_
    intro bad
    exact ((delisted.listed new).mp bad).2 rfl
  exact ⟨fun both => absurd below both.2, fun both => absurd both.2 unmonitored⟩

end Cleared

include visits fine renamed short directory in
/-- Only the old name lies in the trees: the subtree is removed. -/
theorem out_followed (source : Inside world.roots old) (target : ¬ Inside world.roots new) :
    ∃ after, handleEvents nftw (changed world effect) (happen effect).queue = some after ∧
      Followed world effect.system.files after := by
  have sane := fine.settled.sane
  have changes := rename_changes world fine old new effect file renamed short
  have first := stage_start world fine effect _ changes
  obtain ⟨member, path⟩ := renamed_file world old new effect file renamed
  rw [directory_queue world fine old new effect file renamed short directory]
  rcases from_half world fine old new effect file renamed with ⟨bad, _⟩ |
    ⟨_, wd, dir, name, from_, whole, one⟩
  · exact absurd source bad
  rw [one, to_silent world fine old new effect file renamed target, List.nil_append,
      List.singleton_append]
  obtain ⟨second, handled, cleared⟩ :=
    out_handled nftw (changed world effect) first.sane (laterEvents world file new)
      wd world.state.nextCookie dir name old from_ whole
        (old_short world fine old new effect file renamed)
      (later_alone world new file) (first_live world fine old new effect file renamed _ first)
  have roots : second.roots = world.roots := cleared.roots
  have stage := cleared_stage world fine old new effect _ first second cleared
  rw [handled, laterEvents]
  rcases self_cases world fine old new effect file renamed directory with
    ⟨_, silent⟩ | ⟨watch, living, ino, _, _, self⟩
  · rw [silent, List.nil_append]
    rcases cleared_followed nftw world fine old new effect file renamed _ first target second
      cleared fine.distinct
      (fun _ => id) (fun _ there _ _ => there) with ⟨_, _, last⟩ | ⟨after, done, result, _⟩
    · -- the root above the old name is another one
      obtain ⟨root, listed, above, strict⟩ := source
      have same := last root listed
      subst same
      exact absurd (renamed.free file member (by rw [path]; exact above))
        (by rw [path]; exact strict)
    · exact ⟨after, done, result⟩
  · have missing : watch.wd ∉ descriptors second.cache := by
      intro there
      obtain ⟨⟨number, label⟩, cached, same⟩ := List.mem_map.mp there
      obtain ⟨other, before, numbers, owner, inside, owned, outside, _⟩ :=
        (stage.slots number label).mp cached
      rw [watch_unique world sane other watch before living (numbers.trans same)] at owned
      rw [file_unique world sane owner file inside member (owned.symm.trans ino), path] at outside
      exact outside (below_refl slash old)
    have valid : 0 ≤ watch.wd := Int.le_trans (by decide) (sane.agrees.ok.numbers watch living).1
    rw [self, List.singleton_append]
    obtain ⟨after, done, rebuilt⟩ :=
      self_unknown nftw second stage.sane (partingEvents world new) visits watch.wd valid
        missing
    exact ⟨after, done, rebuilt_followed world second after effect.system.files
      rebuilt stage.files (by rw [roots]; exact fine.distinct) (fun _ there => roots ▸ there)⟩

include fine renamed short directory in
/-- A root is renamed, to a name outside of the trees. -/
theorem root_followed (listed : some old ∈ world.roots) (source : ¬ Inside world.roots old)
    (target : ¬ Inside world.roots new) :
    handleEvents nftw (changed world effect) (happen effect).queue = none ∧
      (∀ root, some root ∈ world.roots → root = old ∨ root = new) ∨
    ∃ after, handleEvents nftw (changed world effect) (happen effect).queue = some after ∧
      Followed world effect.system.files after ∧ some old ∉ after.roots := by
  have first :=
    stage_start world fine effect _ (rename_changes world fine old new effect file renamed short)
  rw [outside_queue world fine old new effect file renamed short directory source target,
      laterEvents]
  rcases self_cases world fine old new effect file renamed directory with ⟨bad, _⟩ |
    ⟨watch, living, ino, cached, _, self⟩
  · exact absurd listed bad
  rw [self, List.singleton_append]
  rcases self_listed nftw (changed world effect) first.sane (partingEvents world new) fine.distinct
    watch.wd old cached listed with ⟨exits, last⟩ | ⟨left, delisted, handled⟩
  · exact Or.inl ⟨exits, fun root there => Or.inl (last root there)⟩
  · have middle := stage_roots world effect.system.files _ _ _ _ first left
    have live := first_live world fine old new effect file renamed _ middle
    obtain ⟨second, zapped, cleared⟩ :=
      zap_subtree_cleared nftw old { changed world effect with roots := left }
        middle.sane live
    rw [handled, zapped]
    dsimp only
    rcases cleared_followed nftw world fine old new effect file renamed _ middle target second
      cleared delisted.distinct (fun root there => ((delisted.listed root).mp there).1)
      (fun root there different _ => (delisted.listed root).mpr ⟨there, different⟩) with
      ⟨exits, _, last⟩ | ⟨after, done, result, final⟩
    · refine Or.inl ⟨exits, fun root there => ?_⟩
      by_cases same : root = old
      · exact Or.inl same
      · exact Or.inr (last root ((delisted.listed root).mpr ⟨there, same⟩))
    · refine Or.inr ⟨after, done, result, fun bad => ?_⟩
      exact ((delisted.listed old).mp ((final.listed old).mp bad).1).2 rfl

/-- Neither the directory nor anything below it is monitored. -/
def Unseen (world : World System) (old : Path) : Prop :=
  ¬ Monitored world.roots old ∧ ∀ root, some root ∈ world.roots →
    Below slash old root → root = old

theorem unseen_outside (unseen : Unseen world old) : ¬ Inside world.roots old :=
  fun inside => unseen.1 (inside_monitored _ _ inside)

include fine in
theorem unseen_unwatched (unseen : Unseen world old) (other : File)
    (member : other ∈ world.state.files) (below : Below slash old other.path) :
    ¬ Watched world.state other := by
  intro watched
  obtain ⟨_, monitored⟩ := (settled_exact world fine.settled other member).mp watched
  rcases monitored_below old world.roots other.path below monitored with here |
    ⟨root, listed, under, strict⟩
  · exact unseen.1 here
  · exact strict (unseen.2 root listed under)

include fine in
/-- The first stage is right about every name, because nothing that is watched moves. -/
theorem unseen_stage (unseen : Unseen world old) (middle : World System)
    (first : Stage world effect.system.files (replaced world new) middle
      (fun _ => True) File.path) :
    Stage world effect.system.files (replaced world new) middle (fun _ => True)
      fun other => (moveFile old new other).path := by
  refine stage_congr world effect.system.files _ middle _ _ first _ _ (fun _ _ _ => Iff.rfl) ?_
  intro other member watched _
  rw [move_outside old new other fun below =>
      unseen_unwatched world fine old unseen other member below watched]

include fine renamed directory in
theorem unseen_self (unseen : Unseen world old) : selfEvents world file = [] := by
  rcases self_cases world fine old new effect file renamed directory with ⟨_, silent⟩ |
    ⟨_, _, _, _, monitored, _⟩
  · exact silent
  · exact absurd monitored unseen.1

include fine renamed short directory in
/-- A directory from outside of the trees is renamed to a name outside of them. -/
theorem unseen_followed (unseen : Unseen world old) (target : ¬ Inside world.roots new) :
    handleEvents nftw (changed world effect) (happen effect).queue = none ∧
      some new ∈ world.roots ∧
      (∀ root, some root ∈ world.roots → root = new) ∨
    ∃ after, handleEvents nftw (changed world effect) (happen effect).queue = some after ∧
      Followed world effect.system.files after := by
  have first :=
    stage_start world fine effect _ (rename_changes world fine old new effect file renamed short)
  have stage := unseen_stage world fine old new effect unseen _ first
  rw [outside_queue world fine old new effect file renamed short directory
      (unseen_outside world old unseen) target,
    laterEvents, unseen_self world fine old new effect file renamed directory unseen,
    List.nil_append]
  have moved : ∀ left, Delisted new (changed world effect).roots left →
    ∀ other ∈ world.state.files,
      Below slash old other.path →
      (Watched world.state other ∧ True ↔ other.isDir = true ∧ Monitored left new) := by
    intro left delisted other member below
    have unmonitored : ¬ Monitored left new := by
      refine outside_unmonitored world new left (fun root there =>
        ((delisted.listed root).mp there).1) target ?_
      intro bad
      exact ((delisted.listed new).mp bad).2 rfl
    exact ⟨fun both => absurd both.1 (unseen_unwatched world fine old unseen other member below),
      fun both => absurd both.2 unmonitored⟩
  rcases parting_followed nftw world fine old new effect file renamed (changed world effect)
    _ stage fine.distinct
    (fun _ => id) (fun _ there _ _ => there) moved (fun _ _ _ _ => trivial) with exits |
      ⟨after, done, result, _⟩
  · exact Or.inl exits
  · exact Or.inr ⟨after, done, result⟩

/-! A directory comes to a name that was free. -/

section Free
variable (free : lookup world.state.files new = none)

include free in
theorem free_present (ino : Nat) : some ino ≠ replaced world new := by
  rw [replaced_none world new free]
  intro bad
  cases bad

include free in
theorem free_parting : partingEvents world new = [] := by
  unfold partingEvents
  rw [replaced_none world new free]
  rfl

include fine free in
theorem free_unknown (number : Int) : (number, new) ∉ entries world.cache := by
  intro cached
  obtain ⟨_, _, _, other, member, _, same⟩ := settled_named world fine.settled number new cached
  exact lookup_none _ _ free other member same

include fine renamed free in
theorem free_member (other : File) (member : other ∈ world.state.files) :
    moveFile old new other ∈ effect.system.files :=
  (rename_members world fine old new effect file renamed _).mpr
    ⟨other, member, free_present world new free other.ino, rfl⟩

section Walk
variable (unseen : Unseen world old)
  (first : Stage world effect.system.files (replaced world new) (changed world effect)
    (fun _ => True) File.path)

include fine renamed free unseen first in
theorem moved_in_named : Named (changed world effect) := by
  have stage := unseen_stage world fine old new effect unseen _ first
  intro number path cached
  obtain ⟨watch, living, same, other, member, ino, _, rfl⟩ :=
    (stage.slots number path).mp cached
  refine ⟨watch, ?_, same, moveFile old new other, ?_, by rw [move_ino, ino], rfl⟩
  · exact (stage.watches watch).mpr ⟨living, free_present world new free watch.ino, other,
      member, ino, trivial⟩
  · rw [first.files]
    exact free_member world fine old new effect file renamed free other member

include free first in
theorem moved_in_watched (other : File) (member : other ∈ world.state.files) :
    Watched (changed world effect).state (moveFile old new other) ↔
      Watched world.state other := by
  unfold Watched
  constructor
  · rintro ⟨watch, living, ino⟩
    rw [move_ino] at ino
    exact ⟨watch, ((first.watches watch).mp living).1, ino⟩
  · rintro ⟨watch, living, ino⟩
    exact ⟨watch, (first.watches watch).mpr ⟨living, free_present world new free watch.ino,
      other, member, ino, trivial⟩, by rw [move_ino, ino]⟩

include fine renamed free unseen first in
/-- What moved was unwatched and is all seen by the walk. -/
theorem moved_in_exact (target : Inside world.roots new) (other : File)
    (member : other ∈ world.state.files) :
    Watched (changed world effect).state (moveFile old new other) ∨
        isDirectory (changed world effect).state.files (moveFile old new other).path = true ∧
          Below slash new (moveFile old new other).path ↔
      (moveFile old new other).isDir = true ∧
        Monitored world.roots (moveFile old new other).path := by
  have paths := first.sane.files.paths
  have found : moveFile old new other ∈ (changed world effect).state.files := by
    rw [first.files]
    exact free_member world fine old new effect file renamed free other member
  rw [is_directory_iff _ paths, moved_in_watched world old new effect free first other member]
  by_cases below : Below slash old other.path
  · have under : Below slash new (moveFile old new other).path := by
      rw [move_inside old new other below]
      exact reroot_below slash old new other.path below
    obtain ⟨root, listed, above, _⟩ := target
    constructor
    · rintro (bad | ⟨⟨same, here, path, isDir⟩, _⟩)
      · exact absurd bad (unseen_unwatched world fine old unseen other member below)
      · rw [List.inj_on_of_nodup_map paths here found path] at isDir
        exact ⟨isDir, root, listed, below_trans slash _ _ _ above under⟩
    · rintro ⟨isDir, _⟩
      exact Or.inr ⟨⟨_, found, rfl, isDir⟩, under⟩
  · rw [move_outside old new other below, settled_exact world fine.settled other member]
    constructor
    · rintro (known | ⟨_, bad⟩)
      · exact known
      · exact absurd (renamed.free other member bad) (lookup_none _ _ free other member)
    · exact Or.inl

end Walk

include visits fine renamed short directory free in
theorem moved_in_followed (unseen : Unseen world old) (target : Inside world.roots new) :
    ∃ after, handleEvents nftw (changed world effect) (happen effect).queue = some after ∧
      Followed world effect.system.files after := by
  have first :=
    stage_start world fine effect _ (rename_changes world fine old new effect file renamed short)
  rcases to_half world fine old new effect file renamed with ⟨bad, _⟩ |
    ⟨_, wd, dir, name, to_, whole, two⟩
  · exact absurd target bad
  rw [directory_queue world fine old new effect file renamed short directory,
    from_silent world fine old new effect file renamed (unseen_outside world old unseen), two,
    List.nil_append, laterEvents,
    unseen_self world fine old new effect file renamed directory unseen,
    free_parting world new free, List.append_nil]
  obtain ⟨after, handled, walked⟩ :=
    created_new nftw (changed world effect) first.sane [] visits wd _ _ dir name new
      (Or.inr rfl) to_ whole (new_short world old new effect file renamed)
        (free_unknown world fine new free)
  rw [List.append_nil, handled]
  refine ⟨after, rfl, walked_followed world effect.system.files _ _ _ _ first rfl fine.distinct
    _ after walked ?_⟩
  refine walked_settled (changed world effect) after _ walked
    (moved_in_named world fine old new effect file renamed free unseen first) fun moved there => ?_
  rw [first.files, rename_members world fine old new effect file renamed] at there
  obtain ⟨other, member, _, rfl⟩ := there
  exact moved_in_exact world fine old new effect file renamed free unseen first target other member

end Free

end Rename

end Tlpi.RenamedDirectory
