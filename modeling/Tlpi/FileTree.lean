import Mathlib.Data.List.Basic
import Mathlib.Data.List.Nodup
import Mathlib.Data.List.Perm.Basic
import Tlpi.TreeMonitor

/-!
The file system and the inotify instance that the directory-tree monitor talks
to. A file is known under one pathname, spelled the way the monitor's roots are;
renaming a directory respells everything below it. An inode is watched at most
once, by the descriptor that `inotify_add_watch` returned for it. A change posts
its events either at once or, as other processes interleave, some time later.
`limit` bounds the event queue; without one it never overflows.
-/

namespace Tlpi.FileTree

open PathName WatchCache TreeMonitor

structure File where
  path : Path
  ino : Nat
  isDir : Bool
  deriving DecidableEq

structure Watch where
  wd : Int
  ino : Nat
  moveSelf : Bool
  deriving DecidableEq

/-- An event on an inode, not yet addressed to a watch descriptor. -/
structure Notice where
  ino : Nat
  mask : Mask
  cookie : Nat
  name : Path
  deriving DecidableEq

structure System where
  files : List File
  nextIno : Nat
  watches : List Watch
  nextWd : Int
  nextCookie : Nat
  queue : List Event
  late : List (List Notice)
  limit : Option Nat
  deriving DecidableEq

def lookup (files : List File) (path : Path) : Option File := files.find? (·.path == path)

def watchOf (watches : List Watch) (ino : Nat) : Option Watch := watches.find? (·.ino == ino)

def watching (watches : List Watch) (wd : Int) : Option Watch := watches.find? (·.wd == wd)

/-! The event queue. -/

def overflow : Event := ⟨-1, IN_Q_OVERFLOW, 0, []⟩

def post (sys : System) (ev : Event) : System :=
  match sys.limit with
  | none => { sys with queue := sys.queue ++ [ev] }
  | some limit =>
      if sys.queue.length < limit then { sys with queue := sys.queue ++ [ev] }
      else if overflow ∈ sys.queue then sys
      else { sys with queue := sys.queue ++ [overflow] }

/-- Every watch asks for all the events but IN_MOVE_SELF, which is for roots. -/
def deliver (sys : System) (notice : Notice) : System :=
  match watchOf sys.watches notice.ino with
  | none => sys
  | some watch =>
      if has notice.mask IN_MOVE_SELF ∧ watch.moveSelf = false then sys
      else post sys ⟨watch.wd, notice.mask, notice.cookie, notice.name⟩

/-- The watch on an inode goes away, after a last event that says why. -/
def drop (cause : Mask) (sys : System) (ino : Nat) : System :=
  match watchOf sys.watches ino with
  | none => sys
  | some watch =>
      let gone :=
        post { sys with watches := sys.watches.filter (·.ino != ino) } ⟨watch.wd, cause, 0, []⟩
      post gone ⟨watch.wd, IN_IGNORED, 0, []⟩

/-! What other processes do. -/

/-- A change of the files, the notices it causes and the inodes that vanish. -/
structure Effect where
  system : System
  notices : List Notice
  vanished : List Nat
  cause : Mask

def isDirectory (files : List File) (path : Path) : Bool :=
  match lookup files path with
  | some file => file.isDir
  | none => false

/-- A pathname is available if its directory is there; names without a directory
and names below the root directory are outside of all monitored trees. System calls
take names of less than PATH_MAX bytes, and the monitor handles no longer ones. -/
def available (files : List File) (path : Path) : Bool :=
  decide (path.length < PATH_MAX) &&
    match split slash path with
    | none => path != []
    | some (dir, name) => name != [] && (dir == [] || isDirectory files dir)

def entryNotice (files : List File) (path : Path) (mask : Mask) (cookie : Nat) : List Notice :=
  match split slash path with
  | none => []
  | some (dir, name) =>
      ((lookup files dir).map fun file => ⟨file.ino, mask, cookie, name⟩).toList

def kind (isDir : Bool) (mask : Mask) : Mask := if isDir then mask ||| IN_ISDIR else mask

/-- `mkdir`, or the creation of a file. -/
def create (sys : System) (path : Path) (isDir : Bool) : Option Effect :=
  if (lookup sys.files path).isNone ∧ available sys.files path then
    some ⟨{ sys with
      files := sys.files ++ [⟨path, sys.nextIno, isDir⟩], nextIno := sys.nextIno + 1 },
      entryNotice sys.files path (kind isDir IN_CREATE) 0, [], IN_DELETE_SELF⟩
  else none

/-- Nothing lies strictly below. -/
def isEmpty (files : List File) (path : Path) : Bool :=
  files.all fun file => file.path == path || !covers slash path file.path

/-- `rmdir`, or `unlink`. -/
def remove (sys : System) (path : Path) (isDir : Bool) : Option Effect :=
  match lookup sys.files path with
  | none => none
  | some file =>
      if file.isDir = isDir ∧ isEmpty sys.files path then
        some ⟨{ sys with files := sys.files.filter (·.path != path) }, [],
          [file.ino], IN_DELETE_SELF⟩
      else none

def moveFile (old new : Path) (file : File) : File :=
  if covers slash old file.path then { file with path := reroot old new file.path } else file

/-- A file may replace a file, and a directory an empty directory. -/
def replaceable (files : List File) (file : File) (new : Path) : Bool :=
  match lookup files new with
  | none => true
  | some there => there.isDir == file.isDir && isEmpty files new

def rename (sys : System) (old new : Path) : Option Effect :=
  match lookup sys.files old with
  | none => none
  | some file =>
      if covers slash old new = false ∧ replaceable sys.files file new ∧
        available sys.files new then
        some ⟨{ sys with
            files := (sys.files.filter (·.path != new)).map (moveFile old new)
            nextCookie := sys.nextCookie + 1 },
          entryNotice sys.files old (kind file.isDir IN_MOVED_FROM) sys.nextCookie ++
            entryNotice sys.files new (kind file.isDir IN_MOVED_TO) sys.nextCookie ++
            [⟨file.ino, IN_MOVE_SELF, 0, []⟩],
          ((lookup sys.files new).map File.ino).toList, IN_DELETE_SELF⟩
      else none

/-- The directory that the file system was mounted on comes back. -/
def unmount (sys : System) (path : Path) : Option Effect :=
  match lookup sys.files path with
  | none => none
  | some file =>
      if file.isDir then
        some ⟨{ sys with
            files := (sys.files.filter fun other => !covers slash path other.path) ++
              [⟨path, sys.nextIno, true⟩]
            nextIno := sys.nextIno + 1 },
          [], (sys.files.filter fun other => covers slash path other.path).map File.ino,
          IN_UNMOUNT⟩
      else none

inductive Op where
  | create (path : Path) (isDir : Bool)
  | remove (path : Path) (isDir : Bool)
  | rename (old new : Path)
  | unmount (path : Path)
  deriving DecidableEq

def effect (sys : System) : Op → Option Effect
  | .create path isDir => create sys path isDir
  | .remove path isDir => remove sys path isDir
  | .rename old new => rename sys old new
  | .unmount path => unmount sys path

/-- The change with all its events at once. -/
def happen (effect : Effect) : System :=
  effect.vanished.foldl (drop effect.cause) (effect.notices.foldl deliver effect.system)

/-- The change first, its notices later; vanished inodes are never watched on. -/
def begin (effect : Effect) : System :=
  effect.vanished.foldl (drop effect.cause)
    { effect.system with late := effect.system.late ++ [effect.notices] }

/-- The next notice of a change under way. -/
def deliverLate (sys : System) (index : Nat) : System :=
  match sys.late[index]? with
  | some (notice :: rest) => deliver { sys with late := sys.late.set index rest } notice
  | _ => sys

/-! The system calls of the monitor. -/

/-- A second call on an inode replaces the mask. -/
def remask (sys : System) (ino : Nat) (moveSelf : Bool) : System :=
  { sys with
    watches := sys.watches.map fun watch =>
      if watch.ino = ino then { watch with moveSelf := moveSelf } else watch }

def newWatch (sys : System) (ino : Nat) (moveSelf : Bool) : System :=
  { sys with
    watches := sys.watches ++ [⟨sys.nextWd, ino, moveSelf⟩]
    nextWd := sys.nextWd + 1 }

def addWatch (sys : System) (path : Path) (flags : Mask) : AddResult × System :=
  if PATH_MAX ≤ path.length then (.error, sys)
  else if sys.files.any fun file => !file.isDir && covers slash file.path path then (.error, sys)
  else
    match lookup sys.files path with
    | none => (.noEntry, sys)
    | some file =>
        match watchOf sys.watches file.ino with
        | some watch => (.watch watch.wd, remask sys file.ino (has flags IN_MOVE_SELF))
        | none => (.watch sys.nextWd, newWatch sys file.ino (has flags IN_MOVE_SELF))

def rmWatch (sys : System) (wd : Int) : Bool × System :=
  match watching sys.watches wd with
  | none => (false, sys)
  | some _ =>
      (true, post { sys with watches := sys.watches.filter (·.wd != wd) }
        ⟨wd, IN_IGNORED, 0, []⟩)

/-- `close` of the old descriptor and `inotify_init`. -/
def init (sys : System) : System := { sys with watches := [], nextWd := 1, queue := [] }

/-! What the system calls of a walk can do. -/

def moveSelfFlag (roots : RootDirPaths) (path : Path) : Bool :=
  has (watchFlags roots path) IN_MOVE_SELF

/-- `traverseTree` gives up, finds nothing, finds a watched directory or watches one. -/
inductive Traversed (world after : World System) (path : Path) : Prop where
  | missing (absent : lookup world.state.files path = none)
      (same : after.cache = world.cache ∧ after.roots = world.roots ∧ after.state = world.state)
  | watched (file : File) (watch : Watch) (found : lookup world.state.files path = some file)
      (short : path.length < PATH_MAX) (old : watchOf world.state.watches file.ino = some watch)
      (cache : after.cache = if (findWatch world.cache watch.wd).isSome then world.cache
        else addWatchToCache world.cache watch.wd path)
      (roots : after.roots = world.roots)
      (state : after.state = remask world.state file.ino (moveSelfFlag world.roots path))
  | fresh (file : File) (found : lookup world.state.files path = some file)
      (short : path.length < PATH_MAX) (new : watchOf world.state.watches file.ino = none)
      (cache : after.cache = if (findWatch world.cache world.state.nextWd).isSome then world.cache
        else addWatchToCache world.cache world.state.nextWd path)
      (roots : after.roots = world.roots)
      (state : after.state = newWatch world.state file.ino (moveSelfFlag world.roots path))

theorem traverse_cases (kernel : Kernel System) (calls : kernel.addWatch = addWatch)
    (world after : World System) (path : Path)
    (walked : traverseTree kernel world path = some after) : Traversed world after path := by
  unfold traverseTree at walked
  rw [calls] at walked
  dsimp only [addWatch] at walked
  by_cases long : PATH_MAX ≤ path.length
  · rw [if_pos long] at walked
    cases walked
  rw [if_neg long] at walked
  by_cases blocked : (world.state.files.any fun file =>
    !file.isDir && covers slash file.path path) = true
  · rw [if_pos blocked] at walked
    cases walked
  rw [if_neg blocked] at walked
  have short := Nat.lt_of_not_le long
  cases found : lookup world.state.files path with
  | none =>
      rw [found] at walked
      cases walked
      exact .missing found ⟨rfl, rfl, rfl⟩
  | some file =>
      rw [found] at walked
      dsimp only at walked
      cases old : watchOf world.state.watches file.ino with
      | some watch =>
          rw [old] at walked
          dsimp only at walked
          refine .watched file watch found short old ?_ ?_ ?_ <;>
          · split at walked <;> cases walked <;> simp_all [moveSelfFlag]
      | none =>
          rw [old] at walked
          dsimp only at walked
          refine .fresh file found short old ?_ ?_ ?_ <;>
          · split at walked <;> cases walked <;> simp_all [moveSelfFlag]

theorem remask_watches (sys : System) (ino : Nat) (moveSelf : Bool) :
    (remask sys ino moveSelf).watches.map Watch.wd = sys.watches.map Watch.wd ∧
    (remask sys ino moveSelf).watches.map Watch.ino = sys.watches.map Watch.ino := by
  unfold remask
  dsimp only
  rw [List.map_map, List.map_map]
  refine ⟨List.map_congr_left fun watch _ => ?_, List.map_congr_left fun watch _ => ?_⟩
  · simp only [Function.comp]
    split <;> rfl
  · simp only [Function.comp]
    split <;> rfl

/-- One turn of `zapSubtree` skips a slot, removes it with its watch, or fails. -/
inductive Zapped (rmWatch : System → Int → Bool × System) (pn : Path) (world : World System)
    (index : Nat) : Bool × World System → Prop where
  | skipped (other : ¬ (0 ≤ (world.cache.getD index unusedSlot).wd ∧
      covers slash pn (world.cache.getD index unusedSlot).path = true)) :
      Zapped rmWatch pn world index (true, world)
  | removed (slot : Slot) (calls : List WatchCall) (there : world.cache[index]? = some slot)
      (valid : 0 ≤ slot.wd) (fits : covers slash pn slot.path = true)
      (done : (rmWatch world.state slot.wd).1 = true) :
      Zapped rmWatch pn world index (true, { world with
        cache := markCacheSlotEmpty world.cache index
        state := (rmWatch world.state slot.wd).2
        calls := calls })
  | failed (slot : Slot) (calls : List WatchCall) (there : world.cache[index]? = some slot)
      (valid : 0 ≤ slot.wd) (fits : covers slash pn slot.path = true)
      (failed : (rmWatch world.state slot.wd).1 = false) :
      Zapped rmWatch pn world index (false, { world with
        state := (rmWatch world.state slot.wd).2
        calls := calls })

theorem zap_slot_cases (kernel : Kernel System) (pn : Path) (world : World System) (index : Nat) :
    Zapped kernel.rmWatch pn world index (zapSlot kernel pn world index) := by
  unfold zapSlot
  dsimp only
  split
  · next fits =>
      have there : world.cache[index]? = some (world.cache.getD index unusedSlot) := by
        rw [List.getD_eq_getElem?_getD] at fits ⊢
        cases found : world.cache[index]? with
        | some slot => rfl
        | none =>
            rw [found] at fits
            exact absurd fits.1 (by decide)
      split
      · next done => exact .removed _ _ there fits.1 fits.2 done
      · next undone => exact .failed _ _ there fits.1 fits.2 (Bool.eq_false_iff.mpr undone)
  · next other => exact .skipped other

/-! File systems that make sense, and what the operations do to them. -/

def Placed (files : List File) (path : Path) : Prop :=
  Simple slash path ∨ ∃ dir name, path = join slash dir name ∧ Simple slash name ∧
    (dir = [] ∨ ∃ file ∈ files, file.isDir = true ∧ file.path = dir)

structure FilesOk (sys : System) : Prop where
  paths : (sys.files.map File.path).Nodup
  inodes : (sys.files.map File.ino).Nodup
  fresh : ∀ file ∈ sys.files, file.ino < sys.nextIno
  placed : ∀ file ∈ sys.files, Placed sys.files file.path
  short : ∀ file ∈ sys.files, file.path.length < PATH_MAX

/-- The watches and the queue of a system do not matter to its files. -/
theorem files_ok_same (before after : System) (ok : FilesOk before)
    (files : after.files = before.files) (nextIno : after.nextIno = before.nextIno) :
    FilesOk after := by
  constructor
  · rw [files]
    exact ok.paths
  · rw [files]
    exact ok.inodes
  · rw [files, nextIno]
    exact ok.fresh
  · rw [files]
    exact ok.placed
  · rw [files]
    exact ok.short

theorem lookup_some (files : List File) (path : Path) (file : File)
    (found : lookup files path = some file) : file ∈ files ∧ file.path = path := by
  have hit := List.find?_some found
  exact ⟨List.mem_of_find?_eq_some found, beq_iff_eq.mp hit⟩

theorem lookup_none (files : List File) (path : Path) (missing : lookup files path = none) :
    ∀ file ∈ files, file.path ≠ path := by
  intro file member same
  have miss := List.find?_eq_none.mp missing file member
  simp [same] at miss

theorem lookup_mem (files : List File) (distinct : (files.map File.path).Nodup) (file : File)
    (member : file ∈ files) : lookup files file.path = some file := by
  cases found : lookup files file.path with
  | none => exact absurd rfl (lookup_none files file.path found file member)
  | some other =>
      obtain ⟨inside, same⟩ := lookup_some files file.path other found
      rw [List.inj_on_of_nodup_map distinct inside member same]

theorem is_directory_iff (files : List File) (distinct : (files.map File.path).Nodup)
    (path : Path) :
    isDirectory files path = true ↔ ∃ file ∈ files,
      file.path = path ∧ file.isDir = true := by
  unfold isDirectory
  constructor
  · intro directory
    split at directory
    · next file found =>
        obtain ⟨member, same⟩ := lookup_some files path file found
        exact ⟨file, member, same, directory⟩
    · cases directory
  · rintro ⟨file, member, rfl, directory⟩
    rw [lookup_mem files distinct file member]
    exact directory

theorem placed_nonempty (files : List File) (path : Path) (placed : Placed files path) :
    path ≠ [] := by
  rintro rfl
  rcases placed with simple | ⟨dir, name, whole, _⟩
  · exact simple.1 rfl
  · simp [join] at whole

/-- Everything strictly below a directory has its own directory there. -/
theorem parent_below (sys : System) (ok : FilesOk sys) (root : Path)
    (nonempty : root ≠ []) (file : File) (member : file ∈ sys.files)
    (below : Below slash root file.path) (strict : file.path ≠ root) :
    ∃ dir ∈ sys.files, ∃ name, dir.isDir = true ∧ file.path = join slash dir.path name ∧
      Simple slash name ∧ Below slash root dir.path := by
  rcases ok.placed file member with simple | ⟨dir, name, whole, simple, parent⟩
  · rcases below with same | ⟨rest, same⟩
    · exact absurd same strict
    · exact absurd (by rw [same]; simp) simple.2
  · rw [whole] at below
    rcases below_join_cases slash root dir name simple.2 below with same | above
    · exact absurd (whole.trans same.symm) strict
    · rcases parent with rfl | ⟨owner, inside, directory, rfl⟩
      · rcases above with same | ⟨rest, same⟩
        · exact absurd same.symm nonempty
        · simp at same
      · exact ⟨owner, inside, name, directory, whole, simple, above⟩

theorem mem_subdirectories (sys : System) (ok : FilesOk sys) (dir : Path) (path : Path) :
    path ∈ (sys.files.filter fun file =>
      file.isDir && (split slash file.path).map Prod.fst == some dir).map
        File.path ↔
      ∃ file ∈ sys.files, ∃ name, file.path = path ∧ file.isDir = true ∧
        path = join slash dir name ∧
        Simple slash name := by
  rw [List.mem_map]
  constructor
  · rintro ⟨file, member, rfl⟩
    rw [List.mem_filter, Bool.and_eq_true, beq_iff_eq] at member
    obtain ⟨inside, directory, cut⟩ := member
    obtain ⟨⟨start, name⟩, whole, rfl⟩ := Option.map_eq_some_iff.mp cut
    obtain ⟨same, plain⟩ := split_some slash file.path start name whole
    refine ⟨file, inside, name, rfl, directory, same, ?_, plain⟩
    rintro rfl
    rcases ok.placed file inside with simple | ⟨other, last, joined, simple, _⟩
    · exact simple.2 (by rw [same]; simp [join])
    · obtain ⟨_, empty⟩ :=
        join_inj slash start other [] last (by simp) simple.2 (same.symm.trans joined)
      exact simple.1 empty.symm
  · rintro ⟨file, inside, name, rfl, directory, whole, simple⟩
    refine ⟨file, List.mem_filter.mpr ⟨inside, ?_⟩, rfl⟩
    rw [Bool.and_eq_true, beq_iff_eq, whole, split_join slash dir name simple.2]
    exact ⟨directory, rfl⟩

theorem available_placed (files : List File) (path : Path) (ready : available files path = true) :
    path.length < PATH_MAX ∧ Placed files path := by
  unfold available at ready
  rw [Bool.and_eq_true, decide_eq_true_eq] at ready
  obtain ⟨short, rest⟩ := ready
  refine ⟨short, ?_⟩
  cases cut : split slash path with
  | none =>
      rw [cut] at rest
      exact Or.inl ⟨by simpa using rest, split_none slash path cut⟩
  | some parts =>
      obtain ⟨dir, name⟩ := parts
      obtain ⟨whole, plain⟩ := split_some slash path dir name cut
      rw [cut] at rest
      simp only [Bool.and_eq_true, bne_iff_ne, ne_eq, Bool.or_eq_true, beq_iff_eq] at rest
      obtain ⟨named, parent⟩ := rest
      refine Or.inr ⟨dir, name, whole, ⟨named, plain⟩, parent.imp_right fun directory => ?_⟩
      unfold isDirectory at directory
      split at directory
      · next file found =>
          obtain ⟨member, same⟩ := lookup_some files dir file found
          exact ⟨file, member, directory, same⟩
      · cases directory

theorem placed_mono (files more : List File) (path : Path) (placed : Placed files path)
    (kept : ∀ file ∈ files, file.isDir = true → Below slash file.path path →
      file.path ≠ path →
      ∃ other ∈ more, other.isDir = true ∧ other.path = file.path) : Placed more path := by
  refine placed.imp_right ?_
  rintro ⟨dir, name, rfl, simple, parent⟩
  refine ⟨dir, name, rfl, simple, parent.imp_right ?_⟩
  rintro ⟨file, member, directory, rfl⟩
  exact kept file member directory (below_join slash _ _) (Ne.symm (join_ne slash _ _))

/-- What lies above a file is a directory. -/
theorem ancestor_directory (sys : System) (ok : FilesOk sys) (path : Path) (nonempty : path ≠ [])
    (file : File) (member : file ∈ sys.files) (below : Below slash path file.path)
    (strict : file.path ≠ path) :
    ∃ dir ∈ sys.files, dir.isDir = true ∧ dir.path = path := by
  induction size : file.path.length using Nat.strong_induction_on generalizing file with
  | _ size' ih =>
      obtain ⟨dir, inside, name, directory, whole, _, above⟩ :=
        parent_below sys ok path nonempty file member below strict
      by_cases here : dir.path = path
      · exact ⟨dir, inside, directory, here⟩
      · refine ih dir.path.length ?_ dir inside above here rfl
        rw [← size, whole]
        simp [join]

theorem create_ok (sys : System) (path : Path) (isDir : Bool) (effect : Effect) (ok : FilesOk sys)
    (made : create sys path isDir = some effect) :
    FilesOk effect.system ∧ effect.system.files =
      sys.files ++ [⟨path, sys.nextIno, isDir⟩] ∧
      lookup sys.files path = none ∧ available sys.files path = true ∧
      effect.notices = entryNotice sys.files path (kind isDir IN_CREATE) 0 ∧
        effect.vanished = [] := by
  unfold create at made
  split at made
  · next free =>
      cases made
      obtain ⟨missing, ready⟩ := free
      have absent := lookup_none sys.files path (Option.isNone_iff_eq_none.mp missing)
      obtain ⟨short, placed⟩ := available_placed sys.files path ready
      refine ⟨⟨?_, ?_, ?_, ?_, ?_⟩, rfl, Option.isNone_iff_eq_none.mp missing,
        ready, rfl, rfl⟩
      · rw [List.map_append, List.nodup_append]
        refine ⟨ok.paths, by simp, ?_⟩
        intro old member new last same
        obtain ⟨file, inside, rfl⟩ := List.mem_map.mp member
        obtain rfl := List.mem_singleton.mp last
        exact absent file inside same
      · rw [List.map_append, List.nodup_append]
        refine ⟨ok.inodes, by simp, ?_⟩
        intro old member new last same
        obtain ⟨file, inside, rfl⟩ := List.mem_map.mp member
        obtain rfl := List.mem_singleton.mp last
        have below := ok.fresh file inside
        dsimp only at same
        omega
      · intro file member
        change file.ino < sys.nextIno + 1
        rcases List.mem_append.mp member with old | new
        · exact Nat.lt_succ_of_lt (ok.fresh file old)
        · obtain rfl := List.mem_singleton.mp new
          exact Nat.lt_succ_self _
      · intro file member
        have kept : Placed sys.files file.path := by
          rcases List.mem_append.mp member with old | new
          · exact ok.placed file old
          · obtain rfl := List.mem_singleton.mp new
            exact placed
        exact placed_mono _ _ _ kept fun other inside directory _ _ =>
          ⟨other, List.mem_append_left _ inside, directory, rfl⟩
      · intro file member
        rcases List.mem_append.mp member with old | new
        · exact ok.short file old
        · obtain rfl := List.mem_singleton.mp new
          exact short
  · cases made

theorem empty_below (files : List File) (path : Path) (empty : isEmpty files path = true)
    (file : File) (member : file ∈ files) (below : Below slash path file.path) :
    file.path = path := by
  have each := List.all_eq_true.mp empty file member
  rw [Bool.or_eq_true, beq_iff_eq, Bool.not_eq_true'] at each
  refine each.resolve_right fun outside => ?_
  rw [(covers_iff slash path file.path).mpr below] at outside
  cases outside

theorem remove_ok (sys : System) (path : Path) (isDir : Bool) (effect : Effect) (ok : FilesOk sys)
    (made : remove sys path isDir = some effect) :
    FilesOk effect.system ∧ effect.system.files = sys.files.filter (·.path != path) ∧
      effect.notices = [] ∧ ∃ file, lookup sys.files path = some file ∧ file.isDir = isDir ∧
        isEmpty sys.files path = true ∧ effect.vanished = [file.ino] := by
  unfold remove at made
  split at made
  · cases made
  · next file found =>
      split at made
      · next free =>
          cases made
          have kept : ∀ other, other ∈ sys.files.filter (·.path != path) ↔
              other ∈ sys.files ∧ other.path ≠ path := by
            intro other
            rw [List.mem_filter, bne_iff_ne]
          have sublist : (sys.files.filter (·.path != path)).Sublist sys.files :=
            List.filter_sublist
          refine ⟨⟨ok.paths.sublist (sublist.map _), ok.inodes.sublist (sublist.map _),
            ?_, ?_, ?_⟩, rfl, rfl, file, found, free.1, free.2, rfl⟩
          · intro other member
            exact ok.fresh other ((kept other).mp member).1
          · intro other member
            obtain ⟨inside, different⟩ := (kept other).mp member
            refine placed_mono _ _ _ (ok.placed other inside) fun dir there directory below _ => ?_
            refine ⟨dir, (kept dir).mpr ⟨there, fun same => different ?_⟩, directory, rfl⟩
            exact empty_below sys.files path free.2 other inside (same ▸ below)
          · intro other member
            exact ok.short other ((kept other).mp member).1
      · cases made

/-- What `rename` checks and changes. -/
structure Renamed (sys : System) (old new : Path) (effect : Effect) (file : File) : Prop where
  found : lookup sys.files old = some file
  outside : ¬ Below slash old new
  free : ∀ other ∈ sys.files, Below slash new other.path → other.path = new
  ready : available sys.files new = true
  system : effect.system = { sys with
    files := (sys.files.filter (·.path != new)).map (moveFile old new)
    nextCookie := sys.nextCookie + 1 }
  notices : effect.notices =
    entryNotice sys.files old (kind file.isDir IN_MOVED_FROM) sys.nextCookie ++
    entryNotice sys.files new (kind file.isDir IN_MOVED_TO) sys.nextCookie ++
      [⟨file.ino, IN_MOVE_SELF, 0, []⟩]
  vanished : effect.vanished = ((lookup sys.files new).map File.ino).toList
  cause : effect.cause = IN_DELETE_SELF
  same : ∀ there, lookup sys.files new = some there → there.isDir = file.isDir

theorem rename_cases (sys : System) (ok : FilesOk sys) (old new : Path) (effect : Effect)
    (made : rename sys old new = some effect) : ∃ file, Renamed sys old new effect file := by
  unfold rename at made
  split at made
  · cases made
  · next file found =>
      split at made
      · next free =>
          obtain ⟨outside, target, ready⟩ := free
          cases made
          have nonempty := placed_nonempty _ _ (available_placed _ _ ready).2
          refine ⟨file, found, ?_, ?_, ready, rfl, rfl, rfl, rfl, ?_⟩
          · rw [← covers_iff, outside]
            exact Bool.false_ne_true
          · intro other member below
            by_contra strict
            obtain ⟨dir, inside, _, here⟩ :=
              ancestor_directory sys ok new nonempty other member below strict
            subst here
            rw [replaceable, lookup_mem sys.files ok.paths dir inside] at target
            rw [Bool.and_eq_true] at target
            exact strict (empty_below sys.files dir.path target.2 other member below)
          · intro there hit
            rw [replaceable, hit, Bool.and_eq_true, beq_iff_eq] at target
            exact target.1
      · cases made

section Rename
variable (sys : System) (ok : FilesOk sys) (old new : Path) (effect : Effect) (file : File)
  (renamed : Renamed sys old new effect file)

include renamed in
theorem mem_renamed (other : File) :
    other ∈ effect.system.files ↔ ∃ before ∈ sys.files, before.path ≠ new ∧
      moveFile old new before = other := by
  rw [renamed.system]
  simp only [List.mem_map, List.mem_filter, bne_iff_ne, and_assoc]

theorem move_outside (other : File) (outside : ¬ Below slash old other.path) :
    moveFile old new other = other :=
  if_neg fun hit => outside ((covers_iff slash old other.path).mp hit)

theorem move_inside (other : File) (below : Below slash old other.path) :
    moveFile old new other = { other with path := reroot old new other.path } :=
  if_pos ((covers_iff slash old other.path).mpr below)

theorem move_ino (other : File) : (moveFile old new other).ino = other.ino := by
  unfold moveFile
  split <;> rfl

theorem move_kind (other : File) : (moveFile old new other).isDir = other.isDir := by
  unfold moveFile
  split <;> rfl

include renamed in
/-- No two files come to lie on one name. -/
theorem move_injective (one other : File) (left : one ∈ sys.files) (right : other ∈ sys.files)
    (apart : one.path ≠ new) (apart' : other.path ≠ new)
    (same : (moveFile old new one).path = (moveFile old new other).path) :
    one.path = other.path := by
  have mixed : ∀ moved stays : File, stays ∈ sys.files → stays.path ≠ new →
    Below slash old moved.path →
      reroot old new moved.path ≠ stays.path := by
    intro moved stays member different below hit
    exact different (renamed.free stays member
      (hit ▸ reroot_below slash old new moved.path below))
  by_cases first : Below slash old one.path
  · rw [move_inside old new one first] at same
    by_cases second : Below slash old other.path
    · rw [move_inside old new other second] at same
      rw [← reroot_back slash old new one.path first,
          ← reroot_back slash old new other.path second]
      exact congrArg _ same
    · rw [move_outside old new other second] at same
      exact absurd same (mixed one other right apart' first)
  · rw [move_outside old new one first] at same
    by_cases second : Below slash old other.path
    · rw [move_inside old new other second] at same
      exact absurd same.symm (mixed other one left apart second)
    · rw [move_outside old new other second] at same
      exact same

include ok renamed in
theorem move_placed (other : File) (member : other ∈ sys.files) (apart : other.path ≠ new) :
    Placed effect.system.files (moveFile old new other).path := by
  have stays : ∀ dir ∈ sys.files, ¬ Below slash old dir.path → dir.path ≠ new →
      dir ∈ effect.system.files := fun dir inside outside different =>
    (mem_renamed sys old new effect file renamed dir).mpr
      ⟨dir, inside, different, move_outside old new dir outside⟩
  by_cases below : Below slash old other.path
  · rw [move_inside old new other below]
    change Placed effect.system.files (reroot old new other.path)
    by_cases here : other.path = old
    · -- the renamed file itself lies where there was room for it
      rw [here, show reroot old new old = new by simp [reroot]]
      refine placed_mono _ _ _ (available_placed _ _ renamed.ready).2
        fun dir inside directory above apart => ?_
      refine ⟨dir, stays dir inside (fun under => ?_) apart, directory, rfl⟩
      exact renamed.outside (below_trans slash _ _ _ under above)
    · obtain ⟨inside, _⟩ := lookup_some _ _ _ renamed.found
      obtain ⟨dir, there, name, directory, whole, simple, above⟩ := parent_below sys ok old (by
        rw [← (lookup_some _ _ _ renamed.found).2]
        exact placed_nonempty _ _ (ok.placed file inside)) other member below here
      refine Or.inr ⟨reroot old new dir.path, name, ?_, simple,
        Or.inr ⟨moveFile old new dir, ?_, ?_, ?_⟩⟩
      · rw [whole, reroot_join slash old new dir.path name above]
      · refine (mem_renamed sys old new effect file renamed _).mpr ⟨dir, there, ?_, rfl⟩
        rintro rfl
        exact renamed.outside above
      · rw [move_kind, directory]
      · rw [move_inside old new dir above]
  · rw [move_outside old new other below]
    refine placed_mono _ _ _ (ok.placed other member) fun dir inside directory above _ => ?_
    refine ⟨dir, stays dir inside (fun under => below (below_trans slash _ _ _ under above)) ?_,
      directory, rfl⟩
    rintro rfl
    exact apart (renamed.free other member above)

include ok renamed in
theorem rename_ok (short : ∀ other ∈ effect.system.files, other.path.length < PATH_MAX) :
    FilesOk effect.system := by
  have files :
      effect.system.files = (sys.files.filter (·.path != new)).map (moveFile old new) := by
    rw [renamed.system]
  have sublist : (sys.files.filter (·.path != new)).Sublist sys.files := List.filter_sublist
  have kept : ∀ other ∈ sys.files.filter (·.path != new),
      other ∈ sys.files ∧ other.path ≠ new := by
    intro other member
    rw [List.mem_filter, bne_iff_ne] at member
    exact member
  refine ⟨?_, ?_, ?_, ?_, short⟩
  · rw [files, List.map_map]
    refine (ok.paths.of_map.sublist sublist).map_on ?_
    intro one left other right same
    obtain ⟨inside, apart⟩ := kept one left
    obtain ⟨inside', apart'⟩ := kept other right
    exact List.inj_on_of_nodup_map ok.paths inside inside'
      (move_injective sys old new effect file renamed one other inside inside' apart apart' same)
  · rw [files, List.map_map,
        show File.ino ∘ moveFile old new = File.ino from funext (move_ino old new)]
    exact ok.inodes.sublist (sublist.map _)
  · intro other member
    obtain ⟨before, inside, _, rfl⟩ :=
      (mem_renamed sys old new effect file renamed other).mp member
    rw [move_ino, renamed.system]
    exact ok.fresh before inside
  · intro other member
    obtain ⟨before, inside, apart, rfl⟩ :=
      (mem_renamed sys old new effect file renamed other).mp member
    exact move_placed sys ok old new effect file renamed before inside apart

end Rename

/-! Without a limit every event is queued. -/

theorem watch_of_some (watches : List Watch) (ino : Nat) (watch : Watch)
    (found : watchOf watches ino = some watch) : watch ∈ watches ∧ watch.ino = ino := by
  have hit := List.find?_some found
  exact ⟨List.mem_of_find?_eq_some found, beq_iff_eq.mp hit⟩

theorem watch_of_none (watches : List Watch) (ino : Nat) (missing : watchOf watches ino = none) :
    ∀ watch ∈ watches, watch.ino ≠ ino := by
  intro watch member same
  have miss := List.find?_eq_none.mp missing watch member
  simp [same] at miss

def noticed (watches : List Watch) (notice : Notice) : List Event :=
  match watchOf watches notice.ino with
  | none => []
  | some watch =>
      if has notice.mask IN_MOVE_SELF ∧ watch.moveSelf = false then []
      else [⟨watch.wd, notice.mask, notice.cookie, notice.name⟩]

def parting (watches : List Watch) (cause : Mask) (ino : Nat) : List Event :=
  match watchOf watches ino with
  | none => []
  | some watch => [⟨watch.wd, cause, 0, []⟩, ⟨watch.wd, IN_IGNORED, 0, []⟩]

theorem noticed_watch (watches : List Watch) (notice : Notice) (ev : Event)
    (member : ev ∈ noticed watches notice) : ∃ watch ∈ watches, watch.ino = notice.ino ∧
      ev = ⟨watch.wd, notice.mask, notice.cookie, notice.name⟩ := by
  unfold noticed at member
  split at member
  · cases member
  · next watch found =>
      split at member
      · cases member
      · obtain ⟨inside, same⟩ := watch_of_some watches notice.ino watch found
        exact ⟨watch, inside, same, List.mem_singleton.mp member⟩

theorem parting_watch (watches : List Watch) (cause : Mask) (ino : Nat) (ev : Event)
    (member : ev ∈ parting watches cause ino) : ∃ watch ∈ watches, watch.ino = ino ∧
      (ev = ⟨watch.wd, cause, 0, []⟩ ∨ ev = ⟨watch.wd, IN_IGNORED, 0, []⟩) := by
  unfold parting at member
  split at member
  · cases member
  · next watch found =>
      obtain ⟨inside, same⟩ := watch_of_some watches ino watch found
      exact ⟨watch, inside, same, List.mem_pair.mp member⟩

def postAll (sys : System) (events : List Event) : System := events.foldl post sys

theorem post_unlimited (sys : System) (ev : Event) (unlimited : sys.limit = none) :
    post sys ev = { sys with queue := sys.queue ++ [ev] } := by
  rw [post, unlimited]

theorem post_all_unlimited (events : List Event) (sys : System) (unlimited : sys.limit = none) :
    postAll sys events = { sys with queue := sys.queue ++ events } := by
  unfold postAll
  induction events generalizing sys with
  | nil => simp
  | cons ev rest ih =>
      rw [List.foldl_cons, post_unlimited sys ev unlimited, ih]
      · simp
      · exact unlimited

/-- With a limit, everything is queued or the overflow is. -/
theorem post_all_cases (events : List Event) (sys : System) :
    ∃ extra, postAll sys events = { sys with queue := sys.queue ++ extra } ∧
      (extra = events ∨ overflow ∈ sys.queue ++ extra) ∧ ∀ ev ∈ extra,
        ev ∈ events ∨ ev = overflow := by
  unfold postAll
  induction events generalizing sys with
  | nil => exact ⟨[], by simp, Or.inl rfl, by simp⟩
  | cons ev rest ih =>
      have first : ∃ extra, post sys ev = { sys with queue := sys.queue ++ extra } ∧
          (extra = [ev] ∨ overflow ∈ sys.queue ++ extra) ∧ ∀ one ∈ extra,
            one = ev ∨ one = overflow := by
        unfold post
        cases limited : sys.limit with
        | none => exact ⟨[ev], rfl, Or.inl rfl, by simp⟩
        | some limit =>
            dsimp only
            split
            · exact ⟨[ev], rfl, Or.inl rfl, by simp⟩
            · split
              · next full =>
                  exact ⟨[],
                    by rw [← limited, List.append_nil], Or.inr (by simpa using full), by simp⟩
              · exact ⟨[overflow], rfl, Or.inr (by simp), by simp⟩
      obtain ⟨front, posted, added, origin⟩ := first
      obtain ⟨extra, all, grown, sources⟩ := ih { sys with queue := sys.queue ++ front }
      refine ⟨front ++ extra, ?_, ?_, ?_⟩
      · rw [List.foldl_cons, posted, ← List.append_assoc]
        exact all
      · rw [← List.append_assoc]
        rcases grown with whole | full
        · rcases added with one | full
          · exact Or.inl (by rw [whole, one]; rfl)
          · exact Or.inr (List.mem_append_left _ full)
        · exact Or.inr full
      · intro one member
        rcases List.mem_append.mp member with early | late
        · rcases origin one early with rfl | full
          · exact Or.inl List.mem_cons_self
          · exact Or.inr full
        · exact (sources one late).imp_left (List.mem_cons_of_mem _)

theorem deliver_all_posts (notices : List Notice) (sys : System) :
    notices.foldl deliver sys = postAll sys (notices.flatMap (noticed sys.watches)) := by
  induction notices generalizing sys with
  | nil => rfl
  | cons notice rest ih =>
      have first : deliver sys notice = postAll sys (noticed sys.watches notice) := by
        unfold deliver noticed
        cases watchOf sys.watches notice.ino with
        | none => rfl
        | some watch =>
            dsimp only
            split <;> rfl
      obtain ⟨queue, posted, _⟩ := post_all_cases (noticed sys.watches notice) sys
      have same : (postAll sys (noticed sys.watches notice)).watches = sys.watches := by rw [posted]
      rw [List.foldl_cons, ih, first, same, List.flatMap_cons, postAll, postAll, postAll,
          List.foldl_append]

theorem drop_posts (sys : System) (cause : Mask) (ino : Nat) :
    drop cause sys ino = postAll { sys with watches := sys.watches.filter (·.ino != ino) }
      (parting sys.watches cause ino) := by
  unfold drop parting
  cases found : watchOf sys.watches ino with
  | none =>
      have all : sys.watches.filter (·.ino != ino) = sys.watches := by
        rw [List.filter_eq_self]
        intro watch member
        simpa using watch_of_none _ _ found watch member
      rw [all]
      rfl
  | some watch => rfl

/-- A change with at most one vanished inode. -/
theorem happen_posts (effect : Effect) (vanished : Option Nat)
    (gone : effect.vanished = vanished.toList) :
    happen effect = postAll
      { effect.system with
        watches := effect.system.watches.filter fun watch => some watch.ino != vanished }
      (effect.notices.flatMap (noticed effect.system.watches) ++
        vanished.toList.flatMap (parting effect.system.watches effect.cause)) := by
  have moved : ∀ (events : List Event) (sys : System) (watches : List Watch),
      { postAll sys events with watches := watches } =
        postAll { sys with watches := watches } events := by
    intro events
    induction events with
    | nil => intro sys watches; rfl
    | cons ev rest ih =>
        intro sys watches
        have first : ({ post sys ev with watches := watches } : System) =
            post { sys with watches := watches } ev := by
          unfold post
          cases limited : sys.limit with
          | none => rfl
          | some limit =>
              dsimp only
              split
              · rfl
              · split
                · rw [limited]
                · rfl
        change ({ postAll (post sys ev) rest with watches := watches } : System) = _
        rw [ih, first]
        rfl
  unfold happen
  rw [deliver_all_posts, gone]
  cases vanished with
  | none =>
      have all : (effect.system.watches.filter fun watch => some watch.ino != none) =
          effect.system.watches := by simp
      simp [all]
  | some ino =>
      obtain ⟨queue, posted, _⟩ :=
        post_all_cases (effect.notices.flatMap (noticed effect.system.watches)) effect.system
      have same : (postAll effect.system (effect.notices.flatMap
        (noticed effect.system.watches))).watches =
          effect.system.watches := by rw [posted]
      simp only [Option.toList_some, List.foldl_cons, List.foldl_nil, List.flatMap_cons,
        List.flatMap_nil, List.append_nil]
      rw [drop_posts, same, moved]
      unfold postAll
      rw [List.foldl_append]
      rfl

/-- The notice about an entry reaches the watch on its directory, if there is one. -/
theorem entry_noticed (files : List File) (distinct : (files.map File.path).Nodup)
    (watches : List Watch) (path : Path) (mask : Mask) (cookie : Nat)
    (plain : has mask IN_MOVE_SELF = false) :
    (entryNotice files path mask cookie).flatMap (noticed watches) = [] ∧
      (∀ dir ∈ files, ∀ name, slash ∉ name → path = join slash dir.path name →
        ∀ watch ∈ watches, watch.ino ≠ dir.ino) ∨
    ∃ dir ∈ files, ∃ name, ∃ watch ∈ watches,
      path = join slash dir.path name ∧ slash ∉ name ∧
      watch.ino = dir.ino ∧
      (entryNotice files path mask cookie).flatMap (noticed watches) =
        [⟨watch.wd, mask, cookie, name⟩] := by
  unfold entryNotice
  cases cut : split slash path with
  | none =>
      refine Or.inl ⟨rfl, fun dir _ name simple whole => ?_⟩
      rw [whole, split_join slash dir.path name simple] at cut
      cases cut
  | some parts =>
      obtain ⟨start, name⟩ := parts
      obtain ⟨whole, simple⟩ := split_some slash path start name cut
      have owner : ∀ dir ∈ files, ∀ other, slash ∉ other →
        path = join slash dir.path other →
          lookup files start = some dir := by
        intro dir member other plain joined
        obtain ⟨rfl, _⟩ :=
          join_inj slash start dir.path name other simple plain (whole.symm.trans joined)
        exact lookup_mem files distinct dir member
      cases found : lookup files start with
      | none =>
          refine Or.inl ⟨by simp [found], fun dir member other plain joined => ?_⟩
          rw [owner dir member other plain joined] at found
          cases found
      | some dir =>
          obtain ⟨member, rfl⟩ := lookup_some files start dir found
          cases watched : watchOf watches dir.ino with
          | none =>
              refine Or.inl
                ⟨by simp [found, noticed, watched], fun other inside last plain joined => ?_⟩
              obtain rfl :=
                Option.some.inj (found.symm.trans (owner other inside last plain joined))
              exact watch_of_none watches dir.ino watched
          | some watch =>
              obtain ⟨inside, same⟩ := watch_of_some watches dir.ino watch watched
              exact Or.inr ⟨dir, member, name, watch, inside, whole, simple, same,
                by simp [found, noticed, watched, plain]⟩

/-! The walk never meets an error, and grows the watches and the cache together. -/

theorem traverse_total (kernel : Kernel System) (calls : kernel.addWatch = addWatch)
    (world : World System) (ok : FilesOk world.state) (path : Path)
    (directory : isDirectory world.state.files path = true) :
    ∃ after, traverseTree kernel world path = some after := by
  obtain ⟨file, member, rfl, isDir⟩ := (is_directory_iff _ ok.paths path).mp directory
  have short : ¬ PATH_MAX ≤ file.path.length := Nat.not_le.mpr (ok.short file member)
  have free : ¬ (world.state.files.any fun other =>
    !other.isDir && covers slash other.path file.path) =
      true := by
    rw [List.any_eq_true]
    rintro ⟨other, inside, blocked⟩
    rw [Bool.and_eq_true, Bool.not_eq_true', covers_iff] at blocked
    -- what lies at or above a directory is a directory
    have above : ∃ dir ∈ world.state.files, dir.isDir = true ∧ dir.path = other.path := by
      by_cases same : file.path = other.path
      · exact ⟨file, member, isDir, same⟩
      · exact ancestor_directory world.state ok other.path
          (placed_nonempty _ _ (ok.placed other inside)) file member blocked.2 same
    obtain ⟨dir, there, yes, same⟩ := above
    obtain rfl := List.inj_on_of_nodup_map ok.paths there inside same
    rw [blocked.1] at yes
    cases yes
  unfold traverseTree
  rw [calls]
  dsimp only [addWatch]
  rw [if_neg short, if_neg free, lookup_mem _ ok.paths file member]
  cases watched : watchOf world.state.watches file.ino with
  | some watch =>
      simp only [watched]
      split <;> exact ⟨_, rfl⟩
  | none =>
      simp only [watched]
      split <;> exact ⟨_, rfl⟩

end Tlpi.FileTree
