import Mathlib.Data.List.Basic
import Tlpi.WatchSet

/-!
inotify_dtree.c while another process makes and renames directories. The events
of a rename turn cached names into later names, one after the other; what the
queued ones will make of a cached name is foreseen from the names that the
renames were given. A name that is cached while an older rename of it is still
queued is rewritten by mistake, and a watched directory that leaves a directory
without a watch keeps its old name for ever. Without these two, whatever is
cached once all events are handled is right, also after an overflow.
-/

namespace Tlpi.TreeRenames

open PathName WatchCache TreeMonitor FileTree TreeRace WatchSet

/-- A rename under the cookie of its events. -/
structure Move where
  cookie : Nat
  old : Path
  new : Path
  deriving DecidableEq

/-- A state with the renames that happened so far. -/
structure Trail where
  state : State
  moves : List Move

def record (choice : Choice) (trail : Trail) : List Move :=
  match choice with
  | .happen (.rename old new) => trail.moves ++ [⟨trail.state.sys.nextCookie, old, new⟩]
  | _ => trail.moves

def advance (choice : Choice) (trail : Trail) : Option Trail :=
  (step choice trail.state).map fun after => ⟨after, record choice trail⟩

/-- Directories are made and renamed; pathnames stay shorter than PATH_MAX. -/
def allowed (choice : Choice) (trail : Trail) : Bool :=
  match choice with
  | .happen (.create _ isDir) => isDir
  | .happen (.rename old new) =>
      isDirectory trail.state.sys.files old && trail.state.sys.files.all fun file =>
        decide ((moveFile old new file).path.length < PATH_MAX)
  | .read _ | .reread _ | .process | .work _ | .giveUp => true
  | _ => false

def Started (trail : Trail) : Prop :=
  ∃ roots sys, FilesOk sys ∧ sys.late = [] ∧ trail = ⟨start roots sys, []⟩

def movedFrom : Mask := IN_MOVED_FROM ||| IN_ISDIR

/-- Both halves of the rename are still to be handled. -/
def queued (state : State) (move : Move) : Bool :=
  ((pending state).any fun ev => ev.mask == movedFrom && ev.cookie == move.cookie) &&
    (pending state).any fun ev => has ev.mask IN_MOVED_TO && ev.cookie == move.cookie

/-- The directory that the name is in is watched. -/
def told (sys : System) (path : Path) : Bool :=
  match split slash path with
  | none => false
  | some (dir, _) => ((lookup sys.files dir).bind fun file => watchOf sys.watches file.ino).isSome

def watchedBelow (sys : System) (path : Path) : Bool :=
  sys.files.any fun file => covers slash path file.path && (watchOf sys.watches file.ino).isSome

/-- The visit finds a directory that has no watch yet. -/
def gains (sys : System) (path : Path) : Bool :=
  match lookup sys.files path with
  | none => false
  | some file => file.isDir && (watchOf sys.watches file.ino).isNone

/-- A watched directory leaves a watched directory, and a directory that gets a
watch is not found under a name that a queued rename took away. -/
def careful (choice : Choice) (trail : Trail) : Bool :=
  match choice with
  | .happen (.rename old _) => told trail.state.sys old || !watchedBelow trail.state.sys old
  | .work _ =>
      match trail.state.tasks with
      | .visit path :: _ =>
          !gains trail.state.sys path ||
            trail.moves.all fun move => !(queued trail.state move && covers slash move.old path)
      | _ => true
  | _ => true

def Paired (ev next : Event) : Prop := has next.mask IN_MOVED_TO = true ∧ next.cookie = ev.cookie

/-- What the queued events will make of the cached names, if no more are cached. -/
inductive Foreseen (moves : List Move) :
    List (Int × Path) → List Event → List (Int × Path) → Prop where
  | done (labels : List (Int × Path)) : Foreseen moves labels [] labels
  | other {labels final : List (Int × Path)} {ev : Event} {rest : List Event}
      (plain : ev.mask ≠ movedFrom)
      (later : Foreseen moves labels rest final) : Foreseen moves labels (ev :: rest) final
  | out {labels final : List (Int × Path)} {ev : Event} {rest : List Event} (move : Move)
      (listed : move ∈ moves) (mask : ev.mask = movedFrom) (cookie : move.cookie = ev.cookie)
      (alone : ∀ next, rest.head? = some next → ¬ Paired ev next)
      (source : ∀ label, (ev.wd, label) ∈ labels → fullPath label ev.name = move.old)
      (later : Foreseen moves
        (labels.filter fun entry => !covers slash move.old entry.2) rest final) :
      Foreseen moves labels (ev :: rest) final
  | pair {labels final : List (Int × Path)} {ev next : Event} {rest : List Event} (move : Move)
      (listed : move ∈ moves) (mask : ev.mask = movedFrom) (cookie : move.cookie = ev.cookie)
      (paired : Paired ev next)
      (source : ∀ label, (ev.wd, label) ∈ labels → fullPath label ev.name = move.old)
      (target : ∀ label, (next.wd, label) ∈ labels → fullPath label next.name = move.new)
      (later : Foreseen moves
        (labels.map fun entry => (entry.1, rewritten move.old move.new entry.2)) rest final) :
      Foreseen moves labels (ev :: next :: rest) final

theorem foreseen_plain (moves : List Move) (labels : List (Int × Path)) (events : List Event)
    (plain : ∀ ev ∈ events, ev.mask ≠ movedFrom) : Foreseen moves labels events labels := by
  induction events with
  | nil => exact .done labels
  | cons ev rest ih =>
      exact .other (plain ev List.mem_cons_self) (ih fun other member =>
        plain other (List.mem_cons_of_mem _ member))

theorem foreseen_moves (moves more : List Move) (labels final : List (Int × Path))
    (events : List Event) (larger : ∀ move ∈ moves, move ∈ more)
    (foreseen : Foreseen moves labels events final) : Foreseen more labels events final := by
  induction foreseen with
  | done labels => exact .done labels
  | other plain _ ih => exact .other plain ih
  | out move listed mask cookie alone source _ ih =>
      exact .out move (larger move listed) mask cookie alone source ih
  | pair move listed mask cookie paired source target _ ih =>
      exact .pair move (larger move listed) mask cookie paired source target ih

/-- Later events go on where the earlier ones end; no new half belongs to an old one. -/
theorem foreseen_append (moves : List Move) (labels middle final : List (Int × Path))
    (events posted : List Event)
    (fresh : ∀ ev ∈ events, ev.mask = movedFrom → ∀ next ∈ posted, ¬ Paired ev next)
    (first : Foreseen moves labels events middle) (second : Foreseen moves middle posted final) :
    Foreseen moves labels (events ++ posted) final := by
  induction first with
  | done labels => exact second
  | other plain _ ih =>
      exact .other plain (ih (fun ev member => fresh ev (List.mem_cons_of_mem _ member)) second)
  | @out labels final ev rest move listed mask cookie alone source _ ih =>
      refine .out move listed mask cookie ?_ source
        (ih (fun ev member => fresh ev (List.mem_cons_of_mem _ member)) second)
      intro next head
      cases rest with
      | nil => exact fresh ev List.mem_cons_self mask next (List.mem_of_head? head)
      | cons one more => exact alone next head
  | pair move listed mask cookie paired source target _ ih =>
      exact .pair move listed mask cookie paired source target (ih (fun ev member =>
        fresh ev (List.mem_cons_of_mem _ (List.mem_cons_of_mem _ member))) second)

/-- Entries may go at any time. -/
theorem foreseen_fewer (moves : List Move) (labels final : List (Int × Path)) (events : List Event)
    (foreseen : Foreseen moves labels events final) (fewer : List (Int × Path))
    (inside : ∀ entry ∈ fewer, entry ∈ labels) :
    ∃ left, Foreseen moves fewer events left ∧ ∀ entry ∈ left, entry ∈ final := by
  induction foreseen generalizing fewer with
  | done labels => exact ⟨fewer, .done fewer, inside⟩
  | other plain _ ih =>
      obtain ⟨left, later, kept⟩ := ih fewer inside
      exact ⟨left, .other plain later, kept⟩
  | out move listed mask cookie alone source _ ih =>
      obtain ⟨left, later, kept⟩ :=
        ih (fewer.filter fun entry => !covers slash move.old entry.2) (by
          intro entry member
          rw [List.mem_filter] at member ⊢
          exact ⟨inside entry member.1, member.2⟩)
      exact ⟨left, .out move listed mask cookie alone (fun label there =>
        source label (inside _ there)) later,
          kept⟩
  | pair move listed mask cookie paired source target _ ih =>
      obtain ⟨left, later, kept⟩ :=
        ih (fewer.map fun entry => (entry.1, rewritten move.old move.new entry.2)) (by
          intro entry member
          obtain ⟨before, there, rfl⟩ := List.mem_map.mp member
          exact List.mem_map.mpr ⟨before, inside before there, rfl⟩)
      exact ⟨left, .pair move listed mask cookie paired (fun label there =>
        source label (inside _ there)) (fun label there => target label (inside _ there)) later,
        kept⟩

theorem foreseen_origin (moves : List Move) (labels final : List (Int × Path))
    (events : List Event) (foreseen : Foreseen moves labels events final) (wd : Int) (path : Path)
    (member : (wd, path) ∈ final) : ∃ label, (wd, label) ∈ labels := by
  induction foreseen with
  | done labels => exact ⟨path, member⟩
  | other _ _ ih => exact ih member
  | out _ _ _ _ _ _ _ ih =>
      obtain ⟨label, inside⟩ := ih member
      exact ⟨label, List.mem_of_mem_filter inside⟩
  | pair _ _ _ _ _ _ _ _ ih =>
      obtain ⟨label, inside⟩ := ih member
      obtain ⟨⟨number, before⟩, there, whole⟩ := List.mem_map.mp inside
      exact ⟨before, (Prod.mk.inj whole).1 ▸ there⟩

/-- A new entry whose name no queued rename took away keeps its name. -/
theorem foreseen_added (moves : List Move) (labels final : List (Int × Path)) (events : List Event)
    (foreseen : Foreseen moves labels events final) (wd : Int) (path : Path)
    (fresh : ∀ ev ∈ events, ev.wd ≠ wd)
    (free : ∀ move ∈ moves,
      (∃ ev ∈ events, ev.mask = movedFrom ∧ ev.cookie = move.cookie) →
      (∃ next ∈ events, has next.mask IN_MOVED_TO = true ∧ next.cookie = move.cookie) →
      covers slash move.old path = false) :
    ∃ more, Foreseen moves ((wd, path) :: labels) events more ∧
      ∀ entry ∈ more, entry = (wd, path) ∨ entry ∈ final := by
  have other : ∀ (labels : List (Int × Path)) (ev : Event) (name old : Path), ev.wd ≠ wd →
      (∀ label, (ev.wd, label) ∈ labels → fullPath label name = old) →
      ∀ label, (ev.wd, label) ∈ (wd, path) :: labels → fullPath label name = old := by
    intro labels ev name old different source label member
    rcases List.mem_cons.mp member with same | there
    · exact absurd (Prod.mk.inj same).1 different
    · exact source label there
  induction foreseen with
  | done labels => exact ⟨_, .done _, fun entry member => List.mem_cons.mp member⟩
  | @other labels final ev rest plain _ ih =>
      obtain ⟨more, later, kept⟩ :=
        ih (fun ev member => fresh ev (List.mem_cons_of_mem _ member))
          fun move listed from_ to_ =>
            free move listed (from_.imp fun _ => And.imp_left (List.mem_cons_of_mem _))
              (to_.imp fun _ => And.imp_left (List.mem_cons_of_mem _))
      exact ⟨more, .other plain later, kept⟩
  | @out labels final ev rest move listed mask cookie alone source _ ih =>
      obtain ⟨more, later, kept⟩ :=
        ih (fun ev member => fresh ev (List.mem_cons_of_mem _ member))
          fun move listed from_ to_ =>
            free move listed (from_.imp fun _ => And.imp_left (List.mem_cons_of_mem _))
              (to_.imp fun _ => And.imp_left (List.mem_cons_of_mem _))
      -- the new entry may be dropped with the directory that leaves, or stay
      obtain ⟨left, rest', inside⟩ := foreseen_fewer moves _ _ _ later
        (((wd, path) :: labels).filter fun entry => !covers slash move.old entry.2) (by
          intro entry member
          rw [List.mem_filter] at member
          rcases List.mem_cons.mp member.1 with rfl | there
          · exact List.mem_cons_self
          · exact List.mem_cons_of_mem _ (List.mem_filter.mpr ⟨there, member.2⟩))
      exact ⟨left, .out move listed mask cookie alone
        (other labels ev ev.name move.old (fresh ev List.mem_cons_self) source) rest',
        fun entry member => kept entry (inside entry member)⟩
  | @pair labels final ev next rest move listed mask cookie paired source target _ ih =>
      obtain ⟨more, later, kept⟩ := ih
        (fun ev member => fresh ev (List.mem_cons_of_mem _ (List.mem_cons_of_mem _ member)))
        fun move listed from_ to_ => free move listed
          (from_.imp fun _ => And.imp_left (List.mem_cons_of_mem _ ∘ List.mem_cons_of_mem _))
          (to_.imp fun _ => And.imp_left (List.mem_cons_of_mem _ ∘ List.mem_cons_of_mem _))
      have away : covers slash move.old path = false := free move listed
        ⟨ev, List.mem_cons_self, mask, cookie.symm⟩
        ⟨next, List.mem_cons_of_mem _ List.mem_cons_self, paired.1, paired.2.trans cookie.symm⟩
      have same : rewritten move.old move.new path = path := by simp [rewritten, away]
      refine ⟨more, .pair move listed mask cookie paired
        (other labels ev ev.name move.old (fresh ev List.mem_cons_self) source)
        (other labels next next.name move.new
          (fresh next (List.mem_cons_of_mem _ List.mem_cons_self)) target) ?_, kept⟩
      rw [List.map_cons, same]
      exact later

/-! The invariant. -/

/-- The names are those of the watched directories. -/
def Right (sys : System) (labels : List (Int × Path)) : Prop :=
  ∀ wd path, (wd, path) ∈ labels → ∀ watch ∈ sys.watches, watch.wd = wd →
    ∀ file ∈ sys.files, file.ino = watch.ino → file.path = path

def zapped : TreeRace.Task → Path → Bool
  | .zap pn _ _, path => covers slash pn path
  | _, _ => false

/-- The entries that are not about to be zapped. -/
def lasting (state : State) : List (Int × Path) :=
  (entries state.world.cache).filter fun entry => !state.tasks.any (zapped · entry.2)

/-- `zapSubtree` works alone, and has cleared the slots that it has passed. -/
inductive Zapping (cache : Cache) (tasks : List TreeRace.Task) : Prop where
  | off (none : ∀ task ∈ tasks, ∀ path, zapped task path = false)
  | on (path : Path) (index : Nat) (alone : tasks = [.zap path index true])
      (passed : ∀ before < index, ∀ slot, cache[before]? = some slot → 0 ≤ slot.wd →
        covers slash path slot.path = false)

structure Tracks (trail : Trail) : Prop where
  agrees : Agrees trail.state
  files : FilesOk trail.state.sys
  inodes : ∀ watch ∈ trail.state.sys.watches, ∃ file ∈ trail.state.sys.files,
    file.ino = watch.ino
  numbers : ∀ ev ∈ pending trail.state, ev.wd < trail.state.sys.nextWd
  cookies : ∀ ev ∈ pending trail.state,
    ev.mask = movedFrom → ev.cookie < trail.state.sys.nextCookie
  hanging : trail.state.hanging = true → trail.state.tasks = [] ∧ trail.state.buffer ≠ []
  second : trail.state.firstTry = false → ∀ ev, trail.state.buffer = [ev] →
    trail.state.hanging = false →
    ev.mask = movedFrom → ∀ next, trail.state.sys.queue.head? = some next → ¬ Paired ev next
  zapping : Zapping trail.state.world.cache trail.state.tasks
  foreseen : (∃ counted, TreeRace.Task.reinit counted ∈ trail.state.tasks) ∨
    overflow ∈ pending trail.state ∨
    ∃ final, Foreseen trail.moves (lasting trail.state) (pending trail.state) final ∧
      Right trail.state.sys final

theorem right_fewer (sys : System) (labels fewer : List (Int × Path)) (right : Right sys labels)
    (inside : ∀ entry ∈ fewer, entry ∈ labels) : Right sys fewer :=
  fun wd path member => right wd path (inside _ member)

/-- Fewer entries are as right as before. -/
theorem foreseen_right_fewer (moves : List Move) (sys : System) (labels fewer : List (Int × Path))
    (events : List Event) (inside : ∀ entry ∈ fewer, entry ∈ labels)
    (foreseen : ∃ final, Foreseen moves labels events final ∧ Right sys final) :
    ∃ final, Foreseen moves fewer events final ∧ Right sys final := by
  obtain ⟨final, later, right⟩ := foreseen
  obtain ⟨left, fewer', kept⟩ := foreseen_fewer moves labels final events later fewer inside
  exact ⟨left, fewer', right_fewer sys final left right kept⟩

/-! Other processes. -/

/-- The program is where it was, but for entries that have been zapped. -/
structure Continues (before after : State) : Prop where
  buffer : after.buffer = before.buffer
  firstTry : after.firstTry = before.firstTry
  hanging : after.hanging = before.hanging
  idle : before.tasks = [] → after.tasks = []
  reinit : ∀ counted, TreeRace.Task.reinit counted ∈ before.tasks →
    TreeRace.Task.reinit counted ∈ after.tasks
  labels : ∀ entry ∈ lasting after, entry ∈ lasting before
  zapping : Zapping after.world.cache after.tasks

theorem happen_continues (trail : Trail) (tracks : Tracks trail) (sys : System) :
    Continues trail.state (trail.state.withSys sys) :=
  ⟨rfl, rfl, rfl, id, fun _ => id, fun _ => id, tracks.zapping⟩

section Posted
variable (trail : Trail) (tracks : Tracks trail) (after : State) (moves : List Move)
  (posted : List Event) (base : System) (agrees : Agrees after)
  (continues : Continues trail.state after) (posts : after.sys = postAll base posted)
  (queue : base.queue = trail.state.sys.queue) (nextWd : base.nextWd = trail.state.sys.nextWd)
  (later : trail.state.sys.nextCookie ≤ base.nextCookie)
  (fresh : ∀ ev ∈ posted, has ev.mask IN_MOVED_TO = true →
    trail.state.sys.nextCookie ≤ ev.cookie)
include tracks agrees continues posts queue nextWd later fresh

/-- What a change leaves to show: its files, where its events come from and what they do
to the names. -/
theorem posted_tracks (files : FilesOk base)
    (inodes : ∀ watch ∈ base.watches, ∃ file ∈ base.files, file.ino = watch.ino)
    (numbers : ∀ ev ∈ posted, ev.wd < trail.state.sys.nextWd)
    (cookies : ∀ ev ∈ posted, ev.mask = movedFrom → ev.cookie < base.nextCookie)
    (larger : ∀ move ∈ trail.moves, move ∈ moves)
    (right : ∀ final, Right trail.state.sys final →
      ∃ new, Foreseen moves final posted new ∧ Right base new) :
    Tracks ⟨after, moves⟩ := by
  obtain ⟨extra, whole, grown, sources⟩ := post_all_cases posted base
  rw [queue] at whole grown
  rw [whole] at posts
  have waiting : pending after = pending trail.state ++ extra := by
    rw [pending, posts, continues.buffer, pending, List.append_assoc]
  have origin : ∀ ev ∈ pending after, ev ∈ pending trail.state ∨ ev ∈ posted ∨
      ev = overflow := by
    intro ev member
    rw [waiting] at member
    exact (List.mem_append.mp member).imp_right (sources ev)
  have unpaired : ∀ ev ∈ pending trail.state, ev.mask = movedFrom → ∀ next ∈ posted,
      ¬ Paired ev next := by
    intro ev member mask next new paired
    have old := tracks.cookies ev member mask
    have recent := fresh next new paired.1
    rw [paired.2] at recent
    omega
  refine ⟨agrees, ?_, ?_, ?_, ?_, ?_, ?_, continues.zapping, ?_⟩
  · change FilesOk after.sys
    rw [posts]
    exact files_ok_same _ _ files rfl rfl
  · change ∀ watch ∈ after.sys.watches, ∃ file ∈ after.sys.files, _
    rw [posts]
    exact inodes
  · intro ev member
    change ev.wd < after.sys.nextWd
    rw [posts]
    change ev.wd < base.nextWd
    rw [nextWd]
    rcases origin ev member with old | new | rfl
    · exact tracks.numbers ev old
    · exact numbers ev new
    · have positive := tracks.agrees.ok.positive
      change (-1 : Int) < _
      omega
  · intro ev member mask
    change ev.cookie < after.sys.nextCookie
    rw [posts]
    change ev.cookie < base.nextCookie
    rcases origin ev member with old | new | rfl
    · exact Nat.lt_of_lt_of_le (tracks.cookies ev old mask) later
    · exact cookies ev new mask
    · exact absurd mask (by decide)
  · intro hanging
    obtain ⟨idle, full⟩ := tracks.hanging (continues.hanging.symm.trans hanging)
    exact ⟨continues.idle idle, fun empty => full (continues.buffer.symm.trans empty)⟩
  · intro again ev only quiet mask next head paired
    have again := continues.firstTry.symm.trans again
    have only := continues.buffer.symm.trans only
    have quiet := continues.hanging.symm.trans quiet
    change after.sys.queue.head? = some next at head
    rw [posts] at head
    change (trail.state.sys.queue ++ extra).head? = some next at head
    cases old : trail.state.sys.queue with
    | cons one more =>
        refine tracks.second again ev only quiet mask next ?_ paired
        rw [old] at head ⊢
        exact head
    | nil =>
        have member : ev ∈ pending trail.state := by
          rw [pending, only]
          exact List.mem_append_left _ List.mem_cons_self
        rw [old] at head
        rcases sources next (List.mem_of_head? head) with new | rfl
        · exact unpaired ev member mask next new paired
        · exact absurd paired.1 (by decide)
  · change (∃ counted, TreeRace.Task.reinit counted ∈ after.tasks) ∨
      overflow ∈ pending after ∨
      ∃ final, Foreseen moves (lasting after) (pending after) final ∧ Right after.sys final
    rw [waiting]
    rcases grown with exact_ | full
    · rcases tracks.foreseen with ⟨counted, reinit⟩ | overflowed | foreseen
      · exact Or.inl ⟨counted, continues.reinit counted reinit⟩
      · exact Or.inr (Or.inl (List.mem_append_left _ overflowed))
      · obtain ⟨final, foreseen, truth⟩ :=
          foreseen_right_fewer _ _ _ _ _ continues.labels foreseen
        obtain ⟨new, next, truth'⟩ := right final truth
        refine Or.inr (Or.inr ⟨new, ?_, ?_⟩)
        · rw [exact_]
          exact foreseen_append moves _ final new _ posted unpaired
            (foreseen_moves trail.moves moves _ final _ larger foreseen) next
        · rw [posts]
          exact truth'
    · refine Or.inr (Or.inl ?_)
      rw [pending, List.append_assoc]
      exact List.mem_append_right _ full

end Posted

theorem mkdir_tracks (trail : Trail) (tracks : Tracks trail) (path : Path) (effect : Effect)
    (made : create trail.state.sys path true = some effect)
    (agrees : Agrees (trail.state.withSys (happen effect))) :
    Tracks ⟨trail.state.withSys (happen effect), trail.moves⟩ := by
  obtain ⟨ok, files, _, _, notices, vanished⟩ :=
    create_ok trail.state.sys path true effect tracks.files made
  have silent := effect_silent trail.state.sys (.create path true) effect made
  have nextCookie : effect.system.nextCookie = trail.state.sys.nextCookie := by
    unfold create at made
    split at made
    · cases made
      rfl
    · cases made
  have posts := happen_posts effect none vanished
  rw [Option.toList_none, List.flatMap_nil, List.append_nil, silent.watches, notices] at posts
  have kept : trail.state.sys.watches.filter (fun watch => some watch.ino != none) =
      trail.state.sys.watches := by simp
  rw [kept] at posts
  have posted : ∀ ev ∈ (entryNotice trail.state.sys.files path
    (IN_CREATE ||| IN_ISDIR) 0).flatMap
      (noticed trail.state.sys.watches),
      (∃ watch ∈ trail.state.sys.watches, ev.wd = watch.wd) ∧
        ev.mask = IN_CREATE ||| IN_ISDIR := by
    intro ev member
    obtain ⟨notice, listed, inside⟩ := List.mem_flatMap.mp member
    obtain ⟨watch, there, _, rfl⟩ := noticed_watch _ notice ev inside
    exact ⟨⟨watch, there, rfl⟩, entry_notice_mask _ _ _ _ notice listed⟩
  refine posted_tracks trail tracks _ trail.moves _ _ agrees (happen_continues trail tracks _)
    posts silent.queue
    silent.nextWd (Nat.le_of_eq nextCookie.symm) ?_ (files_ok_same _ _ ok rfl rfl) ?_ ?_ ?_
    (fun _ => id) ?_
  · intro ev member half
    rw [(posted ev member).2] at half
    exact absurd half (by decide)
  · intro watch member
    obtain ⟨file, inside, same⟩ := tracks.inodes watch member
    refine ⟨file, ?_, same⟩
    rw [files]
    exact List.mem_append_left _ inside
  · intro ev member
    obtain ⟨⟨watch, there, wd⟩, _⟩ := posted ev member
    rw [wd]
    exact (tracks.agrees.ok.numbers watch there).2
  · intro ev member mask
    rw [(posted ev member).2] at mask
    exact absurd mask (by decide)
  · intro final right
    refine ⟨final, foreseen_plain _ _ _ fun ev member mask => ?_, ?_⟩
    · rw [(posted ev member).2] at mask
      exact absurd mask (by decide)
    · intro wd label cached watch there same file member ino
      change file ∈ effect.system.files at member
      rw [files] at member
      rcases List.mem_append.mp member with old | new
      · exact right wd label cached watch there same file old ino
      · -- the new directory has no watch yet
        obtain ⟨owner, inside, before⟩ := tracks.inodes watch there
        have smaller := tracks.files.fresh owner inside
        rw [before, ← ino, List.mem_singleton.mp new] at smaller
        exact absurd smaller (Nat.lt_irrefl _)

section Rename
variable (trail : Trail) (old new : Path) (effect : Effect) (file : File)
  (renamed : Renamed trail.state.sys old new effect file)
  (short : ∀ other ∈ effect.system.files, other.path.length < PATH_MAX)
include renamed short

/-- The names after a rename whose two halves are queued, or the first of them, or
none while nothing below is watched. -/
theorem rename_right (final : List (Int × Path)) (right : Right trail.state.sys final)
    (base : System) (files : base.files = effect.system.files)
    (watches : ∀ watch ∈ base.watches, watch ∈ trail.state.sys.watches) :
    Right base (final.map fun entry => (entry.1, rewritten old new entry.2)) ∧
    Right base (final.filter fun entry => !covers slash old entry.2) ∧
    (watchedBelow trail.state.sys old = false → Right base final) := by
  have source : ∀ other ∈ base.files, ∃ before ∈ trail.state.sys.files,
    before.ino = other.ino ∧
      other.path = (moveFile old new before).path := by
    intro other member
    rw [files] at member
    obtain ⟨before, inside, _, rfl⟩ :=
      (mem_renamed _ old new effect file renamed other).mp member
    exact ⟨before, inside, (move_ino old new before).symm, rfl⟩
  refine ⟨?_, ?_, ?_⟩
  · intro wd path member watch there same other inside ino
    obtain ⟨⟨wd', label⟩, cached, whole⟩ := List.mem_map.mp member
    obtain ⟨rfl, rfl⟩ := Prod.mk.inj whole
    obtain ⟨before, earlier, inode, moved⟩ := source other inside
    have named :=
      right wd' label cached watch (watches watch there) same before earlier (inode.trans ino)
    have fits : other.path.length < PATH_MAX := short other (files ▸ inside)
    subst named
    rw [moved] at fits ⊢
    unfold rewritten
    by_cases below : covers slash old before.path = true
    · rw [if_pos below]
      rw [move_inside old new before ((covers_iff slash _ _).mp below)] at fits ⊢
      exact (List.take_of_length_le (Nat.le_sub_one_of_lt fits)).symm
    · rw [if_neg below, move_outside old new before fun hit =>
          below ((covers_iff slash _ _).mpr hit)]
  · intro wd label member watch there same other inside ino
    rw [List.mem_filter] at member
    obtain ⟨before, earlier, inode, moved⟩ := source other inside
    have named :=
      right wd label member.1 watch (watches watch there) same before earlier (inode.trans ino)
    subst named
    rw [moved, move_outside old new before]
    intro below
    rw [(covers_iff slash _ _).mpr below] at member
    exact absurd member.2 (by decide)
  · intro quiet wd label cached watch there same other inside ino
    obtain ⟨before, earlier, inode, moved⟩ := source other inside
    have named :=
      right wd label cached watch (watches watch there) same before earlier (inode.trans ino)
    rw [moved, move_outside old new before, named]
    intro below
    have hit : watchedBelow trail.state.sys old = true := by
      rw [watchedBelow, List.any_eq_true]
      refine ⟨before, earlier, ?_⟩
      rw [Bool.and_eq_true, covers_iff]
      refine ⟨below, ?_⟩
      cases found : watchOf trail.state.sys.watches before.ino with
      | some _ => rfl
      | none =>
          exact absurd (ino.symm.trans inode.symm) (watch_of_none _ _ found watch
            (watches watch there))
    rw [quiet] at hit
    cases hit

omit renamed short in
theorem told_watch (untold : ∀ dir ∈ trail.state.sys.files, ∀ name, slash ∉ name →
    old = join slash dir.path name → ∀ watch ∈ trail.state.sys.watches,
    watch.ino ≠ dir.ino) :
    told trail.state.sys old = false := by
  unfold told
  cases cut : split slash old with
  | none => rfl
  | some parts =>
      obtain ⟨dir, name⟩ := parts
      obtain ⟨whole, simple⟩ := split_some slash old dir name cut
      dsimp only
      cases found : lookup trail.state.sys.files dir with
      | none => rfl
      | some owner =>
          obtain ⟨member, rfl⟩ := lookup_some _ _ _ found
          cases watched : watchOf trail.state.sys.watches owner.ino with
          | none => simp [watched]
          | some watch =>
              obtain ⟨inside, same⟩ := watch_of_some _ _ _ watched
              exact absurd same (untold owner member name simple whole watch inside)

/-- The halves of the rename, as far as they are queued, do to the names what the
rename does to the files. -/
theorem rename_foreseen (ok : FilesOk trail.state.sys) (tail : List Event)
    (plain : ∀ ev ∈ tail, ev.mask ≠ movedFrom ∧ has ev.mask IN_MOVED_TO = false)
    (fine : told trail.state.sys old = true ∨ watchedBelow trail.state.sys old = false)
    (final : List (Int × Path)) (right : Right trail.state.sys final) (base : System)
    (files : base.files = effect.system.files)
    (watches : ∀ watch ∈ base.watches, watch ∈ trail.state.sys.watches) :
    let cookie := trail.state.sys.nextCookie
    let posted := (entryNotice trail.state.sys.files old movedFrom cookie).flatMap
        (noticed trail.state.sys.watches) ++
      (entryNotice trail.state.sys.files new (IN_MOVED_TO ||| IN_ISDIR) cookie).flatMap
        (noticed trail.state.sys.watches) ++ tail
    ∃ left, Foreseen (trail.moves ++ [⟨cookie, old, new⟩]) final posted left ∧
      Right base left := by
  intro cookie posted
  obtain ⟨both, first, neither⟩ :=
    rename_right trail old new effect file renamed short final right base files
      watches
  have listed : (⟨cookie, old, new⟩ : Move) ∈ trail.moves ++ [⟨cookie, old, new⟩] := by
    simp
  have named : ∀ path : Path, path.length < PATH_MAX → ∀ dir ∈ trail.state.sys.files,
    ∀ name,
      ∀ watch ∈ trail.state.sys.watches, path = join slash dir.path name →
        watch.ino = dir.ino →
      ∀ label, (watch.wd, label) ∈ final → fullPath label name = path := by
    intro path fits dir member name watch there whole same label cached
    rw [← right watch.wd label cached watch there rfl dir member same.symm, fullPath, ← whole]
    exact List.take_of_length_le (Nat.le_sub_one_of_lt fits)
  obtain ⟨inside, path⟩ := lookup_some _ _ _ renamed.found
  have oldShort : old.length < PATH_MAX := path ▸ ok.short file inside
  have newShort : new.length < PATH_MAX := (available_placed _ _ renamed.ready).1
  have target := entry_noticed trail.state.sys.files ok.paths trail.state.sys.watches new
    (IN_MOVED_TO ||| IN_ISDIR) cookie (by decide)
  have tailPlain : ∀ ev ∈ tail, ev.mask ≠ movedFrom := fun ev member => (plain ev member).1
  dsimp only [posted]
  rcases entry_noticed trail.state.sys.files ok.paths trail.state.sys.watches old movedFrom cookie
    (by decide) with ⟨none, untold⟩ | ⟨dir, member, name, watch, there, whole, _, same, one⟩
  · -- no first half: nothing below has a name to lose
    have quiet := fine.resolve_left (by simp [told_watch trail old untold])
    refine ⟨final, foreseen_plain _ _ _ fun ev member => ?_, neither quiet⟩
    rw [none, List.nil_append] at member
    rcases List.mem_append.mp member with half | last
    · rcases target with ⟨nothing, _⟩ | ⟨_, _, _, _, _, _, _, _, one⟩
      · rw [nothing] at half
        cases half
      · rw [one, List.mem_singleton] at half
        subst half
        exact (by decide : IN_MOVED_TO ||| IN_ISDIR ≠ movedFrom)
    · exact tailPlain ev last
  · have source := named old oldShort dir member name watch there whole same
    rw [one]
    rcases target with ⟨nothing, _⟩ |
      ⟨dir', member', name', watch', there', whole', _, same', one'⟩
    · refine ⟨_, ?_, first⟩
      rw [nothing, List.append_nil]
      refine .out ⟨cookie, old, new⟩ listed rfl rfl ?_ source (foreseen_plain _ _ _ tailPlain)
      intro next head paired
      have half := paired.1
      rw [(plain next (List.mem_of_head? head)).2] at half
      cases half
    · refine ⟨_, ?_, both⟩
      rw [one']
      have half : has (IN_MOVED_TO ||| IN_ISDIR) IN_MOVED_TO = true := by decide
      exact .pair ⟨cookie, old, new⟩ listed rfl rfl ⟨half, rfl⟩ source
        (named new newShort dir' member' name' watch' there' whole' same')
          (foreseen_plain _ _ _ tailPlain)

theorem rename_tracks (tracks : Tracks trail) (directory : file.isDir = true)
    (agrees : Agrees (trail.state.withSys (happen effect)))
    (fine : told trail.state.sys old = true ∨ watchedBelow trail.state.sys old = false) :
    Tracks ⟨trail.state.withSys (happen effect),
      trail.moves ++ [⟨trail.state.sys.nextCookie, old, new⟩]⟩ := by
  have posts := happen_posts effect _ renamed.vanished
  have watches : effect.system.watches = trail.state.sys.watches := by rw [renamed.system]
  rw [renamed.notices, renamed.cause, watches, directory, List.flatMap_append, List.flatMap_append,
    List.append_assoc] at posts
  generalize selves : ([⟨file.ino, IN_MOVE_SELF, 0, []⟩] : List Notice).flatMap
      (noticed trail.state.sys.watches) ++
        ((lookup trail.state.sys.files new).map File.ino).toList.flatMap
        (parting trail.state.sys.watches IN_DELETE_SELF) = tail at posts
  have tailed : ∀ ev ∈ tail, (∃ watch ∈ trail.state.sys.watches, ev.wd = watch.wd) ∧
      (ev.mask = IN_MOVE_SELF ∨ ev.mask = IN_DELETE_SELF ∨ ev.mask = IN_IGNORED) := by
    intro ev member
    rw [← selves] at member
    rcases List.mem_append.mp member with self | last
    · obtain ⟨notice, one, inside⟩ := List.mem_flatMap.mp self
      obtain rfl := List.mem_singleton.mp one
      obtain ⟨watch, there, _, rfl⟩ := noticed_watch _ _ ev inside
      exact ⟨⟨watch, there, rfl⟩, Or.inl rfl⟩
    · obtain ⟨ino, _, inside⟩ := List.mem_flatMap.mp last
      obtain ⟨watch, there, _, rfl | rfl⟩ := parting_watch _ _ _ ev inside
      · exact ⟨⟨watch, there, rfl⟩, Or.inr (Or.inl rfl)⟩
      · exact ⟨⟨watch, there, rfl⟩, Or.inr (Or.inr rfl)⟩
  have plain : ∀ ev ∈ tail, ev.mask ≠ movedFrom ∧ has ev.mask IN_MOVED_TO = false := by
    intro ev member
    rcases (tailed ev member).2 with mask | mask | mask <;> rw [mask] <;> decide
  have halves : ∀ path mask, ∀ ev ∈ (entryNotice trail.state.sys.files path mask
      trail.state.sys.nextCookie).flatMap (noticed trail.state.sys.watches),
      (∃ watch ∈ trail.state.sys.watches, ev.wd = watch.wd) ∧ ev.mask = mask ∧
        ev.cookie = trail.state.sys.nextCookie := by
    intro path mask ev member
    obtain ⟨notice, one, inside⟩ := List.mem_flatMap.mp member
    obtain ⟨watch, there, _, rfl⟩ := noticed_watch _ _ ev inside
    refine ⟨⟨watch, there, rfl⟩, entry_notice_mask _ _ _ _ notice one, ?_⟩
    unfold entryNotice at one
    split at one
    · cases one
    · rw [Option.mem_toList] at one
      obtain ⟨_, _, rfl⟩ := Option.map_eq_some_iff.mp one
      rfl
  have ok := rename_ok trail.state.sys tracks.files old new effect file renamed short
  have origin : ∀ ev ∈ (entryNotice trail.state.sys.files old movedFrom
    trail.state.sys.nextCookie).flatMap
      (noticed trail.state.sys.watches) ++
        (entryNotice trail.state.sys.files new (IN_MOVED_TO ||| IN_ISDIR)
        trail.state.sys.nextCookie).flatMap (noticed trail.state.sys.watches) ++ tail,
      (∃ watch ∈ trail.state.sys.watches, ev.wd = watch.wd) ∧
        (ev ∈ tail ∨ ev.cookie = trail.state.sys.nextCookie) := by
    intro ev member
    rcases List.mem_append.mp member with half | last
    · rcases List.mem_append.mp half with left | right
      · exact ⟨(halves _ _ ev left).1, Or.inr (halves _ _ ev left).2.2⟩
      · exact ⟨(halves _ _ ev right).1, Or.inr (halves _ _ ev right).2.2⟩
    · exact ⟨(tailed ev last).1, Or.inl last⟩
  refine posted_tracks trail tracks _ _ _ _ agrees (happen_continues trail tracks _)
    posts ?_ ?_ ?_ ?_ (files_ok_same _ _ ok rfl rfl) ?_ ?_ ?_ ?_ ?_
  · rw [renamed.system]
  · rw [renamed.system]
  · rw [renamed.system]
    exact Nat.le_succ _
  · intro ev member half
    rcases (origin ev member).2 with last | cookie
    · rw [(plain ev last).2] at half
      cases half
    · exact Nat.le_of_eq cookie.symm
  · intro watch member
    obtain ⟨there, alive⟩ := List.mem_filter.mp member
    obtain ⟨owner, inside, same⟩ := tracks.inodes watch there
    refine ⟨moveFile old new owner, ?_, (move_ino old new owner).trans same⟩
    refine (mem_renamed _ old new effect file renamed _).mpr ⟨owner, inside, ?_, rfl⟩
    rintro rfl
    rw [lookup_mem _ tracks.files.paths owner inside] at alive
    simp [same] at alive
  · intro ev member
    obtain ⟨watch, there, wd⟩ := (origin ev member).1
    rw [wd]
    exact (tracks.agrees.ok.numbers watch there).2
  · intro ev member mask
    rw [renamed.system]
    rcases (origin ev member).2 with last | cookie
    · exact absurd mask (plain ev last).1
    · exact Nat.lt_succ_of_le (Nat.le_of_eq cookie)
  · intro move member
    exact List.mem_append_left _ member
  · intro final right
    refine rename_foreseen trail old new effect file renamed short tracks.files tail
      plain fine final right _
      rfl ?_
    intro watch member
    exact List.mem_of_mem_filter member

end Rename

/-! The monitor handles an event. -/

/-- What `processNextInotifyEvent` does to the names. -/
inductive Outcome (cache : Cache) (ev : Event) (next : Option Event)
    (firstTry : Bool) (plan : Plan) : Prop where
  | rebuilt (job : plan.job = Job.reinitialize) (consumed : plan.consumed = .discard)
  | kept (plain : ev.mask ≠ movedFrom) (other : ev ≠ overflow) (consumed : plan.consumed = .one)
      (fewer : ∀ entry ∈ entries plan.cache, entry ∈ entries cache)
  | again (mask : ev.mask = movedFrom) (same : plan.cache = cache) (job : plan.job = .nothing)
      (consumed : plan.consumed = .again)
  | out (label : Path) (mask : ev.mask = movedFrom) (cached : (ev.wd, label) ∈ entries cache)
      (alone : ∀ nextEv, next = some nextEv → ¬ Paired ev nextEv)
      (second : next = none → firstTry = false) (same : plan.cache = cache)
      (job : plan.job = .zapSubtree (fullPath label ev.name)) (consumed : plan.consumed = .one)
  | moved (nextEv : Event) (label target : Path) (mask : ev.mask = movedFrom)
      (head : next = some nextEv)
      (paired : Paired ev nextEv) (cached : (ev.wd, label) ∈ entries cache)
      (cached' : (nextEv.wd, target) ∈ entries cache)
      (rewrites : plan.cache = rewriteCachedPaths cache label ev.name target nextEv.name)
      (job : plan.job = .nothing) (consumed : plan.consumed = .pair)

theorem paired_positive (ev next : Event) (shaped : Shaped next) (paired : Paired ev next) :
    1 ≤ next.wd := by
  obtain ⟨other, quiet⟩ := moved_to_quiet next shaped paired.1
  cases shaped with
  | overflow same => exact absurd same other
  | ignored mask =>
      have half := paired.1
      rw [mask] at half
      exact absurd half (by decide)
  | loss loss _ => exact absurd loss quiet
  | harmless _ positive => exact positive

section Outcome
variable (cache : Cache) (roots : RootDirPaths) (ev : Event) (next : Option Event) (firstTry : Bool)
  (plan : Plan) (planned : processNextInotifyEvent cache roots ev next firstTry = some plan)
include planned

theorem moved_outcome (mask : ev.mask = movedFrom) (positive : 1 ≤ ev.wd)
    (shaped : ∀ nextEv, next = some nextEv → Shaped nextEv) :
    Outcome cache ev next firstTry plan := by
  rcases event_slot_cases cache ev (by omega) (by rw [mask]; decide) with
    ⟨missing, _⟩ | ⟨slot, label, found, _, named, cached⟩
  · rw [process_unknown cache roots ev next firstTry missing] at planned
    cases planned
    exact .rebuilt rfl rfl
  rw [process_moved cache roots ev next firstTry slot found mask] at planned
  unfold directoryMoved movedOut rebuild at planned
  rw [named] at planned
  cases next with
  | none =>
      dsimp only at planned
      split at planned
      · cases planned
        exact .again mask rfl rfl rfl
      · next second =>
          cases planned
          exact .out label mask cached (fun _ head => nomatch head)
            (fun _ => Bool.eq_false_iff.mpr second) rfl rfl rfl
  | some nextEv =>
      dsimp only at planned
      split at planned
      · next paired =>
          have valid := paired_positive ev nextEv (shaped nextEv rfl) paired
          split at planned
          · cases planned
            exact .rebuilt rfl rfl
          · next nextSlot there =>
              obtain ⟨target, held, cached'⟩ :=
                find_watch_entry cache nextEv.wd (by omega) nextSlot there
              rw [slot_path_entry cache nextSlot _ target held] at planned
              cases planned
              exact .moved nextEv label target mask rfl paired cached cached' rfl rfl rfl
      · next unpaired =>
          cases planned
          refine .out label mask cached ?_ (fun bad => nomatch bad) rfl rfl rfl
          rintro other head paired
          cases head
          exact unpaired paired

theorem harmless_outcome (plain : ev.mask ≠ movedFrom) (clean : harmless ev.mask = true)
    (positive : 1 ≤ ev.wd) : Outcome cache ev next firstTry plan := by
  have other : ev ≠ overflow := by
    rintro rfl
    exact absurd positive (by decide)
  have skipped : ∀ plan, some ⟨cache, roots, .nothing, .one⟩ = some plan →
      Outcome cache ev next firstTry plan := by
    rintro plan ⟨⟩
    exact .kept plain other rfl fun _ => id
  have created : ∀ slot plan, directoryCreated cache roots slot ev = some plan →
      Outcome cache ev next firstTry plan := by
    rintro slot plan ⟨⟩
    exact .kept plain other rfl fun _ => id
  simp only [harmless, List.contains_iff_mem, List.mem_cons, List.not_mem_nil, or_false] at clean
  have unignored : has ev.mask IN_IGNORED = false := by
    rcases clean with mask | mask | mask | mask | mask | mask | mask <;> rw [mask] <;> decide
  rcases event_slot_cases cache ev (by omega) unignored with ⟨missing, _⟩ |
    ⟨slot, path, found, _⟩
  · rw [process_unknown cache roots ev next firstTry missing] at planned
    cases planned
    exact .rebuilt rfl rfl
  rcases clean with mask | mask | mask | mask | mask | mask | mask
  · rw [process_skipped cache roots ev next firstTry slot found (by simp [mask])] at planned
    exact skipped plan planned
  · rw [process_created cache roots ev next firstTry slot found (Or.inl mask)] at planned
    exact created slot plan planned
  · rw [process_skipped cache roots ev next firstTry slot found (by simp [mask])] at planned
    exact skipped plan planned
  · exact absurd mask plain
  · rw [process_skipped cache roots ev next firstTry slot found (by simp [mask])] at planned
    exact skipped plan planned
  · rw [process_created cache roots ev next firstTry slot found (Or.inr mask)] at planned
    exact created slot plan planned
  · rw [process_moved_self cache roots ev next firstTry slot found mask] at planned
    split at planned
    · obtain ⟨_, _, rfl⟩ := Option.map_eq_some_iff.mp planned
      exact .kept plain other rfl fun _ => id
    · exact skipped plan planned

theorem process_outcome (wellFormed : WellFormed cache) (shaped : Shaped ev)
    (nextShaped : ∀ nextEv, next = some nextEv → Shaped nextEv) :
    Outcome cache ev next firstTry plan := by
  cases shaped with
  | overflow same =>
      subst same
      rw [process_overflowed cache roots overflow next firstTry 0 rfl rfl] at planned
      cases planned
      exact .rebuilt rfl rfl
  | ignored mask =>
      have slot : eventSlot cache ev = some 0 :=
        if_neg fun both => absurd both.2 (by rw [mask]; decide)
      rw [process_skipped cache roots ev next firstTry 0 slot (Or.inl mask)] at planned
      cases planned
      refine .kept ?_ ?_ rfl fun _ => id
      · rw [mask]
        decide
      · rintro rfl
        exact absurd mask (by decide)
  | loss loss positive =>
      have plain : ev.mask ≠ movedFrom := by
        rcases loss with mask | mask <;> rw [mask] <;> decide
      have other : ev ≠ overflow := by
        rintro rfl
        exact absurd positive (by decide)
      rcases loss_plan cache roots ev next firstTry plan loss positive planned with
        ⟨_, job, consumed⟩ | ⟨slot, path, there, cleared, _, consumed⟩
      · exact .rebuilt job consumed
      · refine .kept plain other consumed fun entry member => ?_
        rw [cleared] at member
        exact ((mem_entries_clear cache wellFormed slot ev.wd path
          (by omega) there entry).mp member).1
  | harmless clean positive =>
      by_cases mask : ev.mask = movedFrom
      · exact moved_outcome cache roots ev next firstTry plan planned mask positive nextShaped
      · exact harmless_outcome cache roots ev next firstTry plan planned mask clean positive

end Outcome

theorem lasting_idle (state : State) (still : state.tasks = []) :
    lasting state = entries state.world.cache := by
  simp [lasting, still]

section Process
variable (trail : Trail) (tracks : Tracks trail) (ev : Event) (rest : List Event)
  (still : trail.state.tasks = []) (buffer : trail.state.buffer = ev :: rest)
include tracks still buffer

omit still in
theorem follow_tracks (plan : Plan) (agrees : Agrees (follow trail.state ev rest plan))
    (again : plan.consumed = .again → plan.job = .nothing)
    (foreseen : plan.job = Job.reinitialize ∨
      overflow ∈ bufferAfter ev rest plan.consumed ++ trail.state.sys.queue ∨
      ∃ final, Foreseen trail.moves (lasting (follow trail.state ev rest plan))
        (bufferAfter ev rest plan.consumed ++ trail.state.sys.queue) final ∧
        Right trail.state.sys final) :
    Tracks ⟨follow trail.state ev rest plan, trail.moves⟩ := by
  have fewer := rest_pending trail.state ev rest buffer plan
  refine ⟨agrees, tracks.files, tracks.inodes,
    fun other member => tracks.numbers other (fewer other member),
    fun other member => tracks.cookies other (fewer other member), ?_, ?_, ?_, ?_⟩
  · intro hanging
    have consumed : plan.consumed = .again := by simpa [follow] using hanging
    constructor
    · change tasksOf plan.job = []
      rw [again consumed]
      rfl
    · change bufferAfter ev rest plan.consumed ≠ []
      rw [consumed]
      exact List.cons_ne_nil _ _
  · intro bad
    cases bad
  · change Zapping plan.cache (tasksOf plan.job)
    cases plan.job with
    | nothing => exact .off fun task member => by cases member
    | watchSubtree path =>
        refine .off fun task member other => ?_
        rw [List.mem_singleton.mp member]
        rfl
    | reinitialize =>
        refine .off fun task member other => ?_
        rw [List.mem_singleton.mp member]
        rfl
    | zapSubtree path => exact .on path 0 rfl fun before bad => absurd bad (Nat.not_lt_zero before)
  · refine foreseen.imp_left fun job => ⟨true, ?_⟩
    change TreeRace.Task.reinit true ∈ tasksOf plan.job
    rw [job]
    exact List.mem_cons_self

theorem process_tracks (after : State) (taken : process trail.state = some after)
    (running : after.exited = false) (agrees : Agrees after) : Tracks ⟨after, trail.moves⟩ := by
  have before : pending trail.state = ev :: (rest ++ trail.state.sys.queue) := by
    rw [pending, buffer, List.cons_append]
  obtain ⟨first, others, _, held, reading, result, planned, rfl⟩ :=
    process_cases trail.state after taken
  obtain ⟨rfl, rfl⟩ := List.cons.inj (buffer.symm.trans held)
  obtain ⟨plan, rfl⟩ : ∃ plan, result = some plan := by
    cases result with
    | none => cases running
    | some plan => exact ⟨plan, rfl⟩
  rw [Option.elim_some] at agrees ⊢
  have shaped : ∀ nextEv, rest.head? = some nextEv → Shaped nextEv := by
    intro nextEv head
    refine tracks.agrees.shaped nextEv ?_
    rw [before]
    exact List.mem_cons_of_mem _ (List.mem_append_left _ (List.mem_of_head? head))
  have outcome := process_outcome _ _ ev _ _ plan planned tracks.agrees.wellFormed
    (tracks.agrees.shaped ev (head_pending trail.state ev rest buffer)) shaped
  have idle := lasting_idle trail.state still
  have noted : overflow ∈ pending trail.state ∨ ∃ final, Foreseen trail.moves
      (entries trail.state.world.cache) (ev :: (rest ++ trail.state.sys.queue)) final ∧
      Right trail.state.sys final := by
    rw [← idle, ← before]
    refine tracks.foreseen.resolve_left ?_
    rintro ⟨counted, bad⟩
    rw [still] at bad
    cases bad
  have overflowed : overflow ∈ pending trail.state → ev ≠ overflow →
      overflow ∈ rest ++ trail.state.sys.queue := by
    intro waiting other
    rw [before] at waiting
    exact (List.mem_cons.mp waiting).resolve_left (Ne.symm other)
  have masked : ev.mask = movedFrom → ev ≠ overflow := by
    rintro mask rfl
    exact absurd mask (by decide)
  cases outcome with
  | rebuilt job consumed =>
      exact follow_tracks trail tracks ev rest buffer plan agrees (by simp [consumed]) (Or.inl job)
  | kept plain other consumed fewer =>
      refine follow_tracks trail tracks ev rest buffer plan agrees (by simp [consumed]) (Or.inr ?_)
      rw [consumed]
      rcases noted with waiting | ⟨final, foreseen, right⟩
      · exact Or.inl (overflowed waiting other)
      · refine Or.inr ?_
        change ∃ final, Foreseen _ _ (rest ++ trail.state.sys.queue) final ∧ _
        generalize rest ++ trail.state.sys.queue = events at foreseen ⊢
        cases foreseen with
        | out _ _ mask => exact absurd mask plain
        | pair _ _ mask => exact absurd mask plain
        | other _ later =>
            refine foreseen_right_fewer _ _ _ _ _ (fun entry member => ?_) ⟨final, later, right⟩
            exact fewer entry (List.mem_of_mem_filter member)
  | again mask same job consumed =>
      refine follow_tracks trail tracks ev rest buffer plan agrees (fun _ => job) (Or.inr ?_)
      rw [consumed]
      refine noted.imp (fun waiting => by rw [before] at waiting; exact waiting) fun found => ?_
      rw [lasting_idle _ (by rw [follow, job]; rfl)]
      change ∃ final, Foreseen _ (entries plan.cache) _ final ∧ _
      rw [same]
      exact found
  | out label mask cached alone second same job consumed =>
      refine follow_tracks trail tracks ev rest buffer plan agrees (by simp [consumed]) (Or.inr ?_)
      rw [consumed]
      rcases noted with waiting | ⟨final, foreseen, right⟩
      · exact Or.inl (overflowed waiting (masked mask))
      · refine Or.inr ⟨final, ?_, right⟩
        generalize whole : rest ++ trail.state.sys.queue = events at foreseen
        cases foreseen with
        | other plain => exact absurd mask plain
        | out move _ _ _ _ source later =>
            change Foreseen _ ((entries plan.cache).filter fun entry =>
              !(tasksOf plan.job).any (zapped · entry.2)) (rest ++ _) final
            rw [whole, same, job]
            simpa [tasksOf, zapped, source label cached] using later
        | @pair _ _ _ next more move _ _ _ paired =>
            exfalso
            cases rest with
            | nil =>
                refine tracks.second (second rfl) ev buffer ?_ mask next ?_ paired
                · exact reading
                · rw [List.nil_append] at whole
                  rw [whole]
                  rfl
            | cons one others =>
                rw [List.cons_append] at whole
                exact alone one rfl ((List.cons.inj whole).1 ▸ paired)
  | moved nextEv label target mask head paired cached cached' rewrites job consumed =>
      refine follow_tracks trail tracks ev rest buffer plan agrees (by simp [consumed]) (Or.inr ?_)
      cases rest with
      | nil => cases head
      | cons one others =>
          obtain rfl : one = nextEv := Option.some.inj head
          rw [consumed]
          rcases noted with waiting | ⟨final, foreseen, right⟩
          · refine Or.inl ?_
            refine (List.mem_cons.mp (overflowed waiting (masked mask))).resolve_left ?_
            rintro rfl
            exact absurd paired.1 (by decide)
          · refine Or.inr ⟨final, ?_, right⟩
            cases foreseen with
            | other plain => exact absurd mask plain
            | out _ _ _ _ alone => exact absurd paired (alone one rfl)
            | pair move _ _ _ _ source goal later =>
                rw [lasting_idle _ (by rw [follow, job]; rfl)]
                change Foreseen _ (entries plan.cache) _ final
                rw [rewrites, entries_rewrite, source label cached, goal target cached']
                exact later

end Process

/-! The monitor walks on. -/

/-- A change of the tasks that zaps nothing more and nothing less. -/
theorem tasks_tracks (trail : Trail) (tracks : Tracks trail) (tasks : List TreeRace.Task)
    (agrees : Agrees { trail.state with tasks := tasks }) (busy : trail.state.tasks ≠ [])
    (zapping : Zapping trail.state.world.cache tasks)
    (reinit : ∀ counted, TreeRace.Task.reinit counted ∈ trail.state.tasks →
      TreeRace.Task.reinit counted ∈ tasks)
    (labels : ∀ entry ∈ lasting { trail.state with tasks := tasks },
      entry ∈ lasting trail.state) :
    Tracks ⟨{ trail.state with tasks := tasks }, trail.moves⟩ := by
  refine ⟨agrees, tracks.files, tracks.inodes, tracks.numbers, tracks.cookies, ?_,
    tracks.second, zapping, ?_⟩
  · intro hanging
    exact absurd (tracks.hanging hanging).1 busy
  · refine tracks.foreseen.imp (fun ⟨counted, member⟩ => ⟨counted, reinit counted member⟩)
      (Or.imp_right ?_)
    exact foreseen_right_fewer _ _ _ _ _ labels

/-- The first tasks are left out; they neither clear slots nor rebuild the cache. -/
theorem dropped_tracks (trail : Trail) (tracks : Tracks trail) (dropped rest : List TreeRace.Task)
    (whole : trail.state.tasks = dropped ++ rest) (some : dropped ≠ [])
    (quiet : ∀ task ∈ dropped, ∀ path, zapped task path = false)
    (plain : ∀ counted, TreeRace.Task.reinit counted ∉ dropped)
    (agrees : Agrees { trail.state with tasks := rest }) :
    Tracks ⟨{ trail.state with tasks := rest }, trail.moves⟩ := by
  refine tasks_tracks trail tracks rest agrees ?_ ?_ ?_ ?_
  · rw [whole]
    exact List.append_ne_nil_of_left_ne_nil some rest
  · cases tracks.zapping with
    | off none => exact .off fun task member => none task (whole ▸ List.mem_append_right _ member)
    | on path index alone passed =>
        -- only `zapSubtree` itself could be left out
        obtain ⟨task, member⟩ := List.exists_mem_of_ne_nil dropped some
        have same : task = .zap path index true := by
          have listed : task ∈ trail.state.tasks := whole ▸ List.mem_append_left _ member
          rwa [alone, List.mem_singleton] at listed
        have miss : zapped task path = false := quiet task member path
        rw [same, zapped, (covers_iff slash path path).mpr (below_refl slash path)] at miss
        cases miss
  · intro counted member
    rw [whole] at member
    exact (List.mem_append.mp member).resolve_left (plain counted)
  · intro entry member
    obtain ⟨cached, alive⟩ := List.mem_filter.mp member
    refine List.mem_filter.mpr ⟨cached, ?_⟩
    rw [Bool.not_eq_true', List.any_eq_false] at alive ⊢
    intro task listed
    rw [whole] at listed
    rcases List.mem_append.mp listed with out | left
    · rw [quiet task out]
      exact Bool.false_ne_true
    · exact alive task left

section Visit
variable (trail : Trail) (tracks : Tracks trail) (refuse : Bool) (file : File)
  (found : lookup trail.state.sys.files file.path = some file) (directory : file.isDir = true)
  (rest : List TreeRace.Task) (tasks : trail.state.tasks = .visit file.path :: rest)
  (world : World System)
  (walked : traverseTree (kernel refuse) trail.state.world file.path = some world)
include tracks found directory tasks walked

omit walked in
/-- The new name is right, and no queued rename touches it. -/
theorem visit_foreseen (grown : Grown trail.state.world world file)
    (fine : gains trail.state.sys file.path = false ∨ ∀ move ∈ trail.moves,
      queued trail.state move = true → covers slash move.old file.path = false)
    (foreseen : ∃ final, Foreseen trail.moves (lasting trail.state) (pending trail.state)
      final ∧
      Right trail.state.sys final) :
    ∃ final, Foreseen trail.moves
      (lasting { trail.state with world := world, tasks := .list file.path :: rest })
        (pending trail.state)
      final ∧ Right world.state final := by
  obtain ⟨final, foreseen, right⟩ := foreseen
  have files := grown.rest.2.1
  have same : ∀ path, (TreeRace.Task.list file.path :: rest).any (zapped · path) =
      trail.state.tasks.any (zapped · path) := by
    intro path
    rw [tasks]
    rfl
  have member : file ∈ trail.state.sys.files := (lookup_some _ _ _ found).1
  have old : Right world.state final := by
    intro wd path listed watch there number one inside ino
    rw [files] at inside
    rcases grown.origin watch there with ⟨before, earlier, wds, inos⟩ | ⟨_, fresh⟩
    · exact right wd path listed before earlier (wds.trans number) one inside (ino.trans inos.symm)
    · -- a new descriptor has no old name
      obtain ⟨label, cached⟩ := foreseen_origin _ _ _ _ foreseen wd path listed
      exact absurd (List.mem_map.mpr ⟨_, List.mem_of_mem_filter cached, number.symm⟩) fresh
  have kept : ∀ entry, entry ∈
      lasting { trail.state with world := world, tasks := .list file.path :: rest } →
      entry ∈ entries trail.state.world.cache → entry ∈ lasting trail.state := by
    intro entry later earlier
    obtain ⟨_, alive⟩ := List.mem_filter.mp later
    refine List.mem_filter.mpr ⟨earlier, ?_⟩
    rw [← same]
    exact alive
  by_cases every : ∀ entry ∈ entries world.cache, entry ∈ entries trail.state.world.cache
  · exact foreseen_right_fewer _ _ _ _ _
      (fun entry later => kept entry later (every entry (List.mem_of_mem_filter later)))
        ⟨final, foreseen, old⟩
  · have unwatched : watchOf trail.state.sys.watches file.ino = none := by
      obtain ⟨⟨wd, path⟩, there, new⟩ := not_forall₂.mp every
      exact (grown.fresh wd path there new).2
    have free := fine.resolve_left (by simp [gains, found, directory, unwatched])
    obtain ⟨more, added, origin⟩ :=
      foreseen_added _ _ _ _ foreseen trail.state.sys.nextWd file.path
        (fun ev waiting => Int.ne_of_lt (tracks.numbers ev waiting)) (by
          rintro move listed ⟨ev, waiting, mask, cookie⟩ ⟨next, waiting', half, cookie'⟩
          refine free move listed ?_
          rw [queued, Bool.and_eq_true, List.any_eq_true, List.any_eq_true]
          exact ⟨⟨ev, waiting, by simp [mask, cookie]⟩,
            ⟨next, waiting', by simp [half, cookie']⟩⟩)
    refine foreseen_right_fewer _ _ _ _ _ (fun entry later => ?_) ⟨more, added, ?_⟩
    · obtain ⟨wd, path⟩ := entry
      have there := List.mem_of_mem_filter later
      by_cases earlier : (wd, path) ∈ entries trail.state.world.cache
      · exact List.mem_cons_of_mem _ (kept (wd, path) later earlier)
      · obtain ⟨rfl, _⟩ := grown.fresh wd path there earlier
        rcases grown.added _ path there with bad | ⟨rfl, _⟩
        · exact absurd bad earlier
        · exact List.mem_cons_self
    · intro wd path listed watch there number one inside ino
      rcases origin (wd, path) listed with new | earlier
      · obtain ⟨rfl, rfl⟩ := Prod.mk.inj new
        rw [files] at inside
        rcases grown.origin watch there with ⟨before, earlier, wds, _⟩ | ⟨inos, _⟩
        · have below := (tracks.agrees.ok.numbers before earlier).2
          rw [wds, number] at below
          exact absurd below (Int.lt_irrefl _)
        · rw [List.inj_on_of_nodup_map tracks.files.inodes inside member (ino.trans inos)]
      · exact old wd path earlier watch there number one inside ino

theorem visit_tracks
    (agrees : Agrees { trail.state with world := world, tasks := .list file.path :: rest })
    (fine : gains trail.state.sys file.path = false ∨ ∀ move ∈ trail.moves,
      queued trail.state move = true → covers slash move.old file.path = false) :
    Tracks ⟨{ trail.state with world := world, tasks := .list file.path :: rest },
      trail.moves⟩ := by
  have grown := visited_grown refuse trail.state tracks.agrees file found world walked
  obtain ⟨_, files, nextIno, queue, _, nextCookie, nextWd⟩ := grown.rest
  have waiting : pending { trail.state with world := world, tasks := .list file.path :: rest } =
      pending trail.state := by
    change trail.state.buffer ++ world.state.queue = _
    rw [queue, pending]
  have zapping : Zapping world.cache (.list file.path :: rest) := by
    cases tracks.zapping with
    | off none =>
        refine .off fun task member => ?_
        rcases List.mem_cons.mp member with rfl | later
        · exact fun _ => rfl
        · exact none task (tasks ▸ List.mem_cons_of_mem _ later)
    | on path index alone => exact absurd (tasks.symm.trans alone) (by simp)
  refine ⟨agrees, ?_, ?_, ?_, ?_, ?_, ?_, zapping, ?_⟩
  · exact files_ok_same _ _ tracks.files files nextIno
  · intro watch there
    change ∃ one ∈ world.state.files, _
    rw [files]
    rcases grown.origin watch there with ⟨before, earlier, _, ino⟩ | ⟨ino, _⟩
    · rw [← ino]
      exact tracks.inodes before earlier
    · exact ⟨file, (lookup_some _ _ _ found).1, ino.symm⟩
  · intro ev member
    rw [waiting] at member
    exact Int.lt_of_lt_of_le (tracks.numbers ev member) nextWd
  · intro ev member mask
    rw [waiting] at member
    change ev.cookie < world.state.nextCookie
    rw [nextCookie]
    exact tracks.cookies ev member mask
  · intro hanging
    have idle := (tracks.hanging hanging).1
    rw [tasks] at idle
    cases idle
  · change _ → ∀ ev, _ → _ → _ → ∀ next, world.state.queue.head? = some next → _
    rw [queue]
    exact tracks.second
  · rw [waiting]
    change (∃ counted, TreeRace.Task.reinit counted ∈ TreeRace.Task.list file.path :: rest) ∨
      _
    refine tracks.foreseen.imp ?_ (Or.imp_right ?_)
    · rintro ⟨counted, member⟩
      rw [tasks] at member
      exact ⟨counted, List.mem_cons_of_mem _ ((List.mem_cons.mp member).resolve_left (by simp))⟩
    · intro foreseen
      exact visit_foreseen trail tracks file found directory rest tasks world grown fine foreseen

end Visit

section Zap
variable (trail : Trail) (tracks : Tracks trail) (path : Path) (index : Nat)
  (tasks : trail.state.tasks = [.zap path index true])
  (passed : ∀ before < index, ∀ slot, trail.state.world.cache[before]? = some slot →
    0 ≤ slot.wd →
    covers slash path slot.path = false)
include tracks tasks passed

theorem zap_done_tracks (agrees : Agrees { trail.state with tasks := [] })
    (done : trail.state.world.cache.length ≤ index) :
    Tracks ⟨{ trail.state with tasks := [] }, trail.moves⟩ := by
  refine tasks_tracks trail tracks [] agrees (by simp [tasks]) (.off fun task member =>
    by cases member) ?_ ?_
  · intro counted member
    rw [tasks] at member
    simp at member
  · rintro ⟨wd, label⟩ member
    have cached : (wd, label) ∈ entries trail.state.world.cache := List.mem_of_mem_filter member
    obtain ⟨valid, there⟩ := (mem_entries _ wd label).mp cached
    obtain ⟨before, held⟩ := List.getElem?_of_mem there
    have inside : before < index :=
      Nat.lt_of_lt_of_le (List.getElem?_eq_some_iff.mp held).1 done
    refine List.mem_filter.mpr ⟨cached, ?_⟩
    simp [tasks, zapped, passed before inside _ held valid]

omit tracks tasks in
/-- The slot is passed: it is unused, lies elsewhere or has been cleared. -/
theorem zap_passed (cache : Cache)
    (same : ∀ before < index, ∀ slot, cache[before]? = some slot → 0 ≤ slot.wd →
      trail.state.world.cache[before]? = some slot)
    (here : ∀ slot, cache[index]? = some slot → 0 ≤ slot.wd →
      covers slash path slot.path = false) :
    Zapping cache [.zap path (index + 1) true] := by
  refine .on path (index + 1) rfl fun before inside slot there valid => ?_
  rcases Nat.lt_succ_iff_lt_or_eq.mp inside with earlier | rfl
  · exact passed before earlier slot (same before earlier slot there valid) valid
  · exact here slot there valid

theorem zap_slot_tracks (refuse : Bool) (world : World System)
    (outcome : zapSlot (kernel refuse) path trail.state.world index = (true, world))
    (agrees : Agrees { trail.state with world := world, tasks := [.zap path (index + 1) true] }) :
    Tracks ⟨{ trail.state with world := world, tasks := [.zap path (index + 1) true] },
      trail.moves⟩ := by
  have cases := zap_slot_cases (kernel refuse) path trail.state.world index
  rw [outcome] at cases
  cases cases with
  | skipped other =>
      refine tasks_tracks trail tracks _ agrees (by simp [tasks]) ?_ ?_ ?_
      · refine zap_passed trail path index passed _ (fun _ _ _ there _ => there) ?_
        intro slot there valid
        rw [List.getD_eq_getElem?_getD, there] at other
        exact Bool.eq_false_iff.mpr fun hit => other ⟨valid, hit⟩
      · intro counted member
        rw [tasks] at member
        simp at member
      · intro entry member
        rw [lasting, tasks]
        exact member
  | removed slot calls there valid _ done =>
      obtain ⟨wd, label⟩ := slot
      have removed := rm_done refuse trail.state.world.state wd done
      have clear := mem_entries_clear _ tracks.agrees.wellFormed index wd label valid there
      have kept : ∀ watch ∈ trail.state.sys.watches.filter (·.wd != wd),
          watch ∈ trail.state.sys.watches :=
        fun watch member => List.mem_of_mem_filter member
      have listed : wd ∈ descriptors trail.state.world.cache :=
        List.mem_map.mpr ⟨_, (mem_entries _ wd label).mpr ⟨valid, List.mem_of_getElem? there⟩,
          rfl⟩
      refine posted_tracks trail tracks _ trail.moves [⟨wd, IN_IGNORED, 0, []⟩]
        { trail.state.sys with watches := trail.state.sys.watches.filter (·.wd != wd) } agrees
        ⟨rfl, rfl, rfl, ?_, ?_, ?_, ?_⟩ removed rfl rfl (Nat.le_refl _) ?_
        (files_ok_same _ _ tracks.files rfl rfl)
        (fun watch member => tracks.inodes watch (kept watch member)) ?_ ?_ (fun _ => id) ?_
      · intro idle
        rw [tasks] at idle
        cases idle
      · intro counted member
        rw [tasks] at member
        simp at member
      · intro entry member
        obtain ⟨left, alive⟩ := List.mem_filter.mp member
        refine List.mem_filter.mpr ⟨((clear entry).mp left).1, ?_⟩
        rw [tasks]
        exact alive
      · refine zap_passed trail path index passed _ ?_ ?_
        · intro before inside slot held _
          rw [markCacheSlotEmpty, List.getElem?_set_ne (Nat.ne_of_gt inside)] at held
          exact held
        · intro slot held used
          rw [markCacheSlotEmpty, List.getElem?_set_self
              (List.getElem?_eq_some_iff.mp there).1] at held
          cases held
          exact absurd used (by decide)
      · intro ev member half
        rw [List.mem_singleton.mp member] at half
        exact absurd half (by simp [has, IN_IGNORED, IN_MOVED_TO])
      · intro ev member
        rw [List.mem_singleton.mp member]
        exact (tracks.agrees.numbers wd listed).2
      · intro ev member mask
        rw [List.mem_singleton.mp member] at mask
        exact absurd mask (by simp [movedFrom, IN_IGNORED, IN_MOVED_FROM, IN_ISDIR])
      · intro final right
        refine ⟨final, foreseen_plain _ _ _ fun ev member => ?_, ?_⟩
        · rw [List.mem_singleton.mp member]
          simp [movedFrom, IN_IGNORED, IN_MOVED_FROM, IN_ISDIR]
        · intro number name cached watch there
          exact right number name cached watch (kept watch there)

omit passed in
/-- A failed `inotify_rm_watch` makes the program start again. -/
theorem zap_failed_tracks (refuse : Bool) (world : World System)
    (outcome : zapSlot (kernel refuse) path trail.state.world index = (false, world))
    (agrees : Agrees { trail.state with world := world, tasks := [.reinit true] }) :
    Tracks ⟨{ trail.state with world := world, tasks := [.reinit true] }, trail.moves⟩ := by
  have cases := zap_slot_cases (kernel refuse) path trail.state.world index
  rw [outcome] at cases
  cases cases with
  | failed slot calls there valid _ failed =>
      have same := rm_failed refuse trail.state.world.state slot.wd failed
      rw [same] at agrees ⊢
      refine ⟨agrees, tracks.files, tracks.inodes, tracks.numbers, tracks.cookies,
        ?_, tracks.second, ?_, Or.inl ⟨true, List.mem_cons_self⟩⟩
      · intro hanging
        have idle := (tracks.hanging hanging).1
        rw [tasks] at idle
        cases idle
      · refine .off fun task member other => ?_
        rw [List.mem_singleton.mp member]
        rfl

end Zap

theorem reinit_tracks (trail : Trail) (tracks : Tracks trail) (busy : trail.state.tasks ≠ [])
    (counted : Bool) (agrees : Agrees (reinit trail.state counted)) :
    Tracks ⟨reinit trail.state counted, trail.moves⟩ := by
  have empty : ∀ ev, ev ∉ pending (reinit trail.state counted) :=
    fun ev member => by cases member
  refine ⟨agrees, files_ok_same _ _ tracks.files rfl rfl, ?_,
    fun ev member => absurd member (empty ev), fun ev member => absurd member (empty ev), ?_, ?_,
    ?_, Or.inr (Or.inr ⟨[], .done [], ?_⟩)⟩
  · intro watch member
    cases member
  · intro hanging
    exact absurd (tracks.hanging hanging).1 busy
  · intro _ ev only
    cases only
  · refine .off fun task member other => ?_
    obtain rfl | ⟨root, _, rfl⟩ := mem_walks _ task member <;> rfl
  · intro wd path member
    cases member

theorem work_tracks (trail : Trail) (tracks : Tracks trail) (refuse : Bool) (after : State)
    (fine : careful (.work refuse) trail = true) (taken : work refuse trail.state = some after)
    (running : after.exited = false) (agrees : Agrees after) : Tracks ⟨after, trail.moves⟩ := by
  unfold work at taken
  split at taken
  · cases taken
  split at taken
  · cases taken
  · next path rest tasks =>
      cases taken
      unfold visit at running agrees ⊢
      by_cases present : isDirectory trail.state.sys.files path = true
      · rw [if_pos present] at running agrees ⊢
        cases walked : traverseTree (kernel refuse) trail.state.world path with
        | none =>
            rw [walked] at running
            cases running
        | some world =>
            rw [walked] at agrees
            obtain ⟨file, member, rfl, directory⟩ :=
              (is_directory_iff _ tracks.files.paths path).mp present
            refine visit_tracks trail tracks refuse file
              (lookup_mem _ tracks.files.paths file member) directory
              rest tasks world walked agrees ?_
            rw [careful, tasks] at fine
            simpa [Bool.or_eq_true, List.all_eq_true, imp_iff_not_or] using fine
      · rw [if_neg present] at agrees ⊢
        exact dropped_tracks trail tracks [.visit path] rest tasks (List.cons_ne_nil _ _)
          (by simp [zapped]) (by simp) agrees
  · next path rest tasks =>
      cases taken
      have none : ∀ task ∈ trail.state.tasks, ∀ path, zapped task path = false := by
        cases tracks.zapping with
        | off none => exact none
        | on other index alone => exact absurd (tasks.symm.trans alone) (by simp)
      have quiet :
        ∀ task ∈ (subdirectories trail.state.sys.files path).map TreeRace.Task.visit ++ rest,
          ∀ path, zapped task path = false := by
        intro task member
        rcases List.mem_append.mp member with new | later
        · obtain ⟨_, _, rfl⟩ := List.mem_map.mp new
          exact fun _ => rfl
        · exact none task (tasks ▸ List.mem_cons_of_mem _ later)
      refine tasks_tracks trail tracks _ agrees (by simp [tasks]) (.off quiet) ?_ ?_
      · intro counted member
        rw [tasks] at member
        exact List.mem_append_right _ (by simpa using member)
      · intro entry member
        refine List.mem_filter.mpr ⟨List.mem_of_mem_filter member, ?_⟩
        rw [Bool.not_eq_true', List.any_eq_false]
        intro task listed
        rw [none task listed]
        exact Bool.false_ne_true
  · next path index strict rest tasks =>
      cases taken
      cases tracks.zapping with
      | off none =>
          have miss := none (.zap path index strict) (tasks ▸ List.mem_cons_self) path
          exact absurd ((covers_iff slash path path).mpr (below_refl slash path))
            (by simpa [zapped] using miss)
      | on other number alone passed =>
          obtain ⟨same, rfl⟩ := List.cons.inj (tasks.symm.trans alone)
          cases same
          unfold zap at agrees ⊢
          by_cases inside : index < trail.state.world.cache.length
          · rw [if_pos inside] at agrees ⊢
            cases outcome : zapSlot (kernel refuse) path trail.state.world index with
            | mk done world =>
                rw [outcome] at agrees
                cases done with
                | true =>
                    exact zap_slot_tracks trail tracks path index alone passed refuse
                      world outcome agrees
                | false =>
                    exact zap_failed_tracks trail tracks path index alone refuse
                      world outcome agrees
          · rw [if_neg inside] at agrees ⊢
            exact zap_done_tracks trail tracks path index alone passed agrees (Nat.not_lt.mp inside)
  · next counted rest tasks =>
      cases taken
      exact reinit_tracks trail tracks (by simp [tasks]) counted agrees
  · next rest tasks =>
      cases taken
      exact dropped_tracks trail tracks [.next] rest tasks (List.cons_ne_nil _ _) (by simp [zapped])
        (by simp) agrees

theorem give_up_tracks (trail : Trail) (tracks : Tracks trail) (after : State)
    (taken : giveUp trail.state = some after) (agrees : Agrees after) :
    Tracks ⟨after, trail.moves⟩ := by
  obtain ⟨_, rfl, whole, walk, some⟩ := give_up_cases trail.state after taken
  refine dropped_tracks trail tracks _ _ whole some ?_ ?_ agrees
  · intro task member path
    have visiting := walk task member
    cases task with
    | zap pn index strict => cases visiting
    | visit _ | list _ | reinit _ | next => rfl
  · intro counted member
    cases walk _ member

/-! Whole runs. -/

/-- Reading only moves events from the queue to the buffer. -/
theorem read_tracks (trail : Trail) (tracks : Tracks trail) (after : State) (queue : List Event)
    (agrees : Agrees after) (sys : after.sys = { trail.state.sys with queue := queue })
    (same : after.world.cache = trail.state.world.cache ∧ after.tasks = trail.state.tasks)
    (events : pending after = pending trail.state) (hanging : after.hanging = false)
    (second : after.firstTry = false → ∀ ev, after.buffer = [ev] →
      after.sys.queue.head? = none) :
    Tracks ⟨after, trail.moves⟩ := by
  obtain ⟨cache, tasks⟩ := same
  have labels : lasting after = lasting trail.state := by rw [lasting, cache, tasks, lasting]
  refine ⟨agrees, ?_, ?_, ?_, ?_, ?_, ?_, ?_, ?_⟩
  · change FilesOk after.sys
    rw [sys]
    exact files_ok_same _ _ tracks.files rfl rfl
  · change ∀ watch ∈ after.sys.watches, ∃ file ∈ after.sys.files, _
    rw [sys]
    exact tracks.inodes
  · change ∀ ev ∈ pending after, ev.wd < after.sys.nextWd
    rw [events, sys]
    exact tracks.numbers
  · change ∀ ev ∈ pending after, _ → ev.cookie < after.sys.nextCookie
    rw [events, sys]
    exact tracks.cookies
  · intro bad
    exact absurd (hanging.symm.trans bad) Bool.false_ne_true
  · intro again ev only _ _ next head
    rw [second again ev only] at head
    cases head
  · change Zapping after.world.cache after.tasks
    rw [cache, tasks]
    exact tracks.zapping
  · change (∃ counted, _ ∈ after.tasks) ∨ overflow ∈ pending after ∨
      ∃ final, Foreseen trail.moves (lasting after) (pending after) final ∧
        Right after.sys final
    rw [events, tasks, labels, sys]
    exact tracks.foreseen

/-- As long as the program runs. -/
def Followed (trail : Trail) : Prop := trail.state.exited = false → Tracks trail

theorem start_followed (trail : Trail) (started : Started trail) : Followed trail := by
  intro _
  obtain ⟨roots, sys, ok, late, rfl⟩ := started
  have empty : ∀ ev, ev ∉ pending (start roots sys) := fun ev member => by cases member
  refine ⟨start_agrees roots sys late, files_ok_same _ _ ok rfl rfl, ?_,
    fun ev member => absurd member (empty ev), fun ev member => absurd member (empty ev),
    ?_, ?_, ?_, Or.inr (Or.inr ⟨[], .done [], ?_⟩)⟩
  · intro watch member
    cases member
  · intro hanging
    cases hanging
  · intro again
    cases again
  · refine .off fun task member other => ?_
    obtain rfl | ⟨root, _, rfl⟩ := mem_walks _ task member <;> rfl
  · intro wd path member
    cases member

def carefully (choice : Choice) (trail : Trail) : Bool :=
  allowed choice trail && careful choice trail

theorem step_followed (choice : Choice) (before after : Trail) (followed : Followed before)
    (moved : Transition.restrict carefully advance choice before = some after) :
    Followed after := by
  intro running
  obtain ⟨fine, advanced⟩ := Transition.restrict_some moved
  rw [carefully, Bool.and_eq_true] at fine
  obtain ⟨permitted, cautious⟩ := fine
  obtain ⟨state, taken, rfl⟩ := Option.map_eq_some_iff.mp advanced
  have tracks := followed (exited_stays choice before.state state taken running)
  have agrees : Agrees state :=
    step_running choice before.state state (fun _ => tracks.agrees) taken running
  cases choice with
  | happen op =>
      obtain ⟨effect, made, rfl⟩ := Option.map_eq_some_iff.mp taken
      cases op with
      | create path isDir =>
          cases isDir with
          | true => exact mkdir_tracks before tracks path effect made agrees
          | false => cases permitted
      | remove path isDir => cases permitted
      | unmount path => cases permitted
      | rename old new =>
          obtain ⟨file, renamed⟩ :=
            rename_cases before.state.sys tracks.files old new effect made
          rw [allowed, Bool.and_eq_true, List.all_eq_true] at permitted
          obtain ⟨directory, short⟩ := permitted
          refine rename_tracks before old new effect file renamed ?_ tracks ?_ agrees ?_
          · intro other member
            obtain ⟨source, inside, _, rfl⟩ :=
              (mem_renamed _ old new effect file renamed other).mp member
            exact of_decide_eq_true (short source inside)
          · rw [isDirectory, renamed.found] at directory
            exact directory
          · simpa [careful, Bool.or_eq_true] using cautious
  | begin op => cases permitted
  | notify index => cases permitted
  | command command => cases permitted
  | read amount =>
      have taken : TreeRace.read before.state amount = some state := taken
      unfold TreeRace.read at taken
      split at taken
      · next ready =>
          cases taken
          obtain ⟨quiet, _⟩ := ready
          unfold idle at quiet
          simp only [Bool.and_eq_true, List.isEmpty_iff, Bool.not_eq_true'] at quiet
          refine read_tracks before tracks _ _ agrees rfl ⟨rfl, rfl⟩ ?_ quiet.1.2
            (fun bad => nomatch bad)
          simp [pending, State.sys, State.withSys, quiet.1.1.2]
      · cases taken
  | reread amount =>
      have taken : reread before.state amount = some state := taken
      unfold reread at taken
      split at taken
      · next ready =>
          cases taken
          refine read_tracks before tracks _ _ agrees rfl ⟨rfl, rfl⟩ ?_ rfl ?_
          · simp [pending, State.sys, State.withSys]
          · -- a single event is left only if the queue was empty
            intro _ ev only
            obtain ⟨_, full⟩ := tracks.hanging ready.1
            change before.state.buffer ++ before.state.sys.queue.take (amount + 1) = [ev] at only
            change (before.state.sys.queue.drop (amount + 1)).head? = none
            cases held : before.state.buffer with
            | nil => exact absurd held full
            | cons first others =>
                rw [held, List.cons_append] at only
                have none := (List.append_eq_nil_iff.mp (List.cons.inj only).2).2
                rw [List.take_eq_nil_iff] at none
                rw [none.resolve_left (Nat.succ_ne_zero _)]
                rfl
      · cases taken
  | process =>
      obtain ⟨ev, rest, still, buffer, _⟩ := process_cases before.state state taken
      exact process_tracks before tracks ev rest still buffer state taken running agrees
  | work refuse => exact work_tracks before tracks refuse state cautious taken running agrees
  | giveUp => exact give_up_tracks before tracks state taken agrees

/-- In every run whose steps are careful, whenever all events are handled and no walk
is under way, every used slot names the directory that its descriptor watches. -/
theorem careful_names_are_right (trail : Trail)
    (reached : Transition.Reachable Started (Transition.restrict carefully advance) trail)
    (running : trail.state.exited = false) (quiet : pending trail.state = [])
    (still : trail.state.tasks = []) (wd : Int) (path : Path)
    (cached : (wd, path) ∈ entries trail.state.world.cache) :
    ∃ watch ∈ trail.state.sys.watches, ∃ file ∈ trail.state.sys.files,
      watch.wd = wd ∧ watch.ino = file.ino ∧ file.path = path := by
  have tracks := Transition.reachable_invariant start_followed step_followed reached running
  have known := tracks.agrees.known wd (List.mem_map.mpr ⟨_, cached, rfl⟩)
  have live : ∃ watch ∈ trail.state.sys.watches, watch.wd = wd := by
    refine known.resolve_right ?_
    rintro (⟨counted, bad⟩ | ⟨ev, bad, _⟩)
    · rw [still] at bad
      cases bad
    · rw [quiet] at bad
      cases bad
  obtain ⟨watch, there, number⟩ := live
  obtain ⟨file, member, ino⟩ := tracks.inodes watch there
  refine ⟨watch, there, file, member, number, ino.symm, ?_⟩
  rcases tracks.foreseen with ⟨counted, bad⟩ | bad | ⟨final, foreseen, right⟩
  · rw [still] at bad
    cases bad
  · rw [quiet] at bad
    cases bad
  · rw [quiet, lasting_idle _ still] at foreseen
    cases foreseen
    exact right wd path cached watch there number file member ino

-- The monitor of "a" handles the creation of "a/x" and follows its renaming to "a/y".
theorem renamed_directory_is_right :
    let sys : System := ⟨[⟨[97], 0, true⟩], 1, [], 1, 0, [], [], none⟩
    let x : Path := [97, 47, 120]
    let y : Path := [97, 47, 121]
    ∃ trail, Transition.replay (Transition.restrict carefully advance) [.work false, .work false,
        .happen (.create x true), .read 0, .process, .work false, .work false,
        .happen (.rename x y), .read 0, .process, .reread 0,
        .process] ⟨start [[97]] sys, []⟩ = some trail ∧
      entries trail.state.world.cache = [(1, [97]), (2, y)] ∧
      ∃ watch ∈ trail.state.sys.watches, ∃ file ∈ trail.state.sys.files,
        watch.wd = 2 ∧ watch.ino = file.ino ∧ file.path = y := by
  intro sys x y
  have ran : (Transition.replay (Transition.restrict carefully advance) [.work false, .work false,
      .happen (.create x true), .read 0, .process, .work false, .work false, .happen (.rename x y),
      .read 0, .process, .reread 0, .process] ⟨start [[97]] sys, []⟩).any (fun trail =>
        decide (trail.state.exited = false ∧ pending trail.state = [] ∧
          trail.state.tasks = [] ∧
          entries trail.state.world.cache = [(1, [97]), (2, y)])) = true := by decide +kernel
  obtain ⟨trail, replayed, facts⟩ := (Option.any_eq_true _ _).mp ran
  obtain ⟨running, quiet, still, cached⟩ := of_decide_eq_true facts
  have ok : FilesOk sys := by
    refine ⟨by simp [sys], by simp [sys], by simp [sys], ?_, by simp [sys, PATH_MAX]⟩
    intro file member
    obtain rfl := List.mem_singleton.mp member
    exact Or.inl (by simp [Simple, slash])
  have started : Started ⟨start [[97]] sys, []⟩ := ⟨[[97]], sys, ok, rfl, rfl⟩
  have reached := Transition.replay_reachable _ (.start started :
    Transition.Reachable Started (Transition.restrict carefully advance)
      ⟨start [[97]] sys, []⟩) replayed
  exact ⟨trail, replayed, cached,
    careful_names_are_right trail reached running quiet still 2 y (by rw [cached]; simp)⟩

-- The directory "a/x" is made, renamed to "a/y" and made again before the monitor of
-- "a" handles the first creation. It watches the second "a/x", takes it for the
-- renamed directory and never notices: the cache is not rebuilt. In the second run
-- "a/c", with "a/c/k" in it, goes into "a/d" before that one is watched, so that its
-- watch is dropped but the new one of "a/d/c/k" is not; the later name "a/g" is lost.
theorem reused_name_is_wrong :
    let sys : System := ⟨[⟨[97], 0, true⟩], 1, [], 1, 0, [], [], none⟩
    let x : Path := [97, 47, 120]
    let y : Path := [97, 47, 121]
    let c : Path := [97, 47, 99]
    let d : Path := [97, 47, 100]
    let g : Path := [97, 47, 103]
    let silent (trail : Trail) : Prop :=
      trail.state.exited = false ∧ trail.state.reinitCnt = 0 ∧
        pending trail.state = [] ∧ trail.state.tasks = []
    let watched (trail : Trail) (wd : Int) (path : Path) : Prop :=
      ∃ watch ∈ trail.state.sys.watches,
        watch.wd = wd ∧ ∃ file ∈ trail.state.sys.files,
          file.ino = watch.ino ∧ file.path = path
    (∃ trail, Transition.replay (Transition.restrict allowed advance) [.work false, .work false,
        .happen (.create x true), .happen (.rename x y), .happen (.create x true),
        .read 3, .process, .work false, .work false, .process, .process, .work false,
        .work false] ⟨start [[97]] sys, []⟩ = some trail ∧ silent trail ∧
        (2, y) ∈ entries trail.state.world.cache ∧
      watched trail 2 x ∧ ¬ watched trail 2 y) ∧
    ∃ trail, Transition.replay (Transition.restrict allowed advance) (([.work false, .work false,
        .happen (.create c true), .read 0, .process, .work false, .work false,
        .happen (.create d true), .happen (.create (c ++ [47, 107]) true),
        .happen (.rename c (d ++ [47, 99])), .read 2, .process, .work false, .work false,
        .work false, .work false, .work false, .work false, .process, .work false, .process,
        .reread 0, .process] : List Choice) ++ List.replicate 201 (.work false) ++ ([.read 0,
        .process, .happen (.rename (d ++ [47, 99, 47, 107]) g), .read 0, .process, .work false,
        .work false] : List Choice))
          ⟨start [[97]] sys, []⟩ = some trail ∧ silent trail ∧
      (4, d ++ [47, 99, 47, 107]) ∈ entries trail.state.world.cache ∧ watched trail 4 g ∧
      ¬ watched trail 4 (d ++ [47, 99, 47, 107]) := by
  intro sys x y c d g silent watched
  constructor
  · exact (Option.any_eq_true
      (fun trail => decide (silent trail ∧ (2, y) ∈ entries trail.state.world.cache ∧
      watched trail 2 x ∧ ¬ watched trail 2 y)) _).mp (by decide +kernel) |>.imp
        fun trail both =>
        ⟨both.1, of_decide_eq_true both.2⟩
  · exact (Option.any_eq_true (fun trail => decide (silent trail ∧
      (4, d ++ [47, 99, 47, 107]) ∈ entries trail.state.world.cache ∧ watched trail 4 g ∧
      ¬ watched trail 4 (d ++ [47, 99, 47, 107]))) _).mp (by decide +kernel) |>.imp
        fun trail both =>
        ⟨both.1, of_decide_eq_true both.2⟩

end Tlpi.TreeRenames
