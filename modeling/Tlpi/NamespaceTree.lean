import Mathlib.Data.BitVec
import Tlpi.DecimalText
import Tlpi.RootedTrees

/-!
namespaces/userns_overview.go: the tree of user namespaces with the processes in them.
A descriptor stands for the namespace that it refers to, which device and inode number
identify; `getParent` is the answer of NS_GET_PARENT. A call that ends in `os.Exit`, in a
nil pointer or without enough fuel has no result.
-/

namespace Tlpi.NamespaceTree

open RootedTrees

structure NamespaceID where
  device : UInt64
  inode_num : UInt64
  deriving DecidableEq

structure NamespaceAttribs where
  children : List NamespaceID
  pids : List Int
  deriving DecidableEq

inductive Errno where
  | EPERM
  | ENOTTY
  | other
  deriving DecidableEq

structure State where
  NSList : NamespaceID → Option NamespaceAttribs
  initialNS : NamespaceID

structure Process where
  pid : Int
  ns : NamespaceID
  deriving DecidableEq

/-- A change of `*NSList[ns]`. -/
def State.amend (state : State) (ns : NamespaceID)
    (change : NamespaceAttribs → NamespaceAttribs) : Option State :=
  (state.NSList ns).map fun attribs =>
    { state with NSList := Function.update state.NSList ns (some (change attribs)) }

def addPid (state : State) (ns : NamespaceID) (pid : Int) : Option State :=
  if pid > 0 then state.amend ns fun attribs => { attribs with pids := attribs.pids ++ [pid] }
  else some state

section Kernel
variable (getParent : NamespaceID → Except Errno NamespaceID)

/-- The first half of `AddNamespace`, which calls itself for the parent. -/
def enter (addNamespace : State → NamespaceID → Int → Option (State × NamespaceID))
    (state : State) (ns : NamespaceID) : Option State :=
  match state.NSList ns with
  | some _ => some state
  | none =>
      let created : State :=
        { state with NSList := Function.update state.NSList ns (some ⟨[], []⟩) }
      match getParent ns with
      | .error .EPERM => some { created with initialNS := ns }
      | .error .ENOTTY => none
      | .error .other => none
      | .ok parentFD => do
          let (state, par) ← addNamespace created parentFD (-1)
          state.amend par fun attribs => { attribs with children := attribs.children ++ [ns] }

def AddNamespace : Nat → State → NamespaceID → Int → Option (State × NamespaceID)
  | 0, _, _, _ => none
  | fuel + 1, state, ns, pid => do
      let state ← enter getParent (AddNamespace fuel) state ns
      let state ← addPid state ns pid
      return (state, ns)

/-- The loop of `main` over the entries of /proc, in whatever order they come. -/
def addProcesses (fuel : Nat) : List Process → State → Option State
  | [], state => some state
  | process :: rest, state => do
      let (state, _) ← AddNamespace getParent fuel state process.ns process.pid
      addProcesses fuel rest state

end Kernel

/-- What `fmt.Print` and `fmt.Println` are given. -/
inductive Item where
  | spaces (count : Nat)
  | namespace_ (ns : NamespaceID)
  | label
  | pid (pid : Int)
  | newline
  deriving DecidableEq

/-- The loop over the sorted PIDs from number `i` on. -/
def showPids (indent base : Nat) : Nat → Nat → List Int → List Item
  | _, _, [] => []
  | i, col, p :: rest =>
      let wraps := i = 0 ∨ col ≥ 80 ∧ col > base + 32
      let margin : List Item :=
        if i = 0 then [.spaces indent, .spaces 12, .label]
        else [.newline, .spaces indent, .spaces 12, .spaces 6]
      (if wraps then margin else []) ++ .pid p ::
        showPids indent base (i + 1) ((if wraps then base else col) +
          (DecimalText.printed p).length + 1) rest

/-- What one namespace contributes before its children. -/
def showNamespace (ns : NamespaceID) (pids : List Int) (level : Nat) : List Item :=
  let indent := level * 4
  .spaces indent :: .namespace_ ns :: .newline ::
    (showPids indent (indent + 25) 0 (indent + 25) pids ++ [Item.newline])

/-- The list of PIDs is sorted in place, which shows nowhere else. -/
def DisplayNamespaceTree (NSList : NamespaceID → Option NamespaceAttribs) :
    Nat → NamespaceID → Nat → Option (List Item)
  | 0, _, _ => none
  | fuel + 1, ns, level => do
      let attribs ← NSList ns
      let below ← attribs.children.mapM fun v => DisplayNamespaceTree NSList fuel v (level + 1)
      return showNamespace ns (attribs.pids.insertionSort (· ≤ ·)) level ++ below.flatten

def begin_ : State := ⟨fun _ => none, ⟨0, 0⟩⟩

/-! `AddNamespace`. While the ancestors of a namespace are added, it is in the map but in
no list of children yet; `pending` are the namespaces of which this is so. -/

def State.known (state : State) (ns : NamespaceID) : Prop := (state.NSList ns).isSome = true

def State.pidsOf (state : State) (ns : NamespaceID) : List Int :=
  ((state.NSList ns).map NamespaceAttribs.pids).getD []

def Up (getParent : NamespaceID → Except Errno NamespaceID) (child parent : NamespaceID) : Prop :=
  getParent child = .ok parent

structure Linked (getParent : NamespaceID → Except Errno NamespaceID) (root : NamespaceID)
    (pending : List NamespaceID) (state : State) : Prop where
  distinct : ∀ ns attribs, state.NSList ns = some attribs → attribs.children.Nodup
  children : ∀ ns attribs, state.NSList ns = some attribs → ∀ child,
    child ∈ attribs.children ↔
    state.known child ∧ child ∉ pending ∧ Up getParent child ns
  closed : ∀ child parent, state.known child → child ∉ pending →
    Up getParent child parent → state.known parent
  initial : state.known root → state.initialNS = root

section Adding
variable (getParent : NamespaceID → Except Errno NamespaceID) (root : NamespaceID)
  (top : getParent root = .error .EPERM) (pending : List NamespaceID) (state : State)
  (linked : Linked getParent root pending state)

omit state in
theorem update_cases (NSList : NamespaceID → Option NamespaceAttribs) (ns other : NamespaceID)
    (new found : NamespaceAttribs)
    (lookup : Function.update NSList ns (some new) other = some found) :
    other = ns ∧ found = new ∨ other ≠ ns ∧ NSList other = some found := by
  by_cases same : other = ns
  · subst same
    rw [Function.update_self] at lookup
    cases lookup
    exact Or.inl ⟨rfl, rfl⟩
  · rw [Function.update_of_ne same] at lookup
    exact Or.inr ⟨same, lookup⟩

theorem known_update (ns other : NamespaceID) (attribs : NamespaceAttribs)
    (initialNS : NamespaceID) :
    State.known ⟨Function.update state.NSList ns (some attribs), initialNS⟩ other ↔
      state.known other ∨ other = ns := by
  by_cases same : other = ns
  · subst same
    simp [State.known]
  · simp [State.known, same]

theorem known_amended (ns : NamespaceID) (here : state.known ns) (attribs : NamespaceAttribs)
    (initialNS other : NamespaceID) :
    State.known ⟨Function.update state.NSList ns (some attribs), initialNS⟩ other ↔
      state.known other := by
  rw [known_update]
  constructor
  · rintro (old | rfl)
    · exact old
    · exact here
  · exact Or.inl

theorem amend_known (ns : NamespaceID) (attribs : NamespaceAttribs)
    (there : state.NSList ns = some attribs) (change : NamespaceAttribs → NamespaceAttribs) :
    state.amend ns change = some
      { state with NSList := Function.update state.NSList ns (some (change attribs)) } := by
  rw [State.amend, there, Option.map_some]

include linked in
theorem addPid_linked (ns : NamespaceID) (here : state.known ns) (pid : Int) : ∃ after,
    addPid state ns pid = some after ∧
    Linked getParent root pending after ∧ (∀ other, after.known other ↔ state.known other) ∧
    ∀ other, after.pidsOf other =
      state.pidsOf other ++ if other = ns ∧ pid > 0 then [pid] else [] := by
  by_cases positive : pid > 0
  · obtain ⟨attribs, there⟩ := Option.isSome_iff_exists.mp here
    have same :=
      known_amended state ns here ⟨attribs.children, attribs.pids ++ [pid]⟩ state.initialNS
    have lists : ∀ other found, Function.update state.NSList ns
      (some ⟨attribs.children, attribs.pids ++ [pid]⟩) other = some found →
        ∃ before, state.NSList other = some before ∧ found.children = before.children := by
      intro other found lookup
      rcases update_cases _ _ _ _ _ lookup with ⟨rfl, rfl⟩ | ⟨equal, before⟩
      · exact ⟨attribs, there, rfl⟩
      · exact ⟨found, before, rfl⟩
    refine ⟨_, ?_, ⟨?_, ?_, ?_, ?_⟩, same, ?_⟩
    · rw [addPid, if_pos positive, amend_known state ns attribs there]
    · intro other found lookup
      obtain ⟨before, old, equal⟩ := lists other found lookup
      rw [equal]
      exact linked.distinct other before old
    · intro other found lookup child
      obtain ⟨before, old, equal⟩ := lists other found lookup
      rw [equal, linked.children other before old, same]
    · intro child parent
      rw [same, same]
      exact linked.closed child parent
    · rw [same]
      exact linked.initial
    · intro other
      by_cases equal : other = ns
      · subst equal
        simp [State.pidsOf, there, positive]
      · simp [State.pidsOf, equal]
  · refine ⟨state, by rw [addPid, if_neg positive], linked, fun _ => Iff.rfl, fun other => ?_⟩
    rw [if_neg (fun both => positive both.2), List.append_nil]

include linked in
/-- A namespace that waited to be linked becomes a child of its parent. -/
theorem link_linked (ns par : NamespaceID) (rest : List NamespaceID) (waits : pending = ns :: rest)
    (unlinked : ns ∉ rest)
    (here : state.known ns) (link : Up getParent ns par) (above : state.known par) :
    ∃ after, (state.amend par fun attribs =>
      { attribs with children := attribs.children ++ [ns] }) = some after ∧
        Linked getParent root rest after ∧
          (∀ other, after.known other ↔ state.known other) ∧
        ∀ other, after.pidsOf other = state.pidsOf other := by
  subst waits
  obtain ⟨attribs, there⟩ := Option.isSome_iff_exists.mp above
  have same :=
    known_amended state par above ⟨attribs.children ++ [ns], attribs.pids⟩ state.initialNS
  refine ⟨_, amend_known state par attribs there _, ⟨?_, ?_, ?_, ?_⟩, same, ?_⟩
  · intro other found lookup
    rcases update_cases _ _ _ _ _ lookup with ⟨rfl, rfl⟩ | ⟨equal, before⟩
    · refine List.nodup_append.mpr ⟨linked.distinct other attribs there,
        List.nodup_singleton ns, ?_⟩
      intro child member last only equal
      rw [List.mem_singleton.mp only] at equal
      rw [equal] at member
      exact ((linked.children other attribs there ns).mp member).2.1 List.mem_cons_self
    · exact linked.distinct other found before
  · intro other found lookup child
    rw [same]
    rcases update_cases _ _ _ _ _ lookup with ⟨rfl, rfl⟩ | ⟨equal, before⟩
    · rw [List.mem_append, linked.children other attribs there, List.mem_singleton]
      constructor
      · rintro (⟨known, outside, up⟩ | rfl)
        · exact ⟨known, fun member => outside (List.mem_cons_of_mem ns member), up⟩
        · exact ⟨here, unlinked, link⟩
      · rintro ⟨known, outside, up⟩
        by_cases new : child = ns
        · exact Or.inr new
        · exact Or.inl ⟨known, fun member => (List.mem_cons.mp member).elim new outside, up⟩
    · rw [linked.children other found before]
      constructor
      · rintro ⟨known, outside, up⟩
        exact ⟨known, fun member => outside (List.mem_cons_of_mem ns member), up⟩
      · rintro ⟨known, outside, up⟩
        refine ⟨known, fun member => ?_, up⟩
        rcases List.mem_cons.mp member with rfl | old
        · rw [Up, link] at up
          cases up
          exact equal rfl
        · exact outside old
  · intro child parent known outside up
    rw [same] at known ⊢
    by_cases new : child = ns
    · subst new
      rw [Up, link] at up
      cases up
      exact above
    · exact linked.closed child parent known
        (fun member => (List.mem_cons.mp member).elim new outside) up
  · rw [same]
    exact linked.initial
  · intro other
    by_cases equal : other = par
    · subst equal
      simp [State.pidsOf, there]
    · simp [State.pidsOf, equal]

include linked top in
/-- A new entry; only the root is not left to be linked. -/
theorem created_linked (ns : NamespaceID) (new : ¬ state.known ns) (later : List NamespaceID)
    (waits : ∀ child, child ∈ later ↔ child ∈ pending ∨ child = ns ∧ ns ≠ root) :
    Linked getParent root later
      ⟨Function.update state.NSList ns (some ⟨[], []⟩),
        if ns = root then ns else state.initialNS⟩ := by
  have outside : ∀ child parent, state.known child ∨ child = ns → child ∉ later →
    Up getParent child parent →
      state.known child ∧ child ∉ pending := by
    rintro child parent (known | rfl) absent up
    · exact ⟨known, fun member => absent ((waits child).mpr (Or.inl member))⟩
    · by_cases bottom : child = root
      · subst bottom
        rw [Up, top] at up
        cases up
      · exact absurd ((waits child).mpr (Or.inr ⟨rfl, bottom⟩)) absent
  refine ⟨?_, ?_, ?_, ?_⟩
  · intro other found lookup
    rcases update_cases _ _ _ _ _ lookup with ⟨rfl, rfl⟩ | ⟨equal, before⟩
    · exact List.nodup_nil
    · exact linked.distinct other found before
  · intro other found lookup child
    rw [known_update]
    rcases update_cases _ _ _ _ _ lookup with ⟨rfl, rfl⟩ | ⟨equal, before⟩
    · refine ⟨(fun bad => by cases bad), ?_⟩
      rintro ⟨known, absent, up⟩
      obtain ⟨before, old⟩ := outside child other known absent up
      exact absurd (linked.closed child other before old up) new
    · rw [linked.children other found before]
      constructor
      · rintro ⟨known, old, up⟩
        refine ⟨Or.inl known, fun member => ?_, up⟩
        rcases (waits child).mp member with before | ⟨rfl, _⟩
        · exact old before
        · exact new known
      · rintro ⟨known, absent, up⟩
        obtain ⟨before, old⟩ := outside child other known absent up
        exact ⟨before, old, up⟩
  · intro child parent known absent up
    rw [known_update] at known ⊢
    obtain ⟨before, old⟩ := outside child parent known absent up
    exact Or.inl (linked.closed child parent before old up)
  · rw [known_update]
    by_cases same : ns = root
    · intro _
      exact (if_pos same).trans same
    · rintro (known | rfl)
      · exact (if_neg same).trans (linked.initial known)
      · exact absurd rfl same

theorem created_pids (ns : NamespaceID) (new : ¬ state.known ns) (initialNS other : NamespaceID) :
    State.pidsOf ⟨Function.update state.NSList ns (some ⟨[], []⟩), initialNS⟩ other =
      state.pidsOf other := by
  have fresh : state.NSList ns = none := Option.not_isSome_iff_eq_none.mp new
  by_cases same : other = ns
  · subst same
    simp [State.pidsOf, fresh]
  · simp [State.pidsOf, same]

end Adding

/-- What a call does to the map. -/
structure Added (getParent : NamespaceID → Except Errno NamespaceID)
    (ns : NamespaceID) (pid : Int) (before after : State) : Prop where
  known : ∀ other, after.known other ↔ before.known other ∨ Ancestor (Up getParent) ns other
  pids : ∀ other, after.pidsOf other =
    before.pidsOf other ++ if other = ns ∧ pid > 0 then [pid] else []

section Calls
variable (getParent : NamespaceID → Except Errno NamespaceID) (root : NamespaceID)
  (top : getParent root = .error .EPERM)
include top

theorem up_rooted : Rooted (Up getParent) root := by
  constructor
  · intro child one two first second
    rw [Up, first] at second
    cases second
    rfl
  · intro parent up
    rw [Up, top] at up
    cases up

theorem known_ancestors (state : State) (pending : List NamespaceID)
    (linked : Linked getParent root pending state) (ns other : NamespaceID) (depth : Nat)
    (level : Level (Up getParent) root ns depth)
    (deep : ∀ waiting ∈ pending, ∀ below, Level (Up getParent) root waiting below →
      depth < below) (here : state.known ns) (path : Ancestor (Up getParent) ns other) :
        state.known other := by
  induction path with
  | refl => exact here
  | tail earlier link ih =>
      refine linked.closed _ _ ih (fun member => ?_) link
      obtain ⟨higher, less, there, _⟩ :=
        ancestor_level _ root (up_rooted getParent root top) ns _ depth level earlier
      exact absurd (deep _ member higher there) (Nat.not_lt.mpr less)

theorem enter_root (addNamespace : State → NamespaceID → Int → Option (State × NamespaceID))
    (state : State) (new : ¬ state.known root) : enter getParent addNamespace state root =
      some ⟨Function.update state.NSList root (some ⟨[], []⟩),
        if root = root then root else state.initialNS⟩ := by
  have fresh : state.NSList root = none := Option.not_isSome_iff_eq_none.mp new
  rw [enter, fresh]
  simp only [top, if_true]

omit top in
theorem enter_child (addNamespace : State → NamespaceID → Int → Option (State × NamespaceID))
    (state : State) (ns par : NamespaceID) (new : ¬ state.known ns)
    (link : Up getParent ns par) : enter getParent addNamespace state ns =
      (addNamespace ⟨Function.update state.NSList ns (some ⟨[], []⟩), state.initialNS⟩ par
        (-1)).bind fun called =>
        called.1.amend called.2 fun attribs =>
          { attribs with children := attribs.children ++ [ns] } := by
  have fresh : state.NSList ns = none := Option.not_isSome_iff_eq_none.mp new
  rw [Up] at link
  rw [enter, fresh]
  simp only [link]
  rfl

omit top in
theorem entered_added (fuel : Nat) (ns : NamespaceID) (pid : Int) (pending : List NamespaceID)
    (state middle : State)
    (entered : enter getParent (AddNamespace getParent fuel) state ns = some middle)
    (linked : Linked getParent root pending middle)
    (known : ∀ other, middle.known other ↔ state.known other ∨
      Ancestor (Up getParent) ns other) (pids : ∀ other,
      middle.pidsOf other = state.pidsOf other) :
    ∃ after, AddNamespace getParent (fuel + 1) state ns pid = some (after, ns) ∧
      Linked getParent root pending after ∧
      Added getParent ns pid state after := by
  have here : middle.known ns := (known ns).mpr (Or.inr Relation.ReflTransGen.refl)
  obtain ⟨after, added, still, same, more⟩ :=
    addPid_linked getParent root pending middle linked ns here pid
  refine ⟨after, ?_, still,
    ⟨fun other => (same other).trans (known other), fun other => ?_⟩⟩
  · simp only [AddNamespace, entered, added, Option.bind_eq_bind, Option.bind_some,
      Option.pure_def]
  · rw [more, pids]

theorem known_added (fuel : Nat) (ns : NamespaceID) (pid : Int) (pending : List NamespaceID)
    (state : State) (linked : Linked getParent root pending state) (depth : Nat)
    (level : Level (Up getParent) root ns depth)
    (deep : ∀ waiting ∈ pending, ∀ below, Level (Up getParent) root waiting below →
      depth < below) (here : state.known ns) :
    ∃ after, AddNamespace getParent (fuel + 1) state ns pid = some (after, ns) ∧
      Linked getParent root pending after ∧
      Added getParent ns pid state after := by
  refine entered_added getParent root fuel ns pid pending state state ?_ linked
    (fun other => ?_) (fun _ => rfl)
  · obtain ⟨attribs, there⟩ := Option.isSome_iff_exists.mp here
    rw [enter, there]
  · constructor
    · exact Or.inl
    · rintro (old | path)
      · exact old
      · exact known_ancestors getParent root top state pending linked ns other depth
          level deep here path

theorem add_namespace (ns : NamespaceID) (depth : Nat) (level : Level (Up getParent) root ns depth)
    (fuel : Nat) (enough : depth < fuel) (pid : Int) (pending : List NamespaceID) (state : State)
    (linked : Linked getParent root pending state)
    (deep : ∀ waiting ∈ pending, ∀ below, Level (Up getParent) root waiting below →
      depth < below) :
    ∃ after, AddNamespace getParent fuel state ns pid = some (after, ns) ∧
      Linked getParent root pending after ∧
      Added getParent ns pid state after := by
  have rooted := up_rooted getParent root top
  induction depth generalizing ns fuel pid pending state with
  | zero =>
      obtain ⟨fuel, rfl⟩ := Nat.exists_eq_add_of_lt enough
      rw [Nat.zero_add]
      cases level
      by_cases here : state.known root
      · exact known_added getParent root top fuel root pid pending state linked 0 .root deep here
      · refine entered_added getParent root fuel root pid pending state _
          (enter_root getParent root top _ state here)
          (created_linked getParent root top pending state linked root here pending (by simp))
            (fun other => ?_)
          (created_pids state root here _)
        rw [known_update, ancestor_cases]
        refine or_congr_right ⟨Or.inl, ?_⟩
        rintro (same | ⟨parent, link, _⟩)
        · exact same
        · exact absurd link (rooted.top parent)
  | succ depth ih =>
      obtain ⟨fuel, rfl⟩ : ∃ less, fuel = less + 1 := ⟨fuel - 1, by omega⟩
      by_cases here : state.known ns
      · exact known_added getParent root top fuel ns pid pending state linked
          (depth + 1) level deep here
      · obtain ⟨par, link, higher⟩ : ∃ par,
          Up getParent ns par ∧ Level (Up getParent) root par depth := by
          cases level with
          | child_of link higher => exact ⟨_, link, higher⟩
        have lower : ns ≠ root := by
          rintro rfl
          exact rooted.top par link
        have absent : ns ∉ pending :=
          fun member => Nat.lt_irrefl _ (deep ns member (depth + 1) level)
        have created :=
          created_linked getParent root top pending state linked ns here (ns :: pending)
            (by simp [lower, or_comm])
        rw [if_neg lower] at created
        obtain ⟨middle, called, still, added⟩ :=
          ih par higher fuel (by omega) (-1) (ns :: pending) _ created (by
            intro waiting member below there
            rcases List.mem_cons.mp member with rfl | old
            · rw [level_unique _ root rooted waiting below (depth + 1) there level]
              exact Nat.lt_succ_self depth
            · exact Nat.lt_of_succ_lt (deep waiting old below there))
        have self : middle.known ns :=
          (added.known ns).mpr (Or.inl ((known_update state ns ns _ _).mpr (Or.inr rfl)))
        have above : middle.known par := (added.known par).mpr (Or.inr Relation.ReflTransGen.refl)
        obtain ⟨after, amended, linked_after, same, pids⟩ :=
          link_linked getParent root (ns :: pending) middle still ns par pending rfl
            absent self link above
        refine entered_added getParent root fuel ns pid pending state after ?_ linked_after
          (fun other => ?_) (fun other => ?_)
        · rw [enter_child getParent _ state ns par here link, called, Option.bind_some, amended]
        · rw [same, added.known, known_update, ancestor_cases _ ns other, or_assoc]
          refine or_congr_right (or_congr_right ⟨fun path => ⟨par, link, path⟩, ?_⟩)
          rintro ⟨parent, other_link, path⟩
          cases rooted.one link other_link
          exact path
        · rw [pids, added.pids, if_neg (fun both => absurd both.2 (by decide)), List.append_nil,
            created_pids state ns here]

end Calls

/-- The map after the processes `seen` have been visited. -/
structure Recorded (getParent : NamespaceID → Except Errno NamespaceID) (root : NamespaceID)
    (seen : List Process) (state : State) : Prop where
  linked : Linked getParent root [] state
  known : ∀ ns, state.known ns ↔ ∃ process ∈ seen, Ancestor (Up getParent) process.ns ns
  pids : ∀ ns, state.pidsOf ns = (seen.filter fun process => process.ns = ns).map Process.pid

section Runs
variable (getParent : NamespaceID → Except Errno NamespaceID) (root : NamespaceID)
  (top : getParent root = .error .EPERM)

theorem begin_recorded : Recorded getParent root [] begin_ := by
  refine ⟨⟨?_, ?_, ?_, ?_⟩, ?_, ?_⟩
  · intro ns attribs lookup
    cases lookup
  · intro ns attribs lookup
    cases lookup
  · intro child parent known
    cases known
  · intro known
    cases known
  · intro ns
    constructor
    · intro known
      cases known
    · rintro ⟨process, member, _⟩
      cases member
  · intro ns
    rfl

include top in
theorem add_processes (fuel : Nat) (processes seen : List Process) (state : State)
    (levels : ∀ process ∈ processes, ∃ depth,
      depth < fuel ∧ Level (Up getParent) root process.ns depth)
    (positive : ∀ process ∈ processes, process.pid > 0)
    (recorded : Recorded getParent root seen state) :
    ∃ after, addProcesses getParent fuel processes state = some after ∧
      Recorded getParent root (seen ++ processes) after := by
  induction processes generalizing seen state with
  | nil => exact ⟨state, rfl, by rw [List.append_nil]; exact recorded⟩
  | cons process rest ih =>
      obtain ⟨depth, enough, level⟩ := levels process List.mem_cons_self
      obtain ⟨middle, called, linked, added⟩ :=
        add_namespace getParent root top process.ns depth level fuel enough process.pid
          [] state recorded.linked (by simp)
      have more := positive process List.mem_cons_self
      have next : Recorded getParent root (seen ++ [process]) middle := by
        refine ⟨linked, fun ns => ?_, fun ns => ?_⟩
        · rw [added.known, recorded.known]
          simp only [List.mem_append, List.mem_singleton, or_and_right, exists_or, exists_eq_left]
        · rw [added.pids, recorded.pids, List.filter_append, List.map_append]
          by_cases same : process.ns = ns
          · subst same
            simp [more]
          · have other : ns ≠ process.ns := fun equal => same equal.symm
            simp [same, other]
      obtain ⟨after, rest_added, all⟩ := ih (seen ++ [process]) middle
        (fun other member => levels other (List.mem_cons_of_mem process member))
        (fun other member => positive other (List.mem_cons_of_mem process member)) next
      refine ⟨after, ?_, ?_⟩
      · rw [addProcesses, called]
        exact rest_added
      · rw [List.append_assoc] at all
        exact all

end Runs

/-! `DisplayNamespaceTree`. The output is read back as what a reader of it sees: each
namespace with the column that it starts in and the PIDs up to the next one. -/

structure Shown where
  column : Nat
  ns : NamespaceID
  pids : List Int
  deriving DecidableEq

/-- The PIDs before the first namespace, and the namespaces. -/
def readBack : Nat → List Item → List Int × List Shown
  | _, [] => ([], [])
  | column, .spaces count :: rest => readBack (column + count) rest
  | column, .namespace_ ns :: rest =>
      let (pids, shown) := readBack column rest
      ([], ⟨column, ns, pids⟩ :: shown)
  | column, .label :: rest => readBack column rest
  | column, .pid pid :: rest =>
      let (pids, shown) := readBack column rest
      (pid :: pids, shown)
  | _, .newline :: rest => readBack 0 rest

theorem readBack_pids (indent base i col column : Nat) (pids : List Int) (rest : List Item) :
    readBack column (showPids indent base i col pids ++ .newline :: rest) =
      (pids ++ (readBack 0 rest).1, (readBack 0 rest).2) := by
  induction pids generalizing i col column with
  | nil => simp [showPids, readBack]
  | cons p more ih =>
      simp only [showPids]
      split <;> [split; skip] <;> simp [readBack, ih]

theorem readBack_namespace (ns : NamespaceID) (pids : List Int) (level : Nat) (rest : List Item) :
    readBack 0 (showNamespace ns pids level ++ rest) =
      ([], ⟨level * 4, ns, pids ++ (readBack 0 rest).1⟩ :: (readBack 0 rest).2) := by
  simp [showNamespace, readBack, readBack_pids]

def Reads (output : List Item) (shown : List Shown) : Prop :=
  ∀ rest, (readBack 0 rest).1 = [] →
    readBack 0 (output ++ rest) = ([], shown ++ (readBack 0 rest).2)

/-- An entry for a namespace in the tree below `ns`. -/
def Below (getParent : NamespaceID → Except Errno NamespaceID) (root : NamespaceID)
    (NSList : NamespaceID → Option NamespaceAttribs) (ns : NamespaceID) (entry : Shown) : Prop :=
  Ancestor (Up getParent) entry.ns ns ∧ ∃ depth attribs,
    Level (Up getParent) root entry.ns depth ∧
    NSList entry.ns = some attribs ∧ entry.column = depth * 4 ∧
      entry.pids = attribs.pids.insertionSort (· ≤ ·)

/-- The loop over the children, if each of them is shown as expected. -/
theorem children_shown (show_ : NamespaceID → Option (List Item))
    (expected : NamespaceID → Shown → Prop) (children : List NamespaceID)
    (distinct : children.Nodup)
    (each : ∀ child ∈ children, ∃ output shown,
      show_ child = some output ∧ Reads output shown ∧
      (shown.map Shown.ns).Nodup ∧ ∀ entry, entry ∈ shown ↔ expected child entry)
    (apart : ∀ one ∈ children, ∀ two ∈ children, ∀ first second, expected one first →
      expected two second →
      first.ns = second.ns → one = two) :
    ∃ outputs shown, children.mapM show_ = some outputs ∧ Reads outputs.flatten shown ∧
      (shown.map Shown.ns).Nodup ∧
      ∀ entry, entry ∈ shown ↔ ∃ child ∈ children, expected child entry := by
  induction children with
  | nil =>
      exact ⟨[], [], rfl, fun rest leading => by simp [← leading], List.nodup_nil, by simp⟩
  | cons child more ih =>
      obtain ⟨output, shown, called, reads, once, exactly⟩ := each child List.mem_cons_self
      obtain ⟨absent, distinct⟩ := List.nodup_cons.mp distinct
      obtain ⟨outputs, others, all, reads_others, once_others, exactly_others⟩ := ih distinct
        (fun other member => each other (List.mem_cons_of_mem child member))
        (fun one first two second => apart one (List.mem_cons_of_mem child first) two
          (List.mem_cons_of_mem child second))
      refine ⟨output :: outputs, shown ++ others, ?_, ?_, ?_, ?_⟩
      · rw [List.mapM_cons, called, all]
        rfl
      · intro rest leading
        have later := reads_others rest leading
        rw [List.flatten_cons, List.append_assoc, reads, later, List.append_assoc]
        rw [later]
      · rw [List.map_append, List.nodup_append]
        refine ⟨once, once_others, ?_⟩
        rintro _ first _ second rfl
        obtain ⟨one, inside, rfl⟩ := List.mem_map.mp first
        obtain ⟨two, beyond, same⟩ := List.mem_map.mp second
        obtain ⟨other, member, fits⟩ := (exactly_others two).mp beyond
        have equal :=
          apart child List.mem_cons_self other (List.mem_cons_of_mem child member) one two
            ((exactly one).mp inside) fits same.symm
        rw [equal] at absent
        exact absent member
      · intro entry
        rw [List.mem_append, exactly, exactly_others]
        simp

section Display
variable (getParent : NamespaceID → Except Errno NamespaceID) (root : NamespaceID)
  (top : getParent root = .error .EPERM) (state : State) (linked : Linked getParent root [] state)
include top linked

theorem display_shown (deepest : Nat)
    (bound : ∀ ns depth, state.known ns → Level (Up getParent) root ns depth →
      depth ≤ deepest)
    (fuel : Nat) (ns : NamespaceID) (depth : Nat) (level : Level (Up getParent) root ns depth)
    (here : state.known ns) (enough : deepest < depth + fuel) :
    ∃ output shown, DisplayNamespaceTree state.NSList fuel ns depth = some output ∧
      Reads output shown ∧
      (shown.map Shown.ns).Nodup ∧ ∀ entry, entry ∈ shown ↔
        Below getParent root state.NSList ns entry := by
  have rooted := up_rooted getParent root top
  induction fuel generalizing ns depth with
  | zero => exact absurd (bound ns depth here level) (Nat.not_le.mpr enough)
  | succ fuel ih =>
      obtain ⟨attribs, there⟩ := Option.isSome_iff_exists.mp here
      have links := linked.children ns attribs there
      obtain ⟨outputs, shown, called, reads, once, exactly⟩ :=
        children_shown (fun v => DisplayNamespaceTree state.NSList fuel v (depth + 1))
          (Below getParent root state.NSList)
          attribs.children (linked.distinct ns attribs there)
          (fun child member => by
            obtain ⟨known, _, up⟩ := (links child).mp member
            exact ih child (depth + 1) (.child_of up level) known (by omega))
          (fun one first two second left right leftBelow rightBelow same => by
            have up_one := ((links one).mp first).2.2
            have up_two := ((links two).mp second).2.2
            refine ancestors_unique _ root rooted left.ns one two (depth + 1) leftBelow.1 ?_
              (.child_of up_one level) (.child_of up_two level)
            rw [same]
            exact rightBelow.1)
      refine ⟨showNamespace ns (attribs.pids.insertionSort (· ≤ ·)) depth ++ outputs.flatten,
        ⟨depth * 4, ns, attribs.pids.insertionSort (· ≤ ·)⟩ :: shown, ?_, ?_, ?_, ?_⟩
      · simp only [DisplayNamespaceTree, there, called, Option.bind_eq_bind, Option.bind_some,
          Option.pure_def]
      · intro rest leading
        have later := reads rest leading
        rw [List.append_assoc, readBack_namespace, later, List.append_nil, List.cons_append]
      · refine List.nodup_cons.mpr ⟨fun member => ?_, once⟩
        obtain ⟨entry, inside, same⟩ := List.mem_map.mp member
        obtain ⟨child, listed, below⟩ := (exactly entry).mp inside
        have up := ((links child).mp listed).2.2
        have path := below.1
        rw [same] at path
        obtain ⟨higher, less, lower, _⟩ :=
          ancestor_level _ root rooted ns child depth level path
        have equal := level_unique _ root rooted child higher (depth + 1) lower (.child_of up level)
        omega
      · intro entry
        rw [List.mem_cons, exactly]
        constructor
        · rintro (rfl | ⟨child, listed, path, entry_below⟩)
          · exact ⟨Relation.ReflTransGen.refl, depth, attribs, level, there, rfl, rfl⟩
          · exact ⟨path.tail ((links child).mp listed).2.2, entry_below⟩
        · rintro ⟨path, below, found, lower, lookup, column, pids⟩
          rcases Relation.ReflTransGen.cases_tail_iff _ _ _ |>.mp path with same |
            ⟨child, first, up⟩
          · obtain ⟨place, name, list⟩ := entry
            dsimp only at same lower lookup column pids
            subst same
            rw [there] at lookup
            cases lookup
            cases level_unique _ root rooted _ _ _ lower level
            rw [column, pids]
            exact Or.inl rfl
          · have known : state.known child :=
              known_ancestors getParent root top state [] linked entry.ns child below lower
                (by simp) (by rw [State.known, lookup]; rfl) first
            exact Or.inr ⟨child, (links child).mpr ⟨known, List.not_mem_nil, up⟩, first,
              below, found, lower, lookup, column, pids⟩

end Display

theorem deepest_process (getParent : NamespaceID → Except Errno NamespaceID) (root : NamespaceID)
    (processes : List Process)
    (tree : ∀ process ∈ processes, ∃ depth, Level (Up getParent) root process.ns depth) :
    ∃ deepest, ∀ process ∈ processes,
      ∃ depth, depth ≤ deepest ∧ Level (Up getParent) root process.ns depth := by
  induction processes with
  | nil => exact ⟨0, by simp⟩
  | cons process rest ih =>
      obtain ⟨depth, level⟩ := tree process List.mem_cons_self
      obtain ⟨deepest, each⟩ :=
        ih fun other member => tree other (List.mem_cons_of_mem process member)
      refine ⟨max depth deepest, fun other member => ?_⟩
      rcases List.mem_cons.mp member with rfl | later
      · exact ⟨depth, Nat.le_max_left depth deepest, level⟩
      · obtain ⟨own, less, there⟩ := each other later
        exact ⟨own, Nat.le_trans less (Nat.le_max_right depth deepest), there⟩

theorem sorted_pids (processes : List Process) (distinct : (processes.map Process.pid).Nodup)
    (ns : NamespaceID) :
    (((processes.filter fun process => process.ns = ns).map Process.pid).insertionSort
      (· ≤ ·)).Pairwise (· < ·) := by
  have once : (((processes.filter fun process => process.ns = ns).map Process.pid).insertionSort
      (· ≤ ·)).Nodup := by
    rw [(List.perm_insertionSort _ _).nodup_iff]
    exact distinct.sublist (List.filter_sublist.map _)
  have order := List.pairwise_insertionSort (· ≤ ·)
    ((processes.filter fun process => process.ns = ns).map Process.pid)
  exact (order.and once).imp fun both => lt_of_le_of_ne both.1 both.2

theorem reads_whole (output : List Item) (shown : List Shown) (reads : Reads output shown) :
    readBack 0 output = ([], shown) := by
  have read := reads [] rfl
  rw [List.append_nil] at read
  rw [read]
  simp [readBack]

/-- The display below the root has an entry for every namespace in the map and for no other. -/
theorem shown_known (getParent : NamespaceID → Except Errno NamespaceID) (root : NamespaceID)
    (state : State) (shown : List Shown)
    (exactly : ∀ entry, entry ∈ shown ↔ Below getParent root state.NSList root entry)
    (level : ∀ ns, state.known ns → ∃ depth, Level (Up getParent) root ns depth)
    (ns : NamespaceID) : ns ∈ shown.map Shown.ns ↔ (state.NSList ns).isSome = true := by
  constructor
  · intro member
    obtain ⟨entry, inside, rfl⟩ := List.mem_map.mp member
    obtain ⟨_, _, attribs, _, there, _⟩ := (exactly entry).mp inside
    rw [there]
    rfl
  · intro known
    obtain ⟨attribs, there⟩ := Option.isSome_iff_exists.mp known
    obtain ⟨depth, at_⟩ := level ns known
    refine List.mem_map.mpr ⟨⟨depth * 4, ns, attribs.pids.insertionSort (· ≤ ·)⟩,
      ?_, rfl⟩
    exact (exactly _).mpr ⟨ancestor_root _ root ns depth at_, depth, attribs,
      at_, there, rfl, rfl⟩

section Recorded
variable (getParent : NamespaceID → Except Errno NamespaceID) (root : NamespaceID)
  (processes : List Process) (state : State) (recorded : Recorded getParent root processes state)
include recorded

theorem recorded_pids (ns : NamespaceID) (attribs : NamespaceAttribs)
    (there : state.NSList ns = some attribs) :
    attribs.pids = (processes.filter fun process => process.ns = ns).map Process.pid := by
  have pids := recorded.pids ns
  rw [State.pidsOf, there] at pids
  exact pids

theorem recorded_level (top : getParent root = .error .EPERM) (deepest : Nat)
    (levels : ∀ process ∈ processes, ∃ depth,
      depth ≤ deepest ∧ Level (Up getParent) root process.ns depth)
    (ns : NamespaceID) (known : state.known ns) :
    ∃ depth, depth ≤ deepest ∧ Level (Up getParent) root ns depth := by
  obtain ⟨process, member, path⟩ := (recorded.known ns).mp known
  obtain ⟨own, less, there⟩ := levels process member
  obtain ⟨higher, above, level, _⟩ :=
    ancestor_level _ root (up_rooted getParent root top) process.ns ns own there path
  exact ⟨higher, Nat.le_trans above less, level⟩

theorem recorded_root (some_ : processes ≠ [])
    (tree : ∀ process ∈ processes, ∃ depth, Level (Up getParent) root process.ns depth) :
    state.known root := by
  obtain ⟨process, member⟩ := List.exists_mem_of_ne_nil processes some_
  obtain ⟨depth, level⟩ := tree process member
  exact (recorded.known root).mpr ⟨process, member, ancestor_root _ root process.ns depth level⟩

theorem shown_entry (distinct : (processes.map Process.pid).Nodup) (entry : Shown)
    (below : Below getParent root state.NSList root entry) :
    ∃ depth, Level (Up getParent) root entry.ns depth ∧ entry.column = 4 * depth ∧
      entry.pids.Pairwise (· < ·) ∧
      entry.pids.Perm ((processes.filter fun process => process.ns = entry.ns).map
        Process.pid) := by
  obtain ⟨_, depth, attribs, level, there, column, pids⟩ := below
  rw [recorded_pids getParent root processes state recorded entry.ns attribs there] at pids
  refine ⟨depth, level, column.trans (Nat.mul_comm depth 4), ?_, ?_⟩
  · rw [pids]
    exact sorted_pids processes distinct entry.ns
  · rw [pids]
    exact List.perm_insertionSort _ _

end Recorded

theorem namespaces_are_shown (getParent : NamespaceID → Except Errno NamespaceID)
    (root : NamespaceID) (top : getParent root = .error .EPERM) (processes : List Process)
    (tree : ∀ process ∈ processes, ∃ depth, Level (Up getParent) root process.ns depth)
    (some_ : processes ≠ []) (positive : ∀ process ∈ processes, process.pid > 0)
    (distinct : (processes.map Process.pid).Nodup) :
    ∃ enough, ∀ fuel, enough ≤ fuel → ∃ state output,
      addProcesses getParent fuel processes begin_ = some state ∧
      DisplayNamespaceTree state.NSList fuel state.initialNS 0 = some output ∧
      (∀ ns, (state.NSList ns).isSome = true ↔ ∃ process ∈ processes,
        Ancestor (Up getParent) process.ns ns) ∧
      (∀ ns attribs, state.NSList ns = some attribs →
        attribs.pids = (processes.filter fun process => process.ns = ns).map Process.pid ∧
        attribs.children.Nodup ∧
        ∀ child, child ∈ attribs.children ↔ (state.NSList child).isSome = true ∧
        getParent child = .ok ns) ∧
      state.initialNS = root ∧ (readBack 0 output).1 = [] ∧
        ((readBack 0 output).2.map Shown.ns).Nodup ∧
      (∀ ns, ns ∈ (readBack 0 output).2.map Shown.ns ↔ (state.NSList ns).isSome = true) ∧
      ∀ entry ∈ (readBack 0 output).2, ∃ depth, Level (Up getParent) root entry.ns depth ∧
        entry.column = 4 * depth ∧
        entry.pids.Pairwise (· < ·) ∧
        entry.pids.Perm ((processes.filter fun process => process.ns = entry.ns).map
          Process.pid) := by
  obtain ⟨deepest, levels⟩ := deepest_process getParent root processes tree
  refine ⟨deepest + 1, fun fuel enough => ?_⟩
  obtain ⟨state, called, recorded⟩ := add_processes getParent root top fuel processes [] begin_
    (fun process member => by
      obtain ⟨depth, less, level⟩ := levels process member
      exact ⟨depth, Nat.lt_of_le_of_lt less enough, level⟩) positive
        (begin_recorded getParent root)
  rw [List.nil_append] at recorded
  have linked := recorded.linked
  have level := recorded_level getParent root processes state recorded top deepest levels
  have bound : ∀ ns depth, state.known ns → Level (Up getParent) root ns depth →
      depth ≤ deepest := by
    intro ns depth known here
    obtain ⟨other, less, there⟩ := level ns known
    rw [level_unique _ root (up_rooted getParent root top) ns depth other here there]
    exact less
  have initial := recorded_root getParent root processes state recorded some_ tree
  obtain ⟨output, shown, displayed, reads, once, exactly⟩ :=
    display_shown getParent root top state linked deepest bound fuel root 0 .root initial (by omega)
  refine ⟨state, output, called, ?_, recorded.known, ?_, linked.initial initial, ?_⟩
  · rw [linked.initial initial]
    exact displayed
  · intro ns attribs there
    refine ⟨recorded_pids getParent root processes state recorded ns attribs there,
      linked.distinct ns attribs there, fun child => ?_⟩
    rw [linked.children ns attribs there child]
    simp [State.known, Up]
  · rw [reads_whole output shown reads]
    refine ⟨rfl, once, ?_, fun entry inside => ?_⟩
    · apply shown_known getParent root state shown exactly
      intro ns known
      obtain ⟨depth, _, here⟩ := level ns known
      exact ⟨depth, here⟩
    · exact shown_entry getParent root processes state recorded distinct entry
        ((exactly entry).mp inside)

/-- Three namespaces, each the child of the one before. -/
def chain (ns : NamespaceID) : Except Errno NamespaceID :=
  if ns = ⟨4, 3⟩ then .ok ⟨4, 2⟩ else if ns = ⟨4, 2⟩ then .ok ⟨4, 1⟩
  else .error .EPERM

-- The lowest namespace comes first, so its ancestors are added before they are met.
theorem chain_is_shown : ∃ fuel state output,
    addProcesses chain fuel [⟨30, ⟨4, 3⟩⟩, ⟨1, ⟨4, 1⟩⟩,
      ⟨20, ⟨4, 3⟩⟩] begin_ = some state ∧
      DisplayNamespaceTree state.NSList fuel state.initialNS 0 = some output ∧
        state.initialNS = ⟨4, 1⟩ ∧
      (state.NSList ⟨4, 2⟩).isSome = true := by
  have middle : Level (Up chain) ⟨4, 1⟩ ⟨4, 2⟩ 1 :=
    .child_of (show Up chain ⟨4, 2⟩ ⟨4, 1⟩ from rfl) .root
  have lowest : Level (Up chain) ⟨4, 1⟩ ⟨4, 3⟩ 2 :=
    .child_of (show Up chain ⟨4, 3⟩ ⟨4, 2⟩ from rfl) middle
  obtain ⟨enough, each⟩ := namespaces_are_shown chain ⟨4, 1⟩ rfl [⟨30, ⟨4, 3⟩⟩,
    ⟨1, ⟨4, 1⟩⟩, ⟨20, ⟨4, 3⟩⟩] (by
      intro process member
      simp only [List.mem_cons, List.not_mem_nil, or_false] at member
      rcases member with rfl | rfl | rfl
      · exact ⟨2, lowest⟩
      · exact ⟨0, .root⟩
      · exact ⟨2, lowest⟩)
    (by simp) (by decide) (by decide)
  obtain ⟨state, output, added, displayed, known, _, initial, _⟩ :=
    each enough (Nat.le_refl enough)
  exact ⟨enough, state, output, added, displayed, initial,
    (known ⟨4, 2⟩).mpr ⟨⟨30, ⟨4, 3⟩⟩, List.mem_cons_self,
      Relation.ReflTransGen.single (show Up chain ⟨4, 3⟩ ⟨4, 2⟩ from rfl)⟩⟩

end Tlpi.NamespaceTree
