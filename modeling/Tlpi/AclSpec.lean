import Mathlib.Data.List.Basic
import Tlpi.AclUpdate
import Tlpi.CStrings
import Tlpi.UserIds

/-!
acl/acl_update.c: `parseEntrySpec` and `parseACL`, which take an ACL specification apart by
writing null bytes into it. The databases are given by `getpwnam` and `getgrnam`. A call that
does not succeed has written a text to stderr.
-/

namespace Tlpi.AclSpec

open CStrings UserIds AclUpdate

def colon : UInt8 := 58
def comma : UInt8 := 44

def MAX_ENTRIES : Nat := 10000

/-- What a call leaves: the text of its failure, if any, the entry and the string. -/
structure Parsed where
  failure : Option Str
  ace : AccessControlEntry
  memory : List UInt8
  deriving DecidableEq

/-- The tag type for a tag string and the presence of a qualifier. -/
def tagOf (name : Str) (hasQual : Bool) : Option Tag :=
  if name = literal "u" ∨ name = literal "user" then some (if hasQual then .user else .userObj)
  else if name = literal "g" ∨ name = literal "group" then
    some (if hasQual then .group else .groupObj)
  else if name = literal "o" ∨ name = literal "other" then some .other
  else if name = literal "m" ∨ name = literal "mask" then some .mask
  else none

/-- The loop over the permissions from `p` on, with the bits that it has set so far. -/
def permsLoop (perms : Nat) : Str → Option Str × Nat
  | [] => (none, perms)
  | ch :: p =>
      if ch = 114 then permsLoop (perms ||| ACL_READ) p
      else if ch = 119 then permsLoop (perms ||| ACL_WRITE) p
      else if ch = 120 then permsLoop (perms ||| ACL_EXECUTE) p
      else if ch ≠ 45 then (some (literal "Bad character in permissions string: " ++ [ch] ++
        literal "\n"), perms)
      else permsLoop perms p

section Parser
variable (getpwnam getgrnam : Str → Option Id)

/-- The qualifier of an entry with this tag, and the failure if it is unknown. -/
def qualifier (tag : Tag) (qual : Str) : Option Str × Nat :=
  match tag with
  | .user =>
      let id := userIdFromName getpwnam (some qual)
      (if id = -1#32 then some (literal "Bad user ID: " ++ qual ++ literal "\n")
        else none, id.toNat)
  | .group =>
      let id := groupIdFromName getgrnam (some qual)
      (if id = -1#32 then some (literal "Bad group ID: " ++ qual ++ literal "\n")
        else none, id.toNat)
  | _ => (none, 0)

def parseEntrySpec (memory : List UInt8) (entryStr : Nat) (ace : AccessControlEntry)
    (permsReqd : Bool) : Parsed :=
  match strchr memory entryStr colon with
  | none =>
      ⟨some (literal "Missing initial colon in ACL entry: " ++ stringAt memory entryStr ++
        literal "\n"), ace, memory⟩
  | some colon1 =>
      let hasQual := byteAt memory (colon1 + 1) != 0 && byteAt memory (colon1 + 1) != colon
      let memory := terminate memory colon1
      let colon2 := strchr memory (colon1 + 1) colon
      let hasPerms := colon2.any fun p => byteAt memory (p + 1) != 0
      if hasPerms && !permsReqd then
        ⟨some (literal "Cannot specify permissions here\n"), ace, memory⟩
      else if !hasPerms && permsReqd then
        ⟨some (literal "Must specify permissions\n"), ace, memory⟩
      else
        match tagOf (stringAt memory entryStr) hasQual with
        | none => ⟨some (literal "Bad tag: " ++ stringAt memory entryStr ++ literal "\n"),
            ace, memory⟩
        | some tag =>
            let memory := colon2.elim memory (terminate memory)
            let found := qualifier getpwnam getgrnam tag (stringAt memory (colon1 + 1))
            let ace := { ace with tag := tag, qual := found.2 }
            match found.1, colon2 with
            | some text, _ => ⟨some text, ace, memory⟩
            | none, none => ⟨none, ace, memory⟩
            | none, some p =>
                if hasPerms then
                  let bits := permsLoop 0 (stringAt memory (p + 1))
                  ⟨bits.1, { ace with perms := bits.2 }, memory⟩
                else ⟨none, ace, memory⟩

/-- What `parseACL` returns and leaves. -/
structure Answer where
  result : Int
  failure : Option Str
  aclist : List AccessControlEntry
  memory : List UInt8
  deriving DecidableEq

/-- The loop of `parseACL` at its entry `n`. -/
def parseLoop (permsReqd : Bool) (n nextEntry : Nat) (memory : List UInt8)
    (aclist : List AccessControlEntry) : Answer :=
  if n ≥ MAX_ENTRIES then ⟨-1, some (literal "Too many entries in ACL\n"), aclist, memory⟩
  else
    let next := strchr memory nextEntry comma
    let memory := next.elim memory (terminate memory)
    let parsed := parseEntrySpec getpwnam getgrnam memory nextEntry
      (aclist.getD n ⟨.undefinedTag, 0, 0⟩) permsReqd
    let aclist := aclist.set n parsed.ace
    match parsed.failure, next with
    | some text, _ => ⟨-1, some text, aclist, parsed.memory⟩
    | none, none => ⟨n + 1, none, aclist, parsed.memory⟩
    | none, some p => parseLoop permsReqd (n + 1) (p + 1) parsed.memory aclist
termination_by MAX_ENTRIES - n

def parseACL (memory : List UInt8) (aclStr : Nat) (aclist : List AccessControlEntry)
    (permsReqd : Bool) : Answer :=
  parseLoop getpwnam getgrnam permsReqd 0 aclStr memory aclist

/-! The same on the texts themselves, which nothing overwrites. -/

def parseText (text : Str) (ace : AccessControlEntry) (permsReqd : Bool) :
    Option Str × AccessControlEntry :=
  match cut colon text with
  | none => (some (literal "Missing initial colon in ACL entry: " ++ text ++ literal "\n"), ace)
  | some (name, rest) =>
      let second := cut colon rest
      let qual := second.elim rest Prod.fst
      let hasPerms := second.any fun parts => !parts.2.isEmpty
      if hasPerms && !permsReqd then (some (literal "Cannot specify permissions here\n"), ace)
      else if !hasPerms && permsReqd then (some (literal "Must specify permissions\n"), ace)
      else
        match tagOf name (!qual.isEmpty) with
        | none => (some (literal "Bad tag: " ++ name ++ literal "\n"), ace)
        | some tag =>
            let found := qualifier getpwnam getgrnam tag qual
            let ace := { ace with tag := tag, qual := found.2 }
            match found.1, second with
            | some text, _ => (some text, ace)
            | none, none => (none, ace)
            | none, some parts =>
                if hasPerms then
                  let bits := permsLoop 0 parts.2
                  (bits.1, { ace with perms := bits.2 })
                else (none, ace)

/-- The byte after the first colon tells whether there is a qualifier. -/
theorem qualifier_present (rest : Str) (clean : 0 ∉ rest) :
    (rest.head?.getD 0 != 0 && rest.head?.getD 0 != colon) =
      !((cut colon rest).elim rest Prod.fst).isEmpty := by
  cases rest with
  | nil => rfl
  | cons ch rest =>
      have nonzero : ch ≠ 0 := fun same => clean (by rw [same]; exact List.mem_cons_self)
      by_cases same : ch = colon
      · simp [cut, same]
      · cases found : cut colon rest <;> simp [cut, same, found, nonzero]

theorem permissions_present (perms : Str) (clean : 0 ∉ perms) :
    (perms.head?.getD 0 != 0) = !perms.isEmpty := by
  cases perms with
  | nil => rfl
  | cons ch more =>
      have nonzero : ch ≠ 0 := fun same => clean (by rw [same]; exact List.mem_cons_self)
      simp [nonzero]

theorem parse_entry_refines (memory : List UInt8) (p : Nat) (text : Str)
    (holds : Holds memory p text) (ace : AccessControlEntry) (permsReqd : Bool) :
    (parseEntrySpec getpwnam getgrnam memory p ace permsReqd).failure =
      (parseText getpwnam getgrnam text ace permsReqd).1 ∧
    (parseEntrySpec getpwnam getgrnam memory p ace permsReqd).ace =
      (parseText getpwnam getgrnam text ace permsReqd).2 ∧
    ∀ q other, p + text.length < q → Holds memory q other →
      Holds (parseEntrySpec getpwnam getgrnam memory p ace permsReqd).memory q other := by
  unfold parseEntrySpec parseText
  rw [holds_strchr memory p text holds colon, holds_string memory p text holds]
  cases found : cut colon text with
  | none => exact ⟨rfl, rfl, fun q other _ kept => kept⟩
  | some parts =>
      obtain ⟨name, rest⟩ := parts
      obtain ⟨rfl, absent⟩ := (cut_some colon text name rest).mp found
      obtain ⟨front, back⟩ := holds_terminate memory p _ holds name rest colon rfl
      have byte := holds_byte memory p _ holds (name ++ [colon]) rest (by simp)
      rw [List.length_append, List.length_singleton, ← Nat.add_assoc] at byte
      have clean : 0 ∉ rest := back.1
      simp only [Option.map_some, byte, holds_strchr _ _ _ back colon, holds_string _ _ _ front,
        qualifier_present rest clean]
      have behind : ∀ q other, p + (name ++ colon :: rest).length < q → Holds memory q other →
          Holds (terminate memory (p + name.length)) q other := by
        intro q other beyond kept
        rw [List.length_append] at beyond
        exact holds_behind memory q other kept _ (by omega)
      cases second : cut colon rest with
      | none =>
          simp only [Option.map_none, Option.any_none, Option.elim_none, Bool.false_and,
            Bool.false_eq_true, if_false, Bool.not_false, Bool.true_and, holds_string _ _ _ back]
          cases permsReqd with
          | true => exact ⟨rfl, rfl, behind⟩
          | false =>
              cases tagOf name (!rest.isEmpty) with
              | none => exact ⟨rfl, rfl, behind⟩
              | some tag =>
                  simp only [Bool.false_eq_true, if_false]
                  cases (qualifier getpwnam getgrnam tag rest).1 <;> exact ⟨rfl, rfl, behind⟩
      | some parts =>
          obtain ⟨qual, perms⟩ := parts
          obtain ⟨rfl, _⟩ := (cut_some colon rest qual perms).mp second
          obtain ⟨middle, last⟩ := holds_terminate _ _ _ back qual perms colon rfl
          have next := holds_byte _ _ _ back (qual ++ [colon]) perms (by simp)
          rw [List.length_append, List.length_singleton, ← Nat.add_assoc] at next
          have behind_both : ∀ q other,
            p + (name ++ colon :: (qual ++ colon :: perms)).length < q →
              Holds memory q other →
              Holds (terminate (terminate memory (p + name.length)) (p + name.length + 1 +
                qual.length)) q other := by
            intro q other beyond kept
            have once := behind q other beyond kept
            simp only [List.length_append, List.length_cons] at beyond
            exact holds_behind _ q other once _ (by omega)
          simp only [Option.map_some, Option.any_some, Option.elim_some, next,
            permissions_present perms last.1, holds_string _ _ _ middle]
          rcases Bool.eq_false_or_eq_true perms.isEmpty with given | given <;> cases permsReqd
          · simp only [given, Bool.not_true, Bool.and_false, Bool.false_and,
              Bool.false_eq_true, if_false]
            cases tagOf name (!qual.isEmpty) with
            | none => exact ⟨rfl, rfl, behind⟩
            | some tag =>
                dsimp only
                cases (qualifier getpwnam getgrnam tag qual).1 <;> exact ⟨rfl, rfl, behind_both⟩
          · simp only [given, Bool.not_true, Bool.not_false, Bool.false_eq_true, if_false,
              Bool.and_self, if_true]
            exact ⟨trivial, trivial, behind⟩
          · simp only [given, Bool.not_false, Bool.and_self, if_true]
            exact ⟨trivial, trivial, behind⟩
          · simp only [given, Bool.not_false, Bool.not_true, Bool.and_false, Bool.false_and,
              Bool.false_eq_true, if_false, if_true]
            cases tagOf name (!qual.isEmpty) with
            | none => exact ⟨rfl, rfl, behind⟩
            | some tag =>
                dsimp only
                cases (qualifier getpwnam getgrnam tag qual).1 with
                | none =>
                    dsimp only
                    rw [holds_string _ _ _ last]
                    exact ⟨rfl, rfl, behind_both⟩
                | some text => exact ⟨rfl, rfl, behind_both⟩

/-- The loop over the parts of a text between its commas. -/
def parseTexts (permsReqd : Bool) (n : Nat) : List Str → List AccessControlEntry →
    Int × Option Str × List AccessControlEntry
  | [], aclist => (n, none, aclist)
  | text :: rest, aclist =>
      if n ≥ MAX_ENTRIES then (-1, some (literal "Too many entries in ACL\n"), aclist)
      else
        let parsed :=
          parseText getpwnam getgrnam text (aclist.getD n ⟨.undefinedTag, 0, 0⟩) permsReqd
        let aclist := aclist.set n parsed.2
        match parsed.1 with
        | some failure => (-1, some failure, aclist)
        | none => parseTexts permsReqd (n + 1) rest aclist

theorem parse_loop_refines (permsReqd : Bool) (parts : List Str) (memory : List UInt8)
    (p : Nat) (text : Str) (holds : Holds memory p text) (split : text.splitOn comma = parts)
    (n : Nat) (aclist : List AccessControlEntry) :
    ((parseLoop getpwnam getgrnam permsReqd n p memory aclist).result,
      (parseLoop getpwnam getgrnam permsReqd n p memory aclist).failure,
      (parseLoop getpwnam getgrnam permsReqd n p memory aclist).aclist) =
        parseTexts getpwnam getgrnam permsReqd n parts aclist := by
  induction parts generalizing memory p text n aclist with
  | nil => exact absurd split (List.splitOn_ne_nil comma text)
  | cons first others ih =>
      rw [parseLoop, parseTexts]
      split
      · rfl
      · obtain ⟨absent, ⟨rfl, rfl⟩ | ⟨more, rfl, later⟩⟩ :=
          split_cons comma text first others split
        · have none_ : strchr memory p comma = none := by
            rw [holds_strchr memory p text holds, (cut_none comma text).mpr absent]
            rfl
          obtain ⟨failed, left, _⟩ := parse_entry_refines getpwnam getgrnam memory p text holds
            (aclist.getD n ⟨.undefinedTag, 0, 0⟩) permsReqd
          simp only [none_, Option.elim_none, failed, left]
          cases (parseText getpwnam getgrnam text (aclist.getD n ⟨.undefinedTag, 0, 0⟩)
            permsReqd).1 with
          | some failure => rfl
          | none => rfl
        · have some_ : strchr memory p comma = some (p + first.length) := by
            rw [holds_strchr memory p _ holds, (cut_some comma _ first more).mpr ⟨rfl, absent⟩]
            rfl
          obtain ⟨front, back⟩ := holds_terminate memory p _ holds first more comma rfl
          obtain ⟨failed, left, behind⟩ := parse_entry_refines getpwnam getgrnam _ p first front
            (aclist.getD n ⟨.undefinedTag, 0, 0⟩) permsReqd
          have next := ih _ _ more (behind _ more (Nat.lt_succ_self _) back) later (n + 1)
            (aclist.set n (parseText getpwnam getgrnam first (aclist.getD n ⟨.undefinedTag,
              0, 0⟩) permsReqd).2)
          simp only [some_, Option.elim_some, failed, left]
          cases (parseText getpwnam getgrnam first (aclist.getD n ⟨.undefinedTag, 0, 0⟩)
            permsReqd).1 with
          | some failure => rfl
          | none => exact next

/-! The grammar. -/

def tagNames : List Str :=
  [literal "u", literal "user", literal "g", literal "group", literal "o", literal "other",
    literal "m", literal "mask"]

/-- One specification, `tag ':' qualifier [':' perms]`. -/
structure Spec where
  tag : Str
  qual : Str
  perms : Option Str
  deriving DecidableEq

def Spec.text (spec : Spec) : Str :=
  spec.tag ++ colon :: (spec.qual ++ spec.perms.elim [] fun perms => colon :: perms)

def permBit (ch : UInt8) : Nat :=
  if ch = 114 then ACL_READ else if ch = 119 then ACL_WRITE else if ch = 120 then ACL_EXECUTE else 0

/-- The union of the permissions. -/
def permBits (perms : Str) : Nat := perms.foldl (fun bits ch => bits ||| permBit ch) 0

def isPerm (ch : UInt8) : Bool := ch = 114 || ch = 119 || ch = 120 || ch = 45

/-- The qualifier that an entry with this tag gets: an ID that was found, or zero. -/
def Resolves (tag : Tag) (qual : Str) (id : Nat) : Prop :=
  match tag with
  | .user => userIdFromName getpwnam (some qual) ≠ -1#32 ∧
      id = (userIdFromName getpwnam (some qual)).toNat
  | .group => groupIdFromName getgrnam (some qual) ≠ -1#32 ∧
      id = (groupIdFromName getgrnam (some qual)).toNat
  | _ => id = 0

structure WellFormed (permsReqd : Bool) (spec : Spec) : Prop where
  tag : spec.tag ∈ tagNames
  qual : colon ∉ spec.qual
  resolved : ∃ tag id, tagOf spec.tag (!spec.qual.isEmpty) = some tag ∧
    Resolves getpwnam getgrnam tag spec.qual id
  perms : if permsReqd then ∃ perms, spec.perms = some perms ∧ perms ≠ [] ∧
    ∀ ch ∈ perms, isPerm ch = true
    else spec.perms = none ∨ spec.perms = some []

/-- The entry that a specification stands for, in the place of another one. -/
structure Means (permsReqd : Bool) (old : AccessControlEntry) (spec : Spec)
    (ace : AccessControlEntry) : Prop where
  tag : tagOf spec.tag (!spec.qual.isEmpty) = some ace.tag
  qual : Resolves getpwnam getgrnam ace.tag spec.qual ace.qual
  perms : ace.perms = if permsReqd then permBits (spec.perms.getD []) else old.perms

theorem tag_names (name : Str) (hasQual : Bool) :
    (tagOf name hasQual).isSome = true ↔ name ∈ tagNames := by
  simp only [tagOf, tagNames, List.mem_cons, List.not_mem_nil, or_false]
  constructor
  · intro known
    split at known
    · next either => rcases either with same | same <;> simp [same]
    · split at known
      · next either => rcases either with same | same <;> simp [same]
      · split at known
        · next either => rcases either with same | same <;> simp [same]
        · split at known
          · next either => rcases either with same | same <;> simp [same]
          · cases known
  · rintro (rfl | rfl | rfl | rfl | rfl | rfl | rfl | rfl) <;> rfl

theorem tag_plain (name : Str) (known : name ∈ tagNames) : colon ∉ name := by
  revert name
  decide

theorem qualifier_resolves (tag : Tag) (qual : Str) :
    (∀ id, Resolves getpwnam getgrnam tag qual id →
      qualifier getpwnam getgrnam tag qual = (none, id)) ∧
      ((qualifier getpwnam getgrnam tag qual).1 = none →
        Resolves getpwnam getgrnam tag qual (qualifier getpwnam getgrnam tag qual).2) := by
  cases tag <;> simp [qualifier, Resolves]

theorem perms_step (bits : Nat) (ch : UInt8) (perms : Str) (fine : isPerm ch = true) :
    permsLoop bits (ch :: perms) = permsLoop (bits ||| permBit ch) perms := by
  simp only [isPerm, Bool.or_eq_true, decide_eq_true_eq] at fine
  rcases fine with ((rfl | rfl) | rfl) | rfl
  · rfl
  · rfl
  · rfl
  · rw [show permBit 45 = 0 from rfl, Nat.or_zero]
    rfl

theorem perms_refused (bits : Nat) (ch : UInt8) (perms : Str) (bad : isPerm ch = false) :
    (permsLoop bits (ch :: perms)).1 ≠ none := by
  simp only [isPerm, Bool.or_eq_false_iff, decide_eq_false_iff_not] at bad
  obtain ⟨⟨⟨read, write⟩, execute⟩, hyphen⟩ := bad
  rw [permsLoop, if_neg read, if_neg write, if_neg execute, if_pos hyphen]
  exact Option.some_ne_none _

theorem perms_loop (perms : Str) (bits : Nat) :
    ((∀ ch ∈ perms, isPerm ch = true) →
      permsLoop bits perms = (none, perms.foldl (fun bits ch => bits ||| permBit ch) bits)) ∧
    ((permsLoop bits perms).1 = none → ∀ ch ∈ perms, isPerm ch = true) := by
  induction perms generalizing bits with
  | nil => exact ⟨fun _ => rfl, by simp⟩
  | cons ch perms ih =>
      cases fine : isPerm ch with
      | true =>
          obtain ⟨forth, back⟩ := ih (bits ||| permBit ch)
          rw [perms_step bits ch perms fine]
          refine ⟨fun each => forth fun other member =>
            each other (List.mem_cons_of_mem ch member), fun passed => ?_⟩
          exact List.forall_mem_cons.mpr ⟨fine, back passed⟩
      | false =>
          refine ⟨fun each => ?_, fun passed =>
            absurd passed (perms_refused bits ch perms fine)⟩
          rw [each ch List.mem_cons_self] at fine
          cases fine

/-- How the text of a specification is taken apart. -/
theorem spec_cut (permsReqd : Bool) (spec : Spec)
    (fine : WellFormed getpwnam getgrnam permsReqd spec) :
    cut colon spec.text = some (spec.tag, spec.qual ++ spec.perms.elim [] fun perms =>
      colon :: perms) ∧
        cut colon (spec.qual ++ spec.perms.elim [] fun perms => colon :: perms) =
          spec.perms.map fun perms => (spec.qual, perms) := by
  refine ⟨(cut_some _ _ _ _).mpr ⟨rfl, tag_plain spec.tag fine.tag⟩, ?_⟩
  cases spec.perms with
  | none =>
      rw [Option.elim_none, List.append_nil, Option.map_none, cut_none]
      exact fine.qual
  | some perms => exact (cut_some _ _ _ _).mpr ⟨rfl, fine.qual⟩

theorem parse_text_spec (permsReqd : Bool) (spec : Spec)
    (fine : WellFormed getpwnam getgrnam permsReqd spec) (old : AccessControlEntry) :
    ∃ ace, parseText getpwnam getgrnam spec.text old permsReqd = (none, ace) ∧
      Means getpwnam getgrnam permsReqd old spec ace := by
  obtain ⟨first, second⟩ := spec_cut getpwnam getgrnam permsReqd spec fine
  obtain ⟨tag, id, known, resolves⟩ := fine.resolved
  have found := (qualifier_resolves getpwnam getgrnam tag spec.qual).1 id resolves
  have perms := fine.perms
  unfold parseText
  rw [first]
  simp only [second]
  cases permsReqd with
  | true =>
      obtain ⟨perms, same, nonempty, each⟩ := perms
      have given : perms.isEmpty = false := by simpa using nonempty
      have bits := (perms_loop perms 0).1 each
      simp only [same, Option.map_some, Option.any_some, Option.elim_some, given,
        Bool.not_false, Bool.not_true, Bool.and_false, Bool.false_and, Bool.false_eq_true, if_false,
        if_true, known, found, bits]
      exact ⟨_, rfl, known, resolves, by rw [same]; rfl⟩
  | false =>
      rcases perms with same | same
      · simp only [same, Option.map_none, Option.any_none, Option.elim_none,
          List.append_nil, Bool.not_false, Bool.false_and, Bool.and_false, Bool.false_eq_true,
          if_false, known, found]
        exact ⟨_, rfl, known, resolves, rfl⟩
      · simp only [same, Option.map_some, Option.any_some, Option.elim_some,
          List.isEmpty_nil, Bool.not_true, Bool.false_and, Bool.not_false, Bool.and_false,
          Bool.false_eq_true, if_false, known, found]
        exact ⟨_, rfl, known, resolves, rfl⟩

theorem parse_text_accepted (permsReqd : Bool) (text : Str) (old : AccessControlEntry)
    (accepted : (parseText getpwnam getgrnam text old permsReqd).1 = none) :
    ∃ spec : Spec, text = spec.text ∧ WellFormed getpwnam getgrnam permsReqd spec := by
  unfold parseText at accepted
  cases first : cut colon text with
  | none =>
      rw [first] at accepted
      cases accepted
  | some parts =>
      obtain ⟨name, rest⟩ := parts
      obtain ⟨rfl, _⟩ := (cut_some colon text name rest).mp first
      rw [first] at accepted
      dsimp only at accepted
      split at accepted
      · cases accepted
      · next allowed =>
          split at accepted
          · cases accepted
          · next required =>
              split at accepted
              · cases accepted
              · next tag known =>
                  have named :=
                    (tag_names name _).mp (Option.isSome_iff_exists.mpr ⟨tag, known⟩)
                  cases found : (qualifier getpwnam getgrnam tag
                    ((cut colon rest).elim rest Prod.fst)).1 with
                  | some failure =>
                      rw [found] at accepted
                      cases accepted
                  | none =>
                      have resolves := (qualifier_resolves getpwnam getgrnam tag _).2 found
                      rw [found] at accepted
                      cases second : cut colon rest with
                      | none =>
                          simp only [second, Option.elim_none,
                            Option.any_none] at known resolves required
                          have bare : permsReqd = false := by simpa using required
                          subst bare
                          exact ⟨⟨name, rest, none⟩,
                            by simp [Spec.text], named, (cut_none colon rest).mp second,
                            ⟨tag, _, known, resolves⟩, Or.inl rfl⟩
                      | some parts =>
                          obtain ⟨qual, perms⟩ := parts
                          obtain ⟨rfl, plain⟩ := (cut_some colon rest qual perms).mp second
                          simp only [second, Option.elim_some,
                            Option.any_some] at known resolves accepted allowed required
                          refine ⟨⟨name, qual, some perms⟩, rfl, named, plain,
                            ⟨tag, _, known, resolves⟩, ?_⟩
                          cases perms with
                          | nil =>
                              have bare : permsReqd = false := by simpa using required
                              subst bare
                              exact Or.inr rfl
                          | cons ch more =>
                              have asked : permsReqd = true := by simpa using allowed
                              subst asked
                              exact ⟨ch :: more, rfl, List.cons_ne_nil ch more,
                                (perms_loop (ch :: more) 0).2 accepted⟩

/-! The whole list. -/

/-- The entries from `n` on are filled in order, and no other is touched. -/
theorem parse_texts_specs (permsReqd : Bool) (specs : List Spec)
    (fine : ∀ spec ∈ specs, WellFormed getpwnam getgrnam permsReqd spec) (n : Nat)
    (few : n + specs.length ≤ MAX_ENTRIES) (aclist : List AccessControlEntry)
    (size : aclist.length = MAX_ENTRIES) :
    ∃ after, parseTexts getpwnam getgrnam permsReqd n (specs.map Spec.text) aclist =
      (↑(n + specs.length), none, after) ∧
      (∀ (index : Nat) spec, specs[index]? = some spec → ∃ old ace,
        aclist[n + index]? = some old ∧
        after[n + index]? = some ace ∧ Means getpwnam getgrnam permsReqd old spec ace) ∧
      ∀ index, index < n ∨ n + specs.length ≤ index → after[index]? = aclist[index]? := by
  induction specs generalizing n aclist with
  | nil => exact ⟨aclist, rfl, by simp, fun _ _ => rfl⟩
  | cons spec specs ih =>
      rw [List.length_cons] at few
      have inside : n < aclist.length := by omega
      have there : aclist[n]? = some (aclist.getD n ⟨.undefinedTag, 0, 0⟩) := by
        rw [List.getD_eq_getElem _ _ inside, List.getElem?_eq_getElem inside]
      obtain ⟨ace, parsed, means⟩ :=
        parse_text_spec getpwnam getgrnam permsReqd spec (fine spec List.mem_cons_self)
          (aclist.getD n ⟨.undefinedTag, 0, 0⟩)
      obtain ⟨after, later, each, kept⟩ :=
        ih (fun other member => fine other (List.mem_cons_of_mem spec member)) (n + 1)
          (by omega) (aclist.set n ace) (by rw [List.length_set, size])
      have others : ∀ index, index ≠ n → (aclist.set n ace)[index]? = aclist[index]? :=
        fun index other =>
          List.getElem?_set_ne (Ne.symm other)
      refine ⟨after, ?_, ?_, ?_⟩
      · rw [List.map_cons, parseTexts, if_neg (by omega)]
        simp only [parsed, later, List.length_cons, Nat.add_assoc, Nat.add_comm 1]
      · intro index other found
        cases index with
        | zero =>
            cases found
            refine ⟨_, ace, there, ?_, means⟩
            rw [Nat.add_zero, kept n (Or.inl (Nat.lt_succ_self n)), List.getElem?_set_self inside]
        | succ index =>
            obtain ⟨old, new, before, now, meant⟩ := each index other found
            rw [others _ (by omega)] at before
            rw [← Nat.add_assoc, Nat.add_right_comm]
            exact ⟨old, new, before, now, meant⟩
      · intro index outside
        rw [List.length_cons] at outside
        rw [kept index (by omega), others index (by omega)]

theorem parse_texts_accepted (permsReqd : Bool) (texts : List Str) (n : Nat)
    (bound : n ≤ MAX_ENTRIES) (aclist : List AccessControlEntry) :
    (parseTexts getpwnam getgrnam permsReqd n texts aclist).1 = -1 ∨
      ∃ specs : List Spec, texts = specs.map Spec.text ∧ n + specs.length ≤ MAX_ENTRIES ∧
        ∀ spec ∈ specs, WellFormed getpwnam getgrnam permsReqd spec := by
  induction texts generalizing n aclist with
  | nil => exact Or.inr ⟨[], rfl, bound, by simp⟩
  | cons text texts ih =>
      rw [parseTexts]
      split
      · exact Or.inl rfl
      · next few =>
          dsimp only
          split
          · exact Or.inl rfl
          · next accepted =>
              obtain ⟨spec, rfl, fine⟩ :=
                parse_text_accepted getpwnam getgrnam permsReqd text _ accepted
              refine (ih (n + 1) (by omega) _).imp_right ?_
              rintro ⟨specs, rfl, within, each⟩
              refine ⟨spec :: specs, rfl, ?_, List.forall_mem_cons.mpr ⟨fine, each⟩⟩
              rw [List.length_cons]
              omega

/-- The specifications that a text consists of. -/
def Specifies (permsReqd : Bool) (text : Str) (specs : List Spec) : Prop :=
  text.splitOn comma = specs.map Spec.text ∧ specs.length ≤ MAX_ENTRIES ∧
    ∀ spec ∈ specs, WellFormed getpwnam getgrnam permsReqd spec

section Whole
variable (memory : List UInt8) (aclStr : Nat) (text : Str) (holds : Holds memory aclStr text)
  (aclist : List AccessControlEntry) (size : aclist.length = MAX_ENTRIES) (permsReqd : Bool)
include holds

theorem parse_acl_refines :
    ((parseACL getpwnam getgrnam memory aclStr aclist permsReqd).result,
      (parseACL getpwnam getgrnam memory aclStr aclist permsReqd).failure,
      (parseACL getpwnam getgrnam memory aclStr aclist permsReqd).aclist) =
        parseTexts getpwnam getgrnam permsReqd 0 (text.splitOn comma) aclist :=
  parse_loop_refines getpwnam getgrnam permsReqd _ memory aclStr text holds rfl 0 aclist

include size in
theorem parse_acl_specs (specs : List Spec)
    (specifies : Specifies getpwnam getgrnam permsReqd text specs) :
    (parseACL getpwnam getgrnam memory aclStr aclist permsReqd).result = specs.length ∧
      (∀ (index : Nat) spec, specs[index]? = some spec → ∃ old ace,
        aclist[index]? = some old ∧
        (parseACL getpwnam getgrnam memory aclStr aclist permsReqd).aclist[index]? = some ace ∧
        Means getpwnam getgrnam permsReqd old spec ace) ∧
      ∀ index, specs.length ≤ index →
        (parseACL getpwnam getgrnam memory aclStr aclist permsReqd).aclist[index]? =
          aclist[index]? := by
  obtain ⟨split, few, fine⟩ := specifies
  obtain ⟨after, parsed, each, kept⟩ :=
    parse_texts_specs getpwnam getgrnam permsReqd specs fine 0 (by omega) aclist size
  have refines := parse_acl_refines getpwnam getgrnam memory aclStr text holds aclist permsReqd
  rw [split, parsed] at refines
  simp only [Prod.mk.injEq, Nat.zero_add] at refines each kept
  obtain ⟨result, _, left⟩ := refines
  rw [result, left]
  exact ⟨rfl, each, fun index beyond => kept index (Or.inr beyond)⟩

theorem parse_acl_accepted :
    (parseACL getpwnam getgrnam memory aclStr aclist permsReqd).result = -1 ∨
    ∃ specs, Specifies getpwnam getgrnam permsReqd text specs := by
  have refines := congrArg Prod.fst (parse_acl_refines getpwnam getgrnam memory aclStr text
    holds aclist permsReqd)
  dsimp only at refines
  rw [refines]
  refine (parse_texts_accepted getpwnam getgrnam permsReqd _ 0 (Nat.zero_le _) aclist).imp_right ?_
  rintro ⟨specs, split, few, fine⟩
  exact ⟨specs, split, by omega, fine⟩

end Whole

end Parser

/-- The result is positive exactly for the texts of the grammar, whose specifications it
counts; each entry is then what its own specification says, whatever has been overwritten. -/
theorem acl_grammar_is_exact (getpwnam getgrnam : Str → Option Id) (memory : List UInt8)
    (aclStr : Nat) (text : Str) (holds : Holds memory aclStr text)
    (aclist : List AccessControlEntry) (size : aclist.length = MAX_ENTRIES) (permsReqd : Bool) :
    (∀ k : Nat, 1 ≤ k →
      ((parseACL getpwnam getgrnam memory aclStr aclist permsReqd).result = k ↔
      ∃ specs, Specifies getpwnam getgrnam permsReqd text specs ∧ specs.length = k)) ∧
    ((∀ specs, ¬ Specifies getpwnam getgrnam permsReqd text specs) →
      (parseACL getpwnam getgrnam memory aclStr aclist permsReqd).result = -1) ∧
    ∀ specs, Specifies getpwnam getgrnam permsReqd text specs →
      (∀ (index : Nat) spec, specs[index]? = some spec → ∃ old ace,
        aclist[index]? = some old ∧
        (parseACL getpwnam getgrnam memory aclStr aclist permsReqd).aclist[index]? = some ace ∧
        Means getpwnam getgrnam permsReqd old spec ace) ∧
      ∀ index, specs.length ≤ index →
        (parseACL getpwnam getgrnam memory aclStr aclist permsReqd).aclist[index]? =
          aclist[index]? := by
  have accepted := parse_acl_accepted getpwnam getgrnam memory aclStr text holds aclist permsReqd
  have meant := parse_acl_specs getpwnam getgrnam memory aclStr text holds aclist size permsReqd
  refine ⟨fun k positive => ⟨fun returned => ?_, ?_⟩, fun none_ => ?_,
    fun specs specifies => (meant specs specifies).2⟩
  · rcases accepted with failed | ⟨specs, specifies⟩
    · rw [failed] at returned
      omega
    · have count := (meant specs specifies).1
      exact ⟨specs, specifies, by omega⟩
  · rintro ⟨specs, specifies, rfl⟩
    exact (meant specs specifies).1
  · rcases accepted with failed | ⟨specs, specifies⟩
    · exact failed
    · exact absurd specifies (none_ specs)

-- The owner's entry has no qualifier, and the group is given by its number.
theorem two_entries_are_parsed :
    (parseACL (fun _ => none) (fun _ => none) (literal "u::rwx,g:5:r-" ++ [0]) 0
      (List.replicate MAX_ENTRIES ⟨.undefinedTag, 0, 0⟩) true).result = 2 := by
  have holds : Holds (literal "u::rwx,g:5:r-" ++ [0]) 0 (literal "u::rwx,g:5:r-") :=
    ⟨by decide, [], rfl⟩
  have owner : WellFormed (fun _ => none) (fun _ => none) true ⟨literal "u", [],
      some (literal "rwx")⟩ :=
    ⟨by decide, by decide, ⟨.userObj, 0, rfl, rfl⟩, literal "rwx", rfl, by decide,
      List.all_eq_true.mp rfl⟩
  have group : WellFormed (fun _ => none) (fun _ => none) true ⟨literal "g", literal "5",
      some (literal "r-")⟩ :=
    ⟨by decide, by decide, ⟨.group, 5, rfl, by decide, by decide⟩, literal "r-", rfl,
      by decide, List.all_eq_true.mp rfl⟩
  refine ((acl_grammar_is_exact _ _ _ 0 _ holds _ List.length_replicate true).1 2 (by decide)).mpr
    ⟨[⟨literal "u", [], some (literal "rwx")⟩,
      ⟨literal "g", literal "5", some (literal "r-")⟩], ⟨by decide, by decide, ?_⟩, rfl⟩
  intro spec member
  simp only [List.mem_cons, List.not_mem_nil, or_false] at member
  rcases member with rfl | rfl
  · exact owner
  · exact group

end Tlpi.AclSpec
