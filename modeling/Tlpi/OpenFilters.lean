import Tlpi.Bpf

/-!
seccomp/seccomp_deny_open.c and seccomp/seccomp_control_open.c: the filters that
`install_filter` hands to the kernel, on x86-64. Words of a `struct seccomp_data` are stored with
the low half of a 64-bit value first.
-/

namespace Tlpi.OpenFilters

open Bpf

def AUDIT_ARCH_X86_64 : Word := 0xC000003E
def NR_open : Word := 2
def X32_SYSCALL_BIT : Word := 0x40000000
def SECCOMP_RET_KILL : Word := 0x00000000
def SECCOMP_RET_ERRNO : Word := 0x00050000
def SECCOMP_RET_ALLOW : Word := 0x7fff0000
def SECCOMP_RET_ACTION_FULL : Word := 0xffff0000
def SECCOMP_RET_DATA : Word := 0x0000ffff
def O_WRONLY : Word := 0x1
def O_RDWR : Word := 0x2
def O_CREAT : Word := 0x40
def ENOTSUP : Word := 95

structure SeccompData where
  nr : Word
  arch : Word
  instruction_pointer : BitVec 64
  args : Fin 6 → BitVec 64

def low (value : BitVec 64) : Word := value.setWidth 32

def high (value : BitVec 64) : Word := (value >>> 32).setWidth 32

def words (record : SeccompData) : List Word :=
  [record.nr, record.arch, low record.instruction_pointer, high record.instruction_pointer,
    low (record.args 0), high (record.args 0), low (record.args 1), high (record.args 1),
    low (record.args 2), high (record.args 2), low (record.args 3), high (record.args 3),
    low (record.args 4), high (record.args 4), low (record.args 5), high (record.args 5)]

def offsetof_nr : Word := 0
def offsetof_arch : Word := 4
def offsetof_args1 : Word := 24

def loadable (offset : Word) : Bool := offset.toNat % 4 = 0 && offset.toNat < 64

def load (record : SeccompData) (offset : Word) : Option Word :=
  if loadable offset then (words record)[offset.toNat / 4]? else none

/-- The instructions with which both filters begin. -/
def untilOpen : List Instruction :=
  [BPF_STMT (BPF_LD ||| BPF_W ||| BPF_ABS) offsetof_arch,
    BPF_JUMP (BPF_JMP ||| BPF_JEQ ||| BPF_K) AUDIT_ARCH_X86_64 1 0,
    BPF_STMT (BPF_RET ||| BPF_K) SECCOMP_RET_KILL,
    BPF_STMT (BPF_LD ||| BPF_W ||| BPF_ABS) offsetof_nr,
    BPF_JUMP (BPF_JMP ||| BPF_JEQ ||| BPF_K) NR_open 1 0,
    BPF_STMT (BPF_RET ||| BPF_K) SECCOMP_RET_ALLOW]

def denyOpen : List Instruction := untilOpen ++ [BPF_STMT (BPF_RET ||| BPF_K) SECCOMP_RET_KILL]

def controlOpen : List Instruction :=
  untilOpen ++
    [BPF_STMT (BPF_LD ||| BPF_W ||| BPF_ABS) offsetof_args1,
      BPF_JUMP (BPF_JMP ||| BPF_JSET ||| BPF_K) O_CREAT 0 1,
      BPF_STMT (BPF_RET ||| BPF_K) SECCOMP_RET_KILL,
      BPF_JUMP (BPF_JMP ||| BPF_JSET ||| BPF_K) (O_WRONLY ||| O_RDWR) 0 1,
      BPF_STMT (BPF_RET ||| BPF_K) (SECCOMP_RET_ERRNO ||| (ENOTSUP &&& SECCOMP_RET_DATA)),
      BPF_STMT (BPF_RET ||| BPF_K) SECCOMP_RET_ALLOW]

inductive Action where
  | kill
  | errno (number : Word)
  | allow
  | other
  deriving DecidableEq

/-- What the kernel does with the value that a filter returns. -/
def action (verdict : Word) : Action :=
  if verdict &&& SECCOMP_RET_ACTION_FULL = SECCOMP_RET_KILL then .kill
  else if verdict &&& SECCOMP_RET_ACTION_FULL = SECCOMP_RET_ERRNO then
    .errno (verdict &&& SECCOMP_RET_DATA)
  else if verdict &&& SECCOMP_RET_ACTION_FULL = SECCOMP_RET_ALLOW then .allow
  else .other

def decision (filter : List Instruction) (record : SeccompData) : Option Action :=
  (evaluate filter (load record)).map action

/-! What the filters are for. -/

def X32Open (record : SeccompData) : Prop :=
  record.arch = AUDIT_ARCH_X86_64 ∧ record.nr = NR_open ||| X32_SYSCALL_BIT

instance (record : SeccompData) : Decidable (X32Open record) :=
  inferInstanceAs (Decidable (_ ∧ _))

/-- The kernel executes the call as open(2). -/
def Opens (record : SeccompData) : Prop :=
  record.arch = AUDIT_ARCH_X86_64 ∧ record.nr = NR_open ∨ X32Open record

instance (record : SeccompData) : Decidable (Opens record) := inferInstanceAs (Decidable (_ ∨ _))

def flags (record : SeccompData) : Word := low (record.args 1)

def denied (record : SeccompData) : Action :=
  if record.arch ≠ AUDIT_ARCH_X86_64 then .kill
  else if Opens record then .kill
  else .allow

/-- What is due to the flags of an open(2). -/
def judged (flags : Word) : Action :=
  if flags &&& O_CREAT ≠ 0 then .kill
  else if flags &&& (O_WRONLY ||| O_RDWR) ≠ 0 then .errno ENOTSUP
  else .allow

def controlled (record : SeccompData) : Action :=
  if record.arch ≠ AUDIT_ARCH_X86_64 then .kill
  else if Opens record then judged (flags record)
  else .allow

theorem load_known (record : SeccompData) (offset : Word) (fine : loadable offset = true) :
    ∃ word, load record offset = some word := by
  have small : offset.toNat / 4 < (words record).length := by
    have bound : offset.toNat < 64 := of_decide_eq_true (Bool.and_eq_true_iff.mp fine).2
    change offset.toNat / 4 < 16
    omega
  exact ⟨_, (if_pos fine).trans (List.getElem?_eq_getElem small)⟩

theorem filters_return (record : SeccompData) :
    (∃ verdict, evaluate denyOpen (load record) = some verdict) ∧
      ∃ verdict, evaluate controlOpen (load record) = some verdict := by
  have known := load_known record
  exact ⟨checked_returns denyOpen (load record) loadable (by decide) known,
    checked_returns controlOpen (load record) loadable (by decide) known⟩

section Begin

variable (tail : List Instruction) (record : SeccompData)

theorem begin_jump : evaluate (untilOpen ++ tail) (load record) =
    run (untilOpen ++ tail) (load record) (tail.length + 4)
      ⟨2 + if record.arch = AUDIT_ARCH_X86_64 then 1 else 0, record.arch⟩ := by
  have length : (untilOpen ++ tail).length = tail.length + 6 := by
    rw [List.length_append, Nat.add_comm]
    rfl
  rw [evaluate, length, run_load _ _ (tail.length + 5) 0 0 offsetof_arch record.arch rfl rfl,
    run_jump _ _ (tail.length + 4) 1 record.arch AUDIT_ARCH_X86_64 .eq 1 0 rfl]
  simp [Test.holds]

theorem foreign_killed (foreign : record.arch ≠ AUDIT_ARCH_X86_64) :
    evaluate (untilOpen ++ tail) (load record) = some SECCOMP_RET_KILL := by
  rw [begin_jump, if_neg foreign]
  exact run_ret _ _ (tail.length + 3) 2 record.arch SECCOMP_RET_KILL rfl

theorem number_jump (native : record.arch = AUDIT_ARCH_X86_64) :
    evaluate (untilOpen ++ tail) (load record) =
      run (untilOpen ++ tail) (load record) (tail.length + 2)
        ⟨5 + if record.nr = NR_open then 1 else 0, record.nr⟩ := by
  rw [begin_jump, if_pos native,
    run_load _ _ (tail.length + 3) 3 record.arch offsetof_nr record.nr rfl rfl,
    run_jump _ _ (tail.length + 2) 4 record.nr NR_open .eq 1 0 rfl]
  simp [Test.holds]

theorem others_allowed (native : record.arch = AUDIT_ARCH_X86_64) (other : record.nr ≠ NR_open) :
    evaluate (untilOpen ++ tail) (load record) = some SECCOMP_RET_ALLOW := by
  rw [number_jump tail record native, if_neg other]
  exact run_ret _ _ (tail.length + 1) 5 record.nr SECCOMP_RET_ALLOW rfl

theorem open_reached (native : record.arch = AUDIT_ARCH_X86_64) (call : record.nr = NR_open) :
    evaluate (untilOpen ++ tail) (load record) =
      run (untilOpen ++ tail) (load record) (tail.length + 2) ⟨6, record.nr⟩ := by
  rw [number_jump tail record native, if_pos call]

end Begin

theorem deny_open (record : SeccompData) (native : record.arch = AUDIT_ARCH_X86_64)
    (call : record.nr = NR_open) : decision denyOpen record = some .kill := by
  have killed : evaluate denyOpen (load record) = some SECCOMP_RET_KILL := by
    rw [denyOpen, open_reached _ record native call]
    exact run_ret _ _ 2 6 record.nr SECCOMP_RET_KILL rfl
  rw [decision, killed]
  decide

theorem control_open (record : SeccompData) (native : record.arch = AUDIT_ARCH_X86_64)
    (call : record.nr = NR_open) : decision controlOpen record = some (judged (flags record)) := by
  have started : evaluate controlOpen (load record) =
      run controlOpen (load record) 6 ⟨8 + if flags record &&& O_CREAT ≠ 0 then 0 else 1,
        flags record⟩ := by
    have reached : evaluate controlOpen (load record) =
        run controlOpen (load record) 8 ⟨6, record.nr⟩ :=
      open_reached _ record native call
    rw [reached, run_load controlOpen (load record) 7 6 record.nr offsetof_args1
        (flags record) rfl rfl,
      run_jump controlOpen (load record) 6 7 (flags record) O_CREAT .set 0 1 rfl]
    simp [Test.holds]
  rw [decision, started, judged]
  by_cases creates : flags record &&& O_CREAT ≠ 0
  · rw [if_pos creates, if_pos creates, run_ret _ _ 5 8 (flags record) SECCOMP_RET_KILL rfl]
    decide
  · rw [if_neg creates, if_neg creates,
        run_jump _ _ 5 9 (flags record) (O_WRONLY ||| O_RDWR) .set 0 1 rfl]
    by_cases writes : flags record &&& (O_WRONLY ||| O_RDWR) ≠ 0
    · have taken : Test.set.holds (flags record) (O_WRONLY ||| O_RDWR) = true :=
        decide_eq_true writes
      rw [if_pos taken, if_pos writes, run_ret _ _ 4 10 (flags record) _ rfl]
      decide
    · have passed : ¬ Test.set.holds (flags record) (O_WRONLY ||| O_RDWR) = true := by
        simpa [Test.holds] using writes
      rw [if_neg passed, if_neg writes, run_ret _ _ 4 11 (flags record) _ rfl]
      decide

theorem decision_foreign (tail : List Instruction) (record : SeccompData)
    (foreign : record.arch ≠ AUDIT_ARCH_X86_64) :
    decision (untilOpen ++ tail) record = some .kill := by
  rw [decision, foreign_killed tail record foreign]
  decide

theorem decision_other (tail : List Instruction) (record : SeccompData)
    (native : record.arch = AUDIT_ARCH_X86_64) (other : record.nr ≠ NR_open) :
    decision (untilOpen ++ tail) record = some .allow := by
  rw [decision, others_allowed tail record native other]
  decide

/-- Flags that neither create a file nor ask for write access. -/
def ReadOnly (record : SeccompData) : Prop :=
  flags record &&& O_CREAT = 0 ∧ flags record &&& (O_WRONLY ||| O_RDWR) = 0

theorem judged_allow (record : SeccompData) :
    judged (flags record) = .allow ↔ ReadOnly record := by
  unfold judged ReadOnly
  split
  · next creates => exact ⟨fun bad => (by cases bad), fun both => absurd both.1 creates⟩
  · next keeps =>
      split
      · next writes => exact ⟨fun bad => (by cases bad), fun both => absurd both.2 writes⟩
      · next reads => exact ⟨fun _ => ⟨not_not.mp keeps, not_not.mp reads⟩, fun _ => rfl⟩

theorem deny_exact_iff (record : SeccompData) :
    decision denyOpen record = some (denied record) ↔ ¬ X32Open record := by
  by_cases native : record.arch = AUDIT_ARCH_X86_64
  · by_cases call : record.nr = NR_open
    · have plain : ¬ X32Open record := fun x32 => absurd (call.symm.trans x32.2) (by decide)
      simp [deny_open record native call, denied, native, Opens, call, plain]
    · have allowed : decision denyOpen record = some .allow := decision_other _ record native call
      by_cases x32 : X32Open record
      · simp [allowed, denied, native, Opens, x32]
      · simp [allowed, denied, native, Opens, call, x32]
  · have killed : decision denyOpen record = some .kill := decision_foreign _ record native
    simp [killed, denied, native, X32Open]

theorem control_exact_iff (record : SeccompData) :
    decision controlOpen record = some (controlled record) ↔ ¬ X32Open record ∨
      ReadOnly record := by
  by_cases native : record.arch = AUDIT_ARCH_X86_64
  · by_cases call : record.nr = NR_open
    · have plain : ¬ X32Open record := fun x32 => absurd (call.symm.trans x32.2) (by decide)
      simp [control_open record native call, controlled, native, Opens, call, plain]
    · have allowed : decision controlOpen record = some .allow :=
        decision_other _ record native call
      by_cases x32 : X32Open record
      · simp [allowed, controlled, native, Opens, x32, ← judged_allow, eq_comm]
      · simp [allowed, controlled, native, Opens, call, x32]
  · have killed : decision controlOpen record = some .kill := decision_foreign _ record native
    simp [killed, controlled, native, X32Open]

/-- Every evaluation returns and foreign calls are killed; the filters judge every call rightly but
the open(2) of the x32 interface, which they do not know. -/
theorem open_filtered_iff (record : SeccompData) :
    ((∃ verdict, evaluate denyOpen (load record) = some verdict) ∧
      ∃ verdict, evaluate controlOpen (load record) = some verdict) ∧
    (record.arch ≠ AUDIT_ARCH_X86_64 →
      decision denyOpen record = some .kill ∧ decision controlOpen record = some .kill) ∧
    (decision denyOpen record = some (denied record) ↔ ¬ X32Open record) ∧
    (decision controlOpen record = some (controlled record) ↔ ¬ X32Open record ∨
      ReadOnly record) := by
  refine ⟨filters_return record, ?_, deny_exact_iff record, control_exact_iff record⟩
  intro foreign
  exact ⟨decision_foreign _ record foreign, decision_foreign _ record foreign⟩

-- open("...", O_CREAT | O_RDWR, 0600) with the number 0x40000002: both filters allow it.
theorem x32_open_passes :
    (¬ ∀ record : SeccompData, decision denyOpen record = some (denied record)) ∧
      ¬ ∀ record : SeccompData, decision controlOpen record = some (controlled record) := by
  let record : SeccompData := ⟨NR_open ||| X32_SYSCALL_BIT, AUDIT_ARCH_X86_64, 0,
    fun position => if position = 1 then 0x42 else if position = 2 then 0x180 else 0⟩
  constructor
  · intro claimed
    exact absurd (claimed record) (by decide)
  · intro claimed
    exact absurd (claimed record) (by decide)

end Tlpi.OpenFilters
